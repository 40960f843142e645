import ProjectSY.Fleet.Service

/-!
# A user nobody is signed in as

Every change is one of the user who is signed in, so a service in which nobody signs in as
`u` can do two things to `u` only: nothing, or take a code away (the code a device
remembers, or draws, may happen to be a code of `u`).  One device at a time
(`apart_device`), this holds of the service, and so of the fleet.
-/

namespace ProjectSY

namespace Directory

/-- The change is about the user, or gives a code to it. -/
def Change.About (u : String) : Change → Prop
  | .setProfile uid _ => uid = u
  | .release _ => False
  | .register _ uid => uid = u
  | .point uid _ => uid = u

/-- `u` is in the directory what it is in `D`, but for the codes it may have lost. -/
structure Same (u : String) (D E : Directory) : Prop where
  profile : E.profile u = D.profile u
  code : E.code u = D.code u
  picture : E.picture u = D.picture u
  sender : ∀ c, E.sender c = some u → D.sender c = some u

/-- A change that is not about `u` takes nothing from `u` but codes. -/
theorem same_apply (u : String) (D E : Directory) (change : Change) (h : Same u D E)
    (hc : ¬ change.About u) : Same u D (E.apply change) := by
  cases change with
  | setProfile uid p =>
    exact
      { profile := (Function.update_of_ne (fun e => hc e.symm) _ _).trans h.profile
        code := (Function.update_of_ne (fun e => hc e.symm) _ _).trans h.code
        picture := h.picture
        sender := h.sender }
  | release code =>
    refine ⟨h.profile, h.code, h.picture, fun c hsender => h.sender c ?_⟩
    have hsender' : Function.update E.sender code none c = some u := hsender
    rw [Function.update_apply] at hsender'
    split at hsender'
    · cases hsender'
    · exact hsender'
  | register code uid =>
    refine ⟨h.profile, h.code, h.picture, fun c hsender => h.sender c ?_⟩
    have hsender' : Function.update E.sender code (some uid) c = some u := hsender
    rw [Function.update_apply] at hsender'
    split at hsender'
    · exact absurd (Option.some.inj hsender') hc
    · exact hsender'
  | point uid code =>
    exact
      { profile := h.profile
        code := (Function.update_of_ne (fun e => hc e.symm) _ _).trans h.code
        picture := h.picture
        sender := h.sender }

theorem same_setPicture (u uid : String) (D E : Directory) (jpeg : Data) (h : Same u D E)
    (hu : uid ≠ u) : Same u D (E.setPicture uid jpeg) :=
  ⟨h.profile, h.code, (Function.update_of_ne hu.symm _ _).trans h.picture, h.sender⟩

end Directory

/-! ## The service -/

/-- Nobody is signed in as `u` on the device, or will be after a launch, and it has
nothing of `u` to send. -/
structure Service.Device.Apart (u : String) (d : Service.Device) : Prop where
  uid : d.uid ≠ some u
  stored : d.stored ≠ some u
  pending : ∀ account, ∀ change ∈ d.pending account, ¬ change.About u
  pictures : ∀ jpeg, some (u, jpeg) ∉ d.pictures

theorem Service.Device.Apart.update {u : String} {d : Service.Device} (h : d.Apart u)
    {queue : List Directory.Change} (hqueue : ∀ change ∈ queue, ¬ change.About u)
    (account : Option String) :
    ∀ change ∈ Function.update d.pending d.account queue account, ¬ change.About u := by
  intro change hm
  rw [Function.update_apply] at hm
  split at hm
  · exact hqueue change hm
  · exact h.pending account change hm

theorem Service.Device.Apart.issue {u : String} {d : Service.Device} (h : d.Apart u)
    (changes : List Directory.Change) (hc : ∀ change ∈ changes, ¬ change.About u)
    (account : Option String) :
    ∀ change ∈ (d.issue changes).pending account, ¬ change.About u := by
  refine h.update (fun change hm => ?_) account
  rcases List.mem_append.1 hm with hold | hnew
  · exact h.pending d.account change hold
  · exact hc change hnew

/-- What a device asks for its user is about nobody else. -/
theorem codeChanges_about (d : Service.Device) (u uid code : String) (hu : uid ≠ u) :
    ∀ change ∈ d.codeChanges uid code, ¬ change.About u := by
  intro change hm
  rcases List.mem_append.1 hm with hm | hm
  · cases hc : d.code with
    | none => rw [hc] at hm; cases hm
    | some last =>
      rw [hc] at hm
      rw [List.mem_singleton.1 hm]
      exact fun h => h.elim
  · rcases List.mem_cons.1 hm with rfl | hm
    · exact hu
    · rw [List.mem_singleton.1 hm]
      exact hu

theorem apart_device (u : String) (D E E' : Directory) (d d' : Service.Device) (e : Service.Event)
    (h : d.Apart u) (hD : Directory.Same u D E) (he : e ≠ .signIn u)
    (hs : d.step E e = some (E', d')) : d'.Apart u ∧ Directory.Same u D E' := by
  cases e with
  | launch =>
    cases hs
    exact ⟨⟨fun hu => (Option.some_ne_none u hu.symm).elim, h.stored, h.pending,
      fun _ => List.not_mem_nil⟩, hD⟩
  | restore =>
    cases hs
    exact ⟨⟨h.stored, h.stored, h.pending, h.pictures⟩, hD⟩
  | signIn uid =>
    cases hs
    have hu : some uid ≠ some u := fun hu => he (by rw [Option.some.inj hu])
    exact ⟨⟨hu, hu, h.pending, h.pictures⟩, hD⟩
  | signOut ok =>
    cases hs
    have hu : none ≠ some u := fun hu => (Option.some_ne_none u hu.symm).elim
    exact ⟨⟨hu, hu, h.pending, h.pictures⟩, hD⟩
  | remember code =>
    cases hs
    exact ⟨⟨h.uid, h.stored, h.pending, h.pictures⟩, hD⟩
  | save p jpeg =>
    unfold Service.Device.step at hs
    cases huid : d.uid with
    | none =>
      simp only [huid] at hs
      cases hs
      exact ⟨h, hD⟩
    | some uid =>
      simp only [huid] at hs
      cases hs
      have hu : uid ≠ u := fun hu => h.uid (by rw [huid, hu])
      refine ⟨⟨h.uid, h.stored, h.issue _ fun change hm => ?_, fun jpeg' hm => ?_⟩, hD⟩
      · rw [List.mem_singleton.1 hm]
        exact hu
      · rcases List.mem_append.1 hm with hold | hnew
        · exact h.pictures jpeg' hold
        · cases List.mem_singleton.1 hnew
          exact hu rfl
  | takeCode code =>
    unfold Service.Device.step at hs
    cases huid : d.uid with
    | none => simp only [huid] at hs; cases hs
    | some uid =>
      simp only [huid] at hs
      cases hs
      have hu : uid ≠ u := fun hu => h.uid (by rw [huid, hu])
      exact ⟨⟨h.uid, h.stored, h.issue _ (codeChanges_about d u uid code hu), h.pictures⟩, hD⟩
  | arrive ok =>
    unfold Service.Device.step at hs
    cases hp : d.pending d.account with
    | nil => simp only [hp] at hs; cases hs
    | cons change rest =>
      simp only [hp] at hs
      cases hs
      have hmem := h.pending d.account
      rw [hp] at hmem
      have hrest := h.update fun c hc => hmem c (List.mem_cons_of_mem change hc)
      refine ⟨⟨h.uid, h.stored, hrest, h.pictures⟩, ?_⟩
      cases ok with
      | false => exact hD
      | true => exact Directory.same_apply u D E change hD (hmem change List.mem_cons_self)
  | uploaded task ok =>
    unfold Service.Device.step at hs
    rcases hpicture : d.pictures[task]? with _ | _ | ⟨uid, jpeg⟩
    · simp only [hpicture] at hs
      cases hs
    · simp only [hpicture] at hs
      cases hs
    · simp only [hpicture] at hs
      cases hs
      have hu : uid ≠ u := fun hu => h.pictures jpeg (hu ▸ List.mem_of_getElem? hpicture)
      refine ⟨⟨h.uid, h.stored, h.pending, fun jpeg' hm => ?_⟩, ?_⟩
      · rcases List.mem_or_eq_of_mem_set hm with hold | hnew
        · exact h.pictures jpeg' hold
        · cases hnew
      · cases ok with
        | false => exact hD
        | true => exact Directory.same_setPicture u uid D E jpeg hD hu

variable {ι : Type*}

structure Service.Apart (u : String) (D : Directory) (S : Service ι) : Prop where
  device : ∀ i, (S.device i).Apart u
  directory : Directory.Same u D S.directory

theorem apart_start (u : String) (D : Directory) (account : ι → Option String) :
    Service.Apart u D (Service.start D account) := by
  have hu : none ≠ some u := fun hu => (Option.some_ne_none u hu.symm).elim
  exact ⟨fun _ => ⟨hu, hu, fun _ _ => fun h => absurd h List.not_mem_nil, fun _ => List.not_mem_nil⟩,
    ⟨rfl, rfl, rfl, fun _ h => h⟩⟩

variable [DecidableEq ι]

theorem apart_step (u : String) (D : Directory) (S : Service ι) (a : ι × Service.Event)
    (S' : Service ι) (h : Service.Apart u D S) (ha : a.2 ≠ .signIn u)
    (hs : Service.step S a = some S') : Service.Apart u D S' := by
  obtain ⟨i, e⟩ := a
  obtain ⟨E, d, hd, rfl⟩ := (Service.step_eq_some S S' i e).1 hs
  obtain ⟨hdevice, hE⟩ := apart_device u D S.directory E (S.device i) d e (h.device i) h.directory
    ha hd
  refine ⟨fun j => ?_, hE⟩
  show (Function.update S.device i d j).Apart u
  rw [Function.update_apply]
  split
  · exact hdevice
  · exact h.device j

/-! ## The fleet -/

/-- Only a completed sign-in as `u` is one in the service. -/
theorem label_signIn (e : Event) (u : String) (h : e.label = some (.signIn u)) :
    ∃ controller, e = .authSignIn u controller true := by
  cases e with
  | authSignIn uid controller ok =>
    cases ok with
    | false => cases h
    | true => cases h; exact ⟨controller, rfl⟩
  | documentSnapshot uid result => cases result <;> cases h
  | finishWritingProfile form =>
    obtain ⟨jpeg, -, hl⟩ := Option.map_eq_some_iff.1 h
    cases hl
  | _ => cases h

/-- **A user nobody signs in as is left alone.**  Fresh installs around a server that
holds a directory: along every run in which no sign-in as `u` completes, on any device
and whatever fails, the document and the picture of `u` stay what they are, and no code
comes to name `u` that did not. -/
theorem stranger_left_alone (u : String) (server : Server) (D : Directory)
    (hD : Represents server D) (s s' : ι → World) (es : List (ι × Event))
    (h : Fleet.FirstLaunch server s) (hr : Runs.run Fleet.step s es = some s')
    (hes : ∀ a ∈ es, ∀ controller, a.2 ≠ .authSignIn u controller true) (i : ι) :
    (s' i).server.doc "users" u = server.doc "users" u ∧
    (s' i).server.objects.lookup (picturePath u) = server.objects.lookup (picturePath u) ∧
    ∀ c, (s' i).server.sender c = some u → server.sender c = some u := by
  obtain ⟨S, hrun, hS⟩ := realizes_run server D hD s s' es h hr
  have hapart : Service.Apart u D S := by
    refine Runs.run_of_meets Service.step (Service.Apart u D) (fun _ a => a.2 ≠ .signIn u)
      (apart_step u D) _ S _ (apart_start u D _) ?_ hrun
    refine Runs.meets_of_forall _ (fun a : ι × Service.Event => a.2 ≠ .signIn u) _ _ fun a ha hu => ?_
    obtain ⟨⟨j, e⟩, he, hlabel⟩ := List.mem_filterMap.1 ha
    obtain ⟨l, hl, rfl⟩ := Option.map_eq_some_iff.1 hlabel
    obtain ⟨controller, rfl⟩ := label_signIn e u (hl.trans (congrArg some hu))
    exact hes _ he controller rfl
  have hsame := hapart.directory
  have hS' := hS.server i
  refine ⟨?_, ?_, fun c hc => ?_⟩
  · show (s' i).server.documents.doc "users" u = server.documents.doc "users" u
    rw [hS'.documents.users u, hD.documents.users u, hsame.profile, hsame.code]
  · rw [hS'.picture u, hD.picture u, hsame.picture]
  · have hc' : (s' i).server.documents.sender c = some u := hc
    rw [sender_of_documents _ _ hS'.documents] at hc'
    show server.documents.sender c = some u
    rw [sender_of_documents _ _ hD.documents]
    exact hsame.sender c hc'

/-- `B` saves a profile and takes a code on one device, while `C` signs in on another. -/
def twoStrangers : List (Bool × Event) :=
  [(true, .goToNextStorybaord), (false, .goToNextStorybaord)] ++
  (signInAs "B" 1).map (true, ·) ++ (signInAs "C" 1).map (false, ·) ++
  [(true, .finishWritingProfile (formOfA "hi")), (true, .getConnectionCode 7)] ++
  [(true, .uploadDone 0 true)] ++ List.replicate 3 (true, .writeDone true)

theorem stranger_left_alone_twoStrangers :
    ∃ s', Runs.run Fleet.step (fun _ => newDevice serverWithA) twoStrangers = some s' ∧
      (s' true).server.sender "000007" = some "B" ∧
      (s' true).server.doc "users" "A" = some profileOfA := by
  have hrun : (Runs.run Fleet.step (fun _ : Bool => newDevice serverWithA) twoStrangers).any
      (fun s => decide ((s true).server.sender "000007" = some "B")) = true := by
    decide +kernel
  obtain ⟨s', hs', hend⟩ := (Option.any_eq_true _ _).1 hrun
  obtain ⟨hdoc, -, -⟩ := stranger_left_alone "A" serverWithA _ represents_serverWithA _ s'
    twoStrangers (Fleet.firstLaunch_newDevices serverWithA) hs' (by simp [twoStrangers, signInAs]) true
  exact ⟨s', hs', of_decide_eq_true hend, hdoc⟩

end ProjectSY
