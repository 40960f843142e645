import ProjectSY.Session.Relaunch
import ProjectSY.Store.Writes

/-!
# No partial profile on the server

A document of `users` is complete when it has the four fields of a profile.  A
saved profile is complete; the merge of a code creates the document when it is
absent, and then it is not.  So completeness rests on who can be on the connection
screen.

    ProfileBehind   a sign-in completes with no data in memory, or for an account
                    whose profile exists
    ProfileKept     whoever is on the connection screen, and whoever could come
                    back to it after a relaunch, has a profile

`checkProfile` takes data in memory for the profile of whoever signs in, so
`ProfileBehind` can fail, and with it completeness (`partial_profile`).  A run that
meets it keeps every document complete (`complete_of_profileBehind`).
-/

namespace ProjectSY

/-- A document, if it is there, has the four fields of a profile. -/
def CompleteDoc (document : Option Dict) : Prop :=
  ∀ d, document = some d → ∀ key ∈ profileFields, key ∈ d

/-- Every document of `users` has the four fields of a profile. -/
def Complete (c : Collections) : Prop := ∀ uid, CompleteDoc (c.doc "users" uid)

/-- What a sign-in has to meet: the data `checkProfile` will find is not there, or
the account has a profile. -/
def ProfileBehind (w : World) : Action → Prop
  | .signedIn uid => w.user.userData = none ∨ (w.settledAs (some uid)).doc "users" uid ≠ none
  | _ => True

instance (w : World) (a : Action) : Decidable (ProfileBehind w a) :=
  match a with
  | .signedIn _ => inferInstanceAs (Decidable (_ ∨ _))
  | .quiet | .launched | .restored | .saved _ _ _ | .fetched _ _ | .requested _ | .signedOut =>
    inferInstanceAs (Decidable True)

/-! ## The writes keep documents complete -/

theorem completeDoc_profileWrites (u uid : String) (s : Collections) (form : ProfileForm)
    (h : CompleteDoc (s.doc "users" u)) :
    Outbox.Throughout Collections.apply (fun c => CompleteDoc (c.doc "users" u)) s
      (profileWrites uid form.profile) := by
  refine Outbox.throughout_of_keeps Collections.apply _ s _ (fun w hw s hs => ?_) h
  unfold profileWrites at hw
  rw [List.mem_singleton.1 hw]
  intro d hd key hkey
  rw [AppDB.addData, Collections.doc_setData] at hd
  split at hd
  · cases hd
    exact (mem_profileData _ _ _ _ key).2 hkey
  · exact hs d hd key hkey

/-- Merging a code keeps the document complete when there is one. -/
theorem completeDoc_codeWrites (s : Collections) (user : User) (uid code : String)
    (h : CompleteDoc (s.doc "users" uid)) (hu : s.doc "users" uid ≠ none) :
    Outbox.Throughout Collections.apply (fun c => CompleteDoc (c.doc "users" uid)) s
      (codeWrites user uid code) := by
  have hboth : Outbox.Throughout Collections.apply
      (fun c => CompleteDoc (c.doc "users" uid) ∧ c.doc "users" uid ≠ none) s
      (codeWrites user uid code) := by
    refine Outbox.throughout_of_keeps Collections.apply _ s _ (fun w hw s hs => ?_) ⟨h, hu⟩
    obtain ⟨hc, hex⟩ := hs
    have hother : w.target ≠ ("users", uid) →
        CompleteDoc ((s.apply w).doc "users" uid) ∧ (s.apply w).doc "users" uid ≠ none := by
      intro hne
      rw [s.doc_apply_of_ne w "users" uid hne]
      exact ⟨hc, hex⟩
    rcases (mem_codeWrites user uid code w).1 hw with ⟨last, -, rfl⟩ | rfl | rfl
    · exact hother fun hx => users_ne_connection uid last hx.symm
    · exact hother fun hx => users_ne_connection uid code hx.symm
    · obtain ⟨d0, hd0⟩ := Option.ne_none_iff_exists'.1 hex
      rw [Collections.doc_mergeData, if_pos rfl, hd0]
      refine ⟨fun d hd key hkey => ?_, Option.some_ne_none _⟩
      cases hd
      rw [Option.getD_some, Finmap.mem_union]
      exact Or.inr (hc d0 hd0 key hkey)
  exact hboth.mono Collections.apply fun _ h => h.1

/-! ## Who has a profile -/

structure ProfileKept (w : World) : Prop where
  /-- Whoever is on the connection screen has a profile. -/
  screen : frontmostController w.screens = some .makeNewConnect →
    ∀ uid, w.user.userIdToken = some uid → (w.settledAs (some uid)).doc "users" uid ≠ none
  /-- So has whoever the disk would bring back to it. -/
  disk : w.defaults.dictionary "userData" ≠ none →
    ∀ uid, w.defaults.string "userIdToken" = some uid →
      (w.settledAs (some uid)).doc "users" uid ≠ none
  /-- Once the button of `Start` was tapped, data on the disk is in memory as well. -/
  memory : w.defaults.dictionary "userData" ≠ none → w.shows .start ∨ w.user.userData ≠ none
  complete : ∀ uid, Outbox.Throughout Collections.apply (fun c => CompleteDoc (c.doc "users" uid))
    w.server.documents (w.queue (some uid))

/-- What holds in every run from a fresh install, the queues included. -/
structure Sending (w : World) : Prop where
  ready : Ready w
  own : OwnWrites w

/-- The documents of `users` that exist go on existing. -/
theorem users_kept_step (w : World) (e : Event) (w' : World) (hr : Sending w)
    (he : e ≠ .writeDone false) (hs : step w e = some w') (x : String)
    (h : (w.settledAs (some x)).doc "users" x ≠ none) :
    (w'.settledAs (some x)).doc "users" x ≠ none := by
  rw [users_settledAs_step w w' e hr.ready.stored hr.own hs he]
  exact (e.action w).users_kept w.user _ x h

theorem saved_exists (w : World) (e : Event) (w' : World) (hr : Sending w)
    (he : e ≠ .writeDone false) (hs : step w e = some w') (uid : String) (jpeg : Data)
    (data : Dict) (ha : e.action w = .saved uid jpeg data) :
    (w'.settledAs (some uid)).doc "users" uid ≠ none := by
  rw [users_settledAs_step w w' e hr.ready.stored hr.own hs he, ha]
  show ((w.settledAs (some uid)).settle (profileWrites uid data)).doc "users" uid ≠ none
  rw [users_settle_profileWrites, if_pos rfl]
  exact Option.some_ne_none data

theorem profileKept_screen (w : World) (e : Event) (w' : World) (hsend : Sending w)
    (h : ProfileKept w) (hK : ProfileBehind w (e.action w)) (he : e ≠ .writeDone false)
    (hs : step w e = some w') (hm : frontmostController w'.screens = some .makeNewConnect) :
    ∀ uid, w'.user.userIdToken = some uid → (w'.settledAs (some uid)).doc "users" uid ≠ none := by
  have hr := hsend.ready
  have hg := step_guard w w' e hs
  have hkeep := users_kept_step w e w' hsend he hs
  intro uid huid
  have htoken : ((e.action w).memory w.memory w.disk).token = some uid := by
    rw [← step_memory w w' e hr.nav hs]
    exact huid
  rcases (step_moved w w' e hs).enters hr.nav.stacked hm with hen | ⟨hm0, hd⟩
  · -- the action brings the screen up
    cases ha : e.action w with
    | restored =>
      rw [ha] at hen hg htoken
      obtain ⟨-, hdata⟩ := searchUserFromKeychain_noUserConnection w.user w.defaults hen
      have hload := searchUserFromKeychain_restored w
      rw [← (hr.nav.start hg).1] at hload
      have hne : w.disk.restored.data ≠ none := by
        rw [← hload]
        exact hdata
      obtain ⟨ht, hd⟩ := w.disk.restored_data hne
      exact hkeep uid (h.disk hd uid (ht.symm.trans htoken))
    | signedIn uid' =>
      rw [ha] at hen hK htoken
      cases htoken
      rcases hK with hnone | hex
      · exact absurd hnone hen
      · exact hkeep uid hex
    | saved uid' jpeg data =>
      rw [ha] at hg htoken
      have huu : uid' = uid := Option.some.inj (hg.2.1.symm.trans htoken)
      rw [← huu]
      exact saved_exists w e w' hsend he hs uid' jpeg data ha
    | _ => rw [ha] at hen; exact hen.elim
  · -- the screen was up, and perhaps somebody else signed in
    cases ha : e.action w with
    | signedIn uid' =>
      rw [ha] at hK htoken
      cases htoken
      rcases hK with hnone | hex
      · exact absurd hnone (hr.nav.ready hm0).2
      · exact hkeep uid hex
    | restored =>
      rw [ha] at hg
      have hready := (hr.nav.ready hm0).1
      rw [(hr.nav.start hg).1] at hready
      exact absurd rfl hready
    | launched => rw [ha] at hd; cases hd
    | signedOut => rw [ha] at hd; cases hd
    | _ => rw [ha] at htoken; exact hkeep uid (h.screen hm0 uid htoken)

theorem profileKept_disk (w : World) (e : Event) (w' : World) (hsend : Sending w)
    (h : ProfileKept w) (hK : ProfileBehind w (e.action w)) (he : e ≠ .writeDone false)
    (hs : step w e = some w') (hne : w'.disk.data ≠ none) :
    ∀ uid, w'.disk.token = some uid → (w'.settledAs (some uid)).doc "users" uid ≠ none := by
  have hr := hsend.ready
  have hg := step_guard w w' e hs
  have hkeep := users_kept_step w e w' hsend he hs
  rw [step_disk w w' e hr.stored.own hs] at hne ⊢
  intro uid huid
  cases ha : e.action w with
  | signedIn uid' =>
    rw [ha] at hne huid hK hg
    cases huid
    obtain ⟨controller, hc⟩ := hg
    rcases hK with hnone | hex
    · rcases h.memory hne with hst | hmem
      · exact absurd hst (hr.nav.not_start hc)
      · exact absurd hnone hmem
    · exact hkeep uid hex
  | saved uid' jpeg data =>
    rw [ha] at huid hg
    have huu : some uid' = some uid := (hr.stored.token uid' hg.2.1).symm.trans huid
    cases huu
    exact saved_exists w e w' hsend he hs uid jpeg data ha
  | signedOut => rw [ha] at hne; exact absurd rfl hne
  | _ => rw [ha] at hne huid; exact hkeep uid (h.disk hne uid huid)

theorem profileKept_memory (w : World) (e : Event) (w' : World) (hr : Ready w)
    (h : ProfileKept w) (hs : step w e = some w') (hne : w'.disk.data ≠ none) :
    w'.shows .start ∨ w'.memory.data ≠ none := by
  have hg := step_guard w w' e hs
  have hmemory := step_memory w w' e hr.nav hs
  rw [step_disk w w' e hr.stored.own hs] at hne
  by_cases hst : w.shows .start
  · obtain ⟨-, hc⟩ := hr.nav.start hst
    rcases step_at_start w w' e hs hst hc with rfl | rfl | ⟨-, -, hscr⟩
    · right
      rw [hmemory]
      show w.disk.restored.data ≠ none
      rw [w.disk.restored_of_token (hr.saved.token hne)]
      exact hne
    · left
      obtain ⟨-, rfl⟩ := (step_eq_some w w' _).1 hs
      rfl
    · left
      unfold World.shows
      rw [hscr]
      exact hst
  · have hmem : w.disk.data ≠ none → w.memory.data ≠ none :=
      fun hdic => (h.memory hdic).resolve_left hst
    rw [hmemory]
    cases ha : e.action w with
    | launched =>
      left
      rw [action_eq_launched w e ha] at hs
      obtain ⟨-, rfl⟩ := (step_eq_some w w' _).1 hs
      rfl
    | restored => rw [ha] at hg; exact absurd hg hst
    | fetched uid d => exact Or.inr (Option.some_ne_none d)
    | saved uid jpeg data => exact Or.inr (Option.some_ne_none data)
    | requested n => exact Or.inr (Option.some_ne_none _)
    | signedOut => rw [ha] at hne; exact absurd rfl hne
    | quiet => rw [ha] at hne; exact Or.inr (hmem hne)
    | signedIn uid => rw [ha] at hne; exact Or.inr (hmem hne)

theorem profileKept_complete (w : World) (e : Event) (w' : World) (hsend : Sending w)
    (h : ProfileKept w) (he : e ≠ .writeDone false) (hs : step w e = some w') (uid : String) :
    Outbox.Throughout Collections.apply (fun c => CompleteDoc (c.doc "users" uid))
      w'.server.documents (w'.queue (some uid)) := by
  have hg := step_guard w w' e hs
  have hst := hsend.ready.stored
  have hnow : CompleteDoc ((w.settledAs (some uid)).doc "users" uid) :=
    h.complete uid (w.queue (some uid)) (List.prefix_refl _)
  refine step_throughout CompleteDoc w w' e hsend.own hs he uid (h.complete uid) fun hcurrent => ?_
  have hnil : Outbox.Throughout Collections.apply (fun c => CompleteDoc (c.doc "users" uid))
      (w.settledAs (some uid)) [] :=
    Outbox.throughout_nil Collections.apply _ _ hnow
  cases ha : e.action w with
  | saved uid' jpeg data =>
    rw [ha] at hg
    obtain ⟨-, -, form, rfl⟩ := hg
    exact completeDoc_profileWrites uid uid' _ form hnow
  | requested n =>
    rw [ha] at hg
    have hfront := frontmostController_of_head w.screens _ hg (by simp) (by simp)
    obtain ⟨uid', ht⟩ := Option.ne_none_iff_exists'.1 (hst.nav.ready hfront).1
    obtain rfl : uid' = uid := Option.some.inj ((hst.signedIn uid' ht).symm.trans hcurrent)
    show Outbox.Throughout Collections.apply _ (w.settledAs (some uid'))
      (getConnectionCode w.user n).1
    rw [getConnectionCode_writes w.user n uid' ht]
    exact completeDoc_codeWrites _ w.user uid' _ hnow (h.screen hfront uid' ht)
  | _ => exact hnil

theorem profileKept_step (w : World) (e : Event) (w' : World) (hsend : Sending w)
    (h : ProfileKept w) (hK : ProfileBehind w (e.action w)) (he : e ≠ .writeDone false)
    (hs : step w e = some w') : ProfileKept w' :=
  ⟨profileKept_screen w e w' hsend h hK he hs, profileKept_disk w e w' hsend h hK he hs,
    profileKept_memory w e w' hsend.ready h hs, profileKept_complete w e w' hsend h he hs⟩

theorem sending_step (w : World) (e : Event) (w' : World) (h : Sending w)
    (hs : step w e = some w') : Sending w' :=
  ⟨ready_step w e w' h.ready hs, ownWrites_step w e w' h.ready.stored h.own hs⟩

theorem FirstLaunch.sending {w : World} (h : FirstLaunch w) : Sending w := ⟨h.ready, h.ownWrites⟩

theorem FirstLaunch.profileKept {w : World} (h : FirstLaunch w) (hc : Complete w.server.documents) :
    ProfileKept w := by
  have hnone : w.defaults.dictionary "userData" = none := congrArg Session.data h.disk
  obtain ⟨defaults, currentUser, server, -, rfl⟩ := h
  exact ⟨fun hm => (by cases hm), fun hne => absurd hnone hne, fun hne => absurd hnone hne,
    fun uid => Outbox.throughout_nil Collections.apply _ _ (hc uid)⟩

/-! ## Whole runs -/

/-- **When no profile is partial.**  From a server without partial profiles, along
any run of a device in which no write fails, with any accounts and any order of
the completions: if every sign-in completed with no data in memory or for an
account that has a profile, then every document of `users` has all four fields, in
every state. -/
theorem complete_of_profileBehind (w0 w : World) (es : List Event) (h0 : FirstLaunch w0)
    (hc : Complete w0.server.documents) (hes : ∀ e ∈ es, e ≠ .writeDone false)
    (hK : Runs.Meets step (fun w e => ProfileBehind w (e.action w)) w0 es)
    (hr : Runs.run step w0 es = some w) : Complete w.server.documents := by
  have hboth := Runs.run_of_meets step (fun w => Sending w ∧ ProfileKept w)
    (fun w e => ProfileBehind w (e.action w) ∧ e ≠ .writeDone false)
    (fun s e s' hI hC hs => ⟨sending_step s e s' hI.1 hs,
      profileKept_step s e s' hI.1 hI.2 hC.1 hC.2 hs⟩)
    w0 w es ⟨h0.sending, h0.profileKept hc⟩
    (Runs.meets_and step _ _ w0 es hK (Runs.meets_of_forall step _ w0 es hes)) hr
  exact fun uid => (hboth.2.complete uid).now Collections.apply

/-- After `lateFetch`, `B`, who is new, signs in and asks for a code. -/
def codeWithoutProfile : List Event :=
  lateFetch ++ signInAs "B" 3 ++ [.getConnectionCode 7, .writeDone true, .writeDone true]

theorem complete_serverWithA : Complete serverWithA.documents := by
  intro uid d hd key hkey
  have hd' : (Finmap.singleton ("users", "A") profileOfA :
      Finmap fun _ : String × String => Dict).lookup ("users", uid) = some d := hd
  rw [Records.lookup_singleton_if] at hd'
  split at hd'
  · cases hd'
    exact (mem_profileData _ _ _ _ key).2 hkey
  · cases hd'

/-- A document can come to hold a code and nothing else: `B` is led to the
connection screen by the data of `A`. -/
theorem partial_profile :
    ¬ ∀ (w0 w : World) (es : List Event), FirstLaunch w0 → Complete w0.server.documents →
      (∀ e ∈ es, e ≠ .writeDone false) → Runs.run step w0 es = some w →
      Complete w.server.documents := by
  intro h
  have hbad : (Runs.run step (newDevice serverWithA) codeWithoutProfile).any (fun w =>
      (w.server.doc "users" "B").any fun d => decide ("name" ∉ d)) = true := by
    decide +kernel
  obtain ⟨w, hw, hbad⟩ := (Option.any_eq_true _ _).1 hbad
  obtain ⟨d, hd, hbad⟩ := (Option.any_eq_true _ _).1 hbad
  have hcomplete := h _ w codeWithoutProfile (firstLaunch_newDevice serverWithA)
    complete_serverWithA (by decide) hw
  exact of_decide_eq_true hbad (hcomplete "B" d hd "name" (by decide))

/-- `A`, who is new, signs in, saves a profile and asks for a code. -/
def codeOfNewcomer : List Event :=
  savedByNewcomer ++ [.getConnectionCode 7, .writeDone true, .uploadDone 0 true, .writeDone true,
    .writeDone true]

theorem complete_of_profileBehind_newcomer :
    ∃ w, Runs.run step (newDevice ⟨∅, ∅⟩) codeOfNewcomer = some w ∧
      w.server.doc "users" "A" ≠ none ∧ Complete w.server.documents := by
  have hrun : (Runs.run step (newDevice ⟨∅, ∅⟩) codeOfNewcomer).any
      (fun w => decide (w.server.doc "users" "A" ≠ none)) = true := by
    decide +kernel
  obtain ⟨w, hw, hex⟩ := (Option.any_eq_true _ _).1 hrun
  refine ⟨w, hw, of_decide_eq_true hex, complete_of_profileBehind _ w _
    (firstLaunch_newDevice ⟨∅, ∅⟩) (fun uid d hd => ?_) (by decide) ?_ hw⟩
  · cases hd
  · exact Runs.meets_of_meetsB _ _ _ _ (by decide +kernel)

end ProjectSY
