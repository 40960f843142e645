import ProjectSY.App.Actions

/-!
# Navigation: who can be on the connection screen

`NavInv` holds in every state a launch can lead to, whatever `UserDefaults`
holds, whatever the server holds, and in whatever order the completion handlers
run (`navInv_reachable`).  Its main part: while `makeNewConnect` is frontmost,
or covered by an alert only, somebody is signed in and there is user data.

    three routes into the screen:  Start (stored id and data), SignIn (a completion
                                   that found data), newProfile (a saved profile)
    data is dropped by sign-out only, and sign-out leaves SignIn frontmost

`Moved` says once what a step can do to the stack; the invariant and the other
results about screens are read off it.
-/

namespace ProjectSY

/-! ## The presentation stack -/

/-- `Start` is at the bottom and nowhere else; an alert is on a controller that
presents alerts. -/
def Stacked : List Screen → Prop
  | [] => False
  | [s] => s = .start
  | s :: t :: rest =>
    s ≠ .start ∧ (s = .alert → t.presentsAlerts = true) ∧ (s = .signOutAlert → t = .newProfile) ∧
      Stacked (t :: rest)

/-- The frontmost controller, an alert not counted. -/
def frontmostController : List Screen → Option Screen
  | .alert :: rest => rest.head?
  | .signOutAlert :: rest => rest.head?
  | screens => screens.head?

theorem stacked_push (s t : Screen) (screens : List Screen) (h : Stacked screens)
    (ht : screens.head? = some t) (hs : s ≠ .start)
    (ha : s = .alert → t.presentsAlerts = true) (ho : s = .signOutAlert → t = .newProfile) :
    Stacked (s :: screens) := by
  cases screens with
  | nil => cases ht
  | cons t' rest =>
    cases ht
    exact ⟨hs, ha, ho, h⟩

theorem stacked_tail (s : Screen) (screens : List Screen) (h : Stacked screens)
    (hs : screens.head? = some s) (hne : s ≠ .start) : Stacked screens.tail := by
  cases screens with
  | nil => cases hs
  | cons s' rest =>
    cases hs
    cases rest with
    | nil => exact absurd h hne
    | cons t rest => exact h.2.2.2

/-- The controller under an alert is frontmost again when the alert is gone. -/
theorem frontmostController_tail (s : Screen) (screens : List Screen) (h : Stacked screens)
    (hs : screens.head? = some s) (ha : s = .alert ∨ s = .signOutAlert) :
    screens.tail.head? = frontmostController screens ∧
    frontmostController screens.tail = frontmostController screens ∧
    screens.tail.head? ≠ some .start := by
  cases screens with
  | nil => cases hs
  | cons s' rest =>
    cases hs
    cases rest with
    | nil => rcases ha with rfl | rfl <;> cases h
    | cons t rest =>
      rcases ha with rfl | rfl
      · have ht : t.presentsAlerts = true := h.2.1 rfl
        cases t with
        | start => cases ht
        | alert => cases ht
        | signOutAlert => cases ht
        | signIn => exact ⟨rfl, rfl, by simp⟩
        | newProfile => exact ⟨rfl, rfl, by simp⟩
        | makeNewConnect => exact ⟨rfl, rfl, by simp⟩
        | mainHome => exact ⟨rfl, rfl, by simp⟩
      · have ht : t = .newProfile := h.2.2.1 rfl
        subst ht
        exact ⟨rfl, rfl, by simp⟩

theorem frontmostController_push (s : Screen) (screens : List Screen) :
    frontmostController (s :: screens) =
      if s = .alert ∨ s = .signOutAlert then screens.head? else some s := by
  cases s <;> rfl

theorem frontmostController_of_head (screens : List Screen) (s : Screen)
    (h : screens.head? = some s) (ha : s ≠ .alert) (ho : s ≠ .signOutAlert) :
    frontmostController screens = some s := by
  cases screens with
  | nil => cases h
  | cons s' rest =>
    cases h
    rw [frontmostController_push, if_neg (by simp [ha, ho])]

theorem shows_unique (w : World) (s t : Screen) (hs : w.shows s) (hne : s ≠ t) : ¬ w.shows t := by
  intro ht
  unfold World.shows at hs ht
  rw [hs] at ht
  exact hne (Option.some.inj ht)

/-! ## What a step does to the stack -/

/-- The action empties the session in memory. -/
def Action.drops : Action → Bool
  | .launched | .signedOut => true
  | _ => false

/-- How the connection screen comes to be presented. -/
def Enters (w : World) : Action → Prop
  | .restored => (searchUserFromKeychain w.user w.defaults).1.destination = .makeNewConnect
  | .signedIn _ => w.user.userData ≠ none
  | .saved _ _ _ => True
  | _ => False

/-- The stacks a step with action `a` can lead to. -/
inductive Moved (w : World) (a : Action) : List Screen → Prop
  | stay : a.drops = false → Moved w a w.screens
  | push (s t : Screen) : a.drops = false → w.shows t → s ≠ .start →
      (s = .alert → t.presentsAlerts = true) → (s = .signOutAlert → t = .newProfile) →
      (s = .makeNewConnect → Enters w a) → Moved w a (s :: w.screens)
  | pop (s : Screen) : w.shows s → (s = .alert ∨ s = .signOutAlert) → a = .quiet →
      Moved w a w.screens.tail
  | signOut : w.shows .signOutAlert → a = .signedOut → Moved w a (.signIn :: w.screens.tail)
  | launch : a = .launched → Moved w a [.start]

/-- The completion of `Auth.signIn` presents the connection screen only when
there is data. -/
theorem firebaseSignInCompletion_presents (u : User) (d : UserDefaults) (uid : String) :
    (firebaseSignInCompletion u d uid).presents =
      if u.userData = none then some .newProfile
      else if (u.userData.bind fun r => r.lookup "connectionToken") ≠ none then none
      else some .makeNewConnect := by
  unfold firebaseSignInCompletion checkProfile User.setUserIdToken User.getUserData
  by_cases hd : u.userData = none
  · simp [hd]
  · simp [hd]

theorem destination_ne (status : SignInStatus) :
    status.destination ≠ .start ∧ status.destination ≠ .alert ∧
    status.destination ≠ .signOutAlert := by
  cases status <;> decide

theorem moved_authSignIn (w : World) (uid : String) (controller : Nat) :
    Moved w (.signedIn uid) (w.authSignIn uid controller true).screens := by
  unfold World.authSignIn
  simp only [if_true]
  split
  · next s hp =>
    unfold World.present
    split
    · next hlen =>
      obtain ⟨t, ht⟩ : ∃ t, w.shows t := by
        cases hscr : w.screens with
        | nil => rw [show w.screens = [] from hscr] at hlen; cases hlen
        | cons t rest => exact ⟨t, by unfold World.shows; rw [hscr]; rfl⟩
      rw [firebaseSignInCompletion_presents] at hp
      have hs : s = .newProfile ∨ (s = .makeNewConnect ∧ w.user.userData ≠ none) := by
        split at hp
        · exact Or.inl (Option.some.inj hp).symm
        · next hd =>
          split at hp
          · cases hp
          · exact Or.inr ⟨(Option.some.inj hp).symm, hd⟩
      rcases hs with rfl | ⟨rfl, hd⟩
      · exact .push .newProfile t rfl ht (by simp) (by simp) (by simp) (by simp)
      · exact .push .makeNewConnect t rfl ht (by simp) (by simp) (by simp) (fun _ => hd)
    · exact .stay rfl
  · exact .stay rfl

theorem moved_finishWritingProfile (w : World) (form : ProfileForm) (hs : w.shows .newProfile) :
    Moved w (finishWritingProfile form w.user).action (w.finishWritingProfile form).screens := by
  unfold World.finishWritingProfile
  cases finishWritingProfile form w.user with
  | saved uid jpeg data =>
    exact .push .makeNewConnect .newProfile rfl hs (by simp) (by simp) (by simp) (fun _ => trivial)
  | noSignInStatus => exact .stay rfl
  | jpegImageConvertingFailed => exact .stay rfl
  | alertNoPicture =>
    exact .push .alert .newProfile rfl hs (by simp) (fun _ => rfl) (by simp) (by simp)
  | alertInput =>
    exact .push .alert .newProfile rfl hs (by simp) (fun _ => rfl) (by simp) (by simp)
  | trap => exact .stay rfl

/-- **Every step moves as `Moved` says.** -/
theorem step_moved (w w' : World) (e : Event) (h : step w e = some w') :
    Moved w (e.action w) w'.screens := by
  obtain ⟨hen, rfl⟩ := (step_eq_some w w' e).1 h
  cases e with
  | goToNextStorybaord =>
    obtain ⟨hne, ha, ho⟩ := destination_ne (searchUserFromKeychain w.user w.defaults).1
    exact .push _ .start rfl hen.2 hne (fun e => absurd e ha) (fun e => absurd e ho) id
  | googleSignIn => exact .stay rfl
  | didSignIn account =>
    obtain ⟨callbacks, hw⟩ := didSignIn_fields w account
    show Moved w .quiet (w.didSignIn account).screens
    rw [hw]
    exact .stay rfl
  | authSignIn uid controller ok =>
    cases ok with
    | false => exact .stay rfl
    | true => exact moved_authSignIn w uid controller
  | answer uid source seen => exact .stay rfl
  | documentSnapshot uid result => cases result <;> exact .stay rfl
  | finishWritingProfile form => exact moved_finishWritingProfile w form hen.2
  | backToSignIn =>
    exact .push .signOutAlert .newProfile rfl hen.2 (by simp) (by simp) (fun _ => rfl) (by simp)
  | no => exact .pop .signOutAlert hen.2 (Or.inr rfl) rfl
  | yes ok => exact .signOut hen.2 rfl
  | getConnectionCode n =>
    show Moved w (.requested n) (w.getConnectionCode n).screens
    unfold World.getConnectionCode
    rcases getConnectionCode w.user n with ⟨writes, _ | user⟩
    · exact .stay rfl
    · exact .stay rfl
  | backToProfile =>
    exact .push .newProfile .makeNewConnect rfl hen.2 (by simp) (by simp) (by simp) (by simp)
  | presentAlert =>
    obtain ⟨t, ht, hpa⟩ := Option.map_eq_some_iff.1 hen.2
    exact .push .alert t rfl ht (by simp) (fun _ => hpa) (by simp) (by simp)
  | dismissAlert => exact .pop .alert hen.2 (Or.inl rfl) rfl
  | writeDone ok =>
    show Moved w .quiet (w.writeDone ok).screens
    unfold World.writeDone
    split
    · exact .stay rfl
    · exact .stay rfl
  | uploadDone task ok =>
    show Moved w .quiet (w.uploadDone task ok).screens
    unfold World.uploadDone
    split
    · exact .stay rfl
    · exact .stay rfl
  | relaunch => exact .launch rfl

theorem Moved.stacked {w : World} {a : Action} {screens : List Screen} (h : Moved w a screens)
    (hs : Stacked w.screens) : Stacked screens := by
  cases h with
  | stay _ => exact hs
  | push s t _ ht hne ha ho _ => exact stacked_push s t w.screens hs ht hne ha ho
  | pop s hsh ha _ =>
    exact stacked_tail s w.screens hs hsh (by rcases ha with rfl | rfl <;> simp)
  | signOut hsh _ =>
    have htail := stacked_tail _ w.screens hs hsh (by simp)
    obtain ⟨t, ht⟩ : ∃ t, w.screens.tail.head? = some t := by
      cases htl : w.screens.tail with
      | nil => exact absurd htail (by rw [htl]; exact id)
      | cons t rest => exact ⟨t, rfl⟩
    exact stacked_push .signIn t w.screens.tail htail ht (by simp) (by simp) (by simp)
  | launch _ => exact rfl

/-- The connection screen is frontmost because it was before, or because the
action brought it up. -/
theorem Moved.enters {w : World} {a : Action} {screens : List Screen} (h : Moved w a screens)
    (hs : Stacked w.screens) (hm : frontmostController screens = some .makeNewConnect) :
    Enters w a ∨ (frontmostController w.screens = some .makeNewConnect ∧ a.drops = false) := by
  cases h with
  | stay hd => exact Or.inr ⟨hm, hd⟩
  | push s t hd ht _ _ _ hen =>
    rw [frontmostController_push] at hm
    split at hm
    · next hal =>
      -- an alert over the connection screen: the screen was frontmost before
      unfold World.shows at ht
      have htm : t = .makeNewConnect := Option.some.inj (ht.symm.trans hm)
      subst htm
      exact Or.inr ⟨frontmostController_of_head w.screens _ ht (by simp) (by simp), hd⟩
    · exact Or.inl (hen (Option.some.inj hm))
  | pop s hsh ha hq =>
    rw [(frontmostController_tail s w.screens hs hsh ha).2.1] at hm
    exact Or.inr ⟨hm, by rw [hq]; rfl⟩
  | signOut _ _ => cases hm
  | launch _ => cases hm

/-- `Start` is frontmost only if it was and nothing was presented, or after a launch. -/
theorem Moved.start {w : World} {a : Action} {screens : List Screen} (h : Moved w a screens)
    (hs : Stacked w.screens) (hst : screens.head? = some .start) :
    (screens = w.screens ∧ w.shows .start) ∨ a = .launched := by
  cases h with
  | stay _ => exact Or.inl ⟨rfl, hst⟩
  | push s t _ _ hne _ _ _ => exact absurd (Option.some.inj hst) hne
  | pop s hsh ha _ => exact absurd hst (frontmostController_tail s w.screens hs hsh ha).2.2
  | signOut _ _ => cases hst
  | launch ha => exact Or.inr ha

/-! ## The invariant -/

structure NavInv (w : World) : Prop where
  stacked : Stacked w.screens
  /-- `Start` is frontmost only before its button is tapped. -/
  start : w.shows .start → w.user = User.init ∧ w.callbacks = []
  ready : frontmostController w.screens = some .makeNewConnect →
    w.user.userIdToken ≠ none ∧ w.user.userData ≠ none
  running : w.aborted = false

theorem navInv_launch (defaults : UserDefaults) (firebase : Firebase) (server : Server) :
    NavInv (World.launch defaults firebase server) where
  stacked := rfl
  start := fun _ => ⟨rfl, rfl⟩
  ready := fun h => by cases h
  running := rfl

theorem NavInv.not_start {w : World} (h : NavInv w) {c : Callback} (hc : c ∈ w.callbacks) :
    ¬ w.shows .start :=
  fun hs => List.ne_nil_of_mem hc (h.start hs).2

/-- On the connection screen there is a user id and there is data. -/
theorem NavInv.ready_of_shows {w : World} (h : NavInv w) (hs : w.shows .makeNewConnect) :
    w.user.userIdToken ≠ none ∧ w.user.userData ≠ none :=
  h.ready (frontmostController_of_head w.screens _ hs (by simp) (by simp))

theorem searchUserFromKeychain_noUserConnection (u : User) (d : UserDefaults)
    (h : (searchUserFromKeychain u d).1.destination = .makeNewConnect) :
    (searchUserFromKeychain u d).2.userIdToken ≠ none ∧
    (searchUserFromKeychain u d).2.userData ≠ none := by
  unfold searchUserFromKeychain at h ⊢
  cases ht : d.string "userIdToken" with
  | none => rw [ht] at h; cases h
  | some idToken =>
    rw [ht] at h
    cases hd : d.dictionary "userData" with
    | none => rw [hd] at h; cases h
    | some userData =>
      rw [hd] at h
      cases hc : d.string "connectionToken" with
      | none => exact ⟨Option.some_ne_none _, Option.some_ne_none _⟩
      | some connectionToken => rw [hc] at h; cases h

/-- What `getConnectionCode` leaves in the session, trap or not. -/
theorem getConnectionCode_keeps (u : User) (n : Nat) :
    ((getConnectionCode u n).2.getD u).userIdToken = u.userIdToken ∧
    (u.userData ≠ none → ((getConnectionCode u n).2.getD u).userData ≠ none) := by
  by_cases ht : u.userIdToken = none
  · rw [(getConnectionCode_trap u n).2 (Or.inl ht)]; exact ⟨rfl, id⟩
  · by_cases hd : u.userData = none
    · rw [(getConnectionCode_trap u n).2 (Or.inr hd)]; exact ⟨rfl, id⟩
    · rw [getConnectionCode_user u n ht hd]
      exact ⟨rfl, fun _ => Option.some_ne_none _⟩

/-- Only a launch and a sign-out take the user id or the data away. -/
theorem Action.keeps (a : Action) (u : User) (d : UserDefaults) (h : a.drops = false)
    (hu : u.userIdToken ≠ none ∧ u.userData ≠ none) :
    (a.user u d).userIdToken ≠ none ∧ (a.user u d).userData ≠ none := by
  cases a with
  | quiet => exact hu
  | launched => cases h
  | restored =>
    unfold Action.user searchUserFromKeychain
    cases d.string "userIdToken" with
    | none => exact hu
    | some idToken =>
      cases d.dictionary "userData" with
      | none => exact ⟨Option.some_ne_none _, hu.2⟩
      | some userData =>
        cases d.string "connectionToken" with
        | none => exact ⟨Option.some_ne_none _, Option.some_ne_none _⟩
        | some connectionToken => exact ⟨Option.some_ne_none _, Option.some_ne_none _⟩
  | signedIn uid => exact ⟨Option.some_ne_none _, hu.2⟩
  | fetched uid doc => exact ⟨hu.1, Option.some_ne_none _⟩
  | saved uid jpeg data => exact ⟨hu.1, Option.some_ne_none _⟩
  | requested n =>
    obtain ⟨ht, hd⟩ := getConnectionCode_keeps u n
    exact ⟨fun hn => hu.1 (ht.symm.trans hn), hd hu.2⟩
  | signedOut => cases h

/-- While `Start` is frontmost and nothing is under way, an event that neither
taps its button nor launches leaves session, completions and stack alone. -/
theorem step_at_start (w w' : World) (e : Event) (h : step w e = some w')
    (hst : w.shows .start) (hc : w.callbacks = []) :
    e = .goToNextStorybaord ∨ e = .relaunch ∨
      (w'.user = w.user ∧ w'.callbacks = w.callbacks ∧ w'.screens = w.screens) := by
  obtain ⟨hen, rfl⟩ := (step_eq_some w w' e).1 h
  have hno : ∀ s, s ≠ Screen.start → ¬ w.shows s := fun s hne hs => shows_unique w _ _ hs hne hst
  cases e with
  | goToNextStorybaord => exact Or.inl rfl
  | relaunch => exact Or.inr (Or.inl rfl)
  | writeDone ok =>
    refine Or.inr (Or.inr ?_)
    show (w.writeDone ok).user = _ ∧ (w.writeDone ok).callbacks = _ ∧ (w.writeDone ok).screens = _
    unfold World.writeDone
    split <;> exact ⟨rfl, rfl, rfl⟩
  | uploadDone task ok =>
    refine Or.inr (Or.inr ?_)
    show (w.uploadDone task ok).user = _ ∧ (w.uploadDone task ok).callbacks = _ ∧
      (w.uploadDone task ok).screens = _
    unfold World.uploadDone
    split <;> exact ⟨rfl, rfl, rfl⟩
  | presentAlert =>
    obtain ⟨-, hpa⟩ := hen
    rw [show w.screens.head? = some .start from hst] at hpa
    cases hpa
  | googleSignIn => exact absurd hen.2 (hno _ (by simp))
  | finishWritingProfile form => exact absurd hen.2 (hno _ (by simp))
  | backToSignIn => exact absurd hen.2 (hno _ (by simp))
  | no => exact absurd hen.2 (hno _ (by simp))
  | yes ok => exact absurd hen.2 (hno _ (by simp))
  | getConnectionCode n => exact absurd hen.2 (hno _ (by simp))
  | backToProfile => exact absurd hen.2 (hno _ (by simp))
  | dismissAlert => exact absurd hen.2 (hno _ (by simp))
  | didSignIn account => exact absurd hen.2 (by rw [hc]; exact List.not_mem_nil)
  | authSignIn uid controller ok => exact absurd hen.2 (by rw [hc]; exact List.not_mem_nil)
  | answer uid source seen => exact absurd hen.2 (by rw [hc]; exact List.not_mem_nil)
  | documentSnapshot uid result => exact absurd hen.2 (by rw [hc]; exact List.not_mem_nil)

/-- Only the two controllers with forced unwraps could abort the process. -/
theorem perform_aborted (w : World) (e : Event) (ha : w.aborted = false)
    (hc : ∀ n, e = .getConnectionCode n → (getConnectionCode w.user n).2 ≠ none) :
    (perform w e).aborted = false := by
  cases e with
  | authSignIn uid controller ok =>
    cases ok with
    | false => exact ha
    | true =>
      obtain ⟨screens, hw⟩ := authSignIn_fields w uid controller
      show (w.authSignIn uid controller true).aborted = false
      rw [hw]
      exact ha
  | didSignIn account =>
    obtain ⟨callbacks, hw⟩ := didSignIn_fields w account
    show (w.didSignIn account).aborted = false
    rw [hw]
    exact ha
  | finishWritingProfile form =>
    show (w.finishWritingProfile form).aborted = false
    unfold World.finishWritingProfile
    cases hf : finishWritingProfile form w.user with
    | trap => exact absurd hf (finishWritingProfile_ne_trap form w.user)
    | saved uid jpeg data => exact ha
    | noSignInStatus => exact ha
    | jpegImageConvertingFailed => exact ha
    | alertNoPicture => exact ha
    | alertInput => exact ha
  | getConnectionCode n =>
    have hn := hc n rfl
    show (w.getConnectionCode n).aborted = false
    unfold World.getConnectionCode
    rcases hg : getConnectionCode w.user n with ⟨writes, _ | user⟩
    · rw [hg] at hn; exact absurd rfl hn
    · exact ha
  | writeDone ok =>
    show (w.writeDone ok).aborted = false
    unfold World.writeDone
    split <;> exact ha
  | uploadDone task ok =>
    show (w.uploadDone task ok).aborted = false
    unfold World.uploadDone
    split <;> exact ha
  | relaunch => rfl
  | goToNextStorybaord => exact ha
  | googleSignIn => exact ha
  | answer uid source seen => exact ha
  | documentSnapshot uid result => exact ha
  | backToSignIn => exact ha
  | no => exact ha
  | yes ok => exact ha
  | backToProfile => exact ha
  | presentAlert => exact ha
  | dismissAlert => exact ha

/-! ## One step and whole runs -/

theorem navInv_step (w : World) (e : Event) (w' : World) (h : NavInv w)
    (hs : step w e = some w') : NavInv w' := by
  have hmoved := step_moved w w' e hs
  have hg := step_guard w w' e hs
  obtain ⟨hu, -⟩ := step_session w w' e hs
  obtain ⟨hen, hw⟩ := (step_eq_some w w' e).1 hs
  refine ⟨hmoved.stacked h.stacked, fun hst => ?_, fun hm => ?_, ?_⟩
  · rcases hmoved.start h.stacked hst with ⟨hscr, hst0⟩ | ha
    · obtain ⟨hinit, hc⟩ := h.start hst0
      rcases step_at_start w w' e hs hst0 hc with rfl | rfl | ⟨hu', hc', -⟩
      · -- the button of Start always presents something
        have hlen := congrArg List.length (show (perform w _).screens = w.screens by rw [hw, hscr])
        simp [perform, World.goToNextStorybaord, World.presentOnTop] at hlen
      · rw [← hw]; exact ⟨rfl, rfl⟩
      · exact ⟨hu'.trans hinit, hc'.trans hc⟩
    · rw [← hw, action_eq_launched w e ha]
      exact ⟨rfl, rfl⟩
  · rw [hu]
    rcases hmoved.enters h.stacked hm with hen | ⟨hm0, hd⟩
    · cases ha : e.action w with
      | restored =>
        rw [ha] at hen
        exact searchUserFromKeychain_noUserConnection w.user w.defaults hen
      | signedIn uid =>
        rw [ha] at hen
        exact ⟨Option.some_ne_none uid, hen⟩
      | saved uid jpeg data =>
        rw [ha] at hg
        show w.user.userIdToken ≠ none ∧ some data ≠ none
        rw [hg.2.1]
        exact ⟨Option.some_ne_none uid, Option.some_ne_none data⟩
      | _ => rw [ha] at hen; exact hen.elim
    · exact (e.action w).keeps w.user w.defaults hd (h.ready hm0)
  · rw [← hw]
    refine perform_aborted w e h.running fun n hn => ?_
    subst hn
    obtain ⟨ht, hd⟩ := h.ready_of_shows hen.2
    rw [getConnectionCode_user w.user n ht hd]
    exact Option.some_ne_none _

/-- A process that has just started, whatever the disk, Firebase and the server hold. -/
def Launched (w : World) : Prop :=
  ∃ defaults firebase server, w = World.launch defaults firebase server

theorem launched_newDevice (server : Server) : Launched (newDevice server) :=
  ⟨UserDefaults.empty, Firebase.installed none, server, rfl⟩

theorem navInv_reachable {w : World} (h : Runs.Reachable step Launched w) : NavInv w := by
  refine h.invariant NavInv ?_ navInv_step
  rintro s ⟨defaults, firebase, server, rfl⟩
  exact navInv_launch defaults firebase server

theorem navInv_run (w0 w : World) (es : List Event) (h0 : NavInv w0)
    (hr : Runs.run step w0 es = some w) : NavInv w :=
  Runs.run_invariant step NavInv navInv_step w0 w es h0 hr

theorem FirstLaunch.navInv {w : World} (h : FirstLaunch w) : NavInv w := by
  obtain ⟨defaults, currentUser, server, -, rfl⟩ := h
  exact navInv_launch defaults _ server

/-! ## No forced unwrap traps on the connection screen -/

/-- **No trap.**  Whatever the device stores, and in every order of taps and
completion handlers: while the connection screen is frontmost there is a user id
and there is user data, so neither `getUserIdToken()!` nor `userData![key]` meets
nil; and no event ever aborts the process. -/
theorem makeNewConnect_never_traps (defaults : UserDefaults) (firebase : Firebase)
    (server : Server) (es : List Event) (w : World)
    (hr : Runs.run step (World.launch defaults firebase server) es = some w) :
    (w.shows .makeNewConnect → w.user.userIdToken ≠ none ∧ w.user.userData ≠ none ∧
      ∀ n, (getConnectionCode w.user n).2 ≠ none) ∧ w.aborted = false := by
  have h := navInv_run _ w es (navInv_launch defaults firebase server) hr
  refine ⟨fun hs => ?_, h.running⟩
  obtain ⟨ht, hd⟩ := h.ready_of_shows hs
  refine ⟨ht, hd, fun n => ?_⟩
  rw [getConnectionCode_user w.user n ht hd]
  exact Option.some_ne_none _

/-- A user id and a profile left on the disk by some earlier run. -/
def storedDefaults : UserDefaults :=
  ⟨(Finmap.singleton "userIdToken" (.string "A")).insert "userData" (.dictionary ∅), ∅⟩

theorem makeNewConnect_never_traps_stored :
    ∃ w, Runs.run step (World.launch storedDefaults (.installed none) ⟨∅, ∅⟩)
        [.goToNextStorybaord] = some w ∧
      w.shows .makeNewConnect ∧ w.user.userIdToken ≠ none ∧ w.user.userData ≠ none ∧
      (∀ n, (getConnectionCode w.user n).2 ≠ none) ∧ w.aborted = false := by
  have hrun : (Runs.run step (World.launch storedDefaults (.installed none) ⟨∅, ∅⟩)
      [.goToNextStorybaord]).any (fun w => decide (w.shows .makeNewConnect)) = true := by
    decide +kernel
  obtain ⟨w, hw, hs⟩ := (Option.any_eq_true _ _).1 hrun
  have hshows := of_decide_eq_true hs
  obtain ⟨hready, hrunning⟩ := makeNewConnect_never_traps storedDefaults _ ⟨∅, ∅⟩ _ w hw
  obtain ⟨ht, hd, hn⟩ := hready hshows
  exact ⟨w, hw, hshows, ht, hd, hn, hrunning⟩

end ProjectSY
