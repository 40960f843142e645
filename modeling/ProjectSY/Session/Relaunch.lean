import ProjectSY.Session.Identity

/-!
# What a relaunch brings back

`User.shared` starts empty; `searchUserFromKeychain` fills it from the keys
`userIdToken` and `userData` of `UserDefaults`.  The session before the kill comes
back exactly when the disk holds it (`restores_iff_onDisk`).

    sign-in          writes the user id to both
    a saved profile  is written to both
    a fetch, a code  are written to memory only

So along a run the session can be restored in every state exactly when no code is
requested and no fetch brings what is not on the disk (`restores_iff_persists`).
-/

namespace ProjectSY

/-- What `searchUserFromKeychain` makes of the disk after a kill in `w`: the user
id and the data of `w`, and a status that says which of them is missing. -/
structure Restores (w : World) : Prop where
  userIdToken : (searchUserFromKeychain User.init w.defaults).2.getUserIdToken =
    w.user.getUserIdToken
  userData : (searchUserFromKeychain User.init w.defaults).2.getUserData = w.user.getUserData
  noSignInData : (searchUserFromKeychain User.init w.defaults).1 = .noSignInData ↔
    w.user.getUserIdToken = none
  noUserProfile : (searchUserFromKeychain User.init w.defaults).1 = .noUserProfile ↔
    w.user.getUserIdToken ≠ none ∧ w.user.getUserData = none

/-- The session a relaunch leads to is the one `Restores` is about. -/
theorem relaunch_session (w w' : World)
    (hr : Runs.run step w [.relaunch, .goToNextStorybaord] = some w') :
    w'.user = (searchUserFromKeychain User.init w.defaults).2 ∧
    w'.shows (searchUserFromKeychain User.init w.defaults).1.destination := by
  obtain ⟨m, hm, hr⟩ := (Runs.run_cons_eq_some step _ _ _ _).1 hr
  obtain ⟨m', hm', hr⟩ := (Runs.run_cons_eq_some step _ _ _ _).1 hr
  rw [Runs.run_nil] at hr
  cases hr
  obtain ⟨-, rfl⟩ := (step_eq_some _ _ _).1 hm
  obtain ⟨-, rfl⟩ := (step_eq_some _ _ _).1 hm'
  exact ⟨rfl, rfl⟩

/-! ## What is on the disk -/

/-- The disk holds the session. -/
structure OnDisk (w : World) : Prop where
  token : w.user.userIdToken = w.defaults.string "userIdToken"
  data : w.user.userData = w.defaults.dictionary "userData"

/-- The data on the disk is a profile someone signed in has saved. -/
structure SavedProfile (w : World) : Prop where
  token : w.defaults.dictionary "userData" ≠ none → w.defaults.string "userIdToken" ≠ none
  profile : ∀ d, w.defaults.dictionary "userData" = some d → ∃ form : ProfileForm, d = form.profile

theorem onDisk_iff (w : World) : OnDisk w ↔ w.memory = w.disk := by
  constructor
  · intro h
    exact congrArg₂ Session.mk h.token h.data
  · intro h
    exact ⟨congrArg Session.token h, congrArg Session.data h⟩

theorem savedProfile_step (w : World) (e : Event) (w' : World) (hst : Stored w)
    (h : SavedProfile w) (hs : step w e = some w') : SavedProfile w' := by
  have hg := step_guard w w' e hs
  have hdisk := step_disk w w' e hst.own hs
  have htoken : w'.defaults.string "userIdToken" = ((e.action w).disk w.disk).token :=
    congrArg Session.token hdisk
  have hdata : w'.defaults.dictionary "userData" = ((e.action w).disk w.disk).data :=
    congrArg Session.data hdisk
  refine ⟨?_, ?_⟩
  · rw [htoken, hdata]
    cases ha : e.action w with
    | signedIn uid => exact fun _ => Option.some_ne_none uid
    | saved uid jpeg data =>
      rw [ha] at hg
      have hstored : w.disk.token = some uid := hst.token uid hg.2.1
      intro _
      show w.disk.token ≠ none
      rw [hstored]
      exact Option.some_ne_none uid
    | signedOut => exact fun hne => absurd rfl hne
    | _ => exact h.token
  · rw [hdata]
    cases ha : e.action w with
    | saved uid jpeg data =>
      rw [ha] at hg
      obtain ⟨-, -, form, hform⟩ := hg
      intro d hd
      cases hd
      exact ⟨form, hform⟩
    | signedOut =>
      intro d hd
      cases hd
    | _ => exact h.profile

/-- What holds in every run from a fresh install. -/
structure Ready (w : World) : Prop where
  stored : Stored w
  saved : SavedProfile w

theorem Ready.nav {w : World} (h : Ready w) : NavInv w := h.stored.nav

theorem ready_step (w : World) (e : Event) (w' : World) (h : Ready w) (hs : step w e = some w') :
    Ready w' :=
  ⟨stored_step w e w' h.stored hs, savedProfile_step w e w' h.stored h.saved hs⟩

/-- **A relaunch restores exactly what is on the disk.** -/
theorem restores_iff_onDisk (w : World) (h : SavedProfile w) : Restores w ↔ OnDisk w := by
  obtain ⟨ht, hd⟩ := searchUserFromKeychain_init w.defaults
  obtain ⟨hsign, hprof⟩ := searchUserFromKeychain_status User.init w.defaults
  have hd' : (searchUserFromKeychain User.init w.defaults).2.userData =
      w.defaults.dictionary "userData" := by
    rw [hd]
    split
    · next hnone => exact (not_ne_iff.1 fun hne => h.token hne hnone).symm
    · rfl
  constructor
  · intro hr
    exact ⟨hr.userIdToken.symm.trans ht, hr.userData.symm.trans hd'⟩
  · intro ho
    refine ⟨ht.trans ho.token.symm, hd'.trans ho.data.symm, ?_, ?_⟩
    · rw [hsign, ← ho.token]
      rfl
    · rw [hprof, ← ho.token, ← ho.data]
      rfl

theorem FirstLaunch.onDisk {w : World} (h : FirstLaunch w) : OnDisk w := by
  rw [onDisk_iff, h.disk]
  obtain ⟨defaults, currentUser, server, -, rfl⟩ := h
  rfl

theorem FirstLaunch.ready {w : World} (h : FirstLaunch w) : Ready w := by
  have hnone : w.defaults.dictionary "userData" = none := congrArg Session.data h.disk
  refine ⟨h.stored, fun hne => absurd hnone hne, fun d hd => ?_⟩
  rw [hnone] at hd
  cases hd

/-! ## One step and whole runs -/

/-- What an action has to meet for the disk to keep up with the memory: a fetch
brings what is on the disk, and no code is requested. -/
def Persists (w : World) : Action → Prop
  | .fetched _ d => w.defaults.dictionary "userData" = some d
  | .requested _ => False
  | _ => True

instance (w : World) (a : Action) : Decidable (Persists w a) :=
  match a with
  | .fetched _ _ => inferInstanceAs (Decidable (_ = _))
  | .requested _ => inferInstanceAs (Decidable False)
  | .quiet | .launched | .restored | .saved _ _ _ | .signedIn _ | .signedOut =>
    inferInstanceAs (Decidable True)

/-- A profile is not what a code request leaves in memory. -/
theorem profile_ne_codeData (form : ProfileForm) (code : String) :
    form.profile ≠ codeData code := by
  intro h
  have hlookup := form.profile_connectionCode
  rw [h, lookup_codeData, if_pos rfl] at hlookup
  cases hlookup

/-- Until the process is killed, a step keeps the session on the disk exactly
when it meets `Persists`. -/
theorem onDisk_step (w : World) (e : Event) (w' : World) (hr : Ready w) (hP : OnDisk w)
    (he : e ≠ .relaunch) (hs : step w e = some w') :
    OnDisk w' ↔ Persists w (e.action w) := by
  have hg := step_guard w w' e hs
  rw [onDisk_iff, step_memory w w' e hr.nav hs, step_disk w w' e hr.stored.own hs,
    (onDisk_iff w).1 hP]
  cases ha : e.action w with
  | quiet => exact ⟨fun _ => trivial, fun _ => rfl⟩
  | launched => exact absurd (action_eq_launched w e ha) he
  | restored =>
    -- the button of Start is tapped before anything is in memory
    rw [ha] at hg
    have hempty : w.disk = Session.empty := by
      rw [← (onDisk_iff w).1 hP]
      unfold World.memory
      rw [(hr.nav.start hg).1]
      rfl
    rw [hempty]
    exact ⟨fun _ => trivial, fun _ => rfl⟩
  | signedIn uid => exact ⟨fun _ => trivial, fun _ => rfl⟩
  | fetched uid d =>
    constructor
    · intro h
      exact (congrArg Session.data h).symm
    · intro h
      have hd : w.disk.data = some d := h
      exact congrArg (Session.mk w.disk.token) hd.symm
  | saved uid jpeg data => exact ⟨fun _ => trivial, fun _ => rfl⟩
  | requested n =>
    refine ⟨fun h => ?_, fun h => h.elim⟩
    have hd : w.defaults.dictionary "userData" = some (codeData (connectionCode n)) :=
      (congrArg Session.data h).symm
    obtain ⟨form, hform⟩ := hr.saved.profile _ hd
    exact profile_ne_codeData form _ hform.symm
  | signedOut => exact ⟨fun _ => trivial, fun _ => rfl⟩

/-- **When a relaunch restores the session.**  Along a run from a fresh install,
with any number of sign-ins, sign-outs, saves and code requests and with the
completions in any order, a kill at any moment loses nothing exactly when no code
was requested and every fetch brought what was already on the disk. -/
theorem restores_iff_persists (w0 w : World) (es : List Event) (h0 : FirstLaunch w0)
    (hr : Runs.run step w0 es = some w) (hes : ∀ e ∈ es, e ≠ .relaunch) :
    Runs.Always step Restores w0 es ↔
      Runs.Meets step (fun w e => Persists w (e.action w)) w0 es := by
  refine Runs.always_iff_meets step Ready Restores (fun e => e ≠ .relaunch) _
    (fun s e s' hI _ hs => ready_step s e s' hI hs) ?_ w0 w es h0.ready
    ((restores_iff_onDisk w0 h0.ready.saved).2 h0.onDisk) hes hr
  intro s e s' hI hP he hs
  rw [restores_iff_onDisk s' (ready_step s e s' hI hs).saved]
  exact onDisk_step s e s' hI ((restores_iff_onDisk s hI.saved).1 hP) he hs

/-- Nobody but `u` signs in. -/
def Event.ofAccount (u : String) : Event → Bool
  | .authSignIn uid _ _ => uid = u
  | _ => true

/-- `A` signs in and the fetch completes. -/
def fetchedProfile : List Event :=
  [.goToNextStorybaord] ++ signInAs "A" 1 ++ [.answer "A" .server 0,
    .documentSnapshot "A" (.data profileOfA)]

/-- The session is not always restored: a profile that was fetched is in memory
only, and nothing is pending any more. -/
theorem relaunch_loses_profile :
    ¬ ∀ (w0 w : World) (es : List Event) (u : String), FirstLaunch w0 →
      (∀ e ∈ es, e ≠ .relaunch ∧ e.ofAccount u = true) → Runs.run step w0 es = some w →
      w.callbacks = [] → w.Idle → Restores w := by
  intro h
  have hbad : (Runs.run step (newDevice serverWithA) fetchedProfile).any
      (fun w => decide (w.callbacks = [] ∧ w.Idle ∧ w.user.userData = some profileOfA ∧
        (searchUserFromKeychain User.init w.defaults).2.userData = none)) = true := by
    decide +kernel
  obtain ⟨w, hw, hbad⟩ := (Option.any_eq_true _ _).1 hbad
  obtain ⟨hc, ho, hmem, hdisk⟩ := of_decide_eq_true hbad
  have hr := h _ w fetchedProfile "A" (firstLaunch_newDevice serverWithA) (by decide) hw hc ho
  have hdata : (searchUserFromKeychain User.init w.defaults).2.userData = w.user.userData :=
    hr.userData
  rw [hdisk, hmem] at hdata
  cases hdata

/-- `A`, who is new, signs in, and saves a profile; the fetch finds it. -/
def savedByNewcomer : List Event :=
  [.goToNextStorybaord] ++ signInAs "A" 1 ++ [.finishWritingProfile (formOfA "hello"),
    .answer "A" .server 1, .documentSnapshot "A" (.data profileOfA)]

theorem restores_iff_persists_newcomer :
    Runs.Always step Restores (newDevice ⟨∅, ∅⟩) savedByNewcomer := by
  have hrun : (Runs.run step (newDevice ⟨∅, ∅⟩) savedByNewcomer).any (fun _ => true) = true := by
    decide +kernel
  obtain ⟨w, hw, -⟩ := (Option.any_eq_true _ _).1 hrun
  refine (restores_iff_persists _ w _ (firstLaunch_newDevice ⟨∅, ∅⟩) hw (by decide)).2 ?_
  exact Runs.meets_of_meetsB _ _ _ _ (by decide +kernel)

end ProjectSY
