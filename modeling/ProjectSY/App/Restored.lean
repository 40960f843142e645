import ProjectSY.App.Views
import ProjectSY.Fleet.Format

/-!
# What comes back on screen after a kill

The profile that was saved last since the last sign-out stands beside a run
(`savedAfter`).  It is what the disk holds, whatever is fetched, asked for or signed in
to meanwhile, and whether or not its writes have reached the server (`keeps_step`).  So
when the process is killed at any moment and the button of Start is tapped, that profile
decides what is presented, and one tap further the form shows it; a code does not come
back (`relaunch_brings_back`).
-/

namespace ProjectSY

/-- The saved profile after an action. -/
def Action.saves (saved : Option Profile) : Action → Option Profile
  | .saved _ _ data => readProfile data
  | .signedOut => none
  | _ => saved

/-- The disk holds the saved profile, with a user id, and no connection token. -/
structure Keeps (w : World) (saved : Option Profile) : Prop where
  stored : Stored w
  data : w.disk.data = saved.map Profile.toDict
  token : saved ≠ none → w.disk.token ≠ none
  connectionToken : w.defaults.string "connectionToken" = none

theorem keeps_step (w w' : World) (e : Event) (saved : Option Profile) (h : Keeps w saved)
    (hs : step w e = some w') : Keeps w' ((e.action w).saves saved) := by
  have hdisk := step_disk w w' e h.stored.own hs
  have hg := step_guard w w' e hs
  have hconnection : w'.defaults.string "connectionToken" = none := by
    rw [(step_session w w' e hs).2]
    exact (e.action w).defaults_connectionToken w.defaults h.stored.own h.connectionToken
  have hkept : w'.disk.data = ((e.action w).saves saved).map Profile.toDict ∧
      ((e.action w).saves saved ≠ none → w'.disk.token ≠ none) := by
    rw [hdisk]
    cases ha : e.action w with
    | saved uid jpeg data =>
      rw [ha] at hg
      obtain ⟨-, ht, form, rfl⟩ := hg
      have hread : readProfile form.profile = some form.toProfile :=
        readProfile_toDict form.toProfile
      refine ⟨?_, fun _ => ?_⟩
      · show some form.profile = (readProfile form.profile).map Profile.toDict
        rw [hread]
        rfl
      · show w.defaults.string "userIdToken" ≠ none
        rw [h.stored.token uid ht]
        exact Option.some_ne_none uid
    | signedIn uid => exact ⟨h.data, fun _ => Option.some_ne_none uid⟩
    | signedOut => exact ⟨rfl, fun hne => absurd rfl hne⟩
    | _ => exact ⟨h.data, h.token⟩
  exact ⟨stored_step w e w' h.stored hs, hkept.1, hkept.2, hconnection⟩

theorem FirstLaunch.keeps {w : World} (h : FirstLaunch w) : Keeps w none := by
  refine ⟨h.stored, ?_, fun hne => absurd rfl hne, ?_⟩
  · rw [h.disk]
    rfl
  · obtain ⟨defaults, currentUser, server, hfresh, rfl⟩ := h
    exact string_eq_none _ _ (hfresh "connectionToken" (by decide))

/-- What the button of Start presents after a launch. -/
theorem Keeps.destination {w : World} {saved : Option Profile} (h : Keeps w saved) :
    (∀ p, saved = some p →
      (searchUserFromKeychain User.init w.defaults).1.destination = .makeNewConnect ∧
      (searchUserFromKeychain User.init w.defaults).2.userData = some p.toDict) ∧
    (saved = none →
      (searchUserFromKeychain User.init w.defaults).2.userData = none ∧
      ((searchUserFromKeychain User.init w.defaults).1.destination = .signIn ∨
       (searchUserFromKeychain User.init w.defaults).1.destination = .newProfile)) := by
  have hdata : w.defaults.dictionary "userData" = saved.map Profile.toDict := h.data
  have htoken : saved ≠ none → w.defaults.string "userIdToken" ≠ none := h.token
  unfold searchUserFromKeychain
  rw [hdata, h.connectionToken]
  constructor
  · rintro p rfl
    obtain ⟨uid, huid⟩ := Option.ne_none_iff_exists'.1 (htoken (Option.some_ne_none p))
    rw [huid]
    exact ⟨rfl, rfl⟩
  · rintro rfl
    cases w.defaults.string "userIdToken" with
    | none => exact ⟨rfl, Or.inl rfl⟩
    | some uid => exact ⟨rfl, Or.inr rfl⟩

namespace App

/-- The profile that was saved last since the last sign-out. -/
def savedAfter (saved : Option Profile) (a : App) (ev : AppEvent) : Option Profile :=
  match a.deviceEvent ev with
  | some e => (e.action a.world).saves saved
  | none => saved

theorem keeps_appStep (s : App × Option Profile) (ev : AppEvent) (s' : App × Option Profile)
    (h : s.1.Matched ∧ Keeps s.1.world s.2) (hs : Runs.recorded step savedAfter s ev = some s') :
    s'.1.Matched ∧ Keeps s'.1.world s'.2 := by
  obtain ⟨a, saved⟩ := s
  obtain ⟨a', saved'⟩ := s'
  obtain ⟨hmatched, hkeeps⟩ := h
  obtain ⟨hstep, rfl⟩ : step a ev = some a' ∧ saved' = savedAfter saved a ev :=
    (Runs.recorded_eq_some _ _ _ _ ev).1 hs
  refine ⟨(appStep_device a a' ev hmatched hstep).2, ?_⟩
  show Keeps a'.world (savedAfter saved a ev)
  unfold savedAfter
  rcases step_cases a a' ev hmatched hstep with ⟨hev, hworld, -⟩ | ⟨e, hev, he, -⟩
  · rw [hev, hworld]
    exact hkeeps
  · rw [hev]
    exact keeps_step a.world a'.world e saved hkeeps he

/-- The app after a kill and a tap of the button of Start. -/
theorem run_relaunch (a : App) :
    Runs.run step a [.device .relaunch, .device .goToNextStorybaord] =
      some ⟨(World.launch a.world.defaults a.world.firebase a.world.server).goToNextStorybaord,
        [View.load (searchUserFromKeychain User.init a.world.defaults).2
          (searchUserFromKeychain User.init a.world.defaults).1.destination, .other .start]⟩ := by
  refine (Runs.run_cons_eq_some _ _ _ _ _).2
    ⟨⟨World.launch a.world.defaults a.world.firebase a.world.server, [.other .start]⟩, ?_, ?_⟩
  · refine (deviceStep_eq_some a _ .relaunch).2 ⟨⟨rfl, ?_⟩, _, rfl, rfl⟩
    exact List.all_eq_true.2 fun v _ => View.offers_of_ne _ (by simp) v
  · refine (Runs.run_cons_eq_some _ _ _ _ _).2 ⟨_, ?_, rfl⟩
    exact (deviceStep_eq_some _ _ .goToNextStorybaord).2 ⟨⟨rfl, rfl⟩, _, rfl, rfl⟩

theorem step_backToProfile (a : App) (hup : a.world.aborted = false)
    (hs : a.world.shows .makeNewConnect) :
    a.step (.device .backToProfile) = some ⟨a.world.presentOnTop .newProfile,
      .newProfile (.viewDidLoad a.world.user) :: a.views⟩ := by
  refine (deviceStep_eq_some a _ .backToProfile).2 ⟨⟨rfl, ?_⟩, a.world.presentOnTop .newProfile,
    (step_eq_some _ _ _).2 ⟨⟨hup, hs⟩, rfl⟩, ?_⟩
  · exact List.all_eq_true.2 fun v _ => View.offers_of_ne _ (by simp) v
  · rw [View.modifyHead_react _ (by simp)]
    rfl

/-- **A saved profile is back on screen after a kill.**  A device out of the box, any run
of the app on it, and a kill at its end.  If a profile has been saved since the last
sign-out, the button of Start leads to a connection screen without a code, and "back" to
a form with that profile; if not, it leads to the sign-in or to a blank form. -/
theorem relaunch_brings_back (w : World) (a : App) (saved : Option Profile) (es : List AppEvent)
    (h : FirstLaunch w)
    (hr : Runs.run (Runs.recorded step savedAfter) (launch w, none) es = some (a, saved)) :
    ∃ a', Runs.run step a [.device .relaunch, .device .goToNextStorybaord] = some a' ∧
      (∀ p, saved = some p → a'.views = [.makeNewConnect .storyboard, .other .start] ∧
        ∃ a'', a'.step (.device .backToProfile) = some a'' ∧
          frontView a''.views = some (.newProfile (.prefilled (some p)))) ∧
      (saved = none → a'.views = [.other .signIn, .other .start] ∨
        a'.views = [.newProfile (.prefilled none), .other .start]) := by
  obtain ⟨-, hkeeps⟩ := Runs.run_invariant _
    (fun s : App × Option Profile => s.1.Matched ∧ Keeps s.1.world s.2) keeps_appStep _ _ es
    ⟨matched_launch w, h.keeps⟩ hr
  obtain ⟨hsome, hnone⟩ := hkeeps.destination
  refine ⟨_, run_relaunch a, fun p hp => ?_, fun hs => ?_⟩
  · obtain ⟨hdest, hdata⟩ := hsome p hp
    have hcode : (searchUserFromKeychain User.init a.world.defaults).2.getUserData.bind
        (fun d => stringField d "connectionCode") = none := by
      unfold User.getUserData
      rw [hdata]
      exact (read_recordData (some p) none).2
    refine ⟨?_, ?_⟩
    · rw [hdest]
      show [View.makeNewConnect (.viewDidLoad _), View.other .start] = _
      unfold ConnectView.viewDidLoad
      rw [hcode]
    · refine ⟨_, step_backToProfile _ rfl (congrArg some hdest), ?_⟩
      show some (View.newProfile (.viewDidLoad (searchUserFromKeychain User.init
        a.world.defaults).2)) = _
      rw [viewDidLoad_recordData _ (some p) none hdata]
  · obtain ⟨hdata, hdest⟩ := hnone hs
    rcases hdest with hdest | hdest
    · refine Or.inl ?_
      rw [hdest]
      rfl
    · refine Or.inr ?_
      rw [hdest]
      show [View.newProfile (.viewDidLoad _), View.other .start] = _
      rw [viewDidLoad_recordData _ none none hdata]

/-- `A` asks for a code; then the process is killed. -/
theorem relaunch_brings_back_codeAskedFor :
    ∃ a a', Runs.run (Runs.recorded step savedAfter) (launch (newDevice ⟨∅, ∅⟩), none)
        codeAskedFor = some (a, some (formOfA "hello").toProfile) ∧
      Runs.run step a [.device .relaunch, .device .goToNextStorybaord] = some a' ∧
      ∃ a'', a'.step (.device .backToProfile) = some a'' ∧
        frontView a''.views = some (.newProfile (.prefilled (some (formOfA "hello").toProfile))) := by
  have hrun : (Runs.run (Runs.recorded step savedAfter) (launch (newDevice ⟨∅, ∅⟩), none)
      codeAskedFor).any (fun s => decide (s.2 = some (formOfA "hello").toProfile)) = true := by
    decide +kernel
  obtain ⟨⟨a, saved⟩, hs, hsaved⟩ := (Option.any_eq_true _ _).1 hrun
  obtain rfl : saved = some (formOfA "hello").toProfile := of_decide_eq_true hsaved
  obtain ⟨a', ha', hback, -⟩ := relaunch_brings_back (newDevice ⟨∅, ∅⟩) a _ codeAskedFor
    (firstLaunch_newDevice ⟨∅, ∅⟩) hs
  exact ⟨a, a', hs, ha', (hback _ rfl).2⟩

end App

end ProjectSY
