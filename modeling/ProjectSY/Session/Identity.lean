import ProjectSY.Session.Copies

/-!
# Whose data the session holds

The app keeps no record of whose data `User.shared.userData` is.  `Owners` is
that record, kept beside the state: the account the data in memory, and the data
on disk, was fetched for, saved by or made for.  Nothing reads it back.

    SessionIdentity   data in memory is owned by the user id in memory, data on
                      disk by the user id on disk; no data without a user id
    SameAccount       what an event has to meet for this to stay so

The completions of `Auth.signIn` and `getDocument` write the session without a
look at whose it is, so identity fails (`sessionIdentity_fails`): it holds along
a run exactly when every event of the run meets `SameAccount`
(`sessionIdentity_iff`).
-/

namespace ProjectSY

/-- The owner of the data in `User.shared` and of the data in `UserDefaults`. -/
structure Owners where
  memory : Option String
  disk : Option String
  deriving DecidableEq

def Owners.init : Owners := ⟨none, none⟩

/-- The owners after an action taken in `w`. -/
def Owners.after (o : Owners) (w : World) : Action → Owners
  | .quiet => o
  | .launched => { o with memory := none }
  | .restored => { o with memory := o.disk }
  | .signedIn _ => o
  | .fetched uid _ => { o with memory := some uid }
  | .saved uid _ _ => ⟨some uid, some uid⟩
  | .requested _ => { o with memory := w.user.userIdToken }
  | .signedOut => ⟨none, none⟩

/-- A step of the device with the owners kept beside it. -/
def ownedStep (s : World × Owners) (e : Event) : Option (World × Owners) :=
  (step s.1 e).map fun w => (w, s.2.after s.1 (e.action s.1))

theorem ownedStep_eq_some (s s' : World × Owners) (e : Event) :
    ownedStep s e = some s' ↔
      step s.1 e = some s'.1 ∧ s'.2 = s.2.after s.1 (e.action s.1) :=
  Runs.recorded_eq_some step (fun (o : Owners) w (e : Event) => o.after w (e.action w)) s s' e

/-- Every run of the device is a run with owners. -/
theorem ownedRun_of_run (w w' : World) (o : Owners) (es : List Event)
    (hr : Runs.run step w es = some w') :
    ∃ o', Runs.run ownedStep (w, o) es = some (w', o') :=
  Runs.recorded_of_run step (fun (o : Owners) w (e : Event) => o.after w (e.action w)) w w' o es hr

/-! ## Identity -/

/-- If there is data there is a user id, and it owns the data. -/
def Owned (data : Option Dict) (userIdToken owner : Option String) : Prop :=
  data ≠ none → userIdToken ≠ none ∧ owner = userIdToken

instance (data : Option Dict) (userIdToken owner : Option String) :
    Decidable (Owned data userIdToken owner) :=
  inferInstanceAs (Decidable (_ → _))

structure SessionIdentity (s : World × Owners) : Prop where
  memory : Owned s.1.user.userData s.1.user.userIdToken s.2.memory
  disk : Owned (s.1.defaults.dictionary "userData") (s.1.defaults.string "userIdToken") s.2.disk

/-- What an action has to meet: a user who signs in finds no data of another
user, in memory or on disk, and a document that arrives is the document of the
user who is signed in. -/
def SameAccount (w : World) : Action → Prop
  | .signedIn uid =>
    (w.user.userData = none ∨ w.user.userIdToken = some uid) ∧
    (w.defaults.dictionary "userData" = none ∨ w.defaults.string "userIdToken" = some uid)
  | .fetched uid _ => w.user.userIdToken = some uid
  | _ => True

instance (w : World) (a : Action) : Decidable (SameAccount w a) :=
  match a with
  | .signedIn _ => inferInstanceAs (Decidable (_ ∧ _))
  | .fetched _ _ => inferInstanceAs (Decidable (_ = _))
  | .quiet | .launched | .restored | .saved _ _ _ | .requested _ | .signedOut =>
    inferInstanceAs (Decidable True)

theorem owned_none (t o : Option String) : Owned none t o := fun h => absurd rfl h

/-- Data owned by `t` stays owned when `uid` takes the place of `t` exactly when
there is none or `t` is `uid`. -/
theorem owned_signIn (data : Option Dict) (t o : Option String) (uid : String)
    (h : Owned data t o) : Owned data (some uid) o ↔ data = none ∨ t = some uid := by
  constructor
  · intro h'
    by_cases hd : data = none
    · exact Or.inl hd
    · exact Or.inr ((h hd).2.symm.trans (h' hd).2)
  · rintro (rfl | rfl)
    · exact owned_none _ _
    · exact h

/-! ## One step -/

/-- A step keeps identity exactly when it meets `SameAccount`. -/
theorem sessionIdentity_step (s : World × Owners) (e : Event) (s' : World × Owners)
    (hst : Stored s.1) (hi : SessionIdentity s) (hs : ownedStep s e = some s') :
    SessionIdentity s' ↔ SameAccount s.1 (e.action s.1) := by
  obtain ⟨w, o⟩ := s
  obtain ⟨w', o'⟩ := s'
  obtain ⟨hw, rfl⟩ : step w e = some w' ∧ o' = o.after w (e.action w) :=
    (ownedStep_eq_some _ _ e).1 hs
  have hg := step_guard w w' e hw
  have hiff : ∀ w o, SessionIdentity (w, o) ↔
      Owned w.memory.data w.memory.token o.memory ∧ Owned w.disk.data w.disk.token o.disk :=
    fun w o => ⟨fun h => ⟨h.memory, h.disk⟩, fun h => ⟨h.1, h.2⟩⟩
  obtain ⟨him, hid⟩ := (hiff w o).1 hi
  rw [hiff, step_memory w w' e hst.nav hw, step_disk w w' e hst.own hw]
  cases ha : e.action w with
  | quiet => exact ⟨fun _ => trivial, fun _ => ⟨him, hid⟩⟩
  | launched => exact ⟨fun _ => trivial, fun _ => ⟨owned_none _ _, hid⟩⟩
  | restored =>
    refine ⟨fun _ => trivial, fun _ => ⟨?_, hid⟩⟩
    show Owned w.disk.restored.data w.disk.restored.token o.disk
    unfold Session.restored
    split
    · exact owned_none _ _
    · exact hid
  | signedIn uid =>
    show Owned w.memory.data (some uid) o.memory ∧ Owned w.disk.data (some uid) o.disk ↔ _
    rw [owned_signIn _ _ _ uid him, owned_signIn _ _ _ uid hid]
    rfl
  | fetched uid d =>
    show Owned (some d) w.memory.token (some uid) ∧ Owned w.disk.data w.disk.token o.disk ↔
      w.memory.token = some uid
    constructor
    · rintro ⟨h, -⟩
      exact (h (Option.some_ne_none d)).2.symm
    · intro h
      exact ⟨fun _ => ⟨by rw [h]; exact Option.some_ne_none uid, h.symm⟩, hid⟩
  | saved uid jpeg data =>
    rw [ha] at hg
    have htoken : w.memory.token = some uid := hg.2.1
    have hstored : w.disk.token = some uid := hst.token uid hg.2.1
    refine ⟨fun _ => trivial, fun _ => ⟨fun _ => ?_, fun _ => ?_⟩⟩
    · show w.memory.token ≠ none ∧ some uid = w.memory.token
      rw [htoken]
      exact ⟨Option.some_ne_none uid, rfl⟩
    · show w.disk.token ≠ none ∧ some uid = w.disk.token
      rw [hstored]
      exact ⟨Option.some_ne_none uid, rfl⟩
  | requested n =>
    rw [ha] at hg
    exact ⟨fun _ => trivial, fun _ => ⟨fun _ => ⟨(hst.nav.ready_of_shows hg).1, rfl⟩, hid⟩⟩
  | signedOut => exact ⟨fun _ => trivial, fun _ => ⟨owned_none _ _, owned_none _ _⟩⟩

theorem FirstLaunch.sessionIdentity {w : World} (h : FirstLaunch w) :
    SessionIdentity (w, Owners.init) := by
  obtain ⟨defaults, currentUser, server, hf, rfl⟩ := h
  refine ⟨owned_none _ _, ?_⟩
  show Owned (defaults.dictionary "userData") _ _
  rw [hf.dictionary]
  exact owned_none _ _

/-! ## Whole runs -/

instance (s : World × Owners) : Decidable (SessionIdentity s) :=
  decidable_of_iff
    (Owned s.1.user.userData s.1.user.userIdToken s.2.memory ∧
      Owned (s.1.defaults.dictionary "userData") (s.1.defaults.string "userIdToken") s.2.disk)
    ⟨fun h => ⟨h.1, h.2⟩, fun h => ⟨h.memory, h.disk⟩⟩

def profileOfA : Dict := profileData "Ann" "1999.01.31" "010-1234-5678" "hello"

/-- The profile of `A` as the form shows it. -/
def formOfA (comment : String) : ProfileForm :=
  ⟨⟨"Ann"⟩, ⟨"1999.01.31"⟩, ⟨"010-1234-5678"⟩, ⟨comment⟩, true, some ⟨some [1]⟩⟩

def serverWithA : Server := ⟨Finmap.singleton ("users", "A") profileOfA, ∅⟩

/-- `A` signs in and, before the fetch of `users/A` completes, out. -/
def lateFetch : List Event :=
  [.goToNextStorybaord] ++ signInAs "A" 1 ++ [.backToSignIn, .yes true, .answer "A" .server 0,
    .documentSnapshot "A" (.data profileOfA)]

/-- Identity does not hold in every state: a fetch that completes after the
sign-out leaves data of `A` in the session of nobody. -/
theorem sessionIdentity_fails :
    ¬ ∀ (w0 : World) (es : List Event) (s : World × Owners), FirstLaunch w0 →
      Runs.run ownedStep (w0, Owners.init) es = some s → SessionIdentity s := by
  intro h
  have hbad : (Runs.run ownedStep (newDevice serverWithA, Owners.init) lateFetch).any
      (fun s => decide (¬ SessionIdentity s)) = true := by
    decide +kernel
  obtain ⟨s, hs, hn⟩ := (Option.any_eq_true _ _).1 hbad
  exact of_decide_eq_true hn (h _ _ s (firstLaunch_newDevice serverWithA) hs)

/-- **When identity holds.**  Along a run from a fresh install, with any number
of sign-ins, sign-outs, saves, code requests and relaunches and with the
completions in any order, the data in memory and on disk is the data of its user
id in every state exactly when every completion runs for the account that is
signed in by then. -/
theorem sessionIdentity_iff (w0 w : World) (es : List Event) (h0 : FirstLaunch w0)
    (hr : Runs.run step w0 es = some w) :
    Runs.Always ownedStep SessionIdentity (w0, Owners.init) es ↔
      Runs.Meets ownedStep (fun s e => SameAccount s.1 (e.action s.1)) (w0, Owners.init) es := by
  obtain ⟨o, hro⟩ := ownedRun_of_run w0 w Owners.init es hr
  refine Runs.always_iff_meets ownedStep (fun s => Stored s.1) SessionIdentity (fun _ => True) _
    ?_ ?_ (w0, Owners.init) (w, o) es h0.stored h0.sessionIdentity (fun _ _ => trivial) hro
  · intro s e s' hst _ hs
    exact stored_step s.1 e s'.1 hst ((ownedStep_eq_some s s' e).1 hs).1
  · intro s e s' hst hP _ hs
    exact sessionIdentity_step s e s' hst hP hs

/-- `A` signs in and the fetch completes before anything else happens. -/
theorem sessionIdentity_iff_signedIn :
    Runs.Always ownedStep SessionIdentity (newDevice serverWithA, Owners.init)
      ([.goToNextStorybaord] ++ signInAs "A" 1 ++ [.answer "A" .server 0,
        .documentSnapshot "A" (.data profileOfA)]) := by
  have hrun : (Runs.run step (newDevice serverWithA)
      ([.goToNextStorybaord] ++ signInAs "A" 1 ++ [.answer "A" .server 0,
        .documentSnapshot "A" (.data profileOfA)])).any (fun _ => true) = true := by
    decide +kernel
  obtain ⟨w, hw, -⟩ := (Option.any_eq_true _ _).1 hrun
  refine (sessionIdentity_iff _ w _ (firstLaunch_newDevice serverWithA) hw).2 ?_
  exact Runs.meets_of_meetsB _ _ _ _ (by decide +kernel)

end ProjectSY
