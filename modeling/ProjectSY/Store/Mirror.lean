import ProjectSY.Session.Relaunch
import ProjectSY.Store.Writes

/-!
# Does the data in memory mirror the document?

A window of the account `u` opens when a fetch of `users/<u>` completes while `u`
is signed in, and lasts until the next sign-out or kill.

    Mirrors u w      the data in memory is `users/<u>` once the writes are applied
    OpensRight       what the fetch leaves in memory is the document
    KeepsMirror      a fetch brings the document as it is; a code is requested only
                     for a record without any other field

A saved profile is written alike to both.  A code is merged into the document and
takes the place of the data in memory, so the mirror breaks with the first code
(`mirror_breaks`); it holds all along a window exactly when the window opens right
and every step keeps it (`mirrors_iff`).
-/

namespace ProjectSY

def Mirrors (u : String) (w : World) : Prop := w.user.userData = (w.settledAs (some u)).doc "users" u

/-- The fetch that opens the window brings the document, or brings none while the
data in memory is the document already. -/
def OpensRight (u : String) (w : World) : FetchResult → Prop
  | .data d => (w.settledAs (some u)).doc "users" u = some d
  | .noDocument => w.user.userData = (w.settledAs (some u)).doc "users" u
  | .error => w.user.userData = (w.settledAs (some u)).doc "users" u

def KeepsMirror (u : String) (w : World) : Action → Prop
  | .fetched _ d => (w.settledAs (some u)).doc "users" u = some d
  | .requested _ => ∀ key ∈ (w.user.userData.getD ∅).keys, key = "connectionCode"
  | _ => True

instance (u : String) (w : World) (a : Action) : Decidable (KeepsMirror u w a) :=
  match a with
  | .fetched _ _ => inferInstanceAs (Decidable (_ = _))
  | .requested _ => inferInstanceAs (Decidable (∀ key ∈ Finmap.keys _, key = "connectionCode"))
  | .quiet | .launched | .restored | .saved _ _ _ | .signedIn _ | .signedOut =>
    inferInstanceAs (Decidable True)

/-- The events a window of `u` can hold: nobody else signs in, nobody signs out, the
process is not killed, and no write fails. -/
def Event.inWindow (u : String) : Event → Bool
  | .authSignIn uid _ ok => !ok || uid = u
  | .yes _ => false
  | .relaunch => false
  | .writeDone ok => ok
  | _ => true

/-- Replacing a record by the code and merging the code into it come to the same
exactly when it had no other field. -/
theorem codeData_union_iff (code : String) (d : Dict) :
    codeData code = codeData code ∪ d ↔ ∀ key ∈ d, key = "connectionCode" := by
  have hmem : ∀ key, key ∈ codeData code ↔ key = "connectionCode" :=
    fun key => Finmap.mem_singleton _ _ _
  rw [eq_comm, Records.union_eq_left_iff]
  simp only [hmem]

/-- `u` is signed in, to the app and to Firebase. -/
structure SessionOf (u : String) (w : World) : Prop where
  token : w.user.userIdToken = some u
  current : w.firebase.currentUser = some u

/-- In a run from a fresh install whoever is signed in to the app is signed in to both. -/
theorem Stored.sessionOf {w : World} (h : Stored w) (u : String)
    (ht : w.user.userIdToken = some u) : SessionOf u w :=
  ⟨ht, h.signedIn u ht⟩

/-! ## One step -/

/-- Firebase stays signed in as `u` through the window of `u`. -/
theorem current_inWindow (u : String) (w : World) (e : Event) (w' : World)
    (h : w.firebase.currentUser = some u) (he : e.inWindow u = true) (hs : step w e = some w') :
    w'.firebase.currentUser = some u := by
  rw [step_currentUser w w' e hs]
  cases e with
  | authSignIn uid controller ok =>
    cases ok with
    | false => exact h
    | true => exact congrArg some (of_decide_eq_true he)
  | yes ok => cases he
  | _ => exact h

/-- `u` stays signed in through its window. -/
theorem token_inWindow (u : String) (w : World) (e : Event) (w' : World) (hnav : NavInv w)
    (ht : w.user.userIdToken = some u) (he : e.inWindow u = true) (hs : step w e = some w') :
    w'.user.userIdToken = some u := by
  have hg := step_guard w w' e hs
  show w'.memory.token = some u
  rw [step_memory w w' e hnav hs]
  cases ha : e.action w with
  | launched =>
    rw [action_eq_launched w e ha] at he
    cases he
  | signedOut =>
    obtain ⟨ok, rfl⟩ := action_eq_signedOut w e ha
    cases he
  | signedIn uid =>
    obtain ⟨controller, rfl⟩ := action_eq_signedIn w e uid ha
    exact congrArg some (of_decide_eq_true he)
  | restored =>
    rw [ha] at hg
    rw [(hnav.start hg).1] at ht
    cases ht
  | _ => exact ht

/-- A step of the window keeps the mirror exactly when it meets `KeepsMirror`. -/
theorem mirrors_step (u : String) (w : World) (e : Event) (w' : World) (hnav : NavInv w)
    (hu : SessionOf u w) (h : Mirrors u w) (he : e.inWindow u = true)
    (hs : step w e = some w') : Mirrors u w' ↔ KeepsMirror u w (e.action w) := by
  obtain ⟨ht, hcurrent⟩ := hu
  have hg := step_guard w w' e hs
  have hfail : e ≠ .writeDone false := by
    rintro rfl
    cases he
  have hkept : Mirrors u w ↔ True := ⟨fun _ => trivial, fun _ => h⟩
  show w'.memory.data = (w'.settledAs (some u)).doc "users" u ↔ _
  rw [step_settledAs w w' e (some u) hs hfail (Or.inl hcurrent), if_pos hcurrent,
    step_memory w w' e hnav hs]
  cases ha : e.action w with
  | saved uid jpeg data =>
    rw [ha] at hg
    have huid : uid = u := Option.some.inj (hg.2.1.symm.trans ht)
    refine ⟨fun _ => trivial, fun _ => ?_⟩
    show some data = ((w.settledAs (some u)).settle (profileWrites uid data)).doc "users" u
    rw [users_settle_profileWrites, if_pos huid.symm]
  | requested n =>
    rw [ha] at hg
    obtain ⟨-, hd⟩ := hnav.ready_of_shows hg
    obtain ⟨d, hdata⟩ := Option.ne_none_iff_exists'.1 hd
    have hdoc : (w.settledAs (some u)).doc "users" u = some d := h.symm.trans hdata
    have hafter : ((w.settledAs (some u)).settle (getConnectionCode w.user n).1).doc "users" u =
        some (codeData (connectionCode n) ∪ d) := by
      rw [getConnectionCode_writes w.user n u ht, users_settle_codeWrites, if_pos rfl, hdoc]
      rfl
    show some (codeData (connectionCode n)) =
      ((w.settledAs (some u)).settle (getConnectionCode w.user n).1).doc "users" u ↔ _
    rw [hafter, Option.some.injEq, codeData_union_iff]
    show _ ↔ ∀ key ∈ (w.user.userData.getD ∅).keys, key = "connectionCode"
    rw [hdata]
    exact Iff.rfl
  | fetched uid d => exact eq_comm
  | quiet => exact hkept
  | signedIn uid => exact hkept
  | launched =>
    rw [action_eq_launched w e ha] at he
    cases he
  | signedOut =>
    obtain ⟨ok, rfl⟩ := action_eq_signedOut w e ha
    cases he
  | restored =>
    rw [ha] at hg
    rw [(hnav.start hg).1] at ht
    cases ht

/-! ## A whole window -/

/-- The fetch that opens the window. -/
theorem mirrors_opened (u : String) (w w' : World) (result : FetchResult)
    (hs : step w (.documentSnapshot u result) = some w') :
    (Mirrors u w' ↔ OpensRight u w result) ∧ w'.user.userIdToken = w.user.userIdToken := by
  have hset : w'.settledAs (some u) = w.settledAs (some u) := by
    have hwrites : ((Event.documentSnapshot u result).action w).writes w.user = [] := by
      cases result <;> rfl
    rw [step_settledAs w w' _ (some u) hs (by simp) (Or.inr (by simp)), hwrites, ite_self]
    rfl
  obtain ⟨hu, -⟩ := step_session w w' _ hs
  unfold Mirrors
  rw [hset, hu]
  cases result with
  | data d => exact ⟨eq_comm, rfl⟩
  | noDocument => exact ⟨Iff.rfl, rfl⟩
  | error => exact ⟨Iff.rfl, rfl⟩

/-- **When the mirror holds.**  After any launch, let `u` be signed in when a fetch of `users/<u>`
completes.  Along any sequence of saves, code requests and completed fetches, until
the next sign-out or kill, the data in memory is the document `users/<u>` once the
writes issued so far are applied, in every state, exactly when the fetch left the
document in memory, every later fetch brought it as it was by then, and codes were
requested only for a record without any other field. -/
theorem mirrors_iff (u : String) (w0 w1 w2 w : World) (es0 es : List Event)
    (result : FetchResult) (h0 : Launched w0) (hr0 : Runs.run step w0 es0 = some w1)
    (hu : SessionOf u w1)
    (hopen : step w1 (.documentSnapshot u result) = some w2)
    (hr : Runs.run step w2 es = some w) (hes : ∀ e ∈ es, e.inWindow u = true) :
    Runs.Always step (Mirrors u) w2 es ↔
      OpensRight u w1 result ∧ Runs.Meets step (fun w e => KeepsMirror u w (e.action w)) w2 es := by
  have hnav1 : NavInv w1 := navInv_reachable ⟨w0, es0, h0, hr0⟩
  have hnav2 : NavInv w2 := navInv_step w1 _ w2 hnav1 hopen
  obtain ⟨hiff, htok⟩ := mirrors_opened u w1 w2 result hopen
  have hwindow : Mirrors u w2 → (Runs.Always step (Mirrors u) w2 es ↔
      Runs.Meets step (fun w e => KeepsMirror u w (e.action w)) w2 es) := by
    intro hm
    refine Runs.always_iff_meets step (fun w => NavInv w ∧ SessionOf u w)
      (Mirrors u) (fun e => e.inWindow u = true) _ ?_ ?_ w2 w es
      ⟨hnav2, htok.trans hu.token, current_inWindow u w1 _ w2 hu.current rfl hopen⟩ hm hes hr
    · intro s e s' hI he hs
      exact ⟨navInv_step s e s' hI.1 hs, token_inWindow u s e s' hI.1 hI.2.token he hs,
        current_inWindow u s e s' hI.2.current he hs⟩
    · intro s e s' hI hP he hs
      exact mirrors_step u s e s' hI.1 hI.2 hP he hs
  constructor
  · intro ha
    have hm : Mirrors u w2 := ha [] List.nil_prefix w2 (Runs.run_nil step w2)
    exact ⟨hiff.1 hm, (hwindow hm).1 ha⟩
  · rintro ⟨ho, hk⟩
    exact (hwindow (hiff.2 ho)).2 hk

/-- `A` signs in; the fetch is answered and is about to complete. -/
def fetchAnswered : List Event :=
  [.goToNextStorybaord] ++ signInAs "A" 1 ++ [.answer "A" .server 0]

/-- The profile `A` saves next. -/
def nextForm : ProfileForm := formOfA "hi"

/-- The mirror does not always hold: after the first code the data in memory is the
code alone. -/
theorem mirror_breaks :
    ¬ ∀ (u : String) (w0 w1 w2 w : World) (es0 es : List Event) (result : FetchResult),
      FirstLaunch w0 → Runs.run step w0 es0 = some w1 → SessionOf u w1 →
      step w1 (.documentSnapshot u result) = some w2 → result ≠ .error →
      Runs.run step w2 es = some w → (∀ e ∈ es, e.inWindow u = true) → w.Idle →
      w.user.userData = w.server.doc "users" u := by
  intro h
  have hbad : (Runs.run step (newDevice serverWithA) fetchAnswered).any (fun w1 =>
      decide (w1.user.userIdToken = some "A" ∧ w1.firebase.currentUser = some "A") &&
      (step w1 (.documentSnapshot "A" (.data profileOfA))).any fun w2 =>
        (Runs.run step w2 ([.finishWritingProfile nextForm, .getConnectionCode 7] ++
          List.replicate 3 (.writeDone true) ++ [.uploadDone 0 true])).any fun w =>
            decide (w.Idle ∧ w.user.userData ≠ w.server.doc "users" "A")) = true := by
    decide +kernel
  obtain ⟨w1, hw1, hbad⟩ := (Option.any_eq_true _ _).1 hbad
  rw [Bool.and_eq_true, decide_eq_true_eq] at hbad
  obtain ⟨⟨ht, hcurrent⟩, hbad⟩ := hbad
  obtain ⟨w2, hw2, hbad⟩ := (Option.any_eq_true _ _).1 hbad
  obtain ⟨w, hw, hbad⟩ := (Option.any_eq_true _ _).1 hbad
  obtain ⟨ho, hne⟩ := of_decide_eq_true hbad
  exact hne (h "A" _ w1 w2 w _ _ _ (firstLaunch_newDevice serverWithA) hw1 ⟨ht, hcurrent⟩ hw2
    (by simp) hw (by decide) ho)

/-- A window with a saved profile and no code. -/
theorem mirrors_iff_saved :
    ∃ w1 w2, Runs.run step (newDevice serverWithA) fetchAnswered = some w1 ∧
      step w1 (.documentSnapshot "A" (.data profileOfA)) = some w2 ∧
      Runs.Always step (Mirrors "A") w2 [.finishWritingProfile nextForm, .writeDone true] := by
  have hrun : (Runs.run step (newDevice serverWithA) fetchAnswered).any (fun w1 =>
      decide (w1.user.userIdToken = some "A" ∧ w1.firebase.currentUser = some "A" ∧
        (w1.settledAs (some "A")).doc "users" "A" = some profileOfA) &&
      (step w1 (.documentSnapshot "A" (.data profileOfA))).any fun w2 =>
        (Runs.run step w2 [.finishWritingProfile nextForm, .writeDone true]).any fun _ =>
          Runs.meetsB step (fun w e => KeepsMirror "A" w (e.action w)) w2
            [.finishWritingProfile nextForm, .writeDone true]) = true := by
    decide +kernel
  obtain ⟨w1, hw1, hrun⟩ := (Option.any_eq_true _ _).1 hrun
  rw [Bool.and_eq_true, decide_eq_true_eq] at hrun
  obtain ⟨⟨ht, hcurrent, hdoc⟩, hrun⟩ := hrun
  obtain ⟨w2, hw2, hrun⟩ := (Option.any_eq_true _ _).1 hrun
  obtain ⟨w, hw, hmeets⟩ := (Option.any_eq_true _ _).1 hrun
  refine ⟨w1, w2, hw1, hw2, (mirrors_iff "A" _ w1 w2 w _ _ _ (launched_newDevice serverWithA)
    hw1 ⟨ht, hcurrent⟩ hw2 hw (by decide)).2 ⟨hdoc, ?_⟩⟩
  exact Runs.meets_of_meetsB _ _ _ _ hmeets

end ProjectSY
