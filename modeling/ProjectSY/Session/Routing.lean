import ProjectSY.Session.Identity

/-!
# Where a sign-in leads

The completion of `Auth.signIn` asks `checkProfile` whether `users/<uid>` exists
and presents `newProfile` or `makeNewConnect`.  The fetch that could tell is only
requested at that moment; the answer is read off `User.shared.userData`, which an
earlier session or fetch has left there.

    RoutedRight doc r    what was presented and answered fits the document `doc`
    SameProfile m doc    the data in memory is there when the document is, and
                         both or neither carry a connectionToken

Whenever the fetch is answered, the routing is right for the document it finds
exactly when the data in memory was as good as that document (`routedRight_iff`).
-/

namespace ProjectSY

/-- The routing fits the document `users/<uid>`: `newProfile` when there is none,
`makeNewConnect` when there is one without a connectionToken, and `checkProfile`
says whether there is one. -/
structure RoutedRight (document : Option Dict) (s : SignedIn) : Prop where
  newProfile : s.presents = some .newProfile ↔ document = none
  makeNewConnect : s.presents = some .makeNewConnect ↔
    ∃ d, document = some d ∧ "connectionToken" ∉ d
  checkProfile : s.hasProfile = true ↔ document ≠ none

/-- For the routing the data in memory is as good as the document. -/
def SameProfile (memory document : Option Dict) : Prop :=
  (memory = none ∧ document = none) ∨
    ∃ m d, memory = some m ∧ document = some d ∧
      ("connectionToken" ∈ m ↔ "connectionToken" ∈ d)

/-- `checkProfile` answers whether there is data in memory. -/
theorem firebaseSignInCompletion_hasProfile (u : User) (d : UserDefaults) (uid : String) :
    (firebaseSignInCompletion u d uid).hasProfile = true ↔ u.userData ≠ none := by
  unfold firebaseSignInCompletion checkProfile User.setUserIdToken User.getUserData
  by_cases hd : u.userData = none
  · simp [hd]
  · simp [hd]

/-- With no data in memory the routing is right for a missing document only. -/
theorem routedRight_nothing (u : User) (d : UserDefaults) (uid : String) (document : Option Dict)
    (hu : u.userData = none) :
    RoutedRight document (firebaseSignInCompletion u d uid) ↔ document = none := by
  have hp : (firebaseSignInCompletion u d uid).presents = some .newProfile := by
    rw [firebaseSignInCompletion_presents, if_pos hu]
  constructor
  · intro h
    exact h.newProfile.1 hp
  · rintro rfl
    refine ⟨⟨fun _ => rfl, fun _ => hp⟩, ⟨fun h => ?_, ?_⟩, ⟨fun h => ?_, fun h => absurd rfl h⟩⟩
    · rw [hp] at h
      cases h
    · rintro ⟨d', hd', -⟩
      cases hd'
    · exact absurd hu ((firebaseSignInCompletion_hasProfile u d uid).1 h)

/-- With data in memory it is right for a document that has a connectionToken
exactly when the data has one. -/
theorem routedRight_data (u : User) (d : UserDefaults) (uid : String) (document : Option Dict)
    (m : Dict) (hu : u.userData = some m) :
    RoutedRight document (firebaseSignInCompletion u d uid) ↔
      ∃ e, document = some e ∧ ("connectionToken" ∈ m ↔ "connectionToken" ∈ e) := by
  have hhas := (firebaseSignInCompletion_hasProfile u d uid).2 (by rw [hu]; simp)
  have hpres : (firebaseSignInCompletion u d uid).presents =
      if "connectionToken" ∈ m then none else some .makeNewConnect := by
    rw [firebaseSignInCompletion_presents, if_neg (by rw [hu]; simp), hu]
    simp only [Option.bind_some, ne_eq, Finmap.lookup_eq_none, not_not]
  constructor
  · intro h
    obtain ⟨e, he⟩ := Option.ne_none_iff_exists'.1 (h.checkProfile.1 hhas)
    refine ⟨e, he, ?_⟩
    have hmake := h.makeNewConnect
    rw [hpres, he] at hmake
    by_cases hm : "connectionToken" ∈ m
    · simp only [hm, if_true, reduceCtorEq, Option.some.injEq, exists_eq_left', false_iff,
        not_not] at hmake
      exact ⟨fun _ => hmake, fun _ => hm⟩
    · simp only [hm, if_false, Option.some.injEq, exists_eq_left', true_iff] at hmake
      exact ⟨fun h' => absurd h' hm, fun h' => absurd h' hmake⟩
  · rintro ⟨e, rfl, hiff⟩
    refine ⟨?_, ?_, ⟨fun _ => Option.some_ne_none e, fun _ => hhas⟩⟩
    · rw [hpres]
      split <;> simp
    · rw [hpres]
      simp only [Option.some.injEq, exists_eq_left', ← hiff]
      split
      · next hm => simp [hm]
      · next hm => simp [hm]

/-- **When the routing is right.**  The completion of `Auth.signIn` leaves the
fetch under way and the data in memory as it was; what it presents is on top of the
stack if its controller was.  Whatever happens until the fetch is answered, the
controller that was presented and the answer of `checkProfile` fit the document which
the fetch finds exactly when the data in memory was the same profile. -/
theorem routedRight_iff (w w1 : World) (uid : String) (controller : Nat)
    (hs : step w (.authSignIn uid controller true) = some w1) :
    (.getDocument uid ∈ w1.callbacks ∧ w1.user.userData = w.user.userData ∧
      (controller + 1 = w.screens.length → w1.screens =
        (firebaseSignInCompletion w.user w.defaults uid).presents.toList ++ w.screens)) ∧
    ∀ (es : List Event) (w2 w3 : World) (source : Source) (seen : Nat),
      Runs.run step w1 es = some w2 → step w2 (.answer uid source seen) = some w3 →
      w2.fetchResult uid source seen ≠ .error →
      (RoutedRight ((w2.view source seen).doc "users" uid)
          (firebaseSignInCompletion w.user w.defaults uid) ↔
        SameProfile w.user.userData ((w2.view source seen).doc "users" uid)) := by
  refine ⟨?_, fun es w2 w3 source seen _ _ _ => ?_⟩
  · obtain ⟨-, rfl⟩ := (step_eq_some w w1 _).1 hs
    obtain ⟨screens, hw⟩ := authSignIn_fields w uid controller
    refine ⟨?_, ?_, fun hfront => ?_⟩
    · show _ ∈ (w.authSignIn uid controller true).callbacks
      rw [hw]
      exact List.mem_append_right _ (List.mem_singleton_self _)
    · show (w.authSignIn uid controller true).user.userData = _
      rw [hw]
      rfl
    · show (w.authSignIn uid controller true).screens = _
      unfold World.authSignIn
      simp only [if_true]
      cases (firebaseSignInCompletion w.user w.defaults uid).presents with
      | none => rfl
      | some screen =>
        simp only [World.present, if_pos hfront]
        rfl
  · unfold SameProfile
    cases hu : w.user.userData with
    | none =>
      rw [routedRight_nothing w.user w.defaults uid _ hu]
      simp
    | some m =>
      rw [routedRight_data w.user w.defaults uid _ m hu]
      simp

/-- `A` taps Google sign-in and picks the account. -/
def signingIn : List Event := [.goToNextStorybaord, .googleSignIn, .didSignIn (some "A")]

/-- The routing is not right from every reachable state: on a fresh install `A`,
who has a profile, is sent to `newProfile`. -/
theorem routing_fails :
    ¬ ∀ (w0 w w1 w2 w3 : World) (uid : String) (controller seen : Nat) (es fs : List Event),
      FirstLaunch w0 → Runs.run step w0 es = some w →
      step w (.authSignIn uid controller true) = some w1 → Runs.run step w1 fs = some w2 →
      step w2 (.answer uid .server seen) = some w3 →
      RoutedRight ((w2.view .server seen).doc "users" uid)
        (firebaseSignInCompletion w.user w.defaults uid) := by
  intro h
  have hbad : (Runs.run step (newDevice serverWithA) signingIn).any (fun w =>
      (step w (.authSignIn "A" 1 true)).any fun w1 => (step w1 (.answer "A" .server 0)).any fun _ =>
        decide ((w1.view .server 0).doc "users" "A" ≠ none ∧
          (firebaseSignInCompletion w.user w.defaults "A").hasProfile = false)) = true := by
    decide +kernel
  obtain ⟨w, hw, hbad⟩ := (Option.any_eq_true _ _).1 hbad
  obtain ⟨w1, hw1, hbad⟩ := (Option.any_eq_true _ _).1 hbad
  obtain ⟨w3, hw3, hbad⟩ := (Option.any_eq_true _ _).1 hbad
  obtain ⟨hdoc, hhas⟩ := of_decide_eq_true hbad
  have hright := h _ w w1 w1 w3 "A" 1 0 signingIn [] (firstLaunch_newDevice serverWithA) hw hw1
    (Runs.run_nil step w1) hw3
  rw [hright.checkProfile.2 hdoc] at hhas
  cases hhas

/-- After `lateFetch`, whose data is still in memory, `A` signs in again. -/
def signingInAgain : List Event := lateFetch ++ [.googleSignIn, .didSignIn (some "A")]

/-- On a fresh install the routing is right for an account without a profile; and for
`A`, who has one, when the data in memory happens to be there. -/
theorem routedRight_iff_newcomer :
    (∃ w w1 w3, Runs.run step (newDevice ⟨∅, ∅⟩) signingIn = some w ∧
      step w (.authSignIn "A" 1 true) = some w1 ∧ step w1 (.answer "A" .server 0) = some w3 ∧
      RoutedRight ((w1.view .server 0).doc "users" "A")
        (firebaseSignInCompletion w.user w.defaults "A")) ∧
    (∃ w w1 w3, Runs.run step (newDevice serverWithA) signingInAgain = some w ∧
      step w (.authSignIn "A" 3 true) = some w1 ∧ step w1 (.answer "A" .server 0) = some w3 ∧
      (w1.view .server 0).doc "users" "A" = some profileOfA ∧ w1.shows .makeNewConnect ∧
      RoutedRight ((w1.view .server 0).doc "users" "A")
        (firebaseSignInCompletion w.user w.defaults "A")) := by
  constructor
  · have hrun : (Runs.run step (newDevice ⟨∅, ∅⟩) signingIn).any (fun w =>
        (step w (.authSignIn "A" 1 true)).any fun w1 =>
          (step w1 (.answer "A" .server 0)).any fun _ =>
            decide (w.user.userData = none ∧ (w1.view .server 0).doc "users" "A" = none ∧
              w1.fetchResult "A" .server 0 ≠ .error)) = true := by
      decide +kernel
    obtain ⟨w, hw, hrun⟩ := (Option.any_eq_true _ _).1 hrun
    obtain ⟨w1, hw1, hrun⟩ := (Option.any_eq_true _ _).1 hrun
    obtain ⟨w3, hw3, hrun⟩ := (Option.any_eq_true _ _).1 hrun
    obtain ⟨hdata, hdoc, hok⟩ := of_decide_eq_true hrun
    exact ⟨w, w1, w3, hw, hw1, hw3, ((routedRight_iff w w1 "A" 1 hw1).2 [] w1 w3 .server 0
      (Runs.run_nil step w1) hw3 hok).2 (Or.inl ⟨hdata, hdoc⟩)⟩
  · have hrun : (Runs.run step (newDevice serverWithA) signingInAgain).any (fun w =>
        (step w (.authSignIn "A" 3 true)).any fun w1 =>
          (step w1 (.answer "A" .server 0)).any fun _ =>
            decide (w.user.userData = some profileOfA ∧
              (w1.view .server 0).doc "users" "A" = some profileOfA ∧
              w1.shows .makeNewConnect ∧ w1.fetchResult "A" .server 0 ≠ .error)) = true := by
      decide +kernel
    obtain ⟨w, hw, hrun⟩ := (Option.any_eq_true _ _).1 hrun
    obtain ⟨w1, hw1, hrun⟩ := (Option.any_eq_true _ _).1 hrun
    obtain ⟨w3, hw3, hrun⟩ := (Option.any_eq_true _ _).1 hrun
    obtain ⟨hdata, hdoc, hshows, hok⟩ := of_decide_eq_true hrun
    exact ⟨w, w1, w3, hw, hw1, hw3, hdoc, hshows, ((routedRight_iff w w1 "A" 3 hw1).2 [] w1 w3
      .server 0 (Runs.run_nil step w1) hw3 hok).2
      (Or.inr ⟨profileOfA, profileOfA, hdata, hdoc, Iff.rfl⟩)⟩

end ProjectSY
