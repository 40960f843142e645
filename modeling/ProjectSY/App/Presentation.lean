import ProjectSY.App.Navigation

/-!
# What an event does to the presentation stack

`Event.move` is what an event presents or dismisses, decided by the session and by
nothing that is on the stack but its height.  It is stated for a stack of anything that
can be loaded for a screen: of screens it is what a step does (`perform_screens`), and
the controllers with what they show follow it as well.

`step_answers` is the other queue of a device: which answers wait for their
completion.
-/

namespace ProjectSY

inductive StackMove where
  | stay
  | push (s : Screen)
  | pop
  | swap (s : Screen)
  | reset
  deriving DecidableEq

/-- The stack after the move; `load` is what a controller that is presented shows. -/
def StackMove.apply {α : Type*} (load : Screen → α) : StackMove → List α → List α
  | .stay, stack => stack
  | .push s, stack => load s :: stack
  | .pop, stack => stack.tail
  | .swap s, stack => load s :: stack.tail
  | .reset, _ => [load .start]

theorem StackMove.map_apply {α β : Type*} (f : α → β) (load : Screen → α) (m : StackMove)
    (stack : List α) : (m.apply load stack).map f = m.apply (fun s => f (load s)) (stack.map f) := by
  cases m with
  | stay => rfl
  | push s => rfl
  | pop => exact List.map_tail
  | swap s => exact congrArg (f (load s) :: ·) List.map_tail
  | reset => rfl

/-- What a form that has been sent off presents. -/
def FinishResult.move : FinishResult → StackMove
  | .saved _ _ _ => .push .makeNewConnect
  | .alertNoPicture => .push .alert
  | .alertInput => .push .alert
  | _ => .stay

theorem FinishResult.move_cases (r : FinishResult) :
    r.move = .stay ∨ r.move = .push .makeNewConnect ∨ r.move = .push .alert := by
  cases r with
  | saved uid jpeg data => exact Or.inr (Or.inl rfl)
  | alertNoPicture => exact Or.inr (Or.inr rfl)
  | alertInput => exact Or.inr (Or.inr rfl)
  | _ => exact Or.inl rfl

/-- What a completion of `Auth.signIn` presents, if its controller is frontmost. -/
def World.signInMove (w : World) (uid : String) (controller : Nat) : StackMove :=
  match (firebaseSignInCompletion w.user w.defaults uid).presents with
  | some screen => if controller + 1 = w.screens.length then .push screen else .stay
  | none => .stay

theorem signInMove_cases (w : World) (uid : String) (controller : Nat) :
    w.signInMove uid controller = .stay ∨ w.signInMove uid controller = .push .newProfile ∨
      w.signInMove uid controller = .push .makeNewConnect := by
  unfold World.signInMove
  rw [firebaseSignInCompletion_presents]
  by_cases hlen : controller + 1 = w.screens.length
  · simp only [if_pos hlen]
    by_cases hd : w.user.userData = none
    · simp [hd]
    · rw [if_neg hd]
      split
      · next screen hs =>
        split at hs
        · cases hs
        · cases hs
          exact Or.inr (Or.inr rfl)
      · exact Or.inl rfl
  · simp only [if_neg hlen]
    split <;> exact Or.inl rfl

def Event.move (w : World) : Event → StackMove
  | .goToNextStorybaord => .push (searchUserFromKeychain w.user w.defaults).1.destination
  | .authSignIn uid controller true => w.signInMove uid controller
  | .finishWritingProfile form => (ProjectSY.finishWritingProfile form w.user).move
  | .backToSignIn => .push .signOutAlert
  | .no => .pop
  | .yes _ => .swap .signIn
  | .backToProfile => .push .newProfile
  | .presentAlert => .push .alert
  | .dismissAlert => .pop
  | .relaunch => .reset
  | _ => .stay

/-- **The stack after an event.** -/
theorem perform_screens (w : World) (e : Event) :
    (perform w e).screens = (e.move w).apply id w.screens := by
  cases e with
  | authSignIn uid controller ok =>
    cases ok with
    | false => rfl
    | true =>
      show (w.authSignIn uid controller true).screens =
        (w.signInMove uid controller).apply id w.screens
      unfold World.authSignIn World.signInMove
      simp only [if_true]
      cases (firebaseSignInCompletion w.user w.defaults uid).presents with
      | none => rfl
      | some screen =>
        simp only
        unfold World.present
        split <;> rfl
  | didSignIn account =>
    obtain ⟨callbacks, h⟩ := didSignIn_fields w account
    show (w.didSignIn account).screens = _
    rw [h]
    rfl
  | finishWritingProfile form =>
    show (w.finishWritingProfile form).screens =
      (finishWritingProfile form w.user).move.apply id w.screens
    unfold World.finishWritingProfile
    cases finishWritingProfile form w.user <;> rfl
  | getConnectionCode n =>
    show (w.getConnectionCode n).screens = w.screens
    unfold World.getConnectionCode
    rcases getConnectionCode w.user n with ⟨writes, _ | user⟩
    · rfl
    · rfl
  | writeDone ok =>
    show (w.writeDone ok).screens = w.screens
    unfold World.writeDone
    split <;> rfl
  | uploadDone task ok =>
    show (w.uploadDone task ok).screens = w.screens
    unfold World.uploadDone
    split <;> rfl
  | goToNextStorybaord => rfl
  | googleSignIn => rfl
  | answer uid source seen => rfl
  | documentSnapshot uid result => rfl
  | backToSignIn => rfl
  | no => rfl
  | yes ok => rfl
  | backToProfile => rfl
  | presentAlert => rfl
  | dismissAlert => rfl
  | relaunch => rfl

/-- Sign-in and the finish button present something or nothing; they dismiss nothing. -/
theorem authSignIn_move (w : World) (uid : String) (controller : Nat) (ok : Bool) :
    (Event.authSignIn uid controller ok).move w = .stay ∨
      ∃ s, (Event.authSignIn uid controller ok).move w = .push s ∧
        (s = .newProfile ∨ s = .makeNewConnect) := by
  cases ok with
  | false => exact Or.inl rfl
  | true =>
    rcases signInMove_cases w uid controller with hm | hm | hm
    · exact Or.inl hm
    · exact Or.inr ⟨_, hm, Or.inl rfl⟩
    · exact Or.inr ⟨_, hm, Or.inr rfl⟩

theorem finishWritingProfile_move (w : World) (form : ProfileForm) :
    (Event.finishWritingProfile form).move w = .stay ∨
      ∃ s, (Event.finishWritingProfile form).move w = .push s ∧
        (s = .makeNewConnect ∨ s = .alert) := by
  rcases (finishWritingProfile form w.user).move_cases with hm | hm | hm
  · exact Or.inl hm
  · exact Or.inr ⟨_, hm, Or.inl rfl⟩
  · exact Or.inr ⟨_, hm, Or.inr rfl⟩

/-- The home screen is presented only with a connection token on the disk. -/
theorem move_home (w : World) (e : Event) (h : e.move w = .push .mainHome) :
    w.defaults.string "connectionToken" ≠ none := by
  cases e with
  | goToNextStorybaord =>
    intro hc
    have hdest : (searchUserFromKeychain w.user w.defaults).1.destination = .mainHome :=
      StackMove.push.inj h
    unfold searchUserFromKeychain at hdest
    rw [hc] at hdest
    split at hdest
    · split at hdest
      · cases hdest
      · cases hdest
    · cases hdest
  | authSignIn uid controller ok =>
    rcases authSignIn_move w uid controller ok with hm | ⟨s, hm, hs⟩
    · rw [h] at hm; cases hm
    · rw [h] at hm; cases hm; simp at hs
  | finishWritingProfile form =>
    rcases finishWritingProfile_move w form with hm | ⟨s, hm, hs⟩
    · rw [h] at hm; cases hm
    · rw [h] at hm; cases hm; simp at hs
  | _ => cases h

/-- Only a sign-out puts a controller in the place of another. -/
theorem move_swap (w : World) (e : Event) (s : Screen) (h : e.move w = .swap s) :
    (∃ ok, e = .yes ok) ∧ s = .signIn := by
  cases e with
  | yes ok => cases h; exact ⟨⟨ok, rfl⟩, rfl⟩
  | authSignIn uid controller ok =>
    rcases authSignIn_move w uid controller ok with hm | ⟨s, hm, -⟩ <;> rw [h] at hm <;> cases hm
  | finishWritingProfile form =>
    rcases finishWritingProfile_move w form with hm | ⟨s, hm, -⟩ <;> rw [h] at hm <;> cases hm
  | _ => cases h

/-- Only a launch starts the stack anew. -/
theorem move_reset (w : World) (e : Event) (h : e.move w = .reset) : e = .relaunch := by
  cases e with
  | relaunch => rfl
  | authSignIn uid controller ok =>
    rcases authSignIn_move w uid controller ok with hm | ⟨s, hm, -⟩ <;> rw [h] at hm <;> cases hm
  | finishWritingProfile form =>
    rcases finishWritingProfile_move w form with hm | ⟨s, hm, -⟩ <;> rw [h] at hm <;> cases hm
  | _ => cases h

/-- Only an alert is dismissed. -/
theorem move_pop (w : World) (e : Event) (h : e.move w = .pop) (hen : enabled w e) :
    ∃ s, w.shows s ∧ (s = .alert ∨ s = .signOutAlert) := by
  cases e with
  | no => exact ⟨_, hen.2, Or.inr rfl⟩
  | dismissAlert => exact ⟨_, hen.2, Or.inl rfl⟩
  | authSignIn uid controller ok =>
    rcases authSignIn_move w uid controller ok with hm | ⟨s, hm, -⟩ <;> rw [h] at hm <;> cases hm
  | finishWritingProfile form =>
    rcases finishWritingProfile_move w form with hm | ⟨s, hm, -⟩ <;> rw [h] at hm <;> cases hm
  | _ => cases h

/-- An alert is presented by a controller. -/
theorem move_alert (w : World) (e : Event) (s : Screen) (h : e.move w = .push s)
    (hs : s = .alert ∨ s = .signOutAlert) (hen : enabled w e) :
    ∃ t, w.shows t ∧ t.presentsAlerts = true := by
  cases e with
  | presentAlert =>
    obtain ⟨t, ht, hp⟩ := Option.map_eq_some_iff.1 hen.2
    exact ⟨t, ht, hp⟩
  | backToSignIn => exact ⟨.newProfile, hen.2, rfl⟩
  | finishWritingProfile form => exact ⟨.newProfile, hen.2, rfl⟩
  | backToProfile => exact ⟨.makeNewConnect, hen.2, rfl⟩
  | goToNextStorybaord =>
    obtain ⟨-, ha, ho⟩ := destination_ne (searchUserFromKeychain w.user w.defaults).1
    have hdest : (searchUserFromKeychain w.user w.defaults).1.destination = s := StackMove.push.inj h
    rcases hs with rfl | rfl
    · exact absurd hdest ha
    · exact absurd hdest ho
  | authSignIn uid controller ok =>
    rcases authSignIn_move w uid controller ok with hm | ⟨s', hm, hs'⟩
    · rw [h] at hm; cases hm
    · rw [h] at hm; cases hm
      rcases hs' with rfl | rfl <;> simp at hs
  | _ => cases h

theorem step_home (w w' : World) (e : Event) (h : step w e = some w')
    (hm : .mainHome ∈ w'.screens) :
    .mainHome ∈ w.screens ∨ w.defaults.string "connectionToken" ≠ none := by
  obtain ⟨-, rfl⟩ := (step_eq_some w w' e).1 h
  have hhome := move_home w e
  rw [perform_screens] at hm
  cases hmove : e.move w with
  | stay => rw [hmove] at hm; exact Or.inl hm
  | push s =>
    rw [hmove] at hm
    rcases List.mem_cons.1 hm with hs | hm
    · exact Or.inr (hhome (by rw [hmove]; exact congrArg StackMove.push hs.symm))
    · exact Or.inl hm
  | pop => rw [hmove] at hm; exact Or.inl (List.mem_of_mem_tail hm)
  | swap s =>
    rw [hmove] at hm
    rcases List.mem_cons.1 hm with hs | hm
    · rw [(move_swap w e s hmove).2] at hs
      cases hs
    · exact Or.inl (List.mem_of_mem_tail hm)
  | reset =>
    rw [hmove] at hm
    cases List.mem_singleton.1 hm

/-- An answer that waits for its completion was waiting before, or is read now. -/
theorem step_answers (w w' : World) (e : Event) (h : step w e = some w') (uid : String)
    (result : FetchResult) (hm : .documentSnapshot uid result ∈ w'.callbacks) :
    .documentSnapshot uid result ∈ w.callbacks ∨
      ∃ source seen, e = .answer uid source seen ∧ result = w.fetchResult uid source seen := by
  obtain ⟨-, rfl⟩ := (step_eq_some w w' e).1 h
  have hsame : ∀ w' : World, w'.callbacks = w.callbacks →
      .documentSnapshot uid result ∈ w'.callbacks →
      .documentSnapshot uid result ∈ w.callbacks := by
    intro w' hw hm
    rw [hw] at hm
    exact hm
  -- one callback is taken away, and one that is no answer may be added
  have herase : ∀ c c' : Callback, (∀ r, c' ≠ .documentSnapshot uid r) →
      .documentSnapshot uid result ∈ w.callbacks.erase c ++ [c'] →
      .documentSnapshot uid result ∈ w.callbacks := by
    intro c c' hc' hm
    rcases List.mem_append.1 hm with hm | hm
    · exact List.mem_of_mem_erase hm
    · exact absurd (List.mem_singleton.1 hm).symm (hc' result)
  cases e with
  | googleSignIn =>
    rcases List.mem_append.1 hm with hm | hm
    · exact Or.inl hm
    · cases List.mem_singleton.1 hm
  | didSignIn account =>
    refine Or.inl ?_
    have hm' : .documentSnapshot uid result ∈ (w.didSignIn account).callbacks := hm
    unfold World.didSignIn at hm'
    dsimp only at hm'
    split at hm'
    · exact herase _ _ (fun r hr => by cases hr) hm'
    · exact List.mem_of_mem_erase hm'
  | authSignIn uid' controller ok =>
    refine Or.inl ?_
    cases ok with
    | false => exact List.mem_of_mem_erase hm
    | true =>
      obtain ⟨screens, hw⟩ := authSignIn_fields w uid' controller
      have hm' : .documentSnapshot uid result ∈ (w.authSignIn uid' controller true).callbacks := hm
      rw [hw] at hm'
      exact herase _ _ (fun r hr => by cases hr) hm'
  | answer uid' source seen =>
    rcases List.mem_append.1 hm with hm | hm
    · exact Or.inl (List.mem_of_mem_erase hm)
    · cases List.mem_singleton.1 hm
      exact Or.inr ⟨source, seen, rfl, rfl⟩
  | documentSnapshot uid' r => exact Or.inl (List.mem_of_mem_erase hm)
  | finishWritingProfile form =>
    refine Or.inl (hsame _ ?_ hm)
    show (w.finishWritingProfile form).callbacks = _
    unfold World.finishWritingProfile
    cases finishWritingProfile form w.user <;> rfl
  | getConnectionCode n =>
    refine Or.inl (hsame _ ?_ hm)
    show (w.getConnectionCode n).callbacks = _
    unfold World.getConnectionCode
    rcases getConnectionCode w.user n with ⟨writes, _ | user⟩ <;> rfl
  | writeDone ok =>
    refine Or.inl (hsame _ ?_ hm)
    show (w.writeDone ok).callbacks = _
    unfold World.writeDone
    split <;> rfl
  | uploadDone task ok =>
    refine Or.inl (hsame _ ?_ hm)
    show (w.uploadDone task ok).callbacks = _
    unfold World.uploadDone
    split <;> rfl
  | goToNextStorybaord => exact Or.inl hm
  | backToSignIn => exact Or.inl hm
  | no => exact Or.inl hm
  | yes ok => exact Or.inl hm
  | backToProfile => exact Or.inl hm
  | presentAlert => exact Or.inl hm
  | dismissAlert => exact Or.inl hm
  | relaunch => cases hm

end ProjectSY
