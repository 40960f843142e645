import ProjectSY.App.Views

/-!
# There is no way back

Every controller of the app is presented over the one before it, "back" to the profile
and back to the sign-in included, and none is ever dismissed; what is dismissed are
alerts.  So until the process ends the controllers pile up: none of them goes away, and
one that is covered stays as it is, a form with its texts, a code that has been replaced
since (`no_way_back`).
-/

namespace ProjectSY

namespace App

/-- What is under the frontmost controller. -/
def covered (views : List View) : List View := (controllers views).tail

/-- The controllers of `views` are still there in `views'`, in their places, and those
that were covered show what they showed. -/
structure Kept (views views' : List View) : Prop where
  controllers : (controllers views).map View.screen <:+ (controllers views').map View.screen
  covered : covered views <:+ covered views'

theorem Kept.refl (views : List View) : Kept views views := ⟨List.suffix_rfl, List.suffix_rfl⟩

theorem Kept.trans {xs ys zs : List View} (h : Kept xs ys) (h' : Kept ys zs) : Kept xs zs :=
  ⟨h.controllers.trans h'.controllers, h.covered.trans h'.covered⟩

/-- The frontmost controller has been asked for a code. -/
theorem kept_asked (n : Nat) (views : List View) :
    Kept views (views.modifyHead (View.react (.getConnectionCode n))) := by
  cases views with
  | nil => exact .refl []
  | cons v rest =>
    cases v with
    | makeNewConnect o => exact ⟨List.suffix_rfl, List.suffix_rfl⟩
    | newProfile form => exact .refl _
    | other s => exact .refl _

/-- A controller has been presented. -/
theorem kept_push (v : View) (views : List View) (ha : v.screen ≠ .alert)
    (ho : v.screen ≠ .signOutAlert) : Kept views (v :: views) := by
  have hv : controllers (v :: views) = v :: views := controllers_of_head _ v rfl ha ho
  have hsuffix : controllers views <:+ views := by
    unfold controllers
    split
    · exact List.suffix_cons _ _
    · exact List.suffix_cons _ _
    · exact List.suffix_rfl
  refine ⟨?_, ?_⟩
  · rw [hv]
    exact (hsuffix.map View.screen).trans (List.suffix_cons _ _)
  · unfold covered
    rw [hv]
    exact (List.tail_suffix _).trans hsuffix

/-- An alert has been presented or dismissed. -/
theorem Kept.of_eq {views views' : List View} (h : App.controllers views' = App.controllers views) :
    Kept views views' := by
  refine ⟨?_, ?_⟩
  · rw [h]
  · unfold App.covered
    rw [h]

/-- **A step keeps the controllers**, unless it starts the process anew. -/
theorem kept_step (a a' : App) (ev : AppEvent) (h : a.Sound)
    (hev : ev ≠ .device .relaunch) (hs : a.step ev = some a') : Kept a.views a'.views := by
  obtain ⟨h, hnav⟩ := h
  rcases step_cases a a' ev h hs with
    ⟨-, -, form, form', rest, hv, hv'⟩ | ⟨e, hevent, he, hv'⟩
  · rw [hv, hv']
    exact ⟨List.suffix_rfl, List.suffix_rfl⟩
  · by_cases hcode : ∃ n, e = .getConnectionCode n
    · obtain ⟨n, rfl⟩ := hcode
      rw [hv']
      exact kept_asked n a.views
    · rw [hv', View.modifyHead_react e fun n hn => hcode ⟨n, hn⟩]
      have hen := step_enabled _ _ _ he
      cases hmove : e.move a.world with
      | stay => exact .refl _
      | push s =>
        by_cases hs : s = .alert ∨ s = .signOutAlert
        · obtain ⟨t, hshows, ht⟩ := move_alert a.world e s hmove hs hen
          refine .of_eq ?_
          rw [controllers_of_presents a h t hshows ht]
          rcases hs with rfl | rfl <;> rfl
        · rw [not_or] at hs
          refine kept_push _ _ ?_ ?_
          · rw [View.screen_load]
            exact hs.1
          · rw [View.screen_load]
            exact hs.2
      | pop =>
        obtain ⟨s, hshows, hs⟩ := move_pop a.world e hmove hen
        obtain ⟨hviews, htail⟩ := controllers_of_alert a h hnav.stacked s hshows hs
        refine .of_eq ?_
        rw [hviews]
        exact htail
      | swap s =>
        obtain ⟨⟨ok, rfl⟩, rfl⟩ := move_swap a.world e s hmove
        obtain ⟨hviews, htail⟩ := controllers_of_alert a h hnav.stacked _ hen.2 (Or.inr rfl)
        have hpop : Kept a.views a.views.tail := .of_eq (by rw [htail, hviews])
        exact hpop.trans (kept_push (.other .signIn) _ (by simp [View.screen]) (by simp [View.screen]))
      | reset =>
        obtain rfl := move_reset a.world e hmove
        exact absurd (deviceEvent_eq_some a ev _ hevent fun form hn => by cases hn) hev

/-- **No way back.**  In a run of the app that begins with a launch, from any moment on and
until the process ends, whatever is tapped and completed: every controller that is on
the stack stays there, in its place, and one that is covered never changes what it shows. -/
theorem no_way_back (w : World) (a a' : App) (es es' : List AppEvent) (hw : Launched w)
    (hr : Runs.run step (launch w) es = some a) (hes : ∀ ev ∈ es', ev ≠ .device .relaunch)
    (hr' : Runs.run step a es' = some a') : Kept a.views a'.views := by
  have ha : a.Sound := Runs.run_invariant step Sound sound_step _ a es (sound_launch w hw) hr
  refine (Runs.run_of_meets step (fun b => b.Sound ∧ Kept a.views b.views)
    (fun _ ev => ev ≠ .device .relaunch) ?_ a a' es' ⟨ha, .refl _⟩
    (Runs.meets_of_forall step _ _ es' hes) hr').2
  rintro b ev b' ⟨hb, hkept⟩ hev hs
  exact ⟨sound_step b ev b' hb hs, hkept.trans (kept_step b b' ev hb hev hs)⟩

/-- `A`, who has a code on screen, goes back to the profile and signs out there. -/
theorem no_way_back_codeAskedFor :
    ∃ a a', Runs.run step (launch (newDevice ⟨∅, ∅⟩)) codeAskedFor = some a ∧
      Runs.run step a [.device .backToProfile, .device .backToSignIn, .device (.yes true)] = some a' ∧
      covered a'.views ≠ covered a.views ∧ Kept a.views a'.views := by
  have hrun : (Runs.run step (launch (newDevice ⟨∅, ∅⟩)) codeAskedFor).any (fun a =>
      (Runs.run step a [.device .backToProfile, .device .backToSignIn, .device (.yes true)]).any fun a' =>
        decide (covered a'.views ≠ covered a.views)) = true := by
    decide +kernel
  obtain ⟨a, ha, hrun⟩ := (Option.any_eq_true _ _).1 hrun
  obtain ⟨a', ha', hcovered⟩ := (Option.any_eq_true _ _).1 hrun
  exact ⟨a, a', ha, ha', of_decide_eq_true hcovered, no_way_back _ a a' codeAskedFor _
    (launched_newDevice ⟨∅, ∅⟩) ha (by decide) ha'⟩

end App

end ProjectSY
