import ProjectSY.App.Presentation
import ProjectSY.Form.Acceptance

/-!
# The controllers with what they show

`World` has the names of the controllers on the presentation stack.  Here each of them
has its outlets: a controller that is presented gets what `viewDidLoad` makes of the
session of that moment, and keeps it.

    ConnectView    the label and the two buttons of `makeNewConnectViewController`
    View           a controller that is on the stack
    App            the device with its controllers, frontmost first

An event of the app is an event of the form that is frontmost, or any other event of
the device; what the device does, its finish button included, is the device's own step
(`appStep_device`).  So a run of the app is a run of the device, and its stack has the
controllers of the stack there (`app_refines`).
-/

namespace ProjectSY

/-! ## The connection screen -/

/-- The outlets of `makeNewConnectViewController`. -/
structure ConnectView where
  codeLabelText : String
  codeLabelIsHidden : Bool
  getCodeButtonIsHidden : Bool
  getCodeAgainButtonIsHidden : Bool
  deriving DecidableEq

namespace ConnectView

/-- As the storyboard has them. -/
def storyboard : ConnectView := ⟨"Label", true, false, true⟩

def viewDidLoad (user : User) : ConnectView :=
  match user.getUserData.bind fun d => stringField d "connectionCode" with
  | some connectionCode =>
    { storyboard with
      codeLabelText := connectionCode
      getCodeButtonIsHidden := true
      getCodeAgainButtonIsHidden := false }
  | none => storyboard

/-- What `getConnectionCode` does to the outlets. -/
def getConnectionCode (v : ConnectView) (randomNum : Nat) : ConnectView :=
  { codeLabelText := connectionCode randomNum
    codeLabelIsHidden := false
    getCodeButtonIsHidden := if v.getCodeButtonIsHidden = false then true else v.getCodeButtonIsHidden
    getCodeAgainButtonIsHidden :=
      if v.getCodeAgainButtonIsHidden = true then false else v.getCodeAgainButtonIsHidden }

end ConnectView

/-! ## The stack -/

inductive View where
  | newProfile (form : ProfileForm)
  | makeNewConnect (outlets : ConnectView)
  /-- A controller none of whose outlets is looked at. -/
  | other (screen : Screen)
  deriving DecidableEq

namespace View

def screen : View → Screen
  | newProfile _ => .newProfile
  | makeNewConnect _ => .makeNewConnect
  | other screen => screen

/-- A controller that is presented, after its `viewDidLoad`. -/
def load (user : User) : Screen → View
  | .newProfile => newProfile (.viewDidLoad user)
  | .makeNewConnect => makeNewConnect (.viewDidLoad user)
  | screen => other screen

/-- What the frontmost controller makes of an event of the device. -/
def react (e : Event) (v : View) : View :=
  match e, v with
  | .getConnectionCode randomNum, makeNewConnect outlets =>
    makeNewConnect (outlets.getConnectionCode randomNum)
  | _, v => v

@[simp] theorem screen_load (user : User) (s : Screen) : (load user s).screen = s := by
  cases s <;> rfl

@[simp] theorem screen_react (e : Event) (v : View) : (react e v).screen = v.screen := by
  unfold react
  split <;> rfl

/-- A code is asked for by a tap of a button that is visible. -/
def offers (e : Event) (v : View) : Bool :=
  match e, v with
  | .getConnectionCode _, makeNewConnect outlets =>
    !outlets.getCodeButtonIsHidden || !outlets.getCodeAgainButtonIsHidden
  | _, _ => true

theorem offers_of_ne (e : Event) (h : ∀ n, e ≠ .getConnectionCode n) (v : View) :
    offers e v = true := by
  unfold offers
  split
  · next n _ => exact absurd rfl (h n)
  · rfl

/-- Only a code that is asked for changes what a controller shows. -/
theorem modifyHead_react (e : Event) (h : ∀ n, e ≠ .getConnectionCode n) (views : List View) :
    views.modifyHead (react e) = views := by
  cases views with
  | nil => rfl
  | cons v rest =>
    have hv : react e v = v := by
      unfold react
      split
      · next n outlets => exact absurd rfl (h n)
      · rfl
    exact congrArg (· :: rest) hv

end View

structure App where
  world : World
  views : List View
  deriving DecidableEq

inductive AppEvent where
  | device (e : Event)
  | form (e : FormEvent)
  deriving DecidableEq

namespace App

/-- The process has just started. -/
def launch (w : World) : App := ⟨w, w.screens.map (View.load w.user)⟩

/-- The finish button is an event of the form. -/
def isForms : Event → Bool
  | .finishWritingProfile _ => true
  | _ => false

def deviceStep (a : App) (e : Event) : Option App :=
  if isForms e || !(a.views.take 1).all (View.offers e) then none
  else (ProjectSY.step a.world e).map fun w =>
    ⟨w, (e.move a.world).apply (View.load w.user) (a.views.modifyHead (View.react e))⟩

/-- What an event of the form presents. -/
def formMove (s : FormState) : FormEvent → StackMove
  | .finishWritingProfile => (ProjectSY.finishWritingProfile s.form s.world.user).move
  | _ => .stay

def formStep (a : App) (e : FormEvent) : Option App :=
  match a.views with
  | .newProfile form :: rest =>
    (ProjectSY.formStep ⟨form, a.world⟩ e).map fun s =>
      ⟨s.world, (formMove ⟨form, a.world⟩ e).apply (View.load s.world.user)
        (.newProfile s.form :: rest)⟩
  | _ => none

def step (a : App) : AppEvent → Option App
  | .device e => a.deviceStep e
  | .form e => a.formStep e

/-- The controllers are those of the device. -/
def Matched (a : App) : Prop := a.views.map View.screen = a.world.screens

theorem matched_launch (w : World) : (launch w).Matched := by
  have hload : View.screen ∘ View.load w.user = id := funext (View.screen_load w.user)
  show (w.screens.map (View.load w.user)).map View.screen = w.screens
  rw [List.map_map, hload, List.map_id]

theorem deviceStep_eq_some (a a' : App) (e : Event) :
    a.deviceStep e = some a' ↔
      (isForms e = false ∧ (a.views.take 1).all (View.offers e) = true) ∧
      ∃ w, ProjectSY.step a.world e = some w ∧
        a' = ⟨w, (e.move a.world).apply (View.load w.user) (a.views.modifyHead (View.react e))⟩ := by
  unfold deviceStep
  cases isForms e with
  | true => simp
  | false =>
    cases (a.views.take 1).all (View.offers e) with
    | false => simp
    | true =>
      simp only [Bool.not_true, Bool.or_self, Bool.false_eq_true, if_false, Option.map_eq_some_iff,
        true_and]
      constructor
      · rintro ⟨w, hw, rfl⟩
        exact ⟨w, hw, rfl⟩
      · rintro ⟨w, hw, rfl⟩
        exact ⟨w, hw, rfl⟩

theorem formStep_eq_some (a a' : App) (e : FormEvent) :
    a.formStep e = some a' ↔ ∃ form rest s, a.views = .newProfile form :: rest ∧
      ProjectSY.formStep ⟨form, a.world⟩ e = some s ∧
      a' = ⟨s.world, (formMove ⟨form, a.world⟩ e).apply (View.load s.world.user)
        (.newProfile s.form :: rest)⟩ := by
  unfold formStep
  split
  · next form rest hv =>
    rw [Option.map_eq_some_iff]
    constructor
    · rintro ⟨s, hs, rfl⟩
      exact ⟨form, rest, s, hv, hs, rfl⟩
    · rintro ⟨form', rest', s, hv', hs, rfl⟩
      rw [hv] at hv'
      cases hv'
      exact ⟨s, hs, rfl⟩
  · next hv =>
    constructor
    · intro h
      cases h
    · rintro ⟨form, rest, s, hv', -⟩
      exact absurd hv' (hv form rest)

/-! ## The app as the device -/

/-- The screens of a stack after a move are moved. -/
theorem screens_apply (m : StackMove) (user : User) (views : List View) :
    (m.apply (View.load user) views).map View.screen = m.apply id (views.map View.screen) := by
  rw [StackMove.map_apply]
  simp only [View.screen_load]
  cases m <;> rfl

theorem screens_modifyHead (f : View → View) (hf : ∀ v, (f v).screen = v.screen)
    (views : List View) : (views.modifyHead f).map View.screen = views.map View.screen := by
  cases views with
  | nil => rfl
  | cons v views =>
    show (f v).screen :: views.map View.screen = v.screen :: views.map View.screen
    rw [hf]

/-- The frontmost form is on the frontmost screen. -/
theorem shows_of_form (a : App) (h : a.Matched) (form : ProfileForm) (rest : List View)
    (hv : a.views = .newProfile form :: rest) : a.world.shows .newProfile := by
  unfold Matched at h
  unfold World.shows
  rw [← h, hv]
  rfl

/-- A form's event leaves the device alone, or it is a tap of the finish button. -/
theorem form_device (form : ProfileForm) (w : World) (s : FormState) (e : FormEvent)
    (hshows : w.shows .newProfile) (hs : ProjectSY.formStep ⟨form, w⟩ e = some s) :
    (s.world = w ∧ formMove ⟨form, w⟩ e = .stay ∧ e ≠ .finishWritingProfile) ∨
    (e = .finishWritingProfile ∧ s.form = form ∧
      ProjectSY.step w (.finishWritingProfile form) = some s.world) := by
  obtain ⟨hup, rfl⟩ := (ProjectSY.formStep_eq_some _ s e).1 hs
  have hchecked : (FormState.checked ⟨form, w⟩).world = w := by
    obtain ⟨valid, hform, -⟩ := checked_eq ⟨form, w⟩
    rw [hform]
  cases e with
  | finishWritingProfile =>
    refine Or.inr ⟨rfl, form.andTexts_eq, ?_⟩
    exact (step_eq_some w _ _).2 ⟨⟨hup, hshows⟩, rfl⟩
  | scrollViewTouch => exact Or.inl ⟨hchecked, rfl, by simp⟩
  | touchesBegan => exact Or.inl ⟨hchecked, rfl, by simp⟩
  | textFieldShouldReturn => exact Or.inl ⟨hchecked, rfl, by simp⟩
  | imagePicked editedImage =>
    cases editedImage with
    | none => exact Or.inl ⟨rfl, rfl, by simp⟩
    | some newImage => exact Or.inl ⟨rfl, rfl, by simp⟩
  | _ => exact Or.inl ⟨rfl, rfl, by simp⟩

/-- What the event is for the device: nothing, as long as the form is only filled in. -/
def deviceEvent (a : App) : AppEvent → Option Event
  | .device e => some e
  | .form .finishWritingProfile =>
    match a.views with
    | .newProfile form :: _ => some (.finishWritingProfile form)
    | _ => none
  | .form _ => none

/-- An event of the device is its own, unless the form's finish button is tapped. -/
theorem deviceEvent_eq_some (a : App) (ev : AppEvent) (e : Event) (h : a.deviceEvent ev = some e)
    (hform : ∀ form, e ≠ .finishWritingProfile form) : ev = .device e := by
  unfold deviceEvent at h
  split at h
  · exact congrArg AppEvent.device (Option.some.inj h)
  · split at h
    · next form rest hv => exact absurd (Option.some.inj h).symm (hform form)
    · cases h
  · cases h

/-- What a step of the app is for the device and for the stack: nothing for the device,
and the frontmost form is another; or an event of the device that moves the stack, after
the frontmost controller has reacted. -/
theorem step_cases (a a' : App) (ev : AppEvent) (h : a.Matched) (hs : a.step ev = some a') :
    (a.deviceEvent ev = none ∧ a'.world = a.world ∧ ∃ form form' rest,
      a.views = .newProfile form :: rest ∧ a'.views = .newProfile form' :: rest) ∨
    (∃ e, a.deviceEvent ev = some e ∧ ProjectSY.step a.world e = some a'.world ∧
      a'.views = (e.move a.world).apply (View.load a'.world.user)
        (a.views.modifyHead (View.react e))) := by
  cases ev with
  | device e =>
    obtain ⟨-, w, hw, rfl⟩ := (deviceStep_eq_some a a' e).1 hs
    exact Or.inr ⟨e, rfl, hw, rfl⟩
  | form e =>
    obtain ⟨form, rest, s, hv, hform, rfl⟩ := (formStep_eq_some a a' e).1 hs
    have hshows := shows_of_form a h form rest hv
    rcases form_device form a.world s e hshows hform with ⟨hworld, hmove, hne⟩ | ⟨rfl, hform, hstep⟩
    · refine Or.inl ⟨?_, hworld, form, s.form, rest, hv, ?_⟩
      · cases e with
        | finishWritingProfile => exact absurd rfl hne
        | _ => rfl
      · show (formMove ⟨form, a.world⟩ e).apply _ _ = _
        rw [hmove]
        rfl
    · refine Or.inr ⟨.finishWritingProfile form, ?_, hstep, ?_⟩
      · unfold deviceEvent
        rw [hv]
      · show (formMove ⟨form, a.world⟩ .finishWritingProfile).apply _ _ = _
        rw [hv, hform]
        rfl

/-- **A step of the app** is a step of the device or none of it, and the stack goes along. -/
theorem appStep_device (a a' : App) (ev : AppEvent) (h : a.Matched) (hs : a.step ev = some a') :
    (a'.world = a.world ∨ ∃ e, ProjectSY.step a.world e = some a'.world) ∧ a'.Matched := by
  unfold Matched at h ⊢
  rcases step_cases a a' ev h hs with ⟨-, hworld, form, form', rest, hv, hv'⟩ | ⟨e, -, he, hv'⟩
  · refine ⟨Or.inl hworld, ?_⟩
    rw [hworld, ← h, hv, hv']
    rfl
  · refine ⟨Or.inr ⟨e, he⟩, ?_⟩
    obtain ⟨-, hperform⟩ := (step_eq_some a.world a'.world e).1 he
    rw [hv', screens_apply, screens_modifyHead _ (View.screen_react e), h, ← hperform,
      perform_screens]

/-- The controllers are those of the device, and the device navigates as it should. -/
structure Sound (a : App) : Prop where
  matched : a.Matched
  nav : NavInv a.world

theorem sound_launch (w : World) (h : Launched w) : (launch w).Sound := by
  obtain ⟨defaults, firebase, server, rfl⟩ := h
  exact ⟨matched_launch _, navInv_launch defaults firebase server⟩

theorem sound_step (a : App) (ev : AppEvent) (a' : App) (h : a.Sound) (hs : a.step ev = some a') :
    a'.Sound := by
  obtain ⟨hworld, hmatched⟩ := appStep_device a a' ev h.matched hs
  refine ⟨hmatched, ?_⟩
  rcases hworld with hworld | ⟨e, he⟩
  · rw [hworld]
    exact h.nav
  · exact navInv_step a.world e a'.world h.nav he

/-- **The app is the device.**  Whatever is typed, touched, tapped and completed, a run
of the app from a launch is a run of the device, and the controllers on its stack are
the screens of the device, in their order. -/
theorem app_refines (w : World) (a : App) (es : List AppEvent)
    (hr : Runs.run step (launch w) es = some a) :
    ∃ fs, Runs.run ProjectSY.step w fs = some a.world ∧
      a.views.map View.screen = a.world.screens := by
  obtain ⟨fs, w', -, hrun, hmatched, rfl⟩ := Runs.run_simulated step ProjectSY.step
    (fun a w => a.Matched ∧ w = a.world) (fun _ _ => True) (fun _ => True)
    (fun a ev a' w h _ hs => by
      obtain ⟨hm, rfl⟩ := h
      obtain ⟨hworld, hm'⟩ := appStep_device a a' ev hm hs
      rcases hworld with hworld | ⟨e, he⟩
      · exact ⟨[], a.world, List.forall_mem_nil _, rfl, hm', hworld.symm⟩
      · refine ⟨[e], a'.world, fun _ _ => trivial, ?_, hm', rfl⟩
        exact (Runs.run_cons_eq_some _ _ _ _ _).2 ⟨a'.world, he, rfl⟩)
    (launch w) a w es ⟨matched_launch w, rfl⟩ (fun _ _ _ _ _ => trivial) hr
  exact ⟨fs, hrun, hmatched⟩

/-! ## The controllers -/

/-- The stack without the alert on it. -/
def controllers : List View → List View
  | .other .alert :: rest => rest
  | .other .signOutAlert :: rest => rest
  | views => views

/-- The frontmost controller. -/
def frontView (views : List View) : Option View := (controllers views).head?

theorem controllers_of_head (views : List View) (v : View) (h : views.head? = some v)
    (ha : v.screen ≠ .alert) (ho : v.screen ≠ .signOutAlert) : controllers views = views := by
  cases views with
  | nil => cases h
  | cons v' rest =>
    cases h
    unfold controllers
    split
    · next heq => exact absurd (by cases heq; rfl) ha
    · next heq => exact absurd (by cases heq; rfl) ho
    · rfl

theorem head_of_shows (a : App) (h : a.Matched) (s : Screen) (hs : a.world.shows s) :
    ∃ v rest, a.views = v :: rest ∧ v.screen = s := by
  unfold Matched at h
  unfold World.shows at hs
  rw [← h] at hs
  cases hv : a.views with
  | nil => rw [hv] at hs; cases hs
  | cons v rest =>
    rw [hv] at hs
    exact ⟨v, rest, rfl, Option.some.inj hs⟩

/-- There is no alert on a controller that presents one now. -/
theorem controllers_of_presents (a : App) (h : a.Matched) (t : Screen) (hs : a.world.shows t)
    (ht : t.presentsAlerts = true) : controllers a.views = a.views := by
  obtain ⟨v, rest, hv, rfl⟩ := head_of_shows a h t hs
  refine controllers_of_head a.views v (by rw [hv]; rfl) (fun ha => ?_) (fun ho => ?_)
  · rw [ha] at ht
    cases ht
  · rw [ho] at ht
    cases ht

/-- An alert is on a controller, and taking it away leaves the controllers. -/
theorem controllers_of_alert (a : App) (h : a.Matched) (hst : Stacked a.world.screens) (s : Screen)
    (hs : a.world.shows s) (ha : s = .alert ∨ s = .signOutAlert) :
    controllers a.views = a.views.tail ∧ controllers a.views.tail = a.views.tail := by
  obtain ⟨v, rest, hv, hscreen⟩ := head_of_shows a h s hs
  have hscreens : s :: rest.map View.screen = a.world.screens := by
    rw [← h, hv, ← hscreen]
    rfl
  rw [hv]
  constructor
  · cases v with
    | other t =>
      cases hscreen
      rcases ha with rfl | rfl <;> rfl
    | newProfile form => rcases ha with rfl | rfl <;> cases hscreen
    | makeNewConnect o => rcases ha with rfl | rfl <;> cases hscreen
  · show controllers rest = rest
    cases rest with
    | nil => rfl
    | cons u rest =>
      rw [← hscreens] at hst
      obtain ⟨-, halert, hout, -⟩ := hst
      have hpresents : u.screen.presentsAlerts = true := by
        rcases ha with rfl | rfl
        · exact halert rfl
        · show u.screen.presentsAlerts = true
          rw [hout rfl]
          rfl
      refine controllers_of_head _ u rfl (fun hu => ?_) (fun hu => ?_)
      · rw [hu] at hpresents
        cases hpresents
      · rw [hu] at hpresents
        cases hpresents

/-- `A` signs in, fills in the form, and asks for a code. -/
def codeAskedFor : List AppEvent :=
  .device .goToNextStorybaord :: (signInAs "A" 1).map .device ++
  (phoneTypedOver.take 6 ++ [FormEvent.finishWritingProfile]).map .form ++ [.device (.getConnectionCode 7)]

theorem app_refines_codeAskedFor :
    ∃ a fs, Runs.run step (launch (newDevice ⟨∅, ∅⟩)) codeAskedFor = some a ∧
      Runs.run ProjectSY.step (newDevice ⟨∅, ∅⟩) fs = some a.world ∧
      a.views.map View.screen = [.makeNewConnect, .newProfile, .signIn, .start] := by
  have hrun : (Runs.run step (launch (newDevice ⟨∅, ∅⟩)) codeAskedFor).any (fun a =>
      decide (a.world.screens = [.makeNewConnect, .newProfile, .signIn, .start])) = true := by
    decide +kernel
  obtain ⟨a, ha, hscreens⟩ := (Option.any_eq_true _ _).1 hrun
  obtain ⟨fs, hfs, hviews⟩ := app_refines _ a codeAskedFor ha
  exact ⟨a, fs, ha, hfs, hviews.trans (of_decide_eq_true hscreens)⟩

end App

end ProjectSY
