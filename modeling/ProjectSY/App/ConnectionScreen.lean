import ProjectSY.App.Views
import ProjectSY.Store.LiveCode

/-!
# What the connection screen shows

The storyboard hides the label of the code, and `viewDidLoad` writes the code the
session remembers into it without making it visible; only a tap of one of the two
buttons does.  Beside the stack of a run stand the codes that were asked for on each
controller since it was presented (`askedAfter`); the app does not read them.

    ConnectView.Right o ns    the label of `o` is visible exactly when `ns` is not empty
                              and shows the last of them; one of the two buttons is visible
    App.LiveShown             the code that is visible in front belongs to a user whose
                              document names it, once the pending writes have arrived,
                              in whatever order

`Right` holds of every controller on the stack (`label_iff_asked`).  So there is always
one button to tap, and what the device can do the app can do (`code_offered`).
`LiveShown` holds all along a run in which no write fails and no code is drawn that a
pending write of another account is about (`shown_code_live`).
-/

namespace ProjectSY

/-! ## The label and the buttons -/

structure ConnectView.Right (o : ConnectView) (ns : List Nat) : Prop where
  label : o.codeLabelIsHidden = false ↔ ns ≠ []
  text : ∀ n rest, ns = n :: rest → o.codeLabelText = connectionCode n
  button : o.getCodeButtonIsHidden = !o.getCodeAgainButtonIsHidden

theorem ConnectView.right_viewDidLoad (user : User) : (viewDidLoad user).Right [] := by
  have hhidden : (viewDidLoad user).codeLabelIsHidden = true ∧
      (viewDidLoad user).getCodeButtonIsHidden = !(viewDidLoad user).getCodeAgainButtonIsHidden := by
    unfold viewDidLoad
    split
    · exact ⟨rfl, rfl⟩
    · exact ⟨rfl, rfl⟩
  exact
    { label := by simp [hhidden.1]
      text := fun n rest h => by cases h
      button := hhidden.2 }

theorem ConnectView.right_getConnectionCode (o : ConnectView) (ns : List Nat) (n : Nat)
    (h : o.Right ns) : (o.getConnectionCode n).Right (n :: ns) := by
  have hbutton := h.button
  refine ⟨⟨fun _ => List.cons_ne_nil n ns, fun _ => rfl⟩, fun m rest hm => ?_, ?_⟩
  · cases hm
    rfl
  · unfold getConnectionCode
    cases hfirst : o.getCodeButtonIsHidden <;> cases hagain : o.getCodeAgainButtonIsHidden <;>
      simp_all

/-- The codes asked for on the frontmost controller after the event. -/
def Event.asks (e : Event) (ns : List Nat) : List Nat :=
  match e with
  | .getConnectionCode randomNum => randomNum :: ns
  | _ => ns

/-- The codes asked for on each controller since it was presented, the last first. -/
def App.askedAfter (asked : List (List Nat)) (a : App) (ev : AppEvent) : List (List Nat) :=
  match a.deviceEvent ev with
  | some e => (e.move a.world).apply (fun _ => []) (asked.modifyHead e.asks)
  | none => asked

/-- A connection screen is right about what was asked for there. -/
def View.Right (v : View) (ns : List Nat) : Prop :=
  ∀ o, v = .makeNewConnect o → o.Right ns

theorem View.right_load (user : User) (s : Screen) : (load user s).Right [] := by
  intro o ho
  cases s with
  | makeNewConnect =>
    cases ho
    exact ConnectView.right_viewDidLoad user
  | _ => cases ho

theorem View.right_react (e : Event) (v : View) (ns : List Nat) (h : v.Right ns) :
    (react e v).Right (e.asks ns) := by
  intro o ho
  cases e with
  | getConnectionCode n =>
    cases v with
    | makeNewConnect o' =>
      cases ho
      exact o'.right_getConnectionCode ns n (h o' rfl)
    | _ => cases ho
  | _ => exact h o ho

theorem forall₂_modifyHead {α β : Type*} (R : α → β → Prop) (f : α → α) (g : β → β)
    (hfg : ∀ x y, R x y → R (f x) (g y)) (xs : List α) (ys : List β) (h : List.Forall₂ R xs ys) :
    List.Forall₂ R (xs.modifyHead f) (ys.modifyHead g) := by
  cases h with
  | nil => exact .nil
  | cons hxy hrest => exact .cons (hfg _ _ hxy) hrest

/-- Stacks that agree are moved alike. -/
theorem StackMove.forall₂_apply {α β : Type*} (R : α → β → Prop) (load : Screen → α)
    (load' : Screen → β) (hload : ∀ s, R (load s) (load' s)) (m : StackMove) (xs : List α)
    (ys : List β) (h : List.Forall₂ R xs ys) :
    List.Forall₂ R (m.apply load xs) (m.apply load' ys) := by
  have htail : List.Forall₂ R xs.tail ys.tail := by
    cases h with
    | nil => exact .nil
    | cons _ hrest => exact hrest
  cases m with
  | stay => exact h
  | push s => exact .cons (hload s) h
  | pop => exact htail
  | swap s => exact .cons (hload s) htail
  | reset => exact .cons (hload .start) .nil

namespace App

/-- The stack is right about the codes that were asked for. -/
def Right (s : App × List (List Nat)) : Prop :=
  s.1.Matched ∧ List.Forall₂ View.Right s.1.views s.2

theorem right_step (s : App × List (List Nat)) (ev : AppEvent) (s' : App × List (List Nat))
    (h : Right s) (hs : Runs.recorded step askedAfter s ev = some s') : Right s' := by
  obtain ⟨a, asked⟩ := s
  obtain ⟨a', asked'⟩ := s'
  obtain ⟨hmatched, hviews⟩ := h
  obtain ⟨hstep, rfl⟩ : step a ev = some a' ∧ asked' = askedAfter asked a ev :=
    (Runs.recorded_eq_some _ _ _ _ ev).1 hs
  refine ⟨(appStep_device a a' ev hmatched hstep).2, ?_⟩
  show List.Forall₂ View.Right a'.views (askedAfter asked a ev)
  unfold askedAfter
  rcases step_cases a a' ev hmatched hstep with
    ⟨hev, -, form, form', rest, hv, hv'⟩ | ⟨e, hev, -, hv'⟩
  · -- a form on top of the stack was filled in
    rw [hev, hv']
    have hviews' : List.Forall₂ View.Right (.newProfile form :: rest) asked := hv ▸ hviews
    cases hviews' with
    | cons _ hrest => exact .cons (fun o ho => by cases ho) hrest
  · rw [hev, hv']
    exact StackMove.forall₂_apply _ _ _ (View.right_load _) _ _ _
      (forall₂_modifyHead _ _ _ (View.right_react e) _ _ hviews)

theorem right_launch (w : World) : Right (launch w, w.screens.map fun _ => []) := by
  refine ⟨matched_launch w, ?_⟩
  show List.Forall₂ View.Right (w.screens.map (View.load w.user)) (w.screens.map fun _ => [])
  rw [List.forall₂_map_left_iff, List.forall₂_map_right_iff, List.forall₂_same]
  exact fun s _ => View.right_load w.user s

/-- **A code is visible where it was asked for.**  Along every run of the app, every
connection screen on the stack shows a code exactly when one was asked for on that very
controller, and then the last one; a code the session only remembers is never visible.
One of the two buttons is visible, and not both. -/
theorem label_iff_asked (w : World) (a : App) (asked : List (List Nat)) (es : List AppEvent)
    (hr : Runs.run (Runs.recorded step askedAfter) (launch w, w.screens.map fun _ => []) es =
      some (a, asked)) :
    List.Forall₂ View.Right a.views asked :=
  (Runs.run_invariant _ Right right_step _ _ es (right_launch w) hr).2

/-- `A` asks for a code, goes back to the profile, and saves it again. -/
def codeAskedAndBack : List AppEvent :=
  codeAskedFor ++ [.device .backToProfile] ++
  ([.phoneNumberEdited "010-1234-5678", .birthdayEdited "1999.01.31", .touchesBegan,
    .imagePicked (some ⟨some [1]⟩), .finishWritingProfile] : List FormEvent).map .form

/-- The screen that was asked keeps its code; the new one shows none. -/
theorem label_iff_asked_back :
    ∃ a asked, Runs.run (Runs.recorded step askedAfter) (launch (newDevice ⟨∅, ∅⟩), [[]])
        codeAskedAndBack = some (a, asked) ∧
      asked = [[], [], [7], [], [], []] ∧ List.Forall₂ View.Right a.views asked := by
  have hrun : (Runs.run (Runs.recorded step askedAfter) (launch (newDevice ⟨∅, ∅⟩), [[]])
      codeAskedAndBack).any (fun s => decide (s.2 = [[], [], [7], [], [], []])) = true := by
    decide +kernel
  obtain ⟨⟨a, asked⟩, hs, hend⟩ := (Option.any_eq_true _ _).1 hrun
  exact ⟨a, asked, hs, of_decide_eq_true hend,
    label_iff_asked (newDevice ⟨∅, ∅⟩) a asked codeAskedAndBack hs⟩

/-! ## The connection screen in front -/

/-- Only a saved profile and a code are sent to the backend, and a saved profile
presents the connection screen. -/
theorem writes_eq_nil (w : World) (e : Event) (hcode : ∀ n, e ≠ .getConnectionCode n)
    (hmove : e.move w ≠ .push .makeNewConnect) : (e.action w).writes w.user = [] := by
  cases e with
  | getConnectionCode n => exact absurd rfl (hcode n)
  | authSignIn uid controller ok => cases ok <;> rfl
  | documentSnapshot uid result => cases result <;> rfl
  | finishWritingProfile form =>
    have hmove' : (finishWritingProfile form w.user).move ≠ .push .makeNewConnect := hmove
    show (finishWritingProfile form w.user).action.writes w.user = []
    cases hf : finishWritingProfile form w.user with
    | saved uid jpeg data =>
      rw [hf] at hmove'
      exact absurd rfl hmove'
    | _ => rfl
  | _ => rfl

/-- The connection screen that is in front after a step has been presented just now, was
in front already, or has been asked for a code. -/
theorem front_step (a a' : App) (ev : AppEvent) (o : ConnectView) (h : a.Sound)
    (hs : a.step ev = some a')
    (hf : frontView a'.views = some (.makeNewConnect o)) :
    o.codeLabelIsHidden = true ∨
    (frontView a.views = some (.makeNewConnect o) ∧ ∃ e, ProjectSY.step a.world e = some a'.world ∧
      (e.action a.world).writes a.world.user = [] ∧ a.deviceEvent ev = some e) ∨
    (∃ (n : Nat) (o' : ConnectView), ProjectSY.step a.world (.getConnectionCode n) = some a'.world ∧
      a.deviceEvent ev = some (.getConnectionCode n) ∧ o = o'.getConnectionCode n) := by
  obtain ⟨h, hnav⟩ := h
  rcases step_cases a a' ev h hs with ⟨-, -, form, form', rest, -, hv'⟩ | ⟨e, hev, he, hv'⟩
  · rw [hv'] at hf
    cases hf
  · by_cases hcode : ∃ n, e = .getConnectionCode n
    · obtain ⟨n, rfl⟩ := hcode
      obtain ⟨v, rest, hv, hscreen⟩ := head_of_shows a h _ (step_enabled _ _ _ he).2
      cases v with
      | makeNewConnect o' =>
        rw [hv'] at hf
        rw [hv] at hf
        cases hf
        exact Or.inr (Or.inr ⟨n, o', he, hev, rfl⟩)
      | newProfile form => cases hscreen
      | other t =>
        cases hscreen
        rw [hv', hv] at hf
        cases hf
    · have hcode' : ∀ n, e ≠ .getConnectionCode n := fun n hn => hcode ⟨n, hn⟩
      rw [hv', View.modifyHead_react e hcode'] at hf
      have hwas : e.move a.world ≠ .push .makeNewConnect →
          frontView a.views = some (.makeNewConnect o) →
          frontView a.views = some (.makeNewConnect o) ∧
            ∃ e, ProjectSY.step a.world e = some a'.world ∧
              (e.action a.world).writes a.world.user = [] ∧ a.deviceEvent ev = some e :=
        fun hmove hfront => ⟨hfront, e, he, writes_eq_nil a.world e hcode' hmove, hev⟩
      cases hmove : e.move a.world with
      | stay =>
        rw [hmove] at hf
        exact Or.inr (Or.inl (hwas (by rw [hmove]; simp) hf))
      | push s =>
        rw [hmove] at hf
        have hcovered : a.views.head? = some (.makeNewConnect o) →
            frontView a.views = some (.makeNewConnect o) := by
          intro hhead
          unfold frontView
          rw [controllers_of_head a.views _ hhead (by simp [View.screen]) (by simp [View.screen])]
          exact hhead
        cases s with
        | makeNewConnect =>
          cases hf
          exact Or.inl (by simpa using (ConnectView.right_viewDidLoad a'.world.user).label)
        | alert => exact Or.inr (Or.inl (hwas (by rw [hmove]; simp) (hcovered hf)))
        | signOutAlert => exact Or.inr (Or.inl (hwas (by rw [hmove]; simp) (hcovered hf)))
        | _ => cases hf
      | pop =>
        rw [hmove] at hf
        have htail : frontView a.views.tail = frontView a.views := by
          obtain ⟨s, hshows, hs⟩ := move_pop a.world e hmove (step_enabled _ _ _ he)
          obtain ⟨hviews, htail⟩ := controllers_of_alert a h hnav.stacked s hshows hs
          unfold frontView
          rw [hviews, htail]
        exact Or.inr (Or.inl (hwas (by rw [hmove]; simp) (htail ▸ hf)))
      | swap s =>
        rw [hmove] at hf
        obtain ⟨-, rfl⟩ := move_swap a.world e s hmove
        cases hf
      | reset =>
        rw [hmove] at hf
        cases hf

/-! ## The buttons never stand in the way -/

/-- **A code can always be asked for.**  On every stack a run of the app leads to, the
events of the device that are no events of the form are possible in the app exactly when
the device can take them: the connection screen always has a button for its code. -/
theorem code_offered (w : World) (a : App) (es : List AppEvent)
    (hr : Runs.run step (launch w) es = some a) (e : Event) (he : isForms e = false) :
    (a.deviceStep e).isSome = (ProjectSY.step a.world e).isSome := by
  obtain ⟨asked, hasked⟩ := Runs.recorded_of_run step askedAfter (launch w) a
    (w.screens.map fun _ => []) es hr
  have hright := label_iff_asked w a asked es hasked
  have hoffers : (a.views.take 1).all (View.offers e) = true := by
    cases hviews : a.views with
    | nil => rfl
    | cons v views =>
      rw [hviews] at hright
      obtain ⟨ns, -, hv, -, -⟩ := List.forall₂_cons_left_iff.1 hright
      show (View.offers e v && true) = true
      rw [Bool.and_true]
      unfold View.offers
      split
      · next n o =>
        rw [(hv o rfl).button]
        cases o.getCodeAgainButtonIsHidden <;> rfl
      · rfl
  unfold deviceStep
  rw [he, hoffers]
  simp

theorem code_offered_codeAskedFor :
    ∃ a, Runs.run step (launch (newDevice ⟨∅, ∅⟩)) codeAskedFor = some a ∧
      (a.deviceStep (.getConnectionCode 42)).isSome = true := by
  have hrun : (Runs.run step (launch (newDevice ⟨∅, ∅⟩)) codeAskedFor).any (fun a =>
      (ProjectSY.step a.world (.getConnectionCode 42)).isSome) = true := by
    decide +kernel
  obtain ⟨a, ha, hstep⟩ := (Option.any_eq_true _ _).1 hrun
  exact ⟨a, ha, (code_offered (newDevice ⟨∅, ∅⟩) a codeAskedFor ha _ rfl).trans hstep⟩

/-! ## The code that is visible is live -/

def LiveShown (a : App) : Prop :=
  ∀ o, frontView a.views = some (.makeNewConnect o) → o.codeLabelIsHidden = false →
    ∃ uid, ∀ log, a.world.Arrival log →
      (a.world.arrived log).sender o.codeLabelText = some uid ∧
      (a.world.arrived log).codeOf uid = some o.codeLabelText

/-- A code is asked for only while no pending write of another account is about it, or
about the user who asks. -/
def Undisturbed (a : App) : AppEvent → Prop
  | .device (.getConnectionCode n) =>
    ∀ p ∈ a.world.firebase.outbox, p.1 ≠ a.world.firebase.currentUser →
      p.2.target ≠ ("connection", connectionCode n) ∧
      a.world.user.userIdToken.map (Prod.mk "users") ≠ some p.2.target
  | _ => True

instance (a : App) (ev : AppEvent) : Decidable (Undisturbed a ev) :=
  match ev with
  | .device (.getConnectionCode n) =>
    inferInstanceAs (Decidable (∀ p ∈ a.world.firebase.outbox,
      p.1 ≠ a.world.firebase.currentUser → p.2.target ≠ ("connection", connectionCode n) ∧
        a.world.user.userIdToken.map (Prod.mk "users") ≠ some p.2.target))
  | .form _ | .device .goToNextStorybaord | .device .googleSignIn | .device (.didSignIn _)
  | .device (.authSignIn _ _ _) | .device (.answer _ _ _) | .device (.documentSnapshot _ _)
  | .device (.finishWritingProfile _) | .device .backToSignIn | .device .no | .device (.yes _)
  | .device .backToProfile | .device .presentAlert | .device .dismissAlert
  | .device (.writeDone _) | .device (.uploadDone _ _) | .device .relaunch =>
    inferInstanceAs (Decidable True)

/-- The code that is asked for is live in every order of arrival. -/
theorem live_of_code (w w' : World) (n : Nat) (uid : String)
    (ht : w.user.userIdToken = some uid) (hs : ProjectSY.step w (.getConnectionCode n) = some w')
    (hothers : ∀ account, account ≠ w.firebase.currentUser → ∀ write ∈ w.queue account,
      write.target ≠ ("connection", connectionCode n) ∧ write.target ≠ ("users", uid))
    (log : List (Option String × Write)) (hlog : w'.Arrival log) :
    (w'.arrived log).sender (connectionCode n) = some uid ∧
    (w'.arrived log).codeOf uid = some (connectionCode n) := by
  have hqueue := step_queue w w' _ hs rfl
  have hsettled := step_settledAs w w' _ w.firebase.currentUser hs (by simp) (Or.inl rfl)
  rw [if_pos rfl] at hsettled
  have hwrites : ((Event.getConnectionCode n).action w).writes w.user =
      codeWrites w.user uid (connectionCode n) := getConnectionCode_writes w.user n uid ht
  rw [hwrites] at hsettled
  have hdoc : ∀ c i, (∀ account, account ≠ w.firebase.currentUser → ∀ write ∈ w.queue account,
      write.target ≠ (c, i)) → (w'.arrived log).doc c i =
        (w'.settledAs w.firebase.currentUser).doc c i := by
    intro c i honly
    refine arrived_doc w' log hlog c i w.firebase.currentUser fun account hne write hm => ?_
    rw [hqueue, if_neg (fun h => hne h.symm)] at hm
    exact honly account hne write hm
  constructor
  · unfold Collections.sender
    rw [hdoc _ _ fun account hne write hm => (hothers account hne write hm).1, hsettled]
    show (Collections.settle _ (codeWrites w.user uid _)).sender _ = _
    rw [sender_settle_codeWrites, Registry.request_apply]
    exact if_pos rfl
  · unfold Collections.codeOf
    rw [hdoc _ _ fun account hne write hm => (hothers account hne write hm).2, hsettled]
    exact codeOf_settle_codeWrites _ _ _ _

theorem liveShown_step (a a' : App) (ev : AppEvent) (h : a.Sound) (hlive : a.LiveShown)
    (hok : ev ≠ .device (.writeDone false)) (hcode : a.Undisturbed ev) (hs : a.step ev = some a') :
    a'.LiveShown := by
  have hnotFailed : ∀ e, a.deviceEvent ev = some e → e ≠ .writeDone false := by
    rintro e hev rfl
    exact hok (deviceEvent_eq_some a ev _ hev fun form hn => by cases hn)
  intro o hf hvisible
  rcases front_step a a' ev o h hs hf with
    hhidden | ⟨hfront, e, he, hwrites, hev⟩ | ⟨n, o', he, hev, rfl⟩
  · rw [hvisible] at hhidden
    cases hhidden
  · -- nothing was sent, so what may become of the documents might have become of them before
    obtain ⟨uid, huid⟩ := hlive o hfront hvisible
    refine ⟨uid, fun log hlog => ?_⟩
    obtain ⟨log', hlog', heq⟩ :=
      arrival_step a.world a'.world e log he (hnotFailed e hev) hwrites hlog
    rw [heq]
    exact huid log' hlog'
  · obtain ⟨uid, ht⟩ :=
      Option.ne_none_iff_exists'.1 (h.nav.ready_of_shows (step_enabled _ _ _ he).2).1
    have hev' : ev = .device (.getConnectionCode n) :=
      deviceEvent_eq_some a ev _ hev fun form hn => by cases hn
    rw [hev'] at hcode
    refine ⟨uid, live_of_code a.world a'.world n uid ht he fun account hne write hm => ?_⟩
    obtain ⟨hconnection, husers⟩ := hcode (account, write) ((Outbox.mem_lane _ _ _).1 hm) hne
    refine ⟨hconnection, fun htarget => husers ?_⟩
    rw [ht, htarget]
    rfl

/-- **A visible code works.**  From any launch, along every run of the app in which no
write fails and no code is drawn that a pending write of another account is about,
whoever signs in and whatever is fetched: when the connection screen in front shows a
code, the code belongs to a user whose document names it, as soon as the pending writes
have arrived, in whatever order the accounts' writes do. -/
theorem shown_code_live (w : World) (a : App) (es : List AppEvent) (hw : Launched w)
    (hok : ∀ ev ∈ es, ev ≠ .device (.writeDone false))
    (hcode : Runs.Meets step Undisturbed (launch w) es)
    (hr : Runs.run step (launch w) es = some a) : a.LiveShown := by
  have hstart : (launch w).LiveShown := by
    obtain ⟨defaults, firebase, server, rfl⟩ := hw
    exact fun o ho => by cases ho
  refine (Runs.run_of_meets step (fun a => a.Sound ∧ a.LiveShown)
    (fun a ev => ev ≠ .device (.writeDone false) ∧ a.Undisturbed ev) ?_ (launch w) a es
    ⟨sound_launch w hw, hstart⟩
    (Runs.meets_and step _ _ _ es (Runs.meets_of_forall step _ _ es hok) hcode) hr).2
  rintro a ev a' ⟨hsound, hlive⟩ ⟨hev, hcode⟩ hs
  exact ⟨sound_step a ev a' hsound hs, liveShown_step a a' ev hsound hlive hev hcode hs⟩

/-- `A` signs out with the writes of the code still pending; `B` signs in and asks for
another. -/
def codesOfTwo : List AppEvent :=
  codeAskedFor ++ [.device .backToProfile, .device .backToSignIn, .device (.yes true)] ++
  (signInAs "B" 5).map .device ++
  (phoneTypedOver.take 6 ++ [FormEvent.finishWritingProfile]).map .form ++
  [.device (.getConnectionCode 42), .device (.writeDone true)]

theorem shown_code_live_codesOfTwo :
    ∃ a, Runs.run step (launch (newDevice ⟨∅, ∅⟩)) codesOfTwo = some a ∧
      (a.world.queue (some "A")).length = 3 ∧
      frontView a.views = some (.makeNewConnect ⟨"000042", false, true, false⟩) ∧ a.LiveShown := by
  have hrun : (Runs.run step (launch (newDevice ⟨∅, ∅⟩)) codesOfTwo).any (fun a =>
      decide ((a.world.queue (some "A")).length = 3 ∧
        frontView a.views = some (.makeNewConnect ⟨"000042", false, true, false⟩))) = true := by
    decide +kernel
  obtain ⟨a, ha, hfront⟩ := (Option.any_eq_true _ _).1 hrun
  obtain ⟨hqueue, hfront⟩ := of_decide_eq_true hfront
  exact ⟨a, ha, hqueue, hfront, shown_code_live _ a codesOfTwo (launched_newDevice ⟨∅, ∅⟩)
    (by decide) (Runs.meets_of_meetsB _ _ _ _ (by decide +kernel)) ha⟩

end App

end ProjectSY
