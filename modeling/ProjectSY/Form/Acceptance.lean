import ProjectSY.App.Navigation
import ProjectSY.Form.Validators

/-!
# What the profile form accepts

A tap of the finish button should accept what is on screen: valid phone and birthday
texts, a name and a comment, a picture that converts, somebody signed in.  It decides
on `isAllTextFieldValid`, which is as old as the last touch outside the fields or
Return.  `Checked` are the texts that were looked at then, kept beside the form; the
form does not read them.

    Acceptable   what is on screen is valid
    TapRight     a tap stores a profile exactly when `Acceptable`, and stores the texts
                 on screen
    UpToDate     the texts that were looked at are as valid as those on screen, and no
                 name or comment is missing

The flag is whether the texts looked at were valid (`flagKept_step`), and the comparison
of name and comment with nil is no test.  So along a run every tap is right exactly
when it is made up to date (`tapsRight_iff`).
-/

namespace ProjectSY

/-! ## What a tap should do -/

/-- The phone and the birthday match their patterns. -/
def ValidTexts (phone birthday : UITextField) : Prop :=
  isTextFieldValid phone phoneRegex = some true ∧
    isTextFieldValid birthday birthdayRegex = some true

instance (phone birthday : UITextField) : Decidable (ValidTexts phone birthday) :=
  inferInstanceAs (Decidable (_ ∧ _))

/-- The texts on screen are valid and no field is blank. -/
def ProfileForm.Valid (form : ProfileForm) : Prop :=
  ValidTexts form.phoneNumberTextField form.birthdayTextField ∧
    form.usernameTextField.entered ≠ "" ∧ form.commentTextField.entered ≠ ""

instance (form : ProfileForm) : Decidable form.Valid := inferInstanceAs (Decidable (_ ∧ _))

/-- A picture has been picked and converts, and somebody is signed in. -/
def FormState.HasPictureAndUser (s : FormState) : Prop :=
  s.form.profileImage.bind UIImage.jpegData ≠ none ∧ s.world.user.getUserIdToken ≠ none

instance (s : FormState) : Decidable s.HasPictureAndUser := inferInstanceAs (Decidable (_ ∧ _))

def FormState.Acceptable (s : FormState) : Prop := s.form.Valid ∧ s.HasPictureAndUser

/-- The picture is uploaded, the profile written to `users/<uid>`, and stored in memory
and on disk. -/
structure Stores (w w' : World) (uid : String) (jpeg : Data) (data : Dict) : Prop where
  uploads : w'.uploads = w.uploads ++ [some (profileUpload uid jpeg)]
  outbox : w'.firebase.outbox =
    w.firebase.outbox ++ (profileWrites uid data).map (Prod.mk w.firebase.currentUser)
  user : w'.user = w.user.setUserData data
  defaults : w'.defaults = w.defaults.set (.dictionary data) "userData"

/-- A tap in `s` stores a profile exactly when what is on screen is acceptable, and
what it stores is on screen. -/
structure TapRight (s : FormState) : Prop where
  accepts : (∃ uid jpeg data, Stores s.world s.finishWritingProfile.world uid jpeg data) ↔
    s.Acceptable
  stored : ∀ uid jpeg data, Stores s.world s.finishWritingProfile.world uid jpeg data →
    s.world.user.getUserIdToken = some uid ∧
      s.form.profileImage.bind UIImage.jpegData = some jpeg ∧ data = s.form.profile

/-! ## What a tap does -/

/-- A tap stores what `finishWritingProfile` accepts, and nothing otherwise. -/
theorem stores_tap_iff (s : FormState) (uid : String) (jpeg : Data) (data : Dict) :
    Stores s.world s.finishWritingProfile.world uid jpeg data ↔
      finishWritingProfile s.form s.world.user = .saved uid jpeg data := by
  show Stores s.world (s.world.finishWritingProfile s.form) uid jpeg data ↔ _
  have hnothing : ∀ w' : World, w'.uploads = s.world.uploads →
      ¬ Stores s.world w' uid jpeg data := by
    intro w' hw hst
    have hlen := congrArg List.length (hw.symm.trans hst.uploads)
    rw [List.length_append, List.length_singleton] at hlen
    omega
  unfold World.finishWritingProfile
  cases hf : finishWritingProfile s.form s.world.user with
  | saved uid' jpeg' data' =>
    constructor
    · intro hst
      have hupload := List.append_cancel_left hst.uploads
      have hwrites := List.append_cancel_left hst.outbox
      simp only [profileUpload, AppStorage.upload, List.cons.injEq, Option.some.injEq,
        Upload.mk.injEq] at hupload
      simp only [profileWrites, AppDB.addData, List.map_cons, List.map_nil, List.cons.injEq,
        Prod.mk.injEq, Write.setData.injEq] at hwrites
      obtain ⟨⟨-, rfl⟩, -⟩ := hupload
      obtain ⟨⟨-, -, rfl, rfl⟩, -⟩ := hwrites
      rfl
    · intro h
      cases h
      exact ⟨rfl, rfl, rfl, rfl⟩
  | _ => exact ⟨fun hst => absurd hst (hnothing _ rfl), fun h => by cases h⟩

/-- What is stored is on screen, whatever was accepted. -/
theorem stored_tap (s : FormState) (uid : String) (jpeg : Data) (data : Dict)
    (h : Stores s.world s.finishWritingProfile.world uid jpeg data) :
    s.world.user.getUserIdToken = some uid ∧
      s.form.profileImage.bind UIImage.jpegData = some jpeg ∧ data = s.form.profile := by
  rw [stores_tap_iff, finishWritingProfile_saved_iff] at h
  obtain ⟨-, hj, ht, hdata⟩ := h
  exact ⟨ht, hj, hdata.symm⟩

/-- A tap stores something when the kept answer, the picture and the session allow it. -/
theorem exists_stores_tap_iff (s : FormState) :
    (∃ uid jpeg data, Stores s.world s.finishWritingProfile.world uid jpeg data) ↔
      s.form.isAllTextFieldValid = true ∧ s.HasPictureAndUser := by
  simp only [stores_tap_iff, finishWritingProfile_saved_iff]
  constructor
  · rintro ⟨uid, jpeg, data, hv, hj, ht, -⟩
    have htoken : s.world.user.getUserIdToken = some uid := ht
    refine ⟨hv, ?_, ?_⟩
    · rw [hj]
      exact Option.some_ne_none jpeg
    · rw [htoken]
      exact Option.some_ne_none uid
  · rintro ⟨hv, hj, ht⟩
    obtain ⟨jpeg, hj⟩ := Option.ne_none_iff_exists'.1 hj
    obtain ⟨uid, ht⟩ := Option.ne_none_iff_exists'.1 ht
    exact ⟨uid, jpeg, s.form.profile, hv, hj, ht, rfl⟩

/-- A tap is right when the kept answer is the one the screen deserves, or there is no
picture or no user anyway. -/
theorem tapRight_iff (s : FormState) :
    TapRight s ↔ (s.HasPictureAndUser → (s.form.isAllTextFieldValid = true ↔ s.form.Valid)) := by
  constructor
  · intro h hpu
    have haccepts := h.accepts
    rw [exists_stores_tap_iff] at haccepts
    exact ⟨fun hv => (haccepts.1 ⟨hv, hpu⟩).1, fun hv => (haccepts.2 ⟨hv, hpu⟩).1⟩
  · intro h
    refine ⟨?_, stored_tap s⟩
    rw [exists_stores_tap_iff]
    constructor
    · rintro ⟨hv, hpu⟩
      exact ⟨(h hpu).1 hv, hpu⟩
    · rintro ⟨hv, hpu⟩
      exact ⟨(h hpu).2 hv, hpu⟩

/-! ## The texts that were looked at -/

/-- The phone and the birthday that `checkVaildity` looked at last. -/
abbrev Checked := Option (UITextField × UITextField)

def checkedAfter (checked : Checked) (s : FormState) : FormEvent → Checked
  | .scrollViewTouch | .touchesBegan | .textFieldShouldReturn =>
    some (s.form.phoneNumberTextField, s.form.birthdayTextField)
  | _ => checked

abbrev checkedStep : FormState × Checked → FormEvent → Option (FormState × Checked) :=
  Runs.recorded formStep checkedAfter

/-- Texts were looked at, and they were valid. -/
def Checked.Valid (checked : Checked) : Prop :=
  ∃ texts, checked = some texts ∧ ValidTexts texts.1 texts.2

/-- With a picture and a user: the texts that were looked at are as valid as what is on
screen. -/
def UpToDate (s : FormState × Checked) : Prop :=
  s.1.HasPictureAndUser → (s.2.Valid ↔ s.1.form.Valid)

/-- The kept answer is about the texts that were looked at. -/
def FlagKept (s : FormState × Checked) : Prop :=
  s.1.form.isAllTextFieldValid = true ↔ s.2.Valid

/-- No predicate raises, so `checkVaildity` keeps whether the texts are valid. -/
theorem checkVaildity_eq (form : ProfileForm) :
    ∃ valid, form.checkVaildity = some { form with isAllTextFieldValid := valid } ∧
      (valid = true ↔ ValidTexts form.phoneNumberTextField form.birthdayTextField) := by
  have hphone := isTextFieldValid_eq form.phoneNumberTextField phoneRegex _ parse_phoneRegex
  have hbirthday := isTextFieldValid_eq form.birthdayTextField birthdayRegex _ parse_birthdayRegex
  unfold ProfileForm.checkVaildity ValidTexts
  rw [hphone, hbirthday]
  cases Regex.fullMatch Regex.CharClass.has phoneExpr form.phoneNumberTextField.entered.toList with
  | false => exact ⟨false, rfl, by simp⟩
  | true => exact ⟨_, rfl, by simp⟩

theorem checked_eq (s : FormState) :
    ∃ valid, s.checked = { s with form := { s.form with isAllTextFieldValid := valid } } ∧
      (valid = true ↔ ValidTexts s.form.phoneNumberTextField s.form.birthdayTextField) := by
  obtain ⟨valid, hcheck, hvalid⟩ := checkVaildity_eq s.form
  refine ⟨valid, ?_, hvalid⟩
  unfold FormState.checked
  rw [hcheck]

/-- An event looks at the texts, or leaves the kept answer alone. -/
theorem perform_flag (s : FormState) (e : FormEvent) :
    (s.perform e = s.checked ∧ ∀ checked, checkedAfter checked s e =
      some (s.form.phoneNumberTextField, s.form.birthdayTextField)) ∨
    ((s.perform e).form.isAllTextFieldValid = s.form.isAllTextFieldValid ∧
      ∀ checked, checkedAfter checked s e = checked) := by
  cases e with
  | scrollViewTouch => exact Or.inl ⟨rfl, fun _ => rfl⟩
  | touchesBegan => exact Or.inl ⟨rfl, fun _ => rfl⟩
  | textFieldShouldReturn => exact Or.inl ⟨rfl, fun _ => rfl⟩
  | imagePicked editedImage =>
    cases editedImage with
    | none => exact Or.inr ⟨rfl, fun _ => rfl⟩
    | some newImage => exact Or.inr ⟨rfl, fun _ => rfl⟩
  | finishWritingProfile =>
    refine Or.inr ⟨?_, fun _ => rfl⟩
    show s.form.andTexts.isAllTextFieldValid = _
    rw [s.form.andTexts_eq]
  | _ => exact Or.inr ⟨rfl, fun _ => rfl⟩

theorem flagKept_step (s : FormState × Checked) (e : FormEvent) (s' : FormState × Checked)
    (h : FlagKept s) (hs : checkedStep s e = some s') : FlagKept s' := by
  obtain ⟨s, checked⟩ := s
  obtain ⟨t, checked'⟩ := s'
  obtain ⟨hstep, rfl⟩ : formStep s e = some t ∧ checked' = checkedAfter checked s e :=
    (Runs.recorded_eq_some _ _ _ _ e).1 hs
  obtain ⟨-, rfl⟩ := (formStep_eq_some s t e).1 hstep
  unfold FlagKept at h ⊢
  rcases perform_flag s e with ⟨hlooked, hchecked⟩ | ⟨hflag, hchecked⟩
  · obtain ⟨valid, hform, hvalid⟩ := checked_eq s
    rw [hchecked, hlooked, hform]
    show valid = true ↔ _
    rw [hvalid]
    constructor
    · intro hv
      exact ⟨_, rfl, hv⟩
    · rintro ⟨texts, htexts, hv⟩
      cases htexts
      exact hv
  · rw [hchecked, hflag]
    exact h

theorem flagKept_viewDidLoad (w : World) : FlagKept (FormState.viewDidLoad w, none) := by
  constructor
  · intro h
    cases h
  · rintro ⟨texts, htexts, -⟩
    cases htexts

/-- Only a tap touches the device, and there it is the event of the device. -/
theorem perform_world (s : FormState) (e : FormEvent) :
    (s.perform e).world = s.world ∨
      (s.perform e).world = perform s.world (.finishWritingProfile s.form) := by
  have hchecked : s.checked.world = s.world := by
    obtain ⟨valid, hform, -⟩ := checked_eq s
    rw [hform]
  cases e with
  | scrollViewTouch => exact Or.inl hchecked
  | touchesBegan => exact Or.inl hchecked
  | textFieldShouldReturn => exact Or.inl hchecked
  | imagePicked editedImage =>
    cases editedImage with
    | none => exact Or.inl rfl
    | some newImage => exact Or.inl rfl
  | finishWritingProfile => exact Or.inr rfl
  | _ => exact Or.inl rfl

/-- While the form is on screen, an event of the form is a step of the device or leaves
the device alone. -/
theorem formStep_device (s s' : FormState) (e : FormEvent) (h : s.world.shows .newProfile)
    (hs : formStep s e = some s') :
    s'.world = s.world ∨ step s.world (.finishWritingProfile s.form) = some s'.world := by
  obtain ⟨hup, rfl⟩ := (formStep_eq_some s s' e).1 hs
  rcases perform_world s e with hworld | hworld
  · exact Or.inl hworld
  · exact Or.inr ((step_eq_some s.world _ _).2 ⟨⟨hup, h⟩, hworld.symm⟩)

/-- No event of the form ends the process, so every sequence of them can happen. -/
theorem form_run (s : FormState) (es : List FormEvent) (h : s.world.aborted = false) :
    ∃ s', Runs.run formStep s es = some s' ∧ s'.world.aborted = false := by
  induction es generalizing s with
  | nil => exact ⟨s, rfl, h⟩
  | cons e es ih =>
    have hstep : formStep s e = some (s.perform e) := (formStep_eq_some s _ e).2 ⟨h, rfl⟩
    have hup : (s.perform e).world.aborted = false := by
      rcases perform_world s e with hworld | hworld
      · rw [hworld]
        exact h
      · rw [hworld]
        exact perform_aborted s.world _ h fun n hn => by cases hn
    obtain ⟨s', hrun, h'⟩ := ih (s.perform e) hup
    exact ⟨s', (Runs.run_cons_eq_some formStep s s' e es).2 ⟨_, hstep, hrun⟩, h'⟩

/-! ## Every run -/

/-- **When the form accepts what is on screen.**  The form is loaded in any session.
Along any sequence of edits, touches outside the fields, Returns, picked pictures and
taps, every tap stores a profile exactly when what is on screen is acceptable, and
stores what is on screen, exactly when every tap is made up to date. -/
theorem tapsRight_iff (w : World) (es : List FormEvent) :
    Runs.Meets checkedStep (fun s e => e = .finishWritingProfile → TapRight s.1)
        (FormState.viewDidLoad w, none) es ↔
      Runs.Meets checkedStep (fun s e => e = .finishWritingProfile → UpToDate s)
        (FormState.viewDidLoad w, none) es := by
  refine Runs.meets_congr checkedStep FlagKept _ _ flagKept_step (fun s e h => ?_) _ es
    (flagKept_viewDidLoad w)
  have hflag : s.1.form.isAllTextFieldValid = true ↔ s.2.Valid := h
  have hright : TapRight s.1 ↔ UpToDate s := by
    rw [tapRight_iff, hflag]
    rfl
  rw [hright]

/-- `A` fills in the form, touches the screen outside the fields, picks a picture, and
then types over the phone number. -/
def phoneTypedOver : List FormEvent :=
  [.usernameEdited "Ann", .birthdayEdited "1999.01.31", .phoneNumberEdited "010-1234-5678",
    .commentEdited "hello", .touchesBegan, .imagePicked (some ⟨some [1]⟩), .phoneNumberEdited "x"]

/-- A tap is not always right: it stores `x` for a phone number that was valid when the
screen was last touched. -/
theorem tap_wrong :
    ¬ ∀ (w : World) (es : List FormEvent) (s : FormState), Runs.Reachable step FirstLaunch w →
      w.shows .newProfile → Runs.run formStep (FormState.viewDidLoad w) es = some s →
      TapRight s := by
  intro h
  have hbad : (Runs.run step (newDevice ⟨∅, ∅⟩) ([.goToNextStorybaord] ++ signInAs "A" 1)).any
      (fun w => decide (w.shows .newProfile) &&
        (Runs.run formStep (FormState.viewDidLoad w) phoneTypedOver).any fun s =>
          decide (s.form.isAllTextFieldValid = true ∧ s.HasPictureAndUser ∧ ¬ s.form.Valid)) =
      true := by
    decide +kernel
  obtain ⟨w, hw, hbad⟩ := (Option.any_eq_true _ _).1 hbad
  rw [Bool.and_eq_true, decide_eq_true_eq] at hbad
  obtain ⟨hshows, hbad⟩ := hbad
  obtain ⟨s, hs, hbad⟩ := (Option.any_eq_true _ _).1 hbad
  obtain ⟨hflag, hpu, hinvalid⟩ := of_decide_eq_true hbad
  have hright := h w phoneTypedOver s ⟨_, _, firstLaunch_newDevice ⟨∅, ∅⟩, hw⟩ hshows hs
  exact hinvalid (((tapRight_iff s).1 hright hpu).1 hflag)

end ProjectSY
