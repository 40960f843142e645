import ProjectSY.App.World
import ProjectSY.Lib.Pattern

/-!
# The form of `newProfileViewController` while it is filled in

`viewDidLoad` fills the four text fields from the session.  `checkVaildity` matches
the phone and the birthday against their patterns and keeps the answer in
`isAllTextFieldValid`; it runs at a touch outside the fields and at Return, not
while a text is typed, a picture is picked or a field is filled by `viewDidLoad`.
A tap of the finish button decides on the kept answer.

Assumed of the platform:

* a text that is nil reads as the empty string;
* `SELF MATCHES` is an ICU match of the whole string;
* the tap of a button is no touch outside the fields.
-/

namespace ProjectSY

/-- `textField.text = text`. -/
def UITextField.ofText (text : Option String) : UITextField := ⟨text.getD ""⟩

/-! ## Validation -/

/-- `NSPredicate(format: "SELF MATCHES %@", regex).evaluate(with: text)`; `none`
when the predicate raises because `regex` is no pattern. -/
def selfMatches (regex text : String) : Option Bool :=
  (Regex.parse regex).map fun r => Regex.fullMatch Regex.CharClass.has r text.toList

def isTextFieldValid (textField : UITextField) (regex : String) : Option Bool :=
  match textField.text with
  | none => some false
  | some text => selfMatches regex text

def phoneRegex : String := "^01([0|1|6|7|8|9])-([0-9]{3,4})-([0-9]{4})"

def birthdayRegex : String := "([0-9]{4}).([0-1]{1})([0-9]{1}.([0-3]{1})([0-9]{1}))"

namespace ProfileForm

/-- `checkVaildity`; `none` when a predicate raises. -/
def checkVaildity (form : ProfileForm) : Option ProfileForm :=
  -- the birthday is looked at only if the phone is valid
  let valid := match isTextFieldValid form.phoneNumberTextField phoneRegex with
    | some true => isTextFieldValid form.birthdayTextField birthdayRegex
    | answer => answer
  valid.map fun isAllTextFieldValid => { form with isAllTextFieldValid := isAllTextFieldValid }

/-- The form `viewDidLoad` leaves. -/
def viewDidLoad (user : User) : ProfileForm :=
  let userData := user.getUserData
  { usernameTextField := .ofText (userData.bind fun d => stringField d "name")
    birthdayTextField := .ofText (userData.bind fun d => stringField d "birthday")
    phoneNumberTextField := .ofText (userData.bind fun d => stringField d "phone")
    commentTextField := .ofText (userData.bind fun d => stringField d "comment")
    isAllTextFieldValid := false
    profileImage := none }

/-- What a tap of the finish button leaves in `isAllTextFieldValid`. -/
def andTexts (form : ProfileForm) : ProfileForm :=
  { form with
    isAllTextFieldValid := form.isAllTextFieldValid && (form.usernameTextField.text != none) &&
      (form.commentTextField.text != none) }

end ProfileForm

/-! ## The form as a state machine -/

/-- The form and the device it is shown on. -/
structure FormState where
  form : ProfileForm
  world : World
  deriving DecidableEq

inductive FormEvent where
  | usernameEdited (text : String)
  | birthdayEdited (text : String)
  | phoneNumberEdited (text : String)
  | commentEdited (text : String)
  | scrollViewTouch
  | touchesBegan
  | textFieldShouldReturn
  /-- `imagePickerController(_:didFinishPickingMediaWithInfo:)`. -/
  | imagePicked (editedImage : Option UIImage)
  | finishWritingProfile
  deriving DecidableEq

namespace FormState

/-- The form is loaded in `w`. -/
def viewDidLoad (w : World) : FormState := ⟨.viewDidLoad w.user, w⟩

/-- `checkVaildity` is called; a predicate that raises ends the process. -/
def checked (s : FormState) : FormState :=
  match s.form.checkVaildity with
  | some form => { s with form := form }
  | none => { s with world := { s.world with aborted := true } }

def finishWritingProfile (s : FormState) : FormState :=
  ⟨s.form.andTexts, ProjectSY.perform s.world (.finishWritingProfile s.form)⟩

def perform (s : FormState) : FormEvent → FormState
  | .usernameEdited text => { s with form := { s.form with usernameTextField := ⟨text⟩ } }
  | .birthdayEdited text => { s with form := { s.form with birthdayTextField := ⟨text⟩ } }
  | .phoneNumberEdited text => { s with form := { s.form with phoneNumberTextField := ⟨text⟩ } }
  | .commentEdited text => { s with form := { s.form with commentTextField := ⟨text⟩ } }
  | .scrollViewTouch => s.checked
  | .touchesBegan => s.checked
  | .textFieldShouldReturn => s.checked
  | .imagePicked (some newImage) => { s with form := { s.form with profileImage := some newImage } }
  | .imagePicked none => s
  | .finishWritingProfile => s.finishWritingProfile

end FormState

def formStep (s : FormState) (e : FormEvent) : Option FormState :=
  if s.world.aborted then none else some (s.perform e)

theorem formStep_eq_some (s s' : FormState) (e : FormEvent) :
    formStep s e = some s' ↔ s.world.aborted = false ∧ s.perform e = s' := by
  unfold formStep
  cases s.world.aborted with
  | true => simp
  | false => simp

/-! ## What is kept -/

/-- The texts are never nil, so a tap leaves the kept answer as it was. -/
theorem ProfileForm.andTexts_eq (form : ProfileForm) : form.andTexts = form := by
  unfold ProfileForm.andTexts
  rw [form.flag_and_texts]

end ProjectSY
