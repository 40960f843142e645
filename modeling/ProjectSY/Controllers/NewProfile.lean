import ProjectSY.Models.User

/-!
# `newProfileViewController`

`finishWritingProfile` decides on the form and the session; when it accepts it
uploads the picture, replaces the document `users/<uid>` and sets the profile in
`User.shared` and in `UserDefaults`, without waiting for the two writes.
-/

namespace ProjectSY

/-- A text field by what has been entered. -/
structure UITextField where
  entered : String
  deriving DecidableEq, Repr

/-- `UITextField.text` reads as the empty string when nothing is entered. -/
def UITextField.text (f : UITextField) : Option String := some f.entered

/-- A picture by what `jpegData(compressionQuality: 1)` makes of it. -/
structure UIImage where
  jpegData : Option Data
  deriving DecidableEq, Repr

structure ProfileForm where
  usernameTextField : UITextField
  birthdayTextField : UITextField
  phoneNumberTextField : UITextField
  commentTextField : UITextField
  isAllTextFieldValid : Bool
  profileImage : Option UIImage
  deriving DecidableEq, Repr

/-- `uploadData`: the profile as it is stored. -/
def profileData (name birthday phone comment : String) : Dict :=
  (((Finmap.singleton "name" (.string name)).insert "birthday" (.string birthday)).insert
    "phone" (.string phone)).insert "comment" (.string comment)

/-- How `finishWritingProfile` ends. -/
inductive FinishResult where
  | saved (userIdToken : String) (profileImageData : Data) (uploadData : Dict)
  | noSignInStatus
  | jpegImageConvertingFailed
  | alertNoPicture
  | alertInput
  | trap
  deriving DecidableEq

def finishWritingProfile (form : ProfileForm) (user : User) : FinishResult :=
  let isAllTextFieldValid := form.isAllTextFieldValid && (form.usernameTextField.text != none) &&
    (form.commentTextField.text != none)
  if isAllTextFieldValid = true ∧ form.profileImage ≠ none then
    match user.getUserIdToken with
    | none => .noSignInStatus
    | some userIdToken =>
      match form.profileImage.bind UIImage.jpegData with
      | none => .jpegImageConvertingFailed
      | some profileImageData =>
        match form.usernameTextField.text, form.birthdayTextField.text,
          form.phoneNumberTextField.text, form.commentTextField.text with
        | some name, some birthday, some phone, some comment =>
          .saved userIdToken profileImageData (profileData name birthday phone comment)
        | _, _, _, _ => .trap
  else if form.profileImage = none then .alertNoPicture
  else .alertInput

/-- The upload an accepted profile starts. -/
def profileUpload (userIdToken : String) (profileImageData : Data) : Upload :=
  AppStorage.upload ("images/" ++ userIdToken ++ "/profile.jpg") profileImageData

/-- The writes an accepted profile issues. -/
def profileWrites (userIdToken : String) (uploadData : Dict) : List Write :=
  [AppDB.addData "users" userIdToken uploadData]

/-- The profile the form shows. -/
def ProfileForm.profile (form : ProfileForm) : Dict :=
  profileData form.usernameTextField.entered form.birthdayTextField.entered
    form.phoneNumberTextField.entered form.commentTextField.entered

/-- The texts are never nil, so comparing them with nil changes no flag. -/
theorem ProfileForm.flag_and_texts (form : ProfileForm) :
    (form.isAllTextFieldValid && (form.usernameTextField.text != none) &&
      (form.commentTextField.text != none)) = form.isAllTextFieldValid := by
  show (form.isAllTextFieldValid && true && true) = _
  rw [Bool.and_true, Bool.and_true]

/-- With texts that are never nil, acceptance is decided by the cached flag, the
picture and the session; what is stored is what the form shows. -/
theorem finishWritingProfile_eq (form : ProfileForm) (user : User) :
    finishWritingProfile form user =
      if form.isAllTextFieldValid = true ∧ form.profileImage ≠ none then
        match user.userIdToken with
        | none => .noSignInStatus
        | some uid =>
          match form.profileImage.bind UIImage.jpegData with
          | none => .jpegImageConvertingFailed
          | some jpeg => .saved uid jpeg form.profile
      else if form.profileImage = none then .alertNoPicture
      else .alertInput := by
  unfold finishWritingProfile
  simp only [form.flag_and_texts]
  rfl

/-- The form is accepted exactly when it was found valid, a picture was picked
that converts to JPEG, and someone is signed in. -/
theorem finishWritingProfile_saved_iff (form : ProfileForm) (user : User) (uid : String)
    (jpeg : Data) (data : Dict) :
    finishWritingProfile form user = .saved uid jpeg data ↔
      form.isAllTextFieldValid = true ∧ form.profileImage.bind UIImage.jpegData = some jpeg ∧
      user.userIdToken = some uid ∧ form.profile = data := by
  rw [finishWritingProfile_eq]
  constructor
  · intro h
    split at h
    · next hok =>
      cases ht : user.userIdToken with
      | none => rw [ht] at h; cases h
      | some token =>
        cases hj : form.profileImage.bind UIImage.jpegData with
        | none => rw [ht, hj] at h; cases h
        | some jpeg' =>
          rw [ht, hj] at h
          simp only [FinishResult.saved.injEq] at h
          obtain ⟨rfl, rfl, rfl⟩ := h
          exact ⟨hok.1, rfl, rfl, rfl⟩
    · split at h
      · cases h
      · cases h
  · rintro ⟨hv, hj, ht, rfl⟩
    have hi : form.profileImage ≠ none := by
      intro hi
      rw [hi] at hj
      cases hj
    rw [if_pos ⟨hv, hi⟩, ht, hj]

/-- The texts are never nil, so no `!` of `uploadData` traps. -/
theorem finishWritingProfile_ne_trap (form : ProfileForm) (user : User) :
    finishWritingProfile form user ≠ .trap := by
  rw [finishWritingProfile_eq]
  split
  · cases user.userIdToken with
    | none => exact fun h => by cases h
    | some uid =>
      cases form.profileImage.bind UIImage.jpegData with
      | none => exact fun h => by cases h
      | some jpeg => exact fun h => by cases h
  · split
    · exact fun h => by cases h
    · exact fun h => by cases h

/-! ## The stored profile -/

/-- The four fields of a profile. -/
def profileFields : List String := ["name", "birthday", "phone", "comment"]

theorem lookup_profileData (name birthday phone comment key : String) :
    (profileData name birthday phone comment).lookup key =
      if key = "comment" then some (.string comment)
      else if key = "phone" then some (.string phone)
      else if key = "birthday" then some (.string birthday)
      else if key = "name" then some (.string name) else none := by
  unfold profileData
  simp only [Records.lookup_insert_if, Records.lookup_singleton_if]

theorem mem_profileData (name birthday phone comment key : String) :
    key ∈ profileData name birthday phone comment ↔ key ∈ profileFields := by
  unfold profileData profileFields
  simp only [Finmap.mem_insert, Finmap.mem_singleton, List.mem_cons, List.not_mem_nil, or_false]
  tauto

/-- A profile as it is stored carries no connection code. -/
theorem profileData_connectionCode (name birthday phone comment : String) :
    (profileData name birthday phone comment).lookup "connectionCode" = none := by
  rw [lookup_profileData]
  simp

theorem ProfileForm.profile_connectionCode (form : ProfileForm) :
    form.profile.lookup "connectionCode" = none :=
  profileData_connectionCode _ _ _ _

end ProjectSY
