import ProjectSY.Lib.Records
import ProjectSY.Lib.Runs
import ProjectSY.Utils.Backend

/-!
# `HomeViewController`: the picture behind the home screen

A picked picture is saved as `HomeBG.jpeg` in the Documents directory; `viewDidLoad`
loads it from there.  `localImageSave` removes the old file, converts the picture and
creates the new file, in this order, and each of the three can fail.

`jpegData` is what the conversion makes of a picture, `uiImage` what `UIImage(data:)`
makes of a file.  Assumed of the platform: a `removeItem` that throws and a
`createFile` that fails leave the directory as it was.
-/

namespace ProjectSY

/-! ## Files -/

/-- What is at a path: a file, or something `contents(atPath:)` cannot read. -/
inductive Item where
  | file (contents : Data)
  | unreadable
  deriving DecidableEq

/-- The Documents directory, by path. -/
abbrev Documents := Finmap fun _ : String => Item

/-- `fileExists(atPath:)`. -/
def fileExists (documents : Documents) (path : String) : Bool := (documents.lookup path).isSome

/-- `contents(atPath:)`. -/
def contents (documents : Documents) (path : String) : Option Data :=
  match documents.lookup path with
  | some (.file contents) => some contents
  | _ => none

/-! ## Loading and saving -/

variable {Image : Type*} (jpegData : Image → Data) (uiImage : Data → Option Image)

def localImageLoad (documents : Documents) (fileName : String) : Option Image :=
  let url := fileName ++ ".jpeg"
  if fileExists documents url then
    match contents documents url with
    | none => none
    | some cachedData =>
      match uiImage cachedData with
      | some cachedImage => some cachedImage
      | none => none
  else none

/-- The steps of a save that fail, if they are reached. -/
structure Faults where
  removeItem : Bool
  jpegData : Bool
  createFile : Bool
  deriving DecidableEq

/-- Nothing fails. -/
def Faults.none : Faults := ⟨false, false, false⟩

/-- How a save ends. -/
inductive SaveEnd where
  | fatalError
  | notConverted
  | notCreated
  | created
  deriving DecidableEq

/-- The directory when the old file, if there was one, has been removed. -/
def removeOld (documents : Documents) (url : String) : Documents :=
  if fileExists documents url then documents.erase url else documents

def localImageSave (faults : Faults) (image : Image) (documents : Documents) (fileName : String) :
    Documents × SaveEnd :=
  let url := fileName ++ ".jpeg"
  if fileExists documents url ∧ faults.removeItem = true then (documents, .fatalError)
  else
    let documents := removeOld documents url
    match if faults.jpegData then Option.none else some (jpegData image) with
    | .none => (documents, .notConverted)
    | some transformedImage =>
      if faults.createFile then (documents, .notCreated)
      else (documents.insert url (.file transformedImage), .created)

/-! ## The home screen over many launches -/

structure Home where
  documents : Documents
  aborted : Bool
  deriving DecidableEq

inductive HomeEvent (Image : Type*) where
  /-- `imagePickerController(_:didFinishPickingMediaWithInfo:)`. -/
  | imagePicked (editedImage : Option Image) (faults : Faults)
  | launch

namespace Home

/-- The picture `viewDidLoad` loads. -/
def background (documents : Documents) : Option Image := localImageLoad uiImage documents "HomeBG"

def imagePicked (s : Home) (editedImage : Option Image) (faults : Faults) : Home :=
  match editedImage with
  | some newImage =>
    let (documents, saveEnd) := localImageSave jpegData faults newImage s.documents "HomeBG"
    { documents := documents, aborted := decide (saveEnd = .fatalError) }
  | none => s

def step (s : Home) : HomeEvent Image → Option Home
  | .imagePicked editedImage faults =>
    if s.aborted then none else some (s.imagePicked jpegData editedImage faults)
  | .launch => some { s with aborted := false }

end Home

theorem Home.step_imagePicked_eq_some (s s' : Home) (editedImage : Option Image) (faults : Faults) :
    s.step jpegData (.imagePicked editedImage faults) = some s' ↔
      s.aborted = false ∧ s.imagePicked jpegData editedImage faults = s' := by
  show (if s.aborted then none else some (s.imagePicked jpegData editedImage faults)) = some s' ↔ _
  cases s.aborted with
  | true => simp
  | false => simp

/-! ## What a save does -/

theorem lookup_removeOld (documents : Documents) (url path : String) :
    (removeOld documents url).lookup path = if path = url then none else documents.lookup path := by
  unfold removeOld
  split
  · exact Records.lookup_erase_if url path documents
  · next hno =>
    split
    · next hpath =>
      rw [hpath]
      exact Option.not_isSome_iff_eq_none.1 hno
    · rfl

/-- How a save ends, and what it leaves. -/
theorem localImageSave_eq (faults : Faults) (image : Image) (documents : Documents)
    (fileName : String) :
    localImageSave jpegData faults image documents fileName =
      if fileExists documents (fileName ++ ".jpeg") ∧ faults.removeItem = true then
        (documents, .fatalError)
      else if faults.jpegData then (removeOld documents (fileName ++ ".jpeg"), .notConverted)
      else if faults.createFile then (removeOld documents (fileName ++ ".jpeg"), .notCreated)
      else ((removeOld documents (fileName ++ ".jpeg")).insert (fileName ++ ".jpeg")
        (.file (jpegData image)), .created) := by
  unfold localImageSave
  obtain ⟨removeItem, conversion, createFile⟩ := faults
  cases conversion with
  | true => rfl
  | false => rfl

theorem localImageSave_fatalError_iff (faults : Faults) (image : Image) (documents : Documents)
    (fileName : String) :
    (localImageSave jpegData faults image documents fileName).2 = .fatalError ↔
      fileExists documents (fileName ++ ".jpeg") ∧ faults.removeItem = true := by
  rw [localImageSave_eq]
  split
  · next h => exact ⟨fun _ => h, fun _ => rfl⟩
  · next h =>
    refine ⟨fun hend => ?_, fun h' => absurd h' h⟩
    split at hend
    · cases hend
    · split at hend
      · cases hend
      · cases hend

theorem localImageSave_created_iff (faults : Faults) (image : Image) (documents : Documents)
    (fileName : String) :
    (localImageSave jpegData faults image documents fileName).2 = .created ↔
      ¬ (fileExists documents (fileName ++ ".jpeg") ∧ faults.removeItem = true) ∧
        faults.jpegData = false ∧ faults.createFile = false := by
  rw [localImageSave_eq]
  split
  · next h => exact ⟨fun hend => (by cases hend), fun h' => absurd h h'.1⟩
  · next h =>
    obtain ⟨removeItem, conversion, createFile⟩ := faults
    cases conversion with
    | true => exact ⟨fun hend => (by cases hend), fun h' => (by cases h'.2.1)⟩
    | false =>
      cases createFile with
      | true => exact ⟨fun hend => (by cases hend), fun h' => (by cases h'.2.2)⟩
      | false => exact ⟨fun _ => ⟨h, rfl, rfl⟩, fun _ => rfl⟩

/-- The file after a save: the old one if it could not be removed, the new one if
everything went well, and otherwise none. -/
theorem lookup_localImageSave (faults : Faults) (image : Image) (documents : Documents)
    (fileName : String) :
    (localImageSave jpegData faults image documents fileName).1.lookup (fileName ++ ".jpeg") =
      match (localImageSave jpegData faults image documents fileName).2 with
      | .fatalError => documents.lookup (fileName ++ ".jpeg")
      | .notConverted => none
      | .notCreated => none
      | .created => some (.file (jpegData image)) := by
  have hgone : (removeOld documents (fileName ++ ".jpeg")).lookup (fileName ++ ".jpeg") = none := by
    rw [lookup_removeOld, if_pos rfl]
  rw [localImageSave_eq]
  split
  · rfl
  · split
    · exact hgone
    · split
      · exact hgone
      · exact Finmap.lookup_insert _

/-- A save touches no other file. -/
theorem lookup_localImageSave_of_ne (faults : Faults) (image : Image) (documents : Documents)
    (fileName path : String) (h : path ≠ fileName ++ ".jpeg") :
    (localImageSave jpegData faults image documents fileName).1.lookup path =
      documents.lookup path := by
  have hkept : (removeOld documents (fileName ++ ".jpeg")).lookup path = documents.lookup path := by
    rw [lookup_removeOld, if_neg h]
  rw [localImageSave_eq]
  split
  · rfl
  · split
    · exact hkept
    · split
      · exact hkept
      · exact (Finmap.lookup_insert_of_ne _ h).trans hkept

/-- What is loaded is decided by the file. -/
theorem localImageLoad_eq (documents : Documents) (fileName : String) :
    localImageLoad uiImage documents fileName =
      (contents documents (fileName ++ ".jpeg")).bind uiImage := by
  cases h : documents.lookup (fileName ++ ".jpeg") with
  | none => simp [localImageLoad, fileExists, contents, h]
  | some item =>
    cases item with
    | unreadable => simp [localImageLoad, fileExists, contents, h]
    | file data =>
      simp only [localImageLoad, fileExists, contents, h, Option.isSome_some, if_true,
        Option.bind_some]
      cases uiImage data with
      | none => rfl
      | some image => rfl

end ProjectSY
