import ProjectSY.Controllers.Home

/-!
# Is the background ever lost?

What a save is for is a cell that holds one picture: a save that succeeds puts the
new picture in, one that fails leaves the old one.  `saved` is this cell, kept beside
the directory.

    CallKeeps    after the call the file is the new picture or as it was, and the
                 process goes on
    LoadsSaved   `viewDidLoad` loads the picture in the cell
    Spares       there is no old file, or nothing fails

The old file is removed first, so a conversion or a creation that fails leaves no
file, and a removal that fails aborts the process (`background_lost`).  A run keeps
the background exactly when every save spares it (`background_iff`).
-/

namespace ProjectSY

variable {Image : Type*} (jpegData : Image → Data) (uiImage : Data → Option Image)

/-- The picture of the most recent save that succeeded, after an event in `s`. -/
def savedAfter (saved : Option Image) (s : Home) : HomeEvent Image → Option Image
  | .imagePicked (some newImage) faults =>
    if (localImageSave jpegData faults newImage s.documents "HomeBG").2 = .created then some newImage
    else saved
  | .imagePicked none _ => saved
  | .launch => saved

abbrev savedStep : Home × Option Image → HomeEvent Image → Option (Home × Option Image) :=
  Runs.recorded (Home.step jpegData) (savedAfter jpegData)

/-- What a call of `localImageSave` should do: the file is the encoding of the new
picture or what it was before, and the process is not aborted. -/
def CallKeeps (s : Home) : HomeEvent Image → Prop
  | .imagePicked (some newImage) faults =>
    let after := s.imagePicked jpegData (some newImage) faults
    after.aborted = false ∧
      (after.documents.lookup "HomeBG.jpeg" = some (.file (jpegData newImage)) ∨
        after.documents.lookup "HomeBG.jpeg" = s.documents.lookup "HomeBG.jpeg")
  | _ => True

/-- The picture that is loaded is the one saved last, or the first one as long as none
was saved. -/
def LoadsSaved (first : Documents) (s : Home × Option Image) : Prop :=
  Home.background uiImage s.1.documents = s.2.or (Home.background uiImage first)

/-- There is no old file, or nothing fails. -/
def Spares (s : Home) : HomeEvent Image → Prop
  | .imagePicked (some _) faults =>
    s.documents.lookup "HomeBG.jpeg" = none ∨ faults = Faults.none
  | _ => True

instance (s : Home) (e : HomeEvent Image) : Decidable (Spares s e) :=
  match e with
  | .imagePicked (some _) _ => inferInstanceAs (Decidable (_ ∨ _))
  | .imagePicked none _ => inferInstanceAs (Decidable True)
  | .launch => inferInstanceAs (Decidable True)

/-! ## One call -/

theorem homeURL : "HomeBG" ++ ".jpeg" = "HomeBG.jpeg" := by decide

theorem fileExists_iff (documents : Documents) (path : String) :
    fileExists documents path ↔ documents.lookup path ≠ none := Option.isSome_iff_ne_none

theorem Faults.eq_none_iff (faults : Faults) :
    faults = Faults.none ↔
      faults.removeItem = false ∧ faults.jpegData = false ∧ faults.createFile = false := by
  obtain ⟨removeItem, conversion, createFile⟩ := faults
  unfold Faults.none
  rw [Faults.mk.injEq]

/-- A save that spares the background leaves the new picture if it succeeds, and
otherwise goes on with the file as it was. -/
theorem spared_save (s : Home) (newImage : Image) (faults : Faults)
    (h : Spares s (.imagePicked (some newImage) faults)) :
    ((localImageSave jpegData faults newImage s.documents "HomeBG").2 = .created ∧
      (localImageSave jpegData faults newImage s.documents "HomeBG").1.lookup "HomeBG.jpeg" =
        some (.file (jpegData newImage))) ∨
    ((localImageSave jpegData faults newImage s.documents "HomeBG").2 ≠ .created ∧
      (localImageSave jpegData faults newImage s.documents "HomeBG").2 ≠ .fatalError ∧
      (localImageSave jpegData faults newImage s.documents "HomeBG").1.lookup "HomeBG.jpeg" =
        s.documents.lookup "HomeBG.jpeg") := by
  have hfile := lookup_localImageSave jpegData faults newImage s.documents "HomeBG"
  have hfatal := localImageSave_fatalError_iff jpegData faults newImage s.documents "HomeBG"
  have hcreated := localImageSave_created_iff jpegData faults newImage s.documents "HomeBG"
  rw [homeURL] at hfile hfatal hcreated
  rw [fileExists_iff] at hfatal hcreated
  rcases h with hold | hnone
  · -- without an old file there is nothing to lose
    cases hend : (localImageSave jpegData faults newImage s.documents "HomeBG").2 with
    | created => rw [hend] at hfile; exact Or.inl ⟨rfl, hfile⟩
    | fatalError => exact absurd hold (hfatal.1 hend).1
    | notConverted => rw [hend] at hfile; exact Or.inr ⟨by simp, by simp, hfile.trans hold.symm⟩
    | notCreated => rw [hend] at hfile; exact Or.inr ⟨by simp, by simp, hfile.trans hold.symm⟩
  · obtain ⟨hremove, hrest⟩ := faults.eq_none_iff.1 hnone
    have hend := hcreated.2 ⟨fun h => Bool.eq_false_iff.1 hremove h.2, hrest⟩
    rw [hend] at hfile
    exact Or.inl ⟨hend, hfile⟩

/-- A save that finds an old file and fails loses it, or ends the process. -/
theorem unspared_save (s : Home) (newImage : Image) (faults : Faults)
    (h : ¬ Spares s (.imagePicked (some newImage) faults)) :
    (localImageSave jpegData faults newImage s.documents "HomeBG").2 = .fatalError ∨
      (localImageSave jpegData faults newImage s.documents "HomeBG").1.lookup "HomeBG.jpeg" =
        none := by
  have hfile := lookup_localImageSave jpegData faults newImage s.documents "HomeBG"
  have hcreated := localImageSave_created_iff jpegData faults newImage s.documents "HomeBG"
  rw [homeURL] at hfile hcreated
  rw [fileExists_iff] at hcreated
  obtain ⟨hold, hfaults⟩ : s.documents.lookup "HomeBG.jpeg" ≠ none ∧ faults ≠ Faults.none :=
    not_or.1 h
  cases hend : (localImageSave jpegData faults newImage s.documents "HomeBG").2 with
  | created =>
    obtain ⟨hremove, hrest⟩ := hcreated.1 hend
    exact absurd (faults.eq_none_iff.2
      ⟨Bool.eq_false_iff.2 fun hr => hremove ⟨hold, hr⟩, hrest⟩) hfaults
  | fatalError => exact Or.inl rfl
  | notConverted => rw [hend] at hfile; exact Or.inr hfile
  | notCreated => rw [hend] at hfile; exact Or.inr hfile

/-- **A call keeps the background exactly when it spares it.** -/
theorem callKeeps_iff_spares (s : Home) (e : HomeEvent Image) :
    CallKeeps jpegData s e ↔ Spares s e := by
  cases e with
  | launch => exact Iff.rfl
  | imagePicked editedImage faults =>
    cases editedImage with
    | none => exact Iff.rfl
    | some newImage =>
      show (decide ((localImageSave jpegData faults newImage s.documents "HomeBG").2 = .fatalError) =
        false ∧ ((localImageSave jpegData faults newImage s.documents "HomeBG").1.lookup
            "HomeBG.jpeg" = some (.file (jpegData newImage)) ∨
          (localImageSave jpegData faults newImage s.documents "HomeBG").1.lookup "HomeBG.jpeg" =
            s.documents.lookup "HomeBG.jpeg")) ↔ _
      rw [decide_eq_false_iff_not]
      constructor
      · rintro ⟨hgo, hkept⟩
        by_contra hspares
        have hold : s.documents.lookup "HomeBG.jpeg" ≠ none := (not_or.1 hspares).1
        rcases unspared_save jpegData s newImage faults hspares with hfatal | hlost
        · exact hgo hfatal
        · rw [hlost] at hkept
          rcases hkept with hnew | hsame
          · cases hnew
          · exact hold hsame.symm
      · intro hspares
        rcases spared_save jpegData s newImage faults hspares with
          ⟨hend, hnew⟩ | ⟨-, hgo, hsame⟩
        · exact ⟨by rw [hend]; simp, Or.inl hnew⟩
        · exact ⟨hgo, Or.inr hsame⟩

theorem background_eq (documents : Documents) :
    Home.background uiImage documents = (contents documents "HomeBG.jpeg").bind uiImage := by
  unfold Home.background
  rw [localImageLoad_eq, homeURL]

/-- The picture that is loaded is decided by the one file. -/
theorem background_congr (documents documents' : Documents)
    (h : documents.lookup "HomeBG.jpeg" = documents'.lookup "HomeBG.jpeg") :
    Home.background uiImage documents = Home.background uiImage documents' := by
  rw [background_eq, background_eq]
  unfold contents
  rw [h]

theorem background_of_saved (hdecode : ∀ image, uiImage (jpegData image) = some image)
    (documents : Documents) (image : Image)
    (h : documents.lookup "HomeBG.jpeg" = some (.file (jpegData image))) :
    Home.background uiImage documents = some image := by
  rw [background_eq]
  unfold contents
  rw [h]
  exact hdecode image

/-- A save that spares the background puts the new picture in the cell and in the
file, or leaves both alone. -/
theorem loadsSaved_step (hdecode : ∀ image, uiImage (jpegData image) = some image)
    (first : Documents) (s : Home × Option Image) (e : HomeEvent Image) (s' : Home × Option Image)
    (h : LoadsSaved uiImage first s) (hC : Spares s.1 e) (hs : savedStep jpegData s e = some s') :
    LoadsSaved uiImage first s' := by
  obtain ⟨home, saved⟩ := s
  obtain ⟨home', saved'⟩ := s'
  obtain ⟨hstep, rfl⟩ : home.step jpegData e = some home' ∧ saved' = savedAfter jpegData saved home e :=
    (Runs.recorded_eq_some _ _ _ _ e).1 hs
  cases e with
  | launch =>
    cases hstep
    exact h
  | imagePicked editedImage faults =>
    obtain ⟨-, rfl⟩ := (home.step_imagePicked_eq_some jpegData home' editedImage faults).1 hstep
    cases editedImage with
    | none => exact h
    | some newImage =>
      show Home.background uiImage
          (localImageSave jpegData faults newImage home.documents "HomeBG").1 =
        (if (localImageSave jpegData faults newImage home.documents "HomeBG").2 = .created
          then some newImage else saved).or (Home.background uiImage first)
      rcases spared_save jpegData home newImage faults hC with ⟨hend, hnew⟩ | ⟨hend, -, hsame⟩
      · rw [if_pos hend, background_of_saved jpegData uiImage hdecode _ newImage hnew]
        rfl
      · rw [if_neg hend, background_congr uiImage _ home.documents hsame]
        exact h

/-! ## Every run -/

/-- **When the background is never lost.**  From any directory, along any sequence of
picked pictures and launches and with any pattern of failures: every call leaves the
new picture or the old file and goes on, and every launch loads the picture saved
last, exactly when nothing fails in a call that finds an old file. -/
theorem background_iff (hdecode : ∀ image, uiImage (jpegData image) = some image) (s0 : Home)
    (es : List (HomeEvent Image)) :
    Runs.Meets (savedStep jpegData) (fun s e => CallKeeps jpegData s.1 e) (s0, none) es ∧
        Runs.Always (savedStep jpegData) (LoadsSaved uiImage s0.documents) (s0, none) es ↔
      Runs.Meets (savedStep jpegData) (fun s e => Spares s.1 e) (s0, none) es := by
  have hcalls : Runs.Meets (savedStep jpegData) (fun s e => CallKeeps jpegData s.1 e) (s0, none) es ↔
      Runs.Meets (savedStep jpegData) (fun s e => Spares s.1 e) (s0, none) es :=
    Runs.meets_congr _ (fun _ => True) _ _ (fun _ _ _ _ _ => trivial)
      (fun s e _ => callKeeps_iff_spares jpegData s.1 e) (s0, none) es trivial
  constructor
  · rintro ⟨hkeeps, -⟩
    exact hcalls.1 hkeeps
  · intro hspares
    exact ⟨hcalls.2 hspares, Runs.always_of_meets _ _ _
      (fun s e s' h hC hs => loadsSaved_step jpegData uiImage hdecode s0.documents s e s' h hC hs)
      (s0, none) es rfl hspares⟩

/-- A JPEG file of a picture that is known by its bytes. -/
def jpegFile (image : List UInt8) : Data := 0xFF :: 0xD8 :: image

def ofJPEGFile : Data → Option (List UInt8)
  | 0xFF :: 0xD8 :: image => some image
  | _ => none

theorem ofJPEGFile_jpegFile (image : List UInt8) : ofJPEGFile (jpegFile image) = some image := rfl

/-- An empty Documents directory. -/
def noDocuments : Home := ⟨∅, false⟩

/-- A picture is saved; the next one does not convert. -/
def secondPictureFails : List (HomeEvent (List UInt8)) :=
  [.imagePicked (some [1]) .none, .imagePicked (some [2]) ⟨false, true, false⟩, .launch]

/-- The background can be lost: the second save removes the first picture and then
fails, and the next launch loads none. -/
theorem background_lost :
    ¬ ∀ (s0 : Home) (es : List (HomeEvent (List UInt8))),
      Runs.Meets (savedStep jpegFile) (fun s e => CallKeeps jpegFile s.1 e) (s0, none) es ∧
        Runs.Always (savedStep jpegFile) (LoadsSaved ofJPEGFile s0.documents) (s0, none) es := by
  intro h
  have hbad : (Runs.run (savedStep jpegFile) (noDocuments, none) secondPictureFails).any (fun s =>
      decide (s.2 = some [1] ∧ Home.background ofJPEGFile s.1.documents = none)) = true := by
    decide +kernel
  obtain ⟨s, hs, hbad⟩ := (Option.any_eq_true _ _).1 hbad
  obtain ⟨hsaved, hloaded⟩ := of_decide_eq_true hbad
  have hloads : LoadsSaved ofJPEGFile noDocuments.documents s :=
    (h noDocuments secondPictureFails).2 _ (List.prefix_refl _) s hs
  unfold LoadsSaved at hloads
  rw [hloaded, hsaved] at hloads
  cases hloads

/-- Two pictures are saved; the first finds no file, and nothing fails. -/
theorem background_iff_twoPictures :
    Runs.Always (savedStep jpegFile) (LoadsSaved ofJPEGFile noDocuments.documents)
      (noDocuments, none)
      [.imagePicked (some [1]) .none, .imagePicked (some [2]) .none, .launch] := by
  refine ((background_iff jpegFile ofJPEGFile ofJPEGFile_jpegFile noDocuments _).2 ?_).2
  exact Runs.meets_of_meetsB _ _ _ _ (by decide +kernel)

end ProjectSY
