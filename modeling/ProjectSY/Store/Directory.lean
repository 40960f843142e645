import ProjectSY.Store.LiveCode

/-!
# The directory the backend keeps

What the two collections and the stored pictures are for, in terms of users and codes
(not translated from the source):

    profile u    what the user `u` wrote about itself
    code u       the connection code `u` goes by
    sender c     the user the code `c` belongs to
    picture u    the profile picture of `u`

`Represents s D`: the server `s` holds the directory `D`, in the app's own format, and
nothing else.  A server holds one directory at most (`directory_of_represents`); each
write of the app is one change of the directory (`represents_apply`), and each upload a
picture in it (`represents_store`).  A change of a profile drops the code.
-/

namespace ProjectSY

/-- What `uploadData` says about a user. -/
structure Profile where
  name : String
  birthday : String
  phone : String
  comment : String
  deriving DecidableEq

def Profile.toDict (p : Profile) : Dict := profileData p.name p.birthday p.phone p.comment

/-- The profile a form shows. -/
def ProfileForm.toProfile (form : ProfileForm) : Profile :=
  ⟨form.usernameTextField.entered, form.birthdayTextField.entered,
    form.phoneNumberTextField.entered, form.commentTextField.entered⟩

theorem ProfileForm.toDict_toProfile (form : ProfileForm) : form.toProfile.toDict = form.profile :=
  rfl

/-- `users/<uid>` of a user with this profile and this code; no document if there is
neither. -/
def recordData : Option Profile → Option String → Option Dict
  | none, none => none
  | some p, none => some p.toDict
  | none, some c => some (codeData c)
  | some p, some c => some (codeData c ∪ p.toDict)

/-- Where `finishWritingProfile` uploads the picture. -/
def picturePath (uid : String) : String := "images/" ++ uid ++ "/profile.jpg"

structure Directory where
  profile : String → Option Profile
  code : String → Option String
  sender : String → Option String
  picture : String → Option Data

namespace Directory

def empty : Directory := ⟨fun _ => none, fun _ => none, fun _ => none, fun _ => none⟩

/-- What a single write of the app means. -/
inductive Change where
  | setProfile (uid : String) (p : Profile)
  | release (code : String)
  | register (code uid : String)
  | point (uid code : String)
  deriving DecidableEq

/-- The write that makes the change. -/
def Change.write : Change → Write
  | .setProfile uid p => AppDB.addData "users" uid p.toDict
  | .release code => AppDB.removeData "connection" code
  | .register code uid => AppDB.addData "connection" code (senderData uid)
  | .point uid code => AppDB.addSingleData "users" uid (codeData code)

def apply (D : Directory) : Change → Directory
  | .setProfile uid p =>
    { D with
      profile := Function.update D.profile uid (some p)
      code := Function.update D.code uid none }
  | .release code => { D with sender := Function.update D.sender code none }
  | .register code uid => { D with sender := Function.update D.sender code (some uid) }
  | .point uid code => { D with code := Function.update D.code uid (some code) }

/-- The picture of `uid` is another one. -/
def setPicture (D : Directory) (uid : String) (jpeg : Data) : Directory :=
  { D with picture := Function.update D.picture uid (some jpeg) }

end Directory

/-! ## Reading a document -/

/-- The profile in a document, if all its four fields are there. -/
def readProfile (d : Dict) : Option Profile :=
  match stringField d "name", stringField d "birthday", stringField d "phone",
    stringField d "comment" with
  | some name, some birthday, some phone, some comment => some ⟨name, birthday, phone, comment⟩
  | _, _, _, _ => none

/-- The directory a server holds. -/
def Server.directory (s : Server) : Directory :=
  { profile := fun u => (s.doc "users" u).bind readProfile
    code := s.codeOf
    sender := s.sender
    picture := fun u => s.objects.lookup (picturePath u) }

theorem stringField_profileData (name birthday phone comment : String) :
    stringField (profileData name birthday phone comment) "name" = some name ∧
    stringField (profileData name birthday phone comment) "birthday" = some birthday ∧
    stringField (profileData name birthday phone comment) "phone" = some phone ∧
    stringField (profileData name birthday phone comment) "comment" = some comment := by
  unfold stringField
  simp [lookup_profileData, AnyValue.asString]

/-- A code beside a profile hides none of its fields. -/
theorem lookup_code_union (code key : String) (d : Dict) (h : key ≠ "connectionCode") :
    (codeData code ∪ d).lookup key = d.lookup key := by
  rw [Records.lookup_union_or, lookup_codeData, if_neg h]
  rfl

theorem readProfile_toDict (p : Profile) : readProfile p.toDict = some p := by
  obtain ⟨hn, hb, hp, hc⟩ := stringField_profileData p.name p.birthday p.phone p.comment
  unfold readProfile Profile.toDict
  rw [hn, hb, hp, hc]

theorem readProfile_code_union (code : String) (d : Dict) :
    readProfile (codeData code ∪ d) = readProfile d := by
  unfold readProfile stringField
  rw [lookup_code_union code "name" d (by decide), lookup_code_union code "birthday" d (by decide),
    lookup_code_union code "phone" d (by decide), lookup_code_union code "comment" d (by decide)]

theorem readProfile_codeData (code : String) : readProfile (codeData code) = none := by
  unfold readProfile stringField
  rw [lookup_codeData, if_neg (by decide)]
  rfl

/-- What is read back from a record is what it was made of. -/
theorem read_recordData (p : Option Profile) (c : Option String) :
    (recordData p c).bind readProfile = p ∧
    ((recordData p c).bind fun d => stringField d "connectionCode") = c := by
  have hmem : ∀ code, "connectionCode" ∈ codeData code :=
    fun code => (Finmap.mem_singleton _ _ _).2 rfl
  cases p with
  | none =>
    cases c with
    | none => exact ⟨rfl, rfl⟩
    | some code => exact ⟨readProfile_codeData code, stringField_codeData code⟩
  | some p =>
    cases c with
    | none =>
      refine ⟨readProfile_toDict p, ?_⟩
      show stringField p.toDict "connectionCode" = none
      unfold stringField Profile.toDict
      rw [profileData_connectionCode]
      rfl
    | some code =>
      constructor
      · exact (readProfile_code_union code p.toDict).trans (readProfile_toDict p)
      · show stringField (codeData code ∪ p.toDict) "connectionCode" = some code
        rw [stringField_union _ _ _ (hmem code)]
        exact stringField_codeData code

/-- Merging a code into a record sets its code. -/
theorem union_recordData (code : String) (p : Option Profile) (c : Option String) :
    codeData code ∪ (recordData p c).getD ∅ = (recordData p (some code)).getD ∅ := by
  have hcode : ∀ c' : String, ∀ d : Dict,
      codeData code ∪ (codeData c' ∪ d) = codeData code ∪ d := by
    intro c' d
    refine Finmap.ext_lookup fun key => ?_
    simp only [Records.lookup_union_or, lookup_codeData]
    split
    · rfl
    · rfl
  cases p with
  | none =>
    cases c with
    | none => exact Finmap.union_empty
    | some c' =>
      have h := hcode c' ∅
      rw [Finmap.union_empty, Finmap.union_empty] at h
      exact h
  | some p =>
    cases c with
    | none => rfl
    | some c' => exact hcode c' p.toDict

/-! ## The server as a directory -/

/-- The documents are those of the directory, in the app's format, and no others. -/
structure DocumentsOf (c : Collections) (D : Directory) : Prop where
  users : ∀ u, c.doc "users" u = recordData (D.profile u) (D.code u)
  connection : ∀ code, c.doc "connection" code = (D.sender code).map senderData
  collections : ∀ collection id, c.doc collection id ≠ none →
    collection = "users" ∨ collection = "connection"

/-- The server holds the directory, and nothing else. -/
structure Represents (s : Server) (D : Directory) : Prop where
  documents : DocumentsOf s.documents D
  picture : ∀ u, s.objects.lookup (picturePath u) = D.picture u
  paths : ∀ path, s.objects.lookup path ≠ none → ∃ u, path = picturePath u

theorem represents_empty : Represents ⟨∅, ∅⟩ Directory.empty where
  documents := ⟨fun _ => rfl, fun _ => rfl, fun _ _ h => absurd rfl h⟩
  picture := fun _ => rfl
  paths := fun _ h => absurd rfl h

theorem sender_of_documents (c : Collections) (D : Directory) (h : DocumentsOf c D) :
    c.sender = D.sender := by
  funext code
  unfold Collections.sender
  rw [h.connection code]
  cases D.sender code with
  | none => rfl
  | some u => exact stringField_senderData u

/-- **One directory.**  What is read from a server is the directory it holds. -/
theorem directory_of_represents (s : Server) (D : Directory) (h : Represents s D) :
    s.directory = D := by
  have hsender := sender_of_documents s.documents D h.documents
  have husers := h.documents.users
  have hpicture := h.picture
  obtain ⟨profile, code, sender, picture⟩ := D
  unfold Server.directory
  simp only [Directory.mk.injEq]
  refine ⟨?_, ?_, hsender, funext hpicture⟩
  · funext u
    show (s.documents.doc "users" u).bind readProfile = profile u
    rw [husers u]
    exact (read_recordData _ _).1
  · funext u
    show (s.documents.doc "users" u).bind _ = code u
    rw [husers u]
    exact (read_recordData _ _).2

/-- The documents of a directory are one collection of documents. -/
theorem documents_unique (c c' : Collections) (D : Directory) (h : DocumentsOf c D)
    (h' : DocumentsOf c' D) : c = c' := by
  refine Finmap.ext_lookup fun key => ?_
  obtain ⟨collection, id⟩ := key
  show c.doc collection id = c'.doc collection id
  by_cases hu : collection = "users"
  · rw [hu, h.users id, h'.users id]
  · by_cases hc : collection = "connection"
    · rw [hc, h.connection id, h'.connection id]
    · have hnone : ∀ b : Collections, DocumentsOf b D → b.doc collection id = none := by
        intro b hb
        by_contra hne
        rcases hb.collections collection id hne with hcoll | hcoll
        · exact hu hcoll
        · exact hc hcoll
      rw [hnone c h, hnone c' h']

theorem picturePath_inj (u v : String) : picturePath u = picturePath v ↔ u = v := by
  constructor
  · intro h
    exact (String.append_right_inj _).1 ((String.append_left_inj _).1 h)
  · rintro rfl
    rfl

/-- A write about another document leaves the documents of a collection alone. -/
theorem users_apply_connection (c : Collections) (w : Write) (code : String)
    (hw : w.target = ("connection", code)) (u : String) :
    (c.apply w).doc "users" u = c.doc "users" u := by
  refine c.doc_apply_of_ne w "users" u fun ht => ?_
  rw [hw] at ht
  exact users_ne_connection u code ht.symm

theorem connection_apply_users (c : Collections) (w : Write) (uid : String)
    (hw : w.target = ("users", uid)) (code : String) :
    (c.apply w).doc "connection" code = c.doc "connection" code := by
  refine c.doc_apply_of_ne w "connection" code fun ht => ?_
  rw [hw] at ht
  exact users_ne_connection uid code ht

/-- A change is about a user or a code. -/
theorem collections_change (c : Collections) (change : Directory.Change)
    (h : ∀ collection id, c.doc collection id ≠ none →
      collection = "users" ∨ collection = "connection") (collection id : String)
    (hd : (c.apply change.write).doc collection id ≠ none) :
    collection = "users" ∨ collection = "connection" := by
  by_cases ht : change.write.target = (collection, id)
  · cases change with
    | setProfile uid p => cases ht; exact Or.inl rfl
    | release code => cases ht; exact Or.inr rfl
    | register code uid => cases ht; exact Or.inr rfl
    | point uid code => cases ht; exact Or.inl rfl
  · rw [c.doc_apply_of_ne change.write collection id ht] at hd
    exact h collection id hd

theorem documents_apply (c : Collections) (D : Directory) (h : DocumentsOf c D)
    (change : Directory.Change) : DocumentsOf (c.apply change.write) (D.apply change) := by
  have hcoll := collections_change c change h.collections
  cases change with
  | setProfile uid p =>
    refine ⟨fun u => ?_, fun code => (connection_apply_users c _ uid rfl code).trans
      (h.connection code), hcoll⟩
    show (c.apply (.setData "users" uid p.toDict)).doc "users" u =
      recordData (Function.update D.profile uid (some p) u) (Function.update D.code uid none u)
    rw [Collections.doc_setData, Function.update_apply, Function.update_apply]
    simp only [pair_eq_iff]
    split
    · rfl
    · exact h.users u
  | release code =>
    refine ⟨fun u => (users_apply_connection c _ code rfl u).trans (h.users u), fun code' => ?_,
      hcoll⟩
    show (c.apply (.delete "connection" code)).doc "connection" code' =
      (Function.update D.sender code none code').map senderData
    rw [Collections.doc_delete, Function.update_apply]
    simp only [pair_eq_iff]
    split
    · rfl
    · exact h.connection code'
  | register code uid =>
    refine ⟨fun u => (users_apply_connection c _ code rfl u).trans (h.users u), fun code' => ?_,
      hcoll⟩
    show (c.apply (.setData "connection" code (senderData uid))).doc "connection" code' =
      (Function.update D.sender code (some uid) code').map senderData
    rw [Collections.doc_setData, Function.update_apply]
    simp only [pair_eq_iff]
    split
    · rfl
    · exact h.connection code'
  | point uid code =>
    refine ⟨fun u => ?_, fun code' => (connection_apply_users c _ uid rfl code').trans
      (h.connection code'), hcoll⟩
    have hrecord : ∀ p, some ((recordData p (some code)).getD ∅) = recordData p (some code) := by
      intro p
      cases p <;> rfl
    show (c.apply (.mergeData "users" uid (codeData code))).doc "users" u =
      recordData (D.profile u) (Function.update D.code uid (some code) u)
    rw [Collections.doc_mergeData, Function.update_apply]
    simp only [pair_eq_iff]
    split
    · next heq => rw [h.users uid, union_recordData, heq, hrecord]
    · exact h.users u

/-- **A write is a change of the directory.** -/
theorem represents_apply (s : Server) (D : Directory) (h : Represents s D)
    (change : Directory.Change) : Represents (s.apply change.write) (D.apply change) := by
  have hpicture : (D.apply change).picture = D.picture := by cases change <;> rfl
  refine ⟨documents_apply s.documents D h.documents change, fun u => ?_, h.paths⟩
  rw [hpicture]
  exact h.picture u

/-- **An upload is a picture in the directory.** -/
theorem represents_store (s : Server) (D : Directory) (h : Represents s D) (uid : String)
    (jpeg : Data) : Represents (s.store (profileUpload uid jpeg)) (D.setPicture uid jpeg) := by
  refine ⟨⟨h.documents.users, h.documents.connection, h.documents.collections⟩, fun u => ?_,
    fun path hp => ?_⟩
  · show (s.objects.insert (picturePath uid) jpeg).lookup (picturePath u) =
      Function.update D.picture uid (some jpeg) u
    rw [Records.lookup_insert_if, Function.update_apply, h.picture u]
    simp only [picturePath_inj]
  · have hp' : (s.objects.insert (picturePath uid) jpeg).lookup path ≠ none := hp
    rw [Records.lookup_insert_if] at hp'
    split at hp'
    · next heq => exact ⟨uid, heq⟩
    · exact h.paths path hp'

theorem represents_serverWithA : Represents serverWithA
    (Directory.empty.apply (.setProfile "A" (formOfA "hello").toProfile)) :=
  represents_apply ⟨∅, ∅⟩ Directory.empty represents_empty (.setProfile "A" (formOfA "hello").toProfile)

end ProjectSY
