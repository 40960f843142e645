import ProjectSY.Lib.Records
import ProjectSY.Lib.Outbox

/-!
# The backend: `AppDB` (Cloud Firestore) and `AppStorage` (Firebase Storage)

`AppDB` and `AppStorage` issue a write and return at once; the completion
handler only prints.  A call of `AppDB` is modelled by the `Write` it issues and a
call of `AppStorage` by the `Upload` it starts; `Collections.apply` and
`Server.store` say what these do when the server takes them:

    addData        setData(data)               the document is replaced
    addSingleData  setData(data, merge: true)  its fields are set, the document created if absent
    removeData     delete()                    the document is gone
    upload         putData(data)               the object is replaced
-/

namespace ProjectSY

/-- `Any`: the app looks at strings only, every other value is an identity. -/
inductive AnyValue where
  | string (s : String)
  | other (id : Nat)
  deriving DecidableEq, Repr

/-- `[String: Any]`. -/
abbrev Dict := Finmap fun _ : String => AnyValue

/-- `Data`. -/
abbrev Data := List UInt8

/-- `value as? String`. -/
def AnyValue.asString : AnyValue → Option String
  | .string s => some s
  | .other _ => none

/-- `d[key] as? String`. -/
def stringField (d : Dict) (key : String) : Option String :=
  (d.lookup key).bind AnyValue.asString

/-- The documents, by collection and id. -/
abbrev Collections := Finmap fun _ : String × String => Dict

/-- The document `collection/id`. -/
def Collections.doc (c : Collections) (collection id : String) : Option Dict :=
  c.lookup (collection, id)

/-- The documents, and the stored objects by path. -/
structure Server where
  documents : Collections
  objects : Finmap fun _ : String => Data
  deriving DecidableEq

def Server.doc (s : Server) (collection id : String) : Option Dict := s.documents.doc collection id

/-- A write of Cloud Firestore. -/
inductive Write where
  | setData (collection id : String) (data : Dict)
  | mergeData (collection id : String) (data : Dict)
  | delete (collection id : String)
  deriving DecidableEq

/-- An upload to Firebase Storage. -/
structure Upload where
  path : String
  data : Data
  deriving DecidableEq

def Collections.apply (c : Collections) : Write → Collections
  | .setData collection id data => c.insert (collection, id) data
  | .mergeData collection id data =>
    c.insert (collection, id) (data ∪ (c.doc collection id).getD ∅)
  | .delete collection id => c.erase (collection, id)

def Server.apply (s : Server) (w : Write) : Server := { s with documents := s.documents.apply w }

def Server.store (s : Server) (u : Upload) : Server :=
  { s with objects := s.objects.insert u.path u.data }

def AppDB.addData (collection id : String) (data : Dict) : Write := .setData collection id data

def AppDB.addSingleData (collection id : String) (data : Dict) : Write :=
  .mergeData collection id data

def AppDB.removeData (collection id : String) : Write := .delete collection id

def AppStorage.upload (subPath : String) (uploadData : Data) : Upload := ⟨subPath, uploadData⟩

/-- The documents once every write of the list has been applied, in order. -/
abbrev Collections.settle (c : Collections) (ws : List Write) : Collections :=
  Outbox.settle Collections.apply c ws

/-- The server once every write of the list has been applied, in order. -/
abbrev Server.settle (s : Server) (ws : List Write) : Server := Outbox.settle Server.apply s ws

theorem Server.settle_eq (s : Server) (ws : List Write) :
    s.settle ws = { s with documents := s.documents.settle ws } := by
  induction ws generalizing s with
  | nil => rfl
  | cons w ws ih => exact ih (s.apply w)

@[simp] theorem Server.doc_store (s : Server) (u : Upload) (c i : String) :
    (s.store u).doc c i = s.doc c i := rfl

/-! ## What a write does to a document -/

/-- The document a write is about. -/
def Write.target : Write → String × String
  | .setData collection id _ => (collection, id)
  | .mergeData collection id _ => (collection, id)
  | .delete collection id => (collection, id)

@[simp] theorem Collections.doc_setData (s : Collections) (c i c' i' : String) (d : Dict) :
    (s.apply (.setData c i d)).doc c' i' = if (c', i') = (c, i) then some d else s.doc c' i' :=
  Records.lookup_insert_if _ _ _ _

@[simp] theorem Collections.doc_mergeData (s : Collections) (c i c' i' : String) (d : Dict) :
    (s.apply (.mergeData c i d)).doc c' i' =
      if (c', i') = (c, i) then some (d ∪ (s.doc c i).getD ∅) else s.doc c' i' :=
  Records.lookup_insert_if _ _ _ _

@[simp] theorem Collections.doc_delete (s : Collections) (c i c' i' : String) :
    (s.apply (.delete c i)).doc c' i' = if (c', i') = (c, i) then none else s.doc c' i' :=
  Records.lookup_erase_if _ _ _

theorem Collections.doc_apply_of_ne (s : Collections) (w : Write) (c i : String)
    (h : w.target ≠ (c, i)) : (s.apply w).doc c i = s.doc c i := by
  cases w with
  | setData c' i' data => rw [doc_setData, if_neg fun e => h e.symm]
  | mergeData c' i' data => rw [doc_mergeData, if_neg fun e => h e.symm]
  | delete c' i' => rw [doc_delete, if_neg fun e => h e.symm]

/-- What a write makes of a document depends on that document only. -/
theorem Collections.doc_apply_congr (s t : Collections) (w : Write) (c i : String)
    (h : s.doc c i = t.doc c i) : (s.apply w).doc c i = (t.apply w).doc c i := by
  by_cases ht : w.target = (c, i)
  · cases w with
    | setData c' i' data => rw [doc_setData, doc_setData, h]
    | mergeData c' i' data =>
      cases ht
      rw [doc_mergeData, doc_mergeData, h]
    | delete c' i' => rw [doc_delete, doc_delete, h]
  · rw [s.doc_apply_of_ne w c i ht, t.doc_apply_of_ne w c i ht, h]

theorem Server.doc_apply_of_ne (s : Server) (w : Write) (c i : String)
    (h : w.target ≠ (c, i)) : (s.apply w).doc c i = s.doc c i :=
  s.documents.doc_apply_of_ne w c i h

@[simp] theorem Server.doc_apply_setData (s : Server) (c i c' i' : String) (d : Dict) :
    (s.apply (.setData c i d)).doc c' i' = if (c', i') = (c, i) then some d else s.doc c' i' :=
  s.documents.doc_setData c i c' i' d

@[simp] theorem Server.doc_apply_mergeData (s : Server) (c i c' i' : String) (d : Dict) :
    (s.apply (.mergeData c i d)).doc c' i' =
      if (c', i') = (c, i) then some (d ∪ (s.doc c i).getD ∅) else s.doc c' i' :=
  s.documents.doc_mergeData c i c' i' d

@[simp] theorem Server.doc_apply_delete (s : Server) (c i c' i' : String) :
    (s.apply (.delete c i)).doc c' i' = if (c', i') = (c, i) then none else s.doc c' i' :=
  s.documents.doc_delete c i c' i'

theorem stringField_union (d e : Dict) (key : String) (h : key ∈ d) :
    stringField (d ∪ e) key = stringField d key := by
  unfold stringField
  rw [Finmap.lookup_union_left h]

theorem stringField_singleton (key s : String) :
    stringField (Finmap.singleton key (.string s)) key = some s := by
  unfold stringField
  rw [Finmap.lookup_singleton_eq]
  rfl

end ProjectSY
