import ProjectSY.Lib.Tables
import ProjectSY.Utils.Backend
import Mathlib.Data.Prod.Lex
import Mathlib.Data.List.Lex
import Mathlib.Data.String.Basic

/-!
# Field values (`model/field_value.cc`)

The value of a field is an object, which is a sorted map from names to values,
or a value of some other type.  A field path names a value inside an object;
`Set` and `Delete` rebuild the objects on the way to it.

`Set` and `Delete` assert that their path is not empty, so they take its first
segment and the others.
-/

namespace ProjectSY.Firestore

open Tables

inductive FieldValue where
  /-- Any type but `Object`. -/
  | value (v : AnyValue)
  | object (fields : List (String × FieldValue))

abbrev FieldPath := List String

namespace FieldValue

mutual

def decEq : (v w : FieldValue) → Decidable (v = w)
  | .value v, .value w => decidable_of_iff (v = w) (by simp)
  | .object v, .object w =>
    have := decEqFields v w
    decidable_of_iff (v = w) (by simp)
  | .value _, .object _ => isFalse (by simp)
  | .object _, .value _ => isFalse (by simp)

def decEqFields : (v w : List (String × FieldValue)) → Decidable (v = w)
  | [], [] => isTrue rfl
  | [], _ :: _ => isFalse (by simp)
  | _ :: _, [] => isFalse (by simp)
  | (k, v) :: vs, (l, w) :: ws =>
    have := decEq v w
    have := decEqFields vs ws
    decidable_of_iff (k = l ∧ v = w ∧ vs = ws) (by simp [and_assoc])

end

instance : DecidableEq FieldValue := decEq

/-- The sorted maps of a value are sorted, at every depth. -/
inductive WellFormed : FieldValue → Prop
  | value (v : AnyValue) : WellFormed (.value v)
  | object {fields : List (String × FieldValue)} (sorted : Sorted fields)
      (values : ∀ name v, find name fields = some v → WellFormed v) : WellFormed (.object fields)

/-- `Get`. -/
def get : FieldValue → FieldPath → Option FieldValue
  | v, [] => some v
  | .object fields, name :: rest => (find name fields).bind (·.get rest)
  | .value _, _ :: _ => none

/-- The sub-object that `Set` goes on with: the object under the name, or an empty one. -/
def childFields (fields : List (String × FieldValue)) (childName : String) :
    List (String × FieldValue) :=
  match find childName fields with
  | some (.object child) => child
  | _ => []

/-- `ObjectValue::Set`. -/
def set (fields : List (String × FieldValue)) (childName : String) :
    FieldPath → FieldValue → List (String × FieldValue)
  | [], v => insertRow childName v fields
  | next :: rest, v =>
    insertRow childName (.object (set (childFields fields childName) next rest v)) fields

/-- `ObjectValue::Delete`. -/
def delete (fields : List (String × FieldValue)) (childName : String) :
    FieldPath → List (String × FieldValue)
  | [] => eraseRow childName fields
  | next :: rest =>
    match find childName fields with
    | some (.object child) => insertRow childName (.object (delete child next rest)) fields
    | _ => fields

theorem wellFormed_object {fields : List (String × FieldValue)} :
    WellFormed (.object fields) ↔
      Sorted fields ∧ ∀ name v, find name fields = some v → WellFormed v := by
  constructor
  · intro h
    cases h with
    | object sorted values => exact ⟨sorted, values⟩
  · rintro ⟨sorted, values⟩
    exact .object sorted values

theorem wellFormed_empty : WellFormed (.object []) :=
  .object List.Pairwise.nil fun name v h => by simp at h

theorem wellFormed_insertRow {fields : List (String × FieldValue)} {v : FieldValue} (name : String)
    (hf : WellFormed (.object fields)) (hv : WellFormed v) :
    WellFormed (.object (insertRow name v fields)) := by
  obtain ⟨hs, hvals⟩ := wellFormed_object.1 hf
  refine .object (sorted_insertRow name v hs) fun name' w hw => ?_
  rw [find_insertRow] at hw
  by_cases h : name' = name
  · rw [if_pos h] at hw
    exact Option.some.inj hw ▸ hv
  · rw [if_neg h] at hw
    exact hvals name' w hw

theorem wellFormed_childFields {fields : List (String × FieldValue)} (childName : String)
    (hf : WellFormed (.object fields)) : WellFormed (.object (childFields fields childName)) := by
  unfold childFields
  split
  · next child hc => exact (wellFormed_object.1 hf).2 childName _ hc
  · exact wellFormed_empty

theorem wellFormed_set (rest : FieldPath) {v : FieldValue} (hv : WellFormed v) :
    ∀ (fields : List (String × FieldValue)) (childName : String), WellFormed (.object fields) →
      WellFormed (.object (set fields childName rest v)) := by
  induction rest with
  | nil => intro fields childName hf; exact wellFormed_insertRow childName hf hv
  | cons next rest ih =>
    intro fields childName hf
    exact wellFormed_insertRow childName hf (ih _ next (wellFormed_childFields childName hf))

theorem wellFormed_delete (rest : FieldPath) :
    ∀ (fields : List (String × FieldValue)) (childName : String), WellFormed (.object fields) →
      WellFormed (.object (delete fields childName rest)) := by
  induction rest with
  | nil =>
    intro fields childName hf
    obtain ⟨hs, hvals⟩ := wellFormed_object.1 hf
    refine .object (sorted_eraseRow childName hs) fun name v hv => ?_
    unfold delete at hv
    rw [find_eraseRow] at hv
    split at hv
    · simp at hv
    · exact hvals name v hv
  | cons next rest ih =>
    intro fields childName hf
    unfold delete
    split
    · next child hc =>
      exact wellFormed_insertRow childName hf (ih child next ((wellFormed_object.1 hf).2 _ _ hc))
    · exact hf

theorem wellFormed_get {v w : FieldValue} {path : FieldPath} (hv : WellFormed v)
    (h : v.get path = some w) : WellFormed w := by
  induction path generalizing v with
  | nil => exact Option.some.inj h ▸ hv
  | cons name rest ih =>
    cases v with
    | value v => simp [get] at h
    | object fields =>
      obtain ⟨child, hc, hg⟩ := Option.bind_eq_some_iff.1 h
      exact ih ((wellFormed_object.1 hv).2 name child hc) hg

/-! ## What is under a path afterwards -/

theorem get_cons (fields : List (String × FieldValue)) (name : String) (rest : FieldPath) :
    (object fields).get (name :: rest) = (find name fields).bind (·.get rest) := rfl

/-- Inside of a field that is no object there is nothing, as in an empty object. -/
theorem get_child (fields : List (String × FieldValue)) (name next : String) (rest : FieldPath) :
    (object (childFields fields name)).get (next :: rest) =
      (object fields).get (name :: next :: rest) := by
  rw [get_cons fields]
  unfold childFields
  cases find name fields with
  | none => rfl
  | some v =>
    cases v with
    | value v => rfl
    | object child => rfl

theorem get_insertRow (fields : List (String × FieldValue)) (name : String) (v : FieldValue)
    (name' : String) (rest : FieldPath) :
    (object (insertRow name v fields)).get (name' :: rest) =
      if name' = name then v.get rest else (object fields).get (name' :: rest) := by
  rw [get_cons, find_insertRow]
  by_cases h : name' = name
  · rw [if_pos h, if_pos h, Option.bind_some]
  · rw [if_neg h, if_neg h, get_cons]

theorem get_set_nil (fields : List (String × FieldValue)) (childName : String) (v : FieldValue)
    (name : String) (path : FieldPath) :
    (object (set fields childName [] v)).get (name :: path) =
      if name = childName then v.get path else (object fields).get (name :: path) :=
  get_insertRow fields childName v name path

/-- The child is an object afterwards. -/
theorem get_set_cons (fields : List (String × FieldValue)) (childName next : String)
    (rest : FieldPath) (v : FieldValue) (name : String) (path : FieldPath) :
    (object (set fields childName (next :: rest) v)).get (name :: path) =
      if name = childName then (object (set (childFields fields childName) next rest v)).get path
      else (object fields).get (name :: path) :=
  get_insertRow fields childName _ name path

theorem get_delete_nil (fields : List (String × FieldValue)) (childName name : String)
    (path : FieldPath) :
    (object (delete fields childName [])).get (name :: path) =
      if name = childName then none else (object fields).get (name :: path) := by
  unfold delete
  rw [get_cons, find_eraseRow]
  by_cases h : name = childName
  · rw [if_pos h, if_pos h]
    rfl
  · rw [if_neg h, if_neg h, get_cons]

theorem delete_empty (childName : String) (rest : FieldPath) : delete [] childName rest = [] := by
  cases rest <;> rfl

theorem delete_cons (fields : List (String × FieldValue)) (childName next : String)
    (rest : FieldPath) :
    delete fields childName (next :: rest) = match find childName fields with
      | some (.object child) => insertRow childName (.object (delete child next rest)) fields
      | _ => fields := rfl

/-- Inside of the child; the child itself may be another object afterwards. -/
theorem get_delete_cons (fields : List (String × FieldValue)) (childName next : String)
    (rest : FieldPath) (name' : String) (path : FieldPath) :
    (object (delete fields childName (next :: rest))).get (childName :: name' :: path) =
      (object (delete (childFields fields childName) next rest)).get (name' :: path) := by
  rw [delete_cons]
  unfold childFields
  cases hf : find childName fields with
  | none =>
    rw [delete_empty, get_cons, hf]
    rfl
  | some w =>
    cases w with
    | value w =>
      rw [delete_empty]
      simp only
      rw [get_cons, hf]
      rfl
    | object child =>
      simp only
      rw [get_insertRow, if_pos rfl]

theorem get_delete_other (fields : List (String × FieldValue)) {childName name : String}
    (h : name ≠ childName) (rest path : FieldPath) :
    (object (delete fields childName rest)).get (name :: path) =
      (object fields).get (name :: path) := by
  cases rest with
  | nil => rw [get_delete_nil, if_neg h]
  | cons next rest =>
    rw [delete_cons]
    cases find childName fields with
    | none => rfl
    | some w =>
      cases w with
      | value w => rfl
      | object child => exact (get_insertRow fields childName _ name path).trans (if_neg h)

/-- Neither path leads to the other. -/
def Apart (p q : FieldPath) : Prop := ¬ p <+: q ∧ ¬ q <+: p

instance (p q : FieldPath) : Decidable (Apart p q) :=
  inferInstanceAs (Decidable (¬ p <+: q ∧ ¬ q <+: p))

theorem apart_cons {name name' : String} {p q : FieldPath} :
    Apart (name :: p) (name' :: q) ↔ (name = name' → Apart p q) := by
  unfold Apart
  rw [List.cons_prefix_cons, List.cons_prefix_cons]
  by_cases h : name = name'
  · simp [h]
  · simp [h, Ne.symm h]

theorem get_set_self (v : FieldValue) (rest : FieldPath) :
    ∀ (fields : List (String × FieldValue)) (childName : String),
      (object (set fields childName rest v)).get (childName :: rest) = some v := by
  induction rest with
  | nil =>
    intro fields childName
    rw [get_set_nil, if_pos rfl]
    rfl
  | cons next rest ih =>
    intro fields childName
    rw [get_set_cons, if_pos rfl, ih]

theorem get_set_apart (v : FieldValue) (rest : FieldPath) :
    ∀ (fields : List (String × FieldValue)) (childName : String) {q : FieldPath},
      Apart (childName :: rest) q →
      (object (set fields childName rest v)).get q = (object fields).get q := by
  induction rest with
  | nil =>
    intro fields childName q h
    cases q with
    | nil => exact absurd List.nil_prefix h.2
    | cons name q =>
      have hne : name ≠ childName := fun e => (apart_cons.1 h e.symm).1 List.nil_prefix
      rw [get_set_nil, if_neg hne]
  | cons next rest ih =>
    intro fields childName q h
    cases q with
    | nil => exact absurd List.nil_prefix h.2
    | cons name q =>
      rw [get_set_cons]
      by_cases hname : name = childName
      · have hq := apart_cons.1 h hname.symm
        rw [if_pos hname, ih _ next hq]
        cases q with
        | nil => exact absurd List.nil_prefix hq.2
        | cons name' q => rw [get_child, hname]
      · rw [if_neg hname]

theorem get_delete_self (rest : FieldPath) :
    ∀ (fields : List (String × FieldValue)) (childName : String),
      (object (delete fields childName rest)).get (childName :: rest) = none := by
  induction rest with
  | nil =>
    intro fields childName
    rw [get_delete_nil, if_pos rfl]
  | cons next rest ih =>
    intro fields childName
    rw [get_delete_cons, ih]

theorem get_delete_apart (rest : FieldPath) :
    ∀ (fields : List (String × FieldValue)) (childName : String) {q : FieldPath},
      Apart (childName :: rest) q →
      (object (delete fields childName rest)).get q = (object fields).get q := by
  induction rest with
  | nil =>
    intro fields childName q h
    cases q with
    | nil => exact absurd List.nil_prefix h.2
    | cons name q =>
      have hne : name ≠ childName := fun e => (apart_cons.1 h e.symm).1 List.nil_prefix
      exact get_delete_other fields hne [] q
  | cons next rest ih =>
    intro fields childName q h
    cases q with
    | nil => exact absurd List.nil_prefix h.2
    | cons name q =>
      by_cases hname : name = childName
      · subst hname
        have hq := apart_cons.1 h rfl
        cases q with
        | nil => exact absurd List.nil_prefix hq.2
        | cons name' q => rw [get_delete_cons, ih _ next hq, get_child]
      · exact get_delete_other fields hname (next :: rest) q

end FieldValue

/-- `ObjectValue`: a value of type `Object`. -/
structure ObjectValue where
  fields : List (String × FieldValue)
  wellFormed : FieldValue.WellFormed (.object fields)
  deriving DecidableEq

namespace ObjectValue

def empty : ObjectValue := ⟨[], FieldValue.wellFormed_empty⟩

def get (o : ObjectValue) (path : FieldPath) : Option FieldValue :=
  (FieldValue.object o.fields).get path

theorem wellFormed_get {o : ObjectValue} {path : FieldPath} {v : FieldValue}
    (h : o.get path = some v) : v.WellFormed := FieldValue.wellFormed_get o.wellFormed h

def set (o : ObjectValue) (childName : String) (rest : FieldPath) (v : FieldValue)
    (hv : v.WellFormed) : ObjectValue :=
  ⟨FieldValue.set o.fields childName rest v,
    FieldValue.wellFormed_set rest hv o.fields childName o.wellFormed⟩

def delete (o : ObjectValue) (childName : String) (rest : FieldPath) : ObjectValue :=
  ⟨FieldValue.delete o.fields childName rest,
    FieldValue.wellFormed_delete rest o.fields childName o.wellFormed⟩

end ObjectValue

/-- `FieldMask`: a set of field paths. -/
abbrev FieldMask := Table FieldPath Unit

/-- The paths of the mask, in order. -/
def FieldMask.paths (mask : FieldMask) : List FieldPath := mask.rows.map Prod.fst

/-- The set of the paths. -/
def FieldMask.of (paths : List FieldPath) : FieldMask :=
  paths.foldl (fun mask path => mask.put path ()) Table.empty

theorem FieldMask.mem_paths (mask : FieldMask) (path : FieldPath) :
    path ∈ mask.paths ↔ (mask.get path).isSome = true := by
  unfold FieldMask.paths
  constructor
  · intro h
    obtain ⟨r, hr, rfl⟩ := List.mem_map.1 h
    rw [mask.mem_rows.1 hr]
    rfl
  · intro h
    obtain ⟨v, hv⟩ := Option.isSome_iff_exists.1 h
    exact List.mem_map.2 ⟨(path, v), mask.mem_rows.2 hv, rfl⟩

theorem FieldMask.get_of (paths : List FieldPath) (path : FieldPath) :
    ((FieldMask.of paths).get path).isSome = true ↔ path ∈ paths := by
  unfold FieldMask.of
  have hfold : ∀ mask : FieldMask,
      ((paths.foldl (fun mask path => mask.put path ()) mask).get path).isSome = true ↔
        path ∈ paths ∨ (mask.get path).isSome = true := by
    induction paths with
    | nil => simp
    | cons first paths ih =>
      intro mask
      rw [List.foldl_cons, ih, Table.get_put, List.mem_cons]
      by_cases h : path = first
      · simp [h]
      · simp [h]
  rw [hfold]
  simp

theorem FieldMask.mem_paths_of (paths : List FieldPath) (path : FieldPath) :
    path ∈ (FieldMask.of paths).paths ↔ path ∈ paths := by
  rw [mem_paths, get_of]

/-- A mask is the set of its paths. -/
theorem FieldMask.of_paths (mask : FieldMask) : FieldMask.of mask.paths = mask := by
  refine Table.ext fun path => ?_
  have h := (get_of mask.paths path).trans (mask.mem_paths path)
  cases hleft : (FieldMask.of mask.paths).get path with
  | none =>
    cases hright : mask.get path with
    | none => rfl
    | some v => simp [hleft, hright] at h
  | some v =>
    cases hright : mask.get path with
    | none => simp [hleft, hright] at h
    | some w => rfl

end ProjectSY.Firestore
