import ProjectSY.Firestore.Mutations
import ProjectSY.Lib.Resend

/-!
# A mutation overwrites what it touches

Seen by its field paths, a document is a value, an object or nothing at each of
them (`cell`).  Every mutation without a precondition gives a path a content of
its own, or leaves it, so it does no harm to apply it twice in a row of writes
(`commit_absorbed`).
-/

namespace ProjectSY.Firestore

open Tables Resend

namespace FieldValue

/-- What a reader sees at a path: a value, or (`none`) that there is an object. -/
def leaf : FieldValue → Option AnyValue
  | .value v => some v
  | .object _ => none

def cell (fields : List (String × FieldValue)) (path : FieldPath) : Option (Option AnyValue) :=
  ((FieldValue.object fields).get path).map leaf

theorem eq_of_cells {v w : FieldValue} (hv : WellFormed v) (hw : WellFormed w)
    (h : ∀ path, (v.get path).map leaf = (w.get path).map leaf) : v = w := by
  induction hv generalizing w with
  | value v =>
    have h0 := h []
    cases w with
    | value w => simpa [get, leaf] using h0
    | object fields => simp [get, leaf] at h0
  | @object fields sorted values ih =>
    cases w with
    | value w =>
      have h0 := h []
      simp [get, leaf] at h0
    | object fields' =>
      obtain ⟨hs, hvals⟩ := wellFormed_object.1 hw
      congr 1
      refine sorted_ext sorted hs fun name => ?_
      have hname := fun rest => h (name :: rest)
      simp only [get] at hname
      cases hf : find name fields with
      | none =>
        have h0 := hname []
        cases hf' : find name fields' with
        | none => rfl
        | some v' => simp [hf, hf', get] at h0
      | some v =>
        cases hf' : find name fields' with
        | none =>
          have h0 := hname []
          simp [hf, hf', get] at h0
        | some v' =>
          rw [ih name v hf (hvals name v' hf') fun rest => by simpa [hf, hf'] using hname rest]

@[simp] theorem cell_nil (fields : List (String × FieldValue)) : cell fields [] = some none := rfl

theorem cell_child (fields : List (String × FieldValue)) (name next : String) (rest : FieldPath) :
    cell (childFields fields name) (next :: rest) = cell fields (name :: next :: rest) :=
  congrArg (Option.map leaf) (get_child fields name next rest)

theorem cell_set_nil (fields : List (String × FieldValue)) (childName : String) (v : FieldValue)
    (name : String) (path : FieldPath) :
    cell (set fields childName [] v) (name :: path) =
      if name = childName then (v.get path).map leaf else cell fields (name :: path) := by
  unfold cell
  rw [get_set_nil, apply_ite (Option.map leaf)]

theorem cell_set_cons (fields : List (String × FieldValue)) (childName next : String)
    (rest : FieldPath) (v : FieldValue) (name : String) (path : FieldPath) :
    cell (set fields childName (next :: rest) v) (name :: path) =
      if name = childName then cell (set (childFields fields childName) next rest v) path
      else cell fields (name :: path) := by
  unfold cell
  rw [get_set_cons, apply_ite (Option.map leaf)]

theorem cell_delete_nil (fields : List (String × FieldValue)) (childName name : String)
    (path : FieldPath) :
    cell (delete fields childName []) (name :: path) =
      if name = childName then none else cell fields (name :: path) := by
  unfold cell
  rw [get_delete_nil, apply_ite (Option.map leaf), Option.map_none]

/-- A child that was an object still is one. -/
theorem cell_delete_cons (fields : List (String × FieldValue)) (childName next : String)
    (rest : FieldPath) (name : String) (path : FieldPath) :
    cell (delete fields childName (next :: rest)) (name :: path) =
      if name = childName ∧ path ≠ [] then
        cell (delete (childFields fields childName) next rest) path
      else cell fields (name :: path) := by
  unfold cell
  by_cases h : name = childName
  · subst h
    cases path with
    | nil =>
      rw [if_neg fun h => h.2 rfl, delete_cons]
      cases hf : find name fields with
      | none => rfl
      | some w =>
        cases w with
        | value w => rfl
        | object child =>
          simp only
          rw [get_insertRow, if_pos rfl, get_cons, hf]
          rfl
    | cons name' path => rw [if_pos ⟨rfl, List.cons_ne_nil _ _⟩, get_delete_cons]
  · rw [if_neg fun e => h e.1, get_delete_other fields h]

theorem overwrites_set (v : FieldValue) (rest : FieldPath) :
    ∀ (childName : String) (path : FieldPath),
      Overwrites cell path fun fields => set fields childName rest v := by
  induction rest with
  | nil =>
    intro childName path
    cases path with
    | nil => exact Or.inr fun _ => rfl
    | cons name path =>
      by_cases h : name = childName
      · exact Or.inl ⟨(v.get path).map leaf, fun fields =>
          (cell_set_nil fields childName v name path).trans (if_pos h)⟩
      · exact Or.inr fun fields => (cell_set_nil fields childName v name path).trans (if_neg h)
  | cons next rest ih =>
    intro childName path
    cases path with
    | nil => exact Or.inr fun _ => rfl
    | cons name path =>
      by_cases h : name = childName
      · have hcell := fun fields =>
          (cell_set_cons fields childName next rest v name path).trans (if_pos h)
        cases path with
        | nil => exact Or.inl ⟨some none, fun fields => (hcell fields).trans (cell_nil _)⟩
        | cons name' path =>
          rcases ih next (name' :: path) with ⟨u, hu⟩ | hid
          · exact Or.inl ⟨u, fun fields => (hcell fields).trans (hu _)⟩
          · refine Or.inr fun fields => ?_
            rw [hcell, hid, cell_child, h]
      · exact Or.inr fun fields =>
          (cell_set_cons fields childName next rest v name path).trans (if_neg h)

theorem overwrites_delete (rest : FieldPath) :
    ∀ (childName : String) (path : FieldPath),
      Overwrites cell path fun fields => delete fields childName rest := by
  induction rest with
  | nil =>
    intro childName path
    cases path with
    | nil => exact Or.inr fun _ => rfl
    | cons name path =>
      by_cases h : name = childName
      · exact Or.inl ⟨none, fun fields =>
          (cell_delete_nil fields childName name path).trans (if_pos h)⟩
      · exact Or.inr fun fields => (cell_delete_nil fields childName name path).trans (if_neg h)
  | cons next rest ih =>
    intro childName path
    cases path with
    | nil => exact Or.inr fun _ => rfl
    | cons name path =>
      by_cases h : name = childName ∧ path ≠ []
      · have hcell := fun fields =>
          (cell_delete_cons fields childName next rest name path).trans (if_pos h)
        rcases ih next path with ⟨u, hu⟩ | hid
        · exact Or.inl ⟨u, fun fields => (hcell fields).trans (hu _)⟩
        · refine Or.inr fun fields => ?_
          cases path with
          | nil => exact absurd rfl h.2
          | cons name' path => rw [hcell, hid, cell_child, h.1]
      · exact Or.inr fun fields =>
          (cell_delete_cons fields childName next rest name path).trans (if_neg h)

end FieldValue

/-! ## Documents -/

/-- What a reader sees of a document at a path; there is nothing at all of a missing one. -/
def docCell (doc : Option ObjectValue) (path : FieldPath) : Option (Option AnyValue) :=
  doc.bind fun o => FieldValue.cell o.fields path

theorem doc_ext {d e : Option ObjectValue} (h : ∀ path, docCell d path = docCell e path) : d = e := by
  cases d with
  | none =>
    cases e with
    | none => rfl
    | some o => simpa [docCell] using h []
  | some o =>
    cases e with
    | none => simpa [docCell] using h []
    | some o' =>
      have heq := FieldValue.eq_of_cells o.wellFormed o'.wellFormed h
      obtain ⟨fields, wf⟩ := o
      obtain ⟨fields', wf'⟩ := o'
      simp only [FieldValue.object.injEq] at heq
      subst heq
      rfl

namespace Mutation

/-- What the server makes of a mutation: the same as the client does in its own view. -/
def commit (doc : Option ObjectValue) (m : Mutation) : Option ObjectValue :=
  dataOf (m.applyToLocalView (doc.map fun o => .document o 0 .synced))

theorem overwrites_patchField (value : ObjectValue) (fieldPath path : FieldPath) :
    Overwrites (fun (o : ObjectValue) path => FieldValue.cell o.fields path) path
      (patchField value · fieldPath) := by
  unfold patchField
  cases fieldPath with
  | nil => exact Or.inr fun _ => rfl
  | cons name rest =>
    simp only
    split
    · rcases FieldValue.overwrites_delete rest name path with ⟨u, hu⟩ | hid
      · exact Or.inl ⟨u, fun o => hu o.fields⟩
      · exact Or.inr fun o => hid o.fields
    · next v _ =>
      rcases FieldValue.overwrites_set v rest name path with ⟨u, hu⟩ | hid
      · exact Or.inl ⟨u, fun o => hu o.fields⟩
      · exact Or.inr fun o => hid o.fields

/-- A document that is missing counts as an empty one. -/
theorem commit_patch (key : DocumentKey) (value : ObjectValue) (mask : FieldMask)
    (doc : Option ObjectValue) :
    commit doc (.patch key value mask .none) =
      some (patchObject value mask (doc.getD ObjectValue.empty)) := by
  cases doc <;> rfl

theorem overwrites_commit {m : Mutation} (hm : m.precondition = .none) (path : FieldPath) :
    Overwrites docCell path (commit · m) := by
  cases m with
  | set key value precondition =>
    cases hm
    exact Or.inl ⟨docCell (some value) path, fun doc => rfl⟩
  | patch key value mask precondition =>
    cases hm
    have hpatch := overwrites_foldl
      (fun (o : ObjectValue) path => FieldValue.cell o.fields path) (i := path)
      (patchField value) mask.paths fun fieldPath _ => overwrites_patchField value fieldPath path
    rcases hpatch with ⟨u, hu⟩ | hid
    · refine Or.inl ⟨u, fun doc => ?_⟩
      simp only [commit_patch]
      exact hu _
    · cases path with
      | nil =>
        refine Or.inl ⟨some none, fun doc => ?_⟩
        simp only [commit_patch]
        rfl
      | cons name path =>
        refine Or.inr fun doc => ?_
        simp only [commit_patch]
        refine (hid _).trans ?_
        cases doc with
        | none => rfl
        | some o => rfl
  | delete key precondition =>
    cases hm
    exact Or.inl ⟨none, fun doc => rfl⟩

/-- What a batch of mutations makes of the document under `key`. -/
def commitAt (key : DocumentKey) (doc : Option ObjectValue) (mutations : List Mutation) :
    Option ObjectValue :=
  mutations.foldl (fun doc m => if m.key = key then commit doc m else doc) doc

/-- The mutations of the document have no preconditions. -/
def Unconditional (key : DocumentKey) (mutations : List Mutation) : Prop :=
  ∀ m ∈ mutations, m.key = key → m.precondition = .none

instance (key : DocumentKey) (mutations : List Mutation) :
    Decidable (Unconditional key mutations) :=
  inferInstanceAs (Decidable (∀ m ∈ mutations, _ → _))

theorem overwrites_commitAt {key : DocumentKey} {mutations : List Mutation}
    (h : Unconditional key mutations) (path : FieldPath) :
    Overwrites docCell path (commitAt key · mutations) := by
  refine overwrites_foldl docCell _ mutations fun m hm => ?_
  by_cases hk : m.key = key
  · simp only [if_pos hk]
    exact overwrites_commit (h m hm hk) path
  · simp only [if_neg hk]
    exact overwrites_id docCell path

theorem commitAt_other {key : DocumentKey} {mutations : List Mutation}
    (h : ∀ m ∈ mutations, m.key ≠ key) (doc : Option ObjectValue) :
    commitAt key doc mutations = doc := by
  unfold commitAt
  induction mutations with
  | nil => rfl
  | cons m mutations ih =>
    rw [List.foldl_cons, if_neg (h m List.mem_cons_self)]
    exact ih fun m' hm' => h m' (List.mem_cons_of_mem m hm')

end Mutation

end ProjectSY.Firestore
