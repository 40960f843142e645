import ProjectSY.Firestore.FieldPaths
import ProjectSY.Firestore.Mutations

/-!
# Batches as they are stored (`remote/serializer.cc`, `local/local_serializer.cc`)

A row of the mutation queue holds the message of a batch.  A field mask is a list
of strings in it, and a patch is told from a set by having one.  `DecodeFields`
refuses a field without a name, and `DecodeFieldMask` reads every string with
`FieldPath::FromServerFormat`, which asserts that there is a path in it; so a
batch is read back exactly when its mutations are `Readable`
(`decode_encodeMutationBatch`).

Keys, values, versions and the results of the server stand for their messages.
-/

namespace ProjectSY.Firestore

open Tables

/-- `google_firestore_v1_Write`. -/
inductive Write where
  | update (name : DocumentKey) (fields : ObjectValue) (updateMask : Option (List String))
    (currentDocument : Option Precondition)
  | delete (name : DocumentKey) (currentDocument : Option Precondition)
  deriving DecidableEq

/-- `firestore_client_WriteBatch`. -/
structure WriteBatch where
  batchId : Int
  writes : List Write
  deriving DecidableEq

def encodePrecondition (p : Precondition) : Option Precondition :=
  if p = .none then none else some p

def encodeMutation : Mutation → Write
  | .set key value p => .update key value none (encodePrecondition p)
  | .patch key value mask p =>
    .update key value (some (mask.paths.map FieldPath.canonicalString)) (encodePrecondition p)
  | .delete key p => .delete key (encodePrecondition p)

def encodeMutationBatch (batch : MutationBatch) : WriteBatch :=
  ⟨batch.batchId, batch.mutations.map encodeMutation⟩

/-- The functions that decode return `none` where reading fails or an assertion does. -/
def decodeFields (fields : ObjectValue) : Option ObjectValue :=
  if ∀ f ∈ fields.fields, f.1 ≠ "" then some fields else none

def decodeFieldMask (paths : List String) : Option FieldMask :=
  (paths.mapM FieldPath.fromServerFormat).map FieldMask.of

def decodeMutation : Write → Option Mutation
  | .update name fields updateMask currentDocument => do
    let value ← decodeFields fields
    match updateMask with
    | none => return .set name value (currentDocument.getD .none)
    | some paths => do
      let mask ← decodeFieldMask paths
      return .patch name value mask (currentDocument.getD .none)
  | .delete name currentDocument => some (.delete name (currentDocument.getD .none))

def decodeMutationBatch (w : WriteBatch) : Option MutationBatch := do
  let mutations ← w.writes.mapM decodeMutation
  if h : mutations ≠ [] then return ⟨w.batchId, mutations, h⟩ else none

/-- Every field has a name, and every path of the mask can be stored. -/
def Mutation.Readable : Mutation → Prop
  | .set _ value _ => ∀ f ∈ value.fields, f.1 ≠ ""
  | .patch _ value mask _ => (∀ f ∈ value.fields, f.1 ≠ "") ∧ ∀ path ∈ mask.paths, path.Storable
  | .delete _ _ => True

instance (m : Mutation) : Decidable m.Readable := by
  cases m <;> unfold Mutation.Readable <;> infer_instance

/-! ## Reading back what was stored -/

theorem decode_encodePrecondition (p : Precondition) :
    (encodePrecondition p).getD .none = p := by
  unfold encodePrecondition
  split
  · next h => exact h.symm
  · rfl

/-- Reading all of a list succeeds when each of it is read. -/
theorem mapM_map_eq_ite {α β : Type*} (read : β → Option α) (write : α → β) (P : α → Prop)
    [DecidablePred P] (h : ∀ a, read (write a) = if P a then some a else none) (as : List α) :
    (as.map write).mapM read = if ∀ a ∈ as, P a then some as else none := by
  induction as with
  | nil => rfl
  | cons a as ih =>
    rw [List.map_cons, List.mapM_cons, h, ih]
    by_cases ha : P a
    · by_cases has : ∀ a ∈ as, P a
      · have hall : ∀ b ∈ a :: as, P b := List.forall_mem_cons.2 ⟨ha, has⟩
        rw [if_pos ha, if_pos has, if_pos hall]
        rfl
      · have hnot : ¬ ∀ b ∈ a :: as, P b := fun hall => has (List.forall_mem_cons.1 hall).2
        rw [if_pos ha, if_neg has, if_neg hnot]
        rfl
    · have hnot : ¬ ∀ b ∈ a :: as, P b := fun hall => ha (List.forall_mem_cons.1 hall).1
      rw [if_neg ha, if_neg hnot]
      rfl

theorem decodeFieldMask_eq (mask : FieldMask) :
    decodeFieldMask (mask.paths.map FieldPath.canonicalString) =
      if ∀ path ∈ mask.paths, path.Storable then some mask else none := by
  unfold decodeFieldMask
  rw [mapM_map_eq_ite FieldPath.fromServerFormat FieldPath.canonicalString FieldPath.Storable
    FieldPath.readSegments_canonicalString]
  split
  · rw [Option.map_some, FieldMask.of_paths]
  · rfl

theorem decodeFields_pos {o : ObjectValue} (h : ∀ f ∈ o.fields, f.1 ≠ "") :
    decodeFields o = some o := if_pos h

theorem decodeFields_neg {o : ObjectValue} (h : ¬ ∀ f ∈ o.fields, f.1 ≠ "") :
    decodeFields o = none := if_neg h

theorem decode_encodeMutation (m : Mutation) :
    decodeMutation (encodeMutation m) = if m.Readable then some m else none := by
  cases m with
  | set key value p =>
    simp only [encodeMutation, decodeMutation]
    by_cases h : (Mutation.set key value p).Readable
    · rw [if_pos h, decodeFields_pos h, decode_encodePrecondition]
      rfl
    · rw [if_neg h, decodeFields_neg h]
      rfl
  | patch key value mask p =>
    simp only [encodeMutation, decodeMutation, decodeFieldMask_eq]
    by_cases h : (Mutation.patch key value mask p).Readable
    · rw [if_pos h, decodeFields_pos h.1, if_pos h.2, decode_encodePrecondition]
      rfl
    · rw [if_neg h]
      by_cases hv : ∀ f ∈ value.fields, f.1 ≠ ""
      · rw [decodeFields_pos hv, if_neg fun hm => h ⟨hv, hm⟩]
        rfl
      · rw [decodeFields_neg hv]
        rfl
  | delete key p =>
    simp only [encodeMutation, decodeMutation]
    rw [decode_encodePrecondition, if_pos (show (Mutation.delete key p).Readable from trivial)]

/-- A batch is read back when all of its mutations are. -/
theorem decode_encodeMutationBatch (batch : MutationBatch) :
    decodeMutationBatch (encodeMutationBatch batch) =
      if ∀ m ∈ batch.mutations, m.Readable then some batch else none := by
  obtain ⟨batchId, mutations, hne⟩ := batch
  unfold decodeMutationBatch encodeMutationBatch
  simp only [mapM_map_eq_ite _ _ Mutation.Readable decode_encodeMutation]
  split
  · simp only [Option.bind_eq_bind, Option.bind_some, dif_pos hne]
    rfl
  · rfl

end ProjectSY.Firestore
