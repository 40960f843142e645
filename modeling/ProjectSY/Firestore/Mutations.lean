import ProjectSY.Firestore.Values

/-!
# Documents and mutations (`model/`)

What the client knows of a document (`MaybeDocument`), the three mutations that
`setData` and `delete` make, and what a batch of them does to the local view
and, once it is acknowledged, to the cached document.

A document is kept under its key, so the key is not repeated in it, and the
assertions that compare the two are left out.
-/

namespace ProjectSY.Firestore

/-- A `ResourcePath` of a document: collection and id, alternating. -/
abbrev DocumentKey := List String

/-- A timestamp; `0` is `None()`, smaller than all others. -/
abbrev SnapshotVersion := Nat

inductive DocumentState where
  | synced
  | localMutations
  | committedMutations
  deriving DecidableEq

inductive MaybeDocument where
  | document (data : ObjectValue) (version : SnapshotVersion) (state : DocumentState)
  | noDocument (version : SnapshotVersion) (hasCommittedMutations : Bool)
  | unknownDocument (version : SnapshotVersion)
  deriving DecidableEq

namespace MaybeDocument

def version : MaybeDocument → SnapshotVersion
  | .document _ version _ => version
  | .noDocument version _ => version
  | .unknownDocument version => version

/-- `Document(maybe_doc).data()`, when it is a `Document`. -/
def data : MaybeDocument → Option ObjectValue
  | .document data _ _ => some data
  | .noDocument _ _ => none
  | .unknownDocument _ => none

def hasPendingWrites : MaybeDocument → Bool
  | .document _ _ state => !(state = .synced)
  | .noDocument _ hasCommittedMutations => hasCommittedMutations
  | .unknownDocument _ => true

end MaybeDocument

/-- The data of the document, when there is one. -/
def dataOf (doc : Option MaybeDocument) : Option ObjectValue := doc.bind MaybeDocument.data

inductive Precondition where
  | none
  | exists (b : Bool)
  | updateTime (version : SnapshotVersion)
  deriving DecidableEq

def Precondition.isValidFor (p : Precondition) (doc : Option MaybeDocument) : Bool :=
  match p with
  | .updateTime v => (dataOf doc).isSome && doc.map MaybeDocument.version == some v
  | .exists b => b == (dataOf doc).isSome
  | .none => true

inductive Mutation where
  | set (key : DocumentKey) (value : ObjectValue) (precondition : Precondition)
  | patch (key : DocumentKey) (value : ObjectValue) (mask : FieldMask) (precondition : Precondition)
  | delete (key : DocumentKey) (precondition : Precondition)
  deriving DecidableEq

namespace Mutation

def key : Mutation → DocumentKey
  | .set key _ _ => key
  | .patch key _ _ _ => key
  | .delete key _ => key

def precondition : Mutation → Precondition
  | .set _ _ p => p
  | .patch _ _ _ p => p
  | .delete _ p => p

/-- One round of the loop in `PatchObject`. -/
def patchField (value : ObjectValue) (obj : ObjectValue) : FieldPath → ObjectValue
  | [] => obj
  | name :: rest =>
    match h : value.get (name :: rest) with
    | none => obj.delete name rest
    | some v => obj.set name rest v (ObjectValue.wellFormed_get h)

def patchObject (value : ObjectValue) (mask : FieldMask) (obj : ObjectValue) : ObjectValue :=
  mask.paths.foldl (patchField value) obj

def patchDocument (value : ObjectValue) (mask : FieldMask) (doc : Option MaybeDocument) :
    ObjectValue :=
  patchObject value mask ((dataOf doc).getD ObjectValue.empty)

def getPostMutationVersion (doc : Option MaybeDocument) : SnapshotVersion :=
  match doc with
  | some (.document _ version _) => version
  | _ => 0

def applyToLocalView (m : Mutation) (doc : Option MaybeDocument) : Option MaybeDocument :=
  if m.precondition.isValidFor doc then
    match m with
    | .set _ value _ => some (.document value (getPostMutationVersion doc) .localMutations)
    | .patch _ value mask _ =>
      some (.document (patchDocument value mask doc) (getPostMutationVersion doc) .localMutations)
    | .delete _ _ => some (.noDocument 0 false)
  else doc

def applyToRemoteDocument (m : Mutation) (doc : Option MaybeDocument) (version : SnapshotVersion) :
    MaybeDocument :=
  match m with
  | .set _ value _ => .document value version .committedMutations
  | .patch _ value mask precondition =>
    if precondition.isValidFor doc then
      .document (patchDocument value mask doc) version .committedMutations
    else .unknownDocument version
  | .delete _ _ => .noDocument version true

/-- The app writes a note into the document of a user. -/
def noteIn (id text : String) : Mutation :=
  .set ["users", id] (ObjectValue.empty.set "text" [] (.value (.string text)) (.value _)) .none

end Mutation

/-- The largest `BatchId`, which is an `int32_t`. -/
def maxBatchId : Int := 2147483647

/-- One more than the id; it wraps around at the largest. -/
def succBatchId (i : Int) : Int := Int.bmod (i + 1) 4294967296

theorem succBatchId_eq {i : Int} (h0 : -1 ≤ i) (h : i < maxBatchId) : succBatchId i = i + 1 := by
  unfold maxBatchId at h
  unfold succBatchId
  rw [Int.bmod_eq_of_le]
  · omega
  · omega

example : succBatchId maxBatchId = -2147483648 := by decide

/-- `MutationBatch`: never empty. -/
structure MutationBatch where
  batchId : Int
  mutations : List Mutation
  nonempty : mutations ≠ []
  deriving DecidableEq

namespace MutationBatch

/-- The keys of the mutations; `keys()` has each once, in order. -/
def keys (b : MutationBatch) : List DocumentKey := b.mutations.map Mutation.key

def applyToLocalDocument (b : MutationBatch) (doc : Option MaybeDocument) (key : DocumentKey) :
    Option MaybeDocument :=
  b.mutations.foldl (fun doc m => if m.key = key then m.applyToLocalView doc else doc) doc

end MutationBatch

/-- `MutationBatchResult`: the result of every mutation of the batch is the version it was
committed at. -/
structure MutationBatchResult where
  batch : MutationBatch
  mutationResults : List SnapshotVersion
  sameLength : mutationResults.length = batch.mutations.length
  deriving DecidableEq

namespace MutationBatchResult

/-- `doc_versions`: the version of the last mutation of the document. -/
def docVersion (r : MutationBatchResult) (key : DocumentKey) : Option SnapshotVersion :=
  (((r.batch.mutations.zip r.mutationResults).filter fun m => m.1.key = key).getLast?).map Prod.snd

/-- `MutationBatch::ApplyToRemoteDocument`. -/
def applyToRemoteDocument (r : MutationBatchResult) (doc : Option MaybeDocument)
    (key : DocumentKey) : Option MaybeDocument :=
  (r.batch.mutations.zip r.mutationResults).foldl
    (fun doc m => if m.1.key = key then some (m.1.applyToRemoteDocument doc m.2) else doc) doc

end MutationBatchResult

end ProjectSY.Firestore
