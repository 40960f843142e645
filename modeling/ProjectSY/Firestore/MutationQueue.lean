import ProjectSY.Firestore.Serializer

/-!
# The mutation queue (`local/leveldb_mutation_queue.cc`)

The batches that a user still has to send, in one table of the database for all
users, and an index of them by document.  Every operation works on rows:

    mutations           (user id, batch id)            ↦ the message of the batch
    documentMutations   (user id, document, batch id)  ↦ nothing

A function that reads a batch returns `none` when its row cannot be read, which
the source asserts.

What the table is for is a queue of each user (`pending`).  `Consistent` is what
the two tables have to do with each other, and every operation is described by
what it does to the queues.
-/

namespace ProjectSY.Firestore

open Tables

/-- `LevelDbMutationKey`: by user, then by batch. -/
structure MutationKey where
  userId : String
  batchId : Int
  deriving DecidableEq

instance : LinearOrder MutationKey :=
  LinearOrder.lift' (fun k => toLex (k.userId, k.batchId)) (by
    rintro ⟨u, i⟩ ⟨v, j⟩ h
    simpa using h)

theorem MutationKey.lt_iff (k l : MutationKey) :
    k < l ↔ k.userId < l.userId ∨ k.userId = l.userId ∧ k.batchId < l.batchId :=
  Prod.Lex.toLex_lt_toLex

theorem MutationKey.le_iff (k l : MutationKey) :
    k ≤ l ↔ k.userId < l.userId ∨ k.userId = l.userId ∧ k.batchId ≤ l.batchId :=
  Prod.Lex.toLex_le_toLex

/-- `LevelDbDocumentMutationKey`: by user, then by document, then by batch. -/
structure DocumentMutationKey where
  userId : String
  documentKey : DocumentKey
  batchId : Int
  deriving DecidableEq

instance : LinearOrder DocumentMutationKey :=
  LinearOrder.lift' (fun k => toLex (k.userId, toLex (k.documentKey, k.batchId))) (by
    rintro ⟨u, d, i⟩ ⟨v, e, j⟩ h
    simpa using h)

structure Db where
  mutations : Table MutationKey WriteBatch
  documentMutations : Table DocumentMutationKey Unit
  /-- `RemoteDocumentCache`. -/
  remoteDocuments : Finmap fun _ : DocumentKey => MaybeDocument
  deriving DecidableEq

/-- `kBatchIdUnknown`. -/
def batchIdUnknown : Int := -1

namespace Db

def empty : Db := ⟨Table.empty, Table.empty, ∅⟩

/-- The batch of a row. -/
def parseMutationBatch (row : MutationKey × WriteBatch) : Option MutationBatch :=
  decodeMutationBatch row.2

/-- The rows from the first one of the user on. -/
def seekUser (db : Db) (userId : String) : List (MutationKey × WriteBatch) :=
  db.mutations.rows.dropWhile fun r => r.1.userId < userId

def isEmpty (db : Db) (userId : String) : Bool :=
  match (db.seekUser userId).head? with
  | some row => row.1.userId ≠ userId
  | none => true

def allMutationBatches (db : Db) (userId : String) : Option (List MutationBatch) :=
  ((db.seekUser userId).takeWhile fun r => r.1.userId = userId).mapM parseMutationBatch

/-- The loop of `LoadNextBatchIdFromDb`, one round for each user; the iterator is at the
first row of the next user. -/
def maxBatchIdLoop : Nat → List (MutationKey × WriteBatch) → Int → Int
  | 0, _, maxBatchId => maxBatchId
  | _, [], maxBatchId => maxBatchId
  | fuel + 1, r :: rest, maxBatchId =>
    let rows := (r :: rest).takeWhile fun s => s.1.userId = r.1.userId
    let others := (r :: rest).dropWhile fun s => s.1.userId = r.1.userId
    let maxBatchId := match rows.getLast? with
      | some last => if last.1.batchId > maxBatchId then last.1.batchId else maxBatchId
      | none => maxBatchId
    maxBatchIdLoop fuel others maxBatchId

def loadNextBatchIdFromDb (db : Db) : Int :=
  succBatchId (maxBatchIdLoop db.mutations.rows.length db.mutations.rows 0)

/-- The rows and index entries of a new batch. -/
def addMutationBatch (db : Db) (userId : String) (batch : MutationBatch) : Db :=
  { db with
    mutations := db.mutations.put ⟨userId, batch.batchId⟩ (encodeMutationBatch batch)
    documentMutations := batch.keys.foldl
      (fun index key => index.put ⟨userId, key, batch.batchId⟩ ()) db.documentMutations }

def deleteRows (db : Db) (userId : String) (batch : MutationBatch) : Db :=
  { db with
    mutations := db.mutations.delete ⟨userId, batch.batchId⟩
    documentMutations := batch.keys.foldl
      (fun index key => index.delete ⟨userId, key, batch.batchId⟩) db.documentMutations }

/-- `none` when the assertion that the batch exists fails. -/
def removeMutationBatch (db : Db) (userId : String) (batch : MutationBatch) : Option Db :=
  match (db.mutations.seek ⟨userId, batch.batchId⟩).head? with
  | some row =>
    if row.1 = ⟨userId, batch.batchId⟩ then some (db.deleteRows userId batch) else none
  | none => none

def lookupMutationBatch (db : Db) (userId : String) (batchId : Int) :
    Option (Option MutationBatch) :=
  match db.mutations.get ⟨userId, batchId⟩ with
  | some row => (decodeMutationBatch row).map some
  | none => some none

def nextMutationBatchAfterBatchId (db : Db) (userId : String) (batchId : Int) :
    Option (Option MutationBatch) :=
  match (db.mutations.seek ⟨userId, succBatchId batchId⟩).head? with
  | some row => if row.1.userId = userId then (parseMutationBatch row).map some else some none
  | none => some none

/-- The last row before the rows of the next user, if it is one of this user. -/
def getHighestUnacknowledgedBatchId (db : Db) (userId : String) : Int :=
  match (db.mutations.rows.takeWhile fun r => r.1.userId ≤ userId).getLast? with
  | some row => if row.1.userId = userId then row.1.batchId else batchIdUnknown
  | none => batchIdUnknown

/-- The index entries of one document, from the first one on. -/
def batchIdsOfDocument (db : Db) (userId : String) (key : DocumentKey) : List Int :=
  ((db.documentMutations.rows.dropWhile fun r =>
      toLex (r.1.userId, r.1.documentKey) < toLex (userId, key)).takeWhile
    fun r => r.1.userId = userId ∧ r.1.documentKey = key).map fun r => r.1.batchId

/-- `none` also when an index entry has no batch. -/
def allMutationBatchesWithIds (db : Db) (userId : String) (batchIds : List Int) :
    Option (List MutationBatch) :=
  batchIds.mapM fun batchId =>
    match (db.mutations.seek ⟨userId, batchId⟩).head? with
    | some row => if row.1 = ⟨userId, batchId⟩ then parseMutationBatch row else none
    | none => none

/-- The set of the batch ids that the index has for the documents. -/
def batchIdsOfDocuments (db : Db) (userId : String) (keys : List DocumentKey) : Table Int Unit :=
  keys.foldl (fun ids key =>
    (db.batchIdsOfDocument userId key).foldl (fun ids batchId => ids.put batchId ()) ids) Table.empty

def allMutationBatchesAffectingDocumentKeys (db : Db) (userId : String)
    (keys : List DocumentKey) : Option (List MutationBatch) :=
  db.allMutationBatchesWithIds userId ((db.batchIdsOfDocuments userId keys).rows.map Prod.fst)

/-- No index entry is left of a user whose queue is empty. -/
def performConsistencyCheck (db : Db) (userId : String) : Bool :=
  !db.isEmpty userId ||
    ((db.documentMutations.rows.dropWhile fun r => r.1.userId < userId).takeWhile
      fun r => r.1.userId = userId).isEmpty

/-! ## The queues -/

/-- The rows of one user. -/
def rowsOf (db : Db) (userId : String) : List (MutationKey × WriteBatch) :=
  db.mutations.rows.filter fun r => r.1.userId = userId

/-- The batch under a key. -/
def batch (db : Db) (k : MutationKey) : Option MutationBatch :=
  (db.mutations.get k).bind decodeMutationBatch

/-- The queue of a user: its batches, oldest first. -/
def pending (db : Db) (userId : String) : List MutationBatch :=
  (db.rowsOf userId).filterMap parseMutationBatch

/-- Every row can be read, and what the two tables have to do with each other. -/
structure Consistent (db : Db) : Prop where
  read : ∀ k, (db.mutations.get k).isSome = true →
    ∃ b, db.batch k = some b ∧ b.batchId = k.batchId
  index : ∀ k, (db.documentMutations.get k).isSome = true ↔
    ∃ b, db.batch ⟨k.userId, k.batchId⟩ = some b ∧ k.documentKey ∈ b.keys

theorem mem_rowsOf (db : Db) (userId : String) (k : MutationKey) (w : WriteBatch) :
    (k, w) ∈ db.rowsOf userId ↔ k.userId = userId ∧ db.mutations.get k = some w := by
  unfold rowsOf
  rw [List.mem_filter, db.mutations.mem_rows]
  simp [and_comm]

theorem sorted_rowsOf (db : Db) (userId : String) : Sorted (db.rowsOf userId) :=
  List.Pairwise.filter _ db.mutations.sorted

theorem batch_eq_some {db : Db} {k : MutationKey} {b : MutationBatch} :
    db.batch k = some b ↔
      ∃ w, db.mutations.get k = some w ∧ decodeMutationBatch w = some b :=
  Option.bind_eq_some_iff

theorem consistent_empty : Consistent empty := by
  refine ⟨fun k h => ?_, fun k => ?_⟩
  · simp [empty] at h
  · simp [empty, batch]

variable {db : Db} (hc : db.Consistent)

include hc in
theorem batchId_eq {k : MutationKey} {b : MutationBatch} (h : db.batch k = some b) :
    b.batchId = k.batchId := by
  obtain ⟨w, hw, -⟩ := batch_eq_some.1 h
  obtain ⟨b', hb', hid⟩ := hc.read k (by rw [hw]; rfl)
  rw [h] at hb'
  rw [Option.some.inj hb', hid]

include hc in
theorem mem_pending {userId : String} {b : MutationBatch} :
    b ∈ db.pending userId ↔ db.batch ⟨userId, b.batchId⟩ = some b := by
  unfold pending
  rw [List.mem_filterMap]
  constructor
  · rintro ⟨⟨k, w⟩, hr, hw⟩
    obtain ⟨hu, hg⟩ := (mem_rowsOf db userId k w).1 hr
    have hb : db.batch k = some b := batch_eq_some.2 ⟨w, hg, hw⟩
    obtain ⟨u, i⟩ := k
    rw [batchId_eq hc hb, ← hu]
    exact hb
  · intro h
    obtain ⟨w, hg, hw⟩ := batch_eq_some.1 h
    exact ⟨(⟨userId, b.batchId⟩, w), (mem_rowsOf _ _ _ _).2 ⟨rfl, hg⟩, hw⟩

/-- The row is the row of the batch. -/
def RowOf (userId : String) (r : MutationKey × WriteBatch) (b : MutationBatch) : Prop :=
  parseMutationBatch r = some b ∧ r.1 = ⟨userId, b.batchId⟩

include hc in
theorem exists_rowOf {userId : String} {r : MutationKey × WriteBatch} (h : r ∈ db.rowsOf userId) :
    ∃ b, RowOf userId r b := by
  obtain ⟨hu, hg⟩ := (mem_rowsOf db userId r.1 r.2).1 h
  obtain ⟨b, hb, hid⟩ := hc.read r.1 (by rw [hg]; rfl)
  refine ⟨b, ?_, ?_⟩
  · unfold batch at hb
    rwa [hg] at hb
  · rw [hid, ← hu]

include hc in
/-- The rows of the user, one by one, are the rows of its queue. -/
theorem rowsOf_pending (userId : String) :
    List.Forall₂ (RowOf userId) (db.rowsOf userId) (db.pending userId) := by
  have hrows : ∀ r ∈ db.rowsOf userId, ∃ b, RowOf userId r b := fun r hr => exists_rowOf hc hr
  unfold pending
  generalize db.rowsOf userId = rows at hrows
  induction rows with
  | nil => exact .nil
  | cons r rows ih =>
    obtain ⟨b, hb⟩ := hrows r List.mem_cons_self
    rw [List.filterMap_cons_some hb.1]
    exact .cons hb (ih fun r' hr' => hrows r' (List.mem_cons_of_mem r hr'))

theorem mapM_parse {userId : String} {rows : List (MutationKey × WriteBatch)}
    {batches : List MutationBatch} (h : List.Forall₂ (RowOf userId) rows batches) :
    rows.mapM parseMutationBatch = some batches := by
  induction h with
  | nil => rfl
  | cons hb _ ih =>
    rw [List.mapM_cons, hb.1, ih]
    rfl

theorem filterMap_parse {userId : String} {rows : List (MutationKey × WriteBatch)}
    {batches : List MutationBatch} (h : List.Forall₂ (RowOf userId) rows batches) :
    rows.filterMap parseMutationBatch = batches := by
  induction h with
  | nil => rfl
  | cons hb _ ih => rw [List.filterMap_cons_some hb.1, ih]

include hc in
/-- The batches of a queue are numbered in increasing order. -/
theorem pending_increasing (userId : String) :
    (db.pending userId).Pairwise fun b b' => b.batchId < b'.batchId := by
  unfold pending
  rw [List.pairwise_filterMap]
  refine (sorted_rowsOf db userId).imp_of_mem fun {r r'} hr hr' hlt b hb b' hb' => ?_
  obtain ⟨b1, hb1, hk⟩ := exists_rowOf hc hr
  obtain ⟨b2, hb2, hk'⟩ := exists_rowOf hc hr'
  rw [hb] at hb1
  rw [hb'] at hb2
  rw [hk, hk', MutationKey.lt_iff, ← Option.some.inj hb1, ← Option.some.inj hb2] at hlt
  simpa using hlt

/-! ## What the operations read -/

theorem userId_mono (k l : MutationKey) (h : k < l) : k.userId ≤ l.userId := by
  rw [MutationKey.lt_iff] at h
  rcases h with h | h
  · exact h.le
  · exact h.1.le

theorem takeUser_seekUser (db : Db) (userId : String) :
    (db.seekUser userId).takeWhile (fun r => r.1.userId = userId) = db.rowsOf userId :=
  scan_eq_filter MutationKey.userId userId_mono userId _ _ (fun r => by simp only [decide_eq_true_eq])
    (fun r => by simp only [decide_eq_true_eq]) db.mutations.sorted

include hc in
theorem allMutationBatches_eq (userId : String) :
    db.allMutationBatches userId = some (db.pending userId) := by
  unfold allMutationBatches
  rw [takeUser_seekUser]
  exact mapM_parse (rowsOf_pending hc userId)

include hc in
theorem isEmpty_iff (userId : String) : db.isEmpty userId = true ↔ db.pending userId = [] := by
  have hnil : db.rowsOf userId = [] ↔ db.pending userId = [] := by
    have hrows := rowsOf_pending hc userId
    constructor
    · intro h
      rw [h] at hrows
      exact List.forall₂_nil_left_iff.1 hrows
    · intro h
      rw [h] at hrows
      exact List.forall₂_nil_right_iff.1 hrows
  unfold isEmpty
  rw [← hnil, ← takeUser_seekUser]
  cases db.seekUser userId with
  | nil => simp
  | cons r rest =>
    by_cases h : r.1.userId = userId
    · simp [h]
    · simp [h]

include hc in
theorem lookup_eq {userId : String} {b : MutationBatch} (h : b ∈ db.pending userId) :
    db.lookupMutationBatch userId b.batchId = some (some b) := by
  obtain ⟨w, hg, hw⟩ := batch_eq_some.1 ((mem_pending hc).1 h)
  unfold lookupMutationBatch
  simp only [hg, hw, Option.map_some]

/-- What is searched for among the rows is searched for among the batches. -/
theorem find_parse {userId : String} {rows : List (MutationKey × WriteBatch)}
    {batches : List MutationBatch} (h : List.Forall₂ (RowOf userId) rows batches) (batchId : Int) :
    (match rows.find? fun r => decide (batchId < r.1.batchId) with
      | some row => (parseMutationBatch row).map some
      | none => some none) = some (batches.find? fun b => decide (batchId < b.batchId)) := by
  induction h with
  | nil => rfl
  | @cons r b rows batches hb _ ih =>
    have hid : r.1.batchId = b.batchId := congrArg MutationKey.batchId hb.2
    by_cases hlt : batchId < b.batchId
    · rw [List.find?_cons_of_pos (by simpa [hid] using hlt),
        List.find?_cons_of_pos (by simpa using hlt)]
      simp only [hb.1, Option.map_some]
    · rw [List.find?_cons_of_neg (by simpa [hid] using hlt),
        List.find?_cons_of_neg (by simpa using hlt)]
      exact ih

include hc in
/-- The batch after a given one is the first of the queue with a larger id. -/
theorem next_eq (userId : String) {batchId : Int} (h0 : -1 ≤ batchId) (hlt : batchId < maxBatchId) :
    db.nextMutationBatchAfterBatchId userId batchId =
      some ((db.pending userId).find? fun b => decide (batchId < b.batchId)) := by
  have hfirst : (db.rowsOf userId).filter (fun r => decide (batchId < r.1.batchId)) =
      (db.mutations.seek ⟨userId, succBatchId batchId⟩).takeWhile fun r => r.1.userId = userId := by
    rw [succBatchId_eq h0 hlt, Table.seek_eq_filter,
      takeWhile_prefix MutationKey.userId userId_mono userId _
        (fun r => by simp only [decide_eq_true_eq]) (List.Pairwise.filter _ db.mutations.sorted)]
    · unfold rowsOf
      rw [List.filter_filter, List.filter_filter]
      refine List.filter_congr fun r _ => ?_
      by_cases hu : r.1.userId = userId
      · simp only [hu, decide_true, Bool.and_true, Bool.true_and, MutationKey.le_iff, lt_irrefl,
          true_and, false_or, decide_eq_decide]
        omega
      · simp [hu]
    · intro r hr
      have hle := (List.mem_filter.1 hr).2
      simp only [decide_eq_true_eq, MutationKey.le_iff] at hle
      rcases hle with h | h
      · exact h.le
      · exact h.1.le
  rw [← find_parse (rowsOf_pending hc userId), ← List.head?_filter, hfirst]
  unfold nextMutationBatchAfterBatchId
  cases db.mutations.seek ⟨userId, succBatchId batchId⟩ with
  | nil => rfl
  | cons r rest =>
    by_cases hu : r.1.userId = userId
    · simp [hu]
    · simp [hu]

/-- The last row of a user has the user's largest batch id. -/
theorem le_getLast_batchId {rows : List (MutationKey × WriteBatch)} (hs : Sorted rows)
    (hne : rows ≠ []) {userId : String} (hu : ∀ r ∈ rows, r.1.userId = userId) :
    ∀ r ∈ rows, r.1.batchId ≤ (rows.getLast hne).1.batchId := by
  intro r hr
  have hrows := List.dropLast_append_getLast hne
  rw [← hrows] at hr
  rcases List.mem_append.1 hr with hr | hr
  · have hsplit : Sorted (rows.dropLast ++ [rows.getLast hne]) := hrows.symm ▸ hs
    have hlt := (List.pairwise_append.1 hsplit).2.2 r hr _ (List.mem_singleton_self _)
    rw [MutationKey.lt_iff, hu r (List.mem_of_mem_dropLast hr), hu _ (List.getLast_mem hne)] at hlt
    simp only [lt_irrefl, true_and, false_or] at hlt
    exact hlt.le
  · rw [List.mem_singleton.1 hr]

/-- A new queue numbers its batches above all that are stored. -/
theorem le_maxBatchIdLoop (fuel : Nat) : ∀ (rows : List (MutationKey × WriteBatch)) (m : Int),
    rows.length ≤ fuel → Sorted rows →
    m ≤ maxBatchIdLoop fuel rows m ∧ ∀ r ∈ rows, r.1.batchId ≤ maxBatchIdLoop fuel rows m := by
  induction fuel with
  | zero =>
    intro rows m hlen _
    have : rows = [] := List.eq_nil_of_length_eq_zero (by omega)
    subst this
    exact ⟨le_refl _, fun r hr => by simp at hr⟩
  | succ fuel ih =>
    intro rows m hlen hs
    cases rows with
    | nil => exact ⟨le_refl _, fun r hr => by simp at hr⟩
    | cons r rest =>
      set mine := (r :: rest).takeWhile fun s => s.1.userId = r.1.userId with hmine
      set others := (r :: rest).dropWhile fun s => s.1.userId = r.1.userId with hothers
      have hsplit : mine ++ others = r :: rest := List.takeWhile_append_dropWhile
      have hne : mine ≠ [] := by simp [hmine]
      have hlast : mine.getLast? = some (mine.getLast hne) := List.getLast?_eq_some_getLast hne
      set last := mine.getLast hne with hl
      set m' := if last.1.batchId > m then last.1.batchId else m with hm'
      have hm1 : m ≤ m' := by rw [hm']; split <;> omega
      have hm2 : last.1.batchId ≤ m' := by rw [hm']; split <;> omega
      have heq : maxBatchIdLoop (fuel + 1) (r :: rest) m = maxBatchIdLoop fuel others m' := by
        show maxBatchIdLoop fuel others (match mine.getLast? with
          | some last => if last.1.batchId > m then last.1.batchId else m
          | none => m) = _
        rw [hlast]
      have hlength : others.length ≤ fuel := by
        have h1 := congrArg List.length hsplit
        have h2 : 0 < mine.length := List.length_pos_of_ne_nil hne
        simp only [List.length_append, List.length_cons] at h1 hlen
        omega
      have hsplit' : Sorted (mine ++ others) := hsplit ▸ hs
      obtain ⟨hsm, hso, -⟩ := List.pairwise_append.1 hsplit'
      obtain ⟨h1, h2⟩ := ih others m' hlength hso
      rw [heq]
      refine ⟨hm1.trans h1, fun s hs' => ?_⟩
      rw [← hsplit] at hs'
      rcases List.mem_append.1 hs' with hs' | hs'
      · have huser : ∀ x ∈ mine, x.1.userId = r.1.userId := fun x hx => by
          simpa using List.all_eq_true.1 List.all_takeWhile x hx
        exact (le_getLast_batchId hsm hne huser s hs').trans (hm2.trans h1)
      · exact h2 s hs'

theorem maxBatchIdLoop_le {n : Int} (fuel : Nat) :
    ∀ (rows : List (MutationKey × WriteBatch)) (m : Int), m ≤ n → (∀ r ∈ rows, r.1.batchId ≤ n) →
      maxBatchIdLoop fuel rows m ≤ n := by
  induction fuel with
  | zero => intro rows m hm _; exact hm
  | succ fuel ih =>
    intro rows m hm hrows
    cases rows with
    | nil => exact hm
    | cons r rest =>
      refine ih _ _ ?_ fun s hs => hrows s (List.dropWhile_subset _ hs)
      split
      · next last hlast =>
        have hle := hrows last (List.takeWhile_subset _ (List.mem_of_getLast? hlast))
        split
        · exact hle
        · exact hm
      · exact hm

/-- The next number is above all that are stored, and not above one that is. -/
theorem loadNextBatchIdFromDb_spec (db : Db) {n : Int} (h0 : 0 < n) (hn : n ≤ maxBatchId)
    (h : ∀ k, (db.mutations.get k).isSome = true → k.batchId < n) :
    (∀ k, (db.mutations.get k).isSome = true → k.batchId < db.loadNextBatchIdFromDb) ∧
      0 < db.loadNextBatchIdFromDb ∧ db.loadNextBatchIdFromDb ≤ n := by
  have hlow := le_maxBatchIdLoop _ db.mutations.rows 0 (le_refl _) db.mutations.sorted
  have hhigh : maxBatchIdLoop db.mutations.rows.length db.mutations.rows 0 ≤ n - 1 := by
    refine maxBatchIdLoop_le _ _ _ (by omega) fun r hr => ?_
    have hlt := h r.1 (by rw [db.mutations.mem_rows.1 hr]; rfl)
    omega
  unfold loadNextBatchIdFromDb
  rw [succBatchId_eq (by omega) (by omega)]
  refine ⟨fun k hk => ?_, by omega, by omega⟩
  obtain ⟨w, hw⟩ := Option.isSome_iff_exists.1 hk
  have hle := hlow.2 (k, w) (db.mutations.mem_rows.2 hw)
  simp only at hle
  omega

/-! ## What the operations do to the queues -/

theorem rowsOf_add (userId : String) (batch : MutationBatch)
    (hlt : ∀ r ∈ db.rowsOf userId, r.1.batchId < batch.batchId) (u : String) :
    (db.addMutationBatch userId batch).rowsOf u =
      if u = userId then db.rowsOf u ++ [(⟨userId, batch.batchId⟩, encodeMutationBatch batch)]
      else db.rowsOf u := by
  have hnew : ∀ r ∈ db.mutations.rows, r.1 ≠ (⟨userId, batch.batchId⟩ : MutationKey) := by
    intro r hr e
    have hmem : r ∈ db.rowsOf userId := List.mem_filter.2 ⟨hr, by simp [e]⟩
    have := hlt r hmem
    rw [e] at this
    exact lt_irrefl _ this
  unfold rowsOf addMutationBatch Table.put
  simp only
  rw [filter_insertRow _ db.mutations.sorted hnew]
  by_cases h : u = userId
  · subst h
    rw [if_pos (by simp), if_pos rfl, insertRow_last]
    intro r hr
    have hu : r.1.userId = u := by simpa using (List.mem_filter.1 hr).2
    rw [MutationKey.lt_iff]
    exact Or.inr ⟨hu, hlt r hr⟩
  · rw [if_neg (by simpa using Ne.symm h), if_neg h]

theorem pending_add (userId : String) {batch : MutationBatch}
    (hread : ∀ m ∈ batch.mutations, m.Readable)
    (hlt : ∀ r ∈ db.rowsOf userId, r.1.batchId < batch.batchId) (u : String) :
    (db.addMutationBatch userId batch).pending u =
      if u = userId then db.pending u ++ [batch] else db.pending u := by
  have hnew : parseMutationBatch (⟨userId, batch.batchId⟩, encodeMutationBatch batch) = some batch :=
    (decode_encodeMutationBatch batch).trans (if_pos hread)
  unfold pending
  rw [rowsOf_add userId batch hlt]
  split
  · rw [List.filterMap_append, List.filterMap_cons_some hnew, List.filterMap_nil]
  · rfl

theorem batch_add (userId : String) {batch : MutationBatch}
    (hread : ∀ m ∈ batch.mutations, m.Readable) (k : MutationKey) :
    (db.addMutationBatch userId batch).batch k =
      if k = ⟨userId, batch.batchId⟩ then some batch else db.batch k := by
  unfold Db.batch addMutationBatch
  simp only [Table.get_put]
  split
  · rw [Option.bind_some, decode_encodeMutationBatch, if_pos hread]
  · rfl

theorem batch_deleteRows (db : Db) (userId : String) (batch : MutationBatch) (k : MutationKey) :
    (db.deleteRows userId batch).batch k =
      if k = ⟨userId, batch.batchId⟩ then none else db.batch k := by
  unfold Db.batch deleteRows
  simp only [Table.get_delete]
  split <;> rfl

theorem get_addIndex (userId : String) (batchId : Int) (keys : List DocumentKey)
    (k : DocumentMutationKey) : ∀ index : Table DocumentMutationKey Unit,
    ((keys.foldl (fun index key => index.put ⟨userId, key, batchId⟩ ()) index).get k).isSome = true ↔
      (k.userId = userId ∧ k.batchId = batchId ∧ k.documentKey ∈ keys) ∨
        (index.get k).isSome = true := by
  induction keys with
  | nil => intro index; simp
  | cons key keys ih =>
    intro index
    rw [List.foldl_cons, ih, Table.get_put]
    obtain ⟨u, d, i⟩ := k
    by_cases hk : (⟨u, d, i⟩ : DocumentMutationKey) = ⟨userId, key, batchId⟩
    · rw [if_pos hk]
      obtain ⟨rfl, rfl, rfl⟩ := DocumentMutationKey.mk.inj hk
      simp
    · rw [if_neg hk]
      have hne : u = userId → i = batchId → d ≠ key := fun hu hi hd => hk (by rw [hu, hi, hd])
      constructor
      · rintro (⟨hu, hi, hd⟩ | h)
        · exact Or.inl ⟨hu, hi, List.mem_cons_of_mem _ hd⟩
        · exact Or.inr h
      · rintro (⟨hu, hi, hd⟩ | h)
        · rcases List.mem_cons.1 hd with e | hd
          · exact absurd e (hne hu hi)
          · exact Or.inl ⟨hu, hi, hd⟩
        · exact Or.inr h

theorem get_deleteIndex (userId : String) (batchId : Int) (keys : List DocumentKey)
    (k : DocumentMutationKey) : ∀ index : Table DocumentMutationKey Unit,
    ((keys.foldl (fun index key => index.delete ⟨userId, key, batchId⟩) index).get k).isSome = true ↔
      ¬ (k.userId = userId ∧ k.batchId = batchId ∧ k.documentKey ∈ keys) ∧
        (index.get k).isSome = true := by
  induction keys with
  | nil => intro index; simp
  | cons key keys ih =>
    intro index
    rw [List.foldl_cons, ih, Table.get_delete]
    obtain ⟨u, d, i⟩ := k
    by_cases hk : (⟨u, d, i⟩ : DocumentMutationKey) = ⟨userId, key, batchId⟩
    · rw [if_pos hk]
      obtain ⟨rfl, rfl, rfl⟩ := DocumentMutationKey.mk.inj hk
      simp
    · rw [if_neg hk]
      have hne : u = userId → i = batchId → d ≠ key := fun hu hi hd => hk (by rw [hu, hi, hd])
      constructor
      · rintro ⟨hn, h⟩
        refine ⟨?_, h⟩
        rintro ⟨hu, hi, hd⟩
        rcases List.mem_cons.1 hd with e | hd
        · exact hne hu hi e
        · exact hn ⟨hu, hi, hd⟩
      · rintro ⟨hn, h⟩
        exact ⟨fun ⟨hu, hi, hd⟩ => hn ⟨hu, hi, List.mem_cons_of_mem _ hd⟩, h⟩

include hc in
theorem consistent_add (userId : String) {batch : MutationBatch}
    (hread : ∀ m ∈ batch.mutations, m.Readable)
    (hlt : ∀ r ∈ db.rowsOf userId, r.1.batchId < batch.batchId) :
    Consistent (db.addMutationBatch userId batch) := by
  have hnew : db.batch ⟨userId, batch.batchId⟩ = none := by
    rw [Option.eq_none_iff_forall_ne_some]
    intro b hb
    obtain ⟨w, hw, -⟩ := batch_eq_some.1 hb
    exact lt_irrefl _ (hlt _ ((mem_rowsOf db userId _ w).2 ⟨rfl, hw⟩))
  refine ⟨fun k hk => ?_, fun k => ?_⟩
  · rw [batch_add userId hread]
    simp only [addMutationBatch, Table.get_put] at hk
    split at hk
    · next e =>
      rw [if_pos e]
      exact ⟨batch, rfl, by rw [e]⟩
    · next e =>
      rw [if_neg e]
      exact hc.read k hk
  · show ((batch.keys.foldl _ db.documentMutations).get k).isSome = true ↔ _
    rw [get_addIndex, hc.index, batch_add userId hread]
    by_cases hk : (⟨k.userId, k.batchId⟩ : MutationKey) = ⟨userId, batch.batchId⟩
    · obtain ⟨hu, hi⟩ := MutationKey.mk.inj hk
      rw [if_pos hk, hu, hi, hnew]
      simp
    · rw [if_neg hk]
      have hne : ¬ (k.userId = userId ∧ k.batchId = batch.batchId ∧ k.documentKey ∈ batch.keys) :=
        fun h => hk (by rw [h.1, h.2.1])
      simp [hne]

include hc in
theorem consistent_deleteRows {userId : String} {batch : MutationBatch}
    (hmem : batch ∈ db.pending userId) : Consistent (db.deleteRows userId batch) := by
  have hget := (mem_pending hc).1 hmem
  refine ⟨fun k hk => ?_, fun k => ?_⟩
  · rw [batch_deleteRows]
    simp only [deleteRows, Table.get_delete] at hk
    split at hk
    · simp at hk
    · next e =>
      rw [if_neg e]
      exact hc.read k hk
  · rw [batch_deleteRows]
    simp only [deleteRows, get_deleteIndex, hc.index]
    by_cases hk : (⟨k.userId, k.batchId⟩ : MutationKey) = ⟨userId, batch.batchId⟩
    · obtain ⟨hu, hi⟩ := MutationKey.mk.inj hk
      rw [if_pos hk, hu, hi, hget]
      simp
    · rw [if_neg hk]
      have hne : ¬ (k.userId = userId ∧ k.batchId = batch.batchId ∧
          k.documentKey ∈ batch.keys) := fun h => hk (by rw [h.1, h.2.1])
      simp [hne]

theorem rowsOf_deleteRows (db : Db) (userId : String) (batch : MutationBatch) (u : String) :
    (db.deleteRows userId batch).rowsOf u = eraseRow ⟨userId, batch.batchId⟩ (db.rowsOf u) := by
  unfold rowsOf deleteRows Table.delete eraseRow
  rw [List.filter_filter, List.filter_filter]
  exact List.filter_congr fun r _ => Bool.and_comm _ _

include hc in
/-- The queue of the user loses the batch, its oldest one; the others stay as they are. -/
theorem pending_deleteRows {userId : String} {batch : MutationBatch} {rest : List MutationBatch}
    (hp : db.pending userId = batch :: rest) (u : String) :
    (db.deleteRows userId batch).pending u = if u = userId then rest else db.pending u := by
  by_cases h : u = userId
  · subst h
    rw [if_pos rfl]
    have hrows := rowsOf_pending hc u
    rw [hp] at hrows
    obtain ⟨r, rows, hr, hrest, hcons⟩ := List.forall₂_cons_right_iff.1 hrows
    have hs := sorted_rowsOf db u
    rw [hcons] at hs
    unfold pending
    rw [rowsOf_deleteRows, hcons]
    unfold eraseRow
    rw [List.filter_cons_of_neg (by simp [hr.2]), List.filter_eq_self.2, filterMap_parse hrest]
    -- the other batches of the queue have larger ids
    intro r' hr'
    have hne : r'.1 ≠ ⟨u, batch.batchId⟩ := by
      rw [← hr.2]
      exact ne_of_gt ((List.pairwise_cons.1 hs).1 r' hr')
    simpa using hne
  · rw [if_neg h]
    unfold pending
    rw [rowsOf_deleteRows]
    unfold eraseRow
    rw [List.filter_eq_self.2]
    intro r hr
    have hu : r.1.userId = u := by simpa using (List.mem_filter.1 hr).2
    have hne : r.1 ≠ ⟨userId, batch.batchId⟩ := fun e => h (by rw [← hu, e])
    simpa using hne

include hc in
theorem remove_of_mem {userId : String} {batch : MutationBatch}
    (hmem : batch ∈ db.pending userId) :
    db.removeMutationBatch userId batch = some (db.deleteRows userId batch) := by
  obtain ⟨w, hw, -⟩ := batch_eq_some.1 ((mem_pending hc).1 hmem)
  unfold removeMutationBatch
  rw [Table.seek_of_get hw]
  simp

theorem getHighestUnacknowledgedBatchId_eq (db : Db) (userId : String) :
    db.getHighestUnacknowledgedBatchId userId =
      ((db.rowsOf userId).getLast?.map fun r => r.1.batchId).getD batchIdUnknown := by
  unfold getHighestUnacknowledgedBatchId rowsOf
  have htake := takeWhile_eq_filter (fun r : MutationKey × WriteBatch =>
    decide (r.1.userId ≤ userId)) (fun r r' hlt hr' => by
      simpa using (userId_mono _ _ hlt).trans (by simpa using hr')) db.mutations.sorted
  rw [htake]
  have hs : Sorted (db.mutations.rows.filter fun r => decide (r.1.userId ≤ userId)) :=
    List.Pairwise.filter _ db.mutations.sorted
  have hfilter : db.mutations.rows.filter (fun r => decide (r.1.userId = userId)) =
      (db.mutations.rows.filter fun r => decide (r.1.userId ≤ userId)).filter
        fun r => decide (r.1.userId = userId) := by
    rw [List.filter_filter]
    refine List.filter_congr fun r _ => ?_
    by_cases h : r.1.userId = userId
    · simp [h]
    · simp [h]
  have hle : ∀ r ∈ db.mutations.rows.filter (fun r => decide (r.1.userId ≤ userId)),
      r.1.userId ≤ userId := fun r hr => by simpa using (List.mem_filter.1 hr).2
  rw [hfilter]
  generalize db.mutations.rows.filter (fun r => decide (r.1.userId ≤ userId)) = rows at hs hle
  cases rows using List.reverseRecOn with
  | nil => rfl
  | append_singleton rows last =>
    rw [List.getLast?_append, List.filter_append]
    by_cases h : last.1.userId = userId
    · simp [h]
    · -- then no row of the user is stored
      have hnil : (rows.filter fun r => decide (r.1.userId = userId)) = [] := by
        rw [List.filter_eq_nil_iff]
        intro r hr hu
        have hlast := lt_of_le_of_ne (hle last (by simp)) h
        have hrl := userId_mono _ _ ((List.pairwise_append.1 hs).2.2 r hr last (by simp))
        rw [of_decide_eq_true hu] at hrl
        exact absurd hlast (not_lt.2 hrl)
      simp [h, hnil]

end Db

end ProjectSY.Firestore
