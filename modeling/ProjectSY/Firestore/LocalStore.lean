import ProjectSY.Firestore.QueueIndex
import Mathlib.Data.List.Dedup

/-!
# The local store (`local/local_store.cc`, `local/local_documents_view.cc`)

A read shows the cached document with the pending batches of the user applied to
it.  A write goes to the end of the queue, an acknowledged batch from its head
into the cache, a rejected one is dropped.

The functions return `none` where an assertion of the source fails.
-/

namespace ProjectSY.Firestore

structure LocalStore where
  db : Db
  /-- The user of the mutation queue. -/
  userId : String
  nextBatchId : Int
  deriving DecidableEq

namespace LocalStore

/-- The queue of the user is opened: the constructor with `Start`. -/
def start (db : Db) (userId : String) : LocalStore := ⟨db, userId, db.loadNextBatchIdFromDb⟩

def applyLocalMutations (batches : List MutationBatch) (key : DocumentKey)
    (doc : Option MaybeDocument) : Option MaybeDocument :=
  batches.foldl (fun doc batch => batch.applyToLocalDocument doc key) doc

def getDocument (s : LocalStore) (key : DocumentKey) : Option (Option MaybeDocument) := do
  let batches ← s.db.allMutationBatchesAffectingDocumentKeys s.userId [key]
  return applyLocalMutations batches key (s.db.remoteDocuments.lookup key)

/-- The documents with the pending batches applied; a missing one is shown as deleted. -/
def getLocalViewOfDocuments (s : LocalStore) (baseDocs : List (DocumentKey × Option MaybeDocument)) :
    Option (List (DocumentKey × MaybeDocument)) := do
  let batches ← s.db.allMutationBatchesAffectingDocumentKeys s.userId (baseDocs.map Prod.fst)
  return baseDocs.map fun d =>
    (d.1, (applyLocalMutations batches d.1 d.2).getD (.noDocument 0 false))

def getDocuments (s : LocalStore) (keys : List DocumentKey) :
    Option (List (DocumentKey × MaybeDocument)) :=
  s.getLocalViewOfDocuments (keys.map fun key => (key, s.db.remoteDocuments.lookup key))

/-- `GetNextMutationBatch`. -/
def getNextMutationBatch (s : LocalStore) (batchId : Int) : Option (Option MutationBatch) :=
  s.db.nextMutationBatchAfterBatchId s.userId batchId

/-- The id of the new batch and the documents that it changes.  None of the three mutations
has a base value (`ExtractBaseValue`), so there are no base mutations. -/
def writeLocally (s : LocalStore) (mutations : List Mutation) :
    Option (LocalStore × Int × List (DocumentKey × MaybeDocument)) := do
  let existing ← s.getDocuments (mutations.map Mutation.key).dedup
  if h : mutations ≠ [] then
    let batch : MutationBatch := ⟨s.nextBatchId, mutations, h⟩
    let db := s.db.addMutationBatch s.userId batch
    let changed := mutations.foldl (fun docs m => docs.map fun d =>
      if d.1 = m.key then (d.1, (batch.applyToLocalDocument (some d.2) m.key).getD d.2) else d)
      existing
    return (⟨db, s.userId, succBatchId s.nextBatchId⟩, s.nextBatchId, changed)
  else none

/-- One round of the loop in `ApplyBatchResult`. -/
def applyResultTo (r : MutationBatchResult) (docs : Finmap fun _ : DocumentKey => MaybeDocument)
    (key : DocumentKey) : Option (Finmap fun _ : DocumentKey => MaybeDocument) := do
  let remoteDoc := docs.lookup key
  let ackVersion ← r.docVersion key
  if remoteDoc.all fun doc => doc.version < ackVersion then
    match r.applyToRemoteDocument remoteDoc key with
    | none => if remoteDoc.isNone then some docs else none
    | some doc => return docs.insert key doc
  else return docs

def applyBatchResult (s : LocalStore) (r : MutationBatchResult) : Option LocalStore := do
  let docs ← r.batch.keys.dedup.foldlM (applyResultTo r) s.db.remoteDocuments
  let db ← { s.db with remoteDocuments := docs }.removeMutationBatch s.userId r.batch
  return { s with db := db }

def acknowledgeBatch (s : LocalStore) (r : MutationBatchResult) :
    Option (LocalStore × List (DocumentKey × MaybeDocument)) := do
  let s ← s.applyBatchResult r
  guard (s.db.performConsistencyCheck s.userId)
  let changes ← s.getDocuments r.batch.keys.dedup
  return (s, changes)

def rejectBatch (s : LocalStore) (batchId : Int) :
    Option (LocalStore × List (DocumentKey × MaybeDocument)) := do
  let toReject ← (← s.db.lookupMutationBatch s.userId batchId)
  let db ← s.db.removeMutationBatch s.userId toReject
  guard (db.performConsistencyCheck s.userId)
  let changes ← { s with db := db }.getDocuments toReject.keys.dedup
  return ({ s with db := db }, changes)

/-- The queue is swapped for the queue of another user; all documents that either touches may
look different now. -/
def handleUserChange (s : LocalStore) (userId : String) :
    Option (LocalStore × List (DocumentKey × MaybeDocument)) := do
  let oldBatches ← s.db.allMutationBatches s.userId
  let s := start s.db userId
  let newBatches ← s.db.allMutationBatches s.userId
  let changes ← s.getDocuments ((oldBatches ++ newBatches).flatMap MutationBatch.keys).dedup
  return (s, changes)

def getHighestUnacknowledgedBatchId (s : LocalStore) : Int :=
  s.db.getHighestUnacknowledgedBatchId s.userId

/-- One round of the loop over the document updates in `ApplyRemoteEvent`, with the documents as
they were before and the keys that have changed. -/
def applyDocumentUpdate (existing : Finmap fun _ : DocumentKey => MaybeDocument)
    (docs : (Finmap fun _ : DocumentKey => MaybeDocument) ×
      List (DocumentKey × Option MaybeDocument))
    (update : DocumentKey × MaybeDocument) :
    (Finmap fun _ : DocumentKey => MaybeDocument) × List (DocumentKey × Option MaybeDocument) :=
  match update.2 with
  | .noDocument 0 _ => (docs.1.erase update.1, docs.2 ++ [(update.1, some update.2)])
  | doc =>
    if (existing.lookup update.1).all fun existingDoc => existingDoc.version < doc.version ∨
        doc.version = existingDoc.version ∧ existingDoc.hasPendingWrites then
      (docs.1.insert update.1 doc, docs.2 ++ [(update.1, some doc)])
    else docs

/-- The documents that the watch stream has brought.  What else the event says, of targets, limbo
documents and snapshot versions, is left out. -/
def applyRemoteEvent (s : LocalStore) (documentUpdates : List (DocumentKey × MaybeDocument)) :
    Option (LocalStore × List (DocumentKey × MaybeDocument)) := do
  let docs := documentUpdates.foldl (applyDocumentUpdate s.db.remoteDocuments)
    (s.db.remoteDocuments, [])
  let s := { s with db := { s.db with remoteDocuments := docs.1 } }
  let changes ← s.getLocalViewOfDocuments docs.2
  return (s, changes)

/-! ## No assertion fails, and what the operations do to the queues -/

/-- The batches that the user still has to send. -/
def pending (s : LocalStore) : List MutationBatch := s.db.pending s.userId

/-- The tables are consistent, and the next batch gets a new number. -/
structure Ok (s : LocalStore) : Prop where
  consistent : s.db.Consistent
  ids : ∀ k b, s.db.batch k = some b → 0 < k.batchId ∧ k.batchId < s.nextBatchId
  next : 0 < s.nextBatchId
  last : s.nextBatchId ≤ maxBatchId

theorem lt_next {s : LocalStore} (hs : s.Ok) (u : String) :
    ∀ r ∈ s.db.rowsOf u, r.1.batchId < s.nextBatchId := by
  intro r hr
  obtain ⟨-, hg⟩ := (Db.mem_rowsOf s.db u r.1 r.2).1 hr
  obtain ⟨b, hb, -⟩ := hs.consistent.read r.1 (by rw [hg]; rfl)
  exact (hs.ids r.1 b hb).2

/-- The batches of the queues have numbers. -/
theorem Ok.bounds {s : LocalStore} (hs : s.Ok) {u : String} {b : MutationBatch}
    (hb : b ∈ s.db.pending u) : 0 < b.batchId ∧ b.batchId < s.nextBatchId :=
  hs.ids ⟨u, b.batchId⟩ b ((Db.mem_pending hs.consistent).1 hb)

/-- The next number does not grow when the queue is opened again. -/
theorem ok_start {s : LocalStore} (hs : s.Ok) (userId : String) :
    (start s.db userId).Ok ∧ (start s.db userId).nextBatchId ≤ s.nextBatchId := by
  obtain ⟨hlt, hpos, hle⟩ := s.db.loadNextBatchIdFromDb_spec hs.next hs.last fun k hk => by
    obtain ⟨b, hb, -⟩ := hs.consistent.read k hk
    exact (hs.ids k b hb).2
  refine ⟨⟨hs.consistent, fun k b hb => ⟨(hs.ids k b hb).1, hlt k ?_⟩, hpos, hle.trans hs.last⟩, hle⟩
  obtain ⟨w, hw, -⟩ := Db.batch_eq_some.1 hb
  exact Option.isSome_iff_exists.2 ⟨w, hw⟩

theorem nextBatchId_empty (userId : String) : (start Db.empty userId).nextBatchId = 1 := rfl

theorem ok_empty (userId : String) : (start Db.empty userId).Ok := by
  refine ⟨Db.consistent_empty, fun k b hb => ?_, ?_, ?_⟩
  · simp [start, Db.empty, Db.batch] at hb
  · rw [nextBatchId_empty]
    decide
  · rw [nextBatchId_empty]
    decide

theorem getDocument_eq {s : LocalStore} (hc : s.db.Consistent) (key : DocumentKey) :
    s.getDocument key =
      some (applyLocalMutations (s.pending.filter fun b => b.keys.contains key) key
        (s.db.remoteDocuments.lookup key)) := by
  unfold getDocument pending
  rw [Db.affecting_eq hc]
  simp

theorem getLocalView_eq {s : LocalStore} (hc : s.db.Consistent)
    (docs : List (DocumentKey × Option MaybeDocument)) :
    s.getLocalViewOfDocuments docs = some (docs.map fun d => (d.1,
      (applyLocalMutations (s.pending.filter fun b =>
        (docs.map Prod.fst).any fun key => b.keys.contains key) d.1 d.2).getD
          (.noDocument 0 false))) := by
  unfold getLocalViewOfDocuments pending
  rw [Db.affecting_eq hc]
  rfl

theorem getDocuments_eq {s : LocalStore} (hc : s.db.Consistent) (keys : List DocumentKey) :
    s.getDocuments keys = some (keys.map fun key => (key,
      (applyLocalMutations (s.pending.filter fun b => keys.any fun key => b.keys.contains key) key
        (s.db.remoteDocuments.lookup key)).getD (.noDocument 0 false))) := by
  have hkeys : (keys.map fun key => (key, s.db.remoteDocuments.lookup key)).map Prod.fst = keys := by
    rw [List.map_map]
    exact List.map_id keys
  unfold getDocuments
  rw [getLocalView_eq hc, hkeys, List.map_map]
  rfl

theorem getLocalView_isSome {s : LocalStore} (hc : s.db.Consistent)
    (docs : List (DocumentKey × Option MaybeDocument)) :
    ∃ views, s.getLocalViewOfDocuments docs = some views := ⟨_, getLocalView_eq hc docs⟩

theorem getDocuments_isSome {s : LocalStore} (hc : s.db.Consistent) (keys : List DocumentKey) :
    ∃ docs, s.getDocuments keys = some docs := ⟨_, getDocuments_eq hc keys⟩

/-- The new batch goes to the end of the queue. -/
structure Wrote (s : LocalStore) (mutations : List Mutation) (s' : LocalStore) : Prop where
  ok : s'.Ok
  userId : s'.userId = s.userId
  nextBatchId : s'.nextBatchId = s.nextBatchId + 1
  remoteDocuments : s'.db.remoteDocuments = s.db.remoteDocuments
  pending : ∃ b : MutationBatch, b.batchId = s.nextBatchId ∧ b.mutations = mutations ∧
    ∀ u, s'.db.pending u = if u = s.userId then s.db.pending u ++ [b] else s.db.pending u

theorem writeLocally_ok {s : LocalStore} (hs : s.Ok) {mutations : List Mutation}
    (hne : mutations ≠ []) (hread : ∀ m ∈ mutations, m.Readable)
    (hroom : s.nextBatchId < maxBatchId) :
    ∃ s' changes, s.writeLocally mutations = some (s', s.nextBatchId, changes) ∧
      Wrote s mutations s' := by
  obtain ⟨existing, hex⟩ := getDocuments_isSome hs.consistent (mutations.map Mutation.key).dedup
  have hpos := hs.next
  have hnext : succBatchId s.nextBatchId = s.nextBatchId + 1 := succBatchId_eq (by omega) hroom
  set batch : MutationBatch := ⟨s.nextBatchId, mutations, hne⟩
  have hlt : ∀ r ∈ s.db.rowsOf s.userId, r.1.batchId < batch.batchId := lt_next hs _
  unfold writeLocally
  rw [hex]
  simp only [Option.bind_eq_bind, Option.bind_some, dif_pos hne, hnext]
  refine ⟨_, _, rfl, ?_, rfl, rfl, rfl, batch, rfl, rfl, ?_⟩
  · refine ⟨Db.consistent_add hs.consistent _ hread hlt, fun k b hk => ?_, ?_, ?_⟩
    · rw [Db.batch_add _ hread] at hk
      split at hk
      · next e =>
        rw [e]
        exact ⟨hpos, by simp⟩
      · have h := hs.ids k b hk
        exact ⟨h.1, by show k.batchId < s.nextBatchId + 1; omega⟩
    · show 0 < s.nextBatchId + 1
      omega
    · show s.nextBatchId + 1 ≤ maxBatchId
      omega
  · exact fun u => Db.pending_add _ hread hlt u

/-- The oldest batch of the user is gone from the queue. -/
structure Dropped (s : LocalStore) (rest : List MutationBatch) (s' : LocalStore) : Prop where
  ok : s'.Ok
  userId : s'.userId = s.userId
  nextBatchId : s'.nextBatchId = s.nextBatchId
  pending : ∀ u, s'.db.pending u = if u = s.userId then rest else s.db.pending u

theorem ok_deleteRows {s : LocalStore} (hs : s.Ok) {b : MutationBatch} (hb : b ∈ s.pending) :
    ({ s with db := s.db.deleteRows s.userId b } : LocalStore).Ok := by
  refine ⟨Db.consistent_deleteRows hs.consistent hb, fun k b' hk => ?_, hs.next, hs.last⟩
  rw [Db.batch_deleteRows] at hk
  split at hk
  · simp at hk
  · exact hs.ids k b' hk

theorem rejectBatch_ok {s : LocalStore} (hs : s.Ok) {b : MutationBatch} {rest : List MutationBatch}
    (hp : s.pending = b :: rest) :
    ∃ s' changes, s.rejectBatch b.batchId = some (s', changes) ∧ Dropped s rest s' ∧
      s'.db.remoteDocuments = s.db.remoteDocuments := by
  have hb : b ∈ s.pending := hp ▸ List.mem_cons_self
  have hok := ok_deleteRows hs hb
  obtain ⟨docs, hdocs⟩ := getDocuments_isSome hok.consistent b.keys.dedup
  refine ⟨{ s with db := s.db.deleteRows s.userId b }, docs, ?_, ⟨hok, rfl, rfl, fun u => ?_⟩, rfl⟩
  · unfold rejectBatch
    rw [Db.lookup_eq hs.consistent hb]
    simp only [Option.bind_eq_bind, Option.bind_some, Db.remove_of_mem hs.consistent hb,
      Db.performConsistencyCheck_eq_true hok.consistent, hdocs]
    rfl
  · exact Db.pending_deleteRows hs.consistent hp u

/-- The cache has no part in what the queues are. -/
theorem Ok.with_cache {s : LocalStore} (hs : s.Ok)
    (docs : Finmap fun _ : DocumentKey => MaybeDocument) :
    ({ s with db := { s.db with remoteDocuments := docs } } : LocalStore).Ok :=
  ⟨⟨hs.consistent.read, hs.consistent.index⟩, hs.ids, hs.next, hs.last⟩

theorem applyRemoteEvent_ok {s : LocalStore} (hs : s.Ok)
    (documentUpdates : List (DocumentKey × MaybeDocument)) :
    ∃ changes, s.applyRemoteEvent documentUpdates =
      some ({ s with db := { s.db with remoteDocuments :=
        (documentUpdates.foldl (applyDocumentUpdate s.db.remoteDocuments)
          (s.db.remoteDocuments, [])).1 } }, changes) := by
  obtain ⟨changes, h⟩ := getLocalView_isSome (hs.with_cache (documentUpdates.foldl
    (applyDocumentUpdate s.db.remoteDocuments) (s.db.remoteDocuments, [])).1).consistent
    (documentUpdates.foldl (applyDocumentUpdate s.db.remoteDocuments)
      (s.db.remoteDocuments, [])).2
  unfold applyRemoteEvent
  simp only [h, Option.bind_eq_bind, Option.bind_some]
  exact ⟨_, rfl⟩

theorem mem_zip_results (r : MutationBatchResult) {m : Mutation} (hm : m ∈ r.batch.mutations) :
    ∃ v, (m, v) ∈ r.batch.mutations.zip r.mutationResults := by
  obtain ⟨i, hi, rfl⟩ := List.getElem_of_mem hm
  have hi' : i < r.mutationResults.length := by rw [r.sameLength]; exact hi
  refine ⟨r.mutationResults[i], ?_⟩
  rw [← List.getElem_zip (h := by simp [hi, hi'])]
  exact List.getElem_mem _

theorem docVersion_isSome (r : MutationBatchResult) {key : DocumentKey} (hk : key ∈ r.batch.keys) :
    ∃ v, r.docVersion key = some v := by
  obtain ⟨m, hm, rfl⟩ := List.mem_map.1 hk
  obtain ⟨v, hv⟩ := mem_zip_results r hm
  have hmem : (m, v) ∈ (r.batch.mutations.zip r.mutationResults).filter fun x => x.1.key = m.key :=
    List.mem_filter.2 ⟨hv, by simp⟩
  unfold MutationBatchResult.docVersion
  rw [List.getLast?_eq_some_getLast (List.ne_nil_of_mem hmem)]
  exact ⟨_, rfl⟩

theorem applyToRemoteDocument_isSome (r : MutationBatchResult) {key : DocumentKey}
    (hk : key ∈ r.batch.keys) (doc : Option MaybeDocument) :
    ∃ d, r.applyToRemoteDocument doc key = some d := by
  obtain ⟨m, hm, rfl⟩ := List.mem_map.1 hk
  obtain ⟨v, hv⟩ := mem_zip_results r hm
  unfold MutationBatchResult.applyToRemoteDocument
  generalize r.batch.mutations.zip r.mutationResults = ms at hv
  induction ms using List.reverseRecOn with
  | nil => simp at hv
  | append_singleton ms last ih =>
    rw [List.foldl_append]
    by_cases hlast : last.1.key = m.key
    · simp [hlast]
    · rcases List.mem_append.1 hv with h | h
      · simpa [hlast] using ih h
      · rw [← List.mem_singleton.1 h] at hlast
        exact absurd rfl hlast

theorem applyResultTo_isSome (r : MutationBatchResult) {key : DocumentKey}
    (hk : key ∈ r.batch.keys) (docs : Finmap fun _ : DocumentKey => MaybeDocument) :
    ∃ docs', applyResultTo r docs key = some docs' := by
  obtain ⟨v, hv⟩ := docVersion_isSome r hk
  obtain ⟨d, hd⟩ := applyToRemoteDocument_isSome r hk (docs.lookup key)
  unfold applyResultTo
  simp only [hv, hd, Option.bind_eq_bind, Option.bind_some]
  split
  · exact ⟨_, rfl⟩
  · exact ⟨_, rfl⟩

theorem applyResult_isSome (r : MutationBatchResult) (keys : List DocumentKey)
    (hk : ∀ key ∈ keys, key ∈ r.batch.keys) :
    ∀ docs, ∃ docs', keys.foldlM (applyResultTo r) docs = some docs' := by
  induction keys with
  | nil => intro docs; exact ⟨docs, rfl⟩
  | cons key keys ih =>
    intro docs
    obtain ⟨docs', h⟩ := applyResultTo_isSome r (hk key List.mem_cons_self) docs
    obtain ⟨docs'', h'⟩ := ih (fun k hk' => hk k (List.mem_cons_of_mem _ hk')) docs'
    refine ⟨docs'', ?_⟩
    rw [List.foldlM_cons, h]
    exact h'

theorem acknowledgeBatch_ok {s : LocalStore} (hs : s.Ok) {r : MutationBatchResult}
    {rest : List MutationBatch} (hp : s.pending = r.batch :: rest) :
    ∃ s' changes, s.acknowledgeBatch r = some (s', changes) ∧ Dropped s rest s' ∧
      r.batch.keys.dedup.foldlM (applyResultTo r) s.db.remoteDocuments =
        some s'.db.remoteDocuments := by
  obtain ⟨docs, hdocs⟩ := applyResult_isSome r r.batch.keys.dedup
    (fun key hk => List.mem_dedup.1 hk) s.db.remoteDocuments
  set s1 : LocalStore := { s with db := { s.db with remoteDocuments := docs } } with hs1
  have hok1 : s1.Ok := hs.with_cache docs
  have hp1 : s1.pending = r.batch :: rest := hp
  have hb : r.batch ∈ s1.pending := hp1 ▸ List.mem_cons_self
  have hok := ok_deleteRows hok1 hb
  obtain ⟨changes, hch⟩ := getDocuments_isSome hok.consistent r.batch.keys.dedup
  have happly : s.applyBatchResult r =
      some { s1 with db := s1.db.deleteRows s1.userId r.batch } := by
    unfold applyBatchResult
    have hrem := Db.remove_of_mem hok1.consistent hb
    simp only [hdocs, Option.bind_eq_bind, Option.bind_some]
    rw [show ({ s.db with remoteDocuments := docs } : Db) = s1.db from rfl,
      show s.userId = s1.userId from rfl, hrem]
    rfl
  refine ⟨{ s1 with db := s1.db.deleteRows s1.userId r.batch }, changes, ?_,
    ⟨hok, rfl, rfl, fun u => ?_⟩, hdocs⟩
  · unfold acknowledgeBatch
    simp only [happly, Option.bind_eq_bind, Option.bind_some,
      Db.performConsistencyCheck_eq_true hok.consistent, hch]
    rfl
  · exact Db.pending_deleteRows hok1.consistent hp1 u

theorem handleUserChange_ok {s : LocalStore} (hs : s.Ok) (userId : String) :
    ∃ changes, s.handleUserChange userId = some (start s.db userId, changes) := by
  have hc : (start s.db userId).db.Consistent := hs.consistent
  obtain ⟨changes, h⟩ := getDocuments_isSome hc
    ((s.db.pending s.userId ++ (start s.db userId).db.pending (start s.db userId).userId).flatMap
      MutationBatch.keys).dedup
  unfold handleUserChange
  simp only [Db.allMutationBatches_eq hs.consistent, Db.allMutationBatches_eq hc, h,
    Option.bind_eq_bind, Option.bind_some]
  exact ⟨_, rfl⟩

/-- The first batch of the queue is the one after no batch at all. -/
theorem next_of_none {s : LocalStore} (hs : s.Ok) :
    s.getNextMutationBatch batchIdUnknown = some s.pending.head? := by
  unfold getNextMutationBatch pending
  rw [Db.next_eq hs.consistent _ (by decide) (by decide)]
  cases hp : s.db.pending s.userId with
  | nil => rfl
  | cons b rest =>
    have hpos := (hs.bounds (hp ▸ List.mem_cons_self : b ∈ s.db.pending s.userId)).1
    have : batchIdUnknown < b.batchId := by unfold batchIdUnknown; omega
    simp [this]

/-- The batch after a batch of the queue is the next one of the queue. -/
theorem next_of_last {s : LocalStore} (hs : s.Ok) {before after : List MutationBatch}
    {b : MutationBatch} (hp : s.pending = before ++ b :: after) :
    s.getNextMutationBatch b.batchId = some after.head? := by
  have hinc := Db.pending_increasing hs.consistent s.userId
  have hp' : s.db.pending s.userId = before ++ b :: after := hp
  have hb := hs.bounds (hp' ▸ by simp : b ∈ s.db.pending s.userId)
  have hlast := hs.last
  unfold getNextMutationBatch
  rw [Db.next_eq hs.consistent _ (by omega) (by omega)]
  rw [hp'] at hinc ⊢
  obtain ⟨-, hafter, hcross⟩ := List.pairwise_append.1 hinc
  rw [List.find?_append, List.find?_eq_none.2, Option.none_or, List.find?_cons_of_neg (by simp)]
  · -- all the batches behind have larger ids
    cases after with
    | nil => rfl
    | cons b' after =>
      have hlt := (List.pairwise_cons.1 hafter).1 b' List.mem_cons_self
      simp [hlt]
  · intro b' hb'
    have hlt := hcross b' hb' b List.mem_cons_self
    simpa using hlt.le

end LocalStore

end ProjectSY.Firestore
