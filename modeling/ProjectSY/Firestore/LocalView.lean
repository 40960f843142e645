import ProjectSY.Firestore.LocalStore
import ProjectSY.Firestore.Overwrites

/-!
# What a read shows

A read applies the batches of the queue to the cached document.  Seen by its
data, this is the cached data with the batches committed on top (`getDocument_data`).
So it does not change when the oldest batch goes from the queue into the cache
(`acknowledge_keeps_reads`), and `WriteLocally` returns what a read then shows
(`writeLocally_shows`), although it applies the batch once for every mutation.
-/

namespace ProjectSY.Firestore

open Resend

namespace Mutation

theorem dataOf_applyToLocalView {m : Mutation} (hm : m.precondition = .none)
    (doc : Option MaybeDocument) : dataOf (m.applyToLocalView doc) = commit (dataOf doc) m := by
  cases m with
  | set key value precondition =>
    cases hm
    rfl
  | patch key value mask precondition =>
    cases hm
    exact (commit_patch key value mask (dataOf doc)).symm
  | delete key precondition =>
    cases hm
    rfl

theorem dataOf_applyToRemoteDocument {m : Mutation} (hm : m.precondition = .none)
    (doc : Option MaybeDocument) (version : SnapshotVersion) :
    dataOf (some (m.applyToRemoteDocument doc version)) = commit (dataOf doc) m := by
  rw [← dataOf_applyToLocalView hm doc]
  cases m with
  | set key value precondition =>
    cases hm
    rfl
  | patch key value mask precondition =>
    cases hm
    rfl
  | delete key precondition =>
    cases hm
    rfl

/-- A batch commits to the same data when it is committed again. -/
theorem commitAt_twice {key : DocumentKey} {mutations : List Mutation}
    (h : Unconditional key mutations) (doc : Option ObjectValue) :
    commitAt key (commitAt key doc mutations) mutations = commitAt key doc mutations := by
  refine doc_ext fun path => ?_
  rcases overwrites_commitAt h path with ⟨v, hv⟩ | hid
  · rw [hv, hv]
  · exact hid _

end Mutation

namespace MutationBatch

theorem dataOf_applyToLocalDocument {b : MutationBatch} {key : DocumentKey}
    (h : Mutation.Unconditional key b.mutations) (doc : Option MaybeDocument) :
    dataOf (b.applyToLocalDocument doc key) = Mutation.commitAt key (dataOf doc) b.mutations := by
  unfold applyToLocalDocument Mutation.commitAt
  generalize b.mutations = mutations at h
  induction mutations generalizing doc with
  | nil => rfl
  | cons m mutations ih =>
    rw [List.foldl_cons, List.foldl_cons, ih _ fun m' hm' => h m' (List.mem_cons_of_mem m hm')]
    by_cases hk : m.key = key
    · rw [if_pos hk, if_pos hk,
        Mutation.dataOf_applyToLocalView (h m List.mem_cons_self hk)]
    · rw [if_neg hk, if_neg hk]

theorem applyToLocalDocument_isSome (b : MutationBatch) (key : DocumentKey) (doc : MaybeDocument) :
    ∃ d, b.applyToLocalDocument (some doc) key = some d := by
  unfold applyToLocalDocument
  generalize b.mutations = mutations
  induction mutations generalizing doc with
  | nil => exact ⟨doc, rfl⟩
  | cons m mutations ih =>
    have hone : ∃ d, (if m.key = key then m.applyToLocalView (some doc) else some doc) = some d := by
      split
      · unfold Mutation.applyToLocalView
        split
        · cases m with
          | _ => exact ⟨_, rfl⟩
        · exact ⟨_, rfl⟩
      · exact ⟨_, rfl⟩
    obtain ⟨d, hd⟩ := hone
    rw [List.foldl_cons, hd]
    exact ih d

end MutationBatch

theorem MutationBatchResult.dataOf_applyToRemoteDocument {r : MutationBatchResult}
    {key : DocumentKey} (h : Mutation.Unconditional key r.batch.mutations)
    (doc : Option MaybeDocument) :
    dataOf (r.applyToRemoteDocument doc key) =
      Mutation.commitAt key (dataOf doc) r.batch.mutations := by
  obtain ⟨batch, results, hlen⟩ := r
  unfold applyToRemoteDocument Mutation.commitAt
  simp only at h hlen ⊢
  generalize batch.mutations = mutations at h hlen
  induction mutations generalizing doc results with
  | nil => rfl
  | cons m mutations ih =>
    cases results with
    | nil => simp at hlen
    | cons v results =>
      rw [List.zip_cons_cons, List.foldl_cons, List.foldl_cons,
        ih _ results (fun m' hm' => h m' (List.mem_cons_of_mem m hm')) (by simpa using hlen)]
      by_cases hk : m.key = key
      · simp only [if_pos hk]
        rw [Mutation.dataOf_applyToRemoteDocument (h m List.mem_cons_self hk)]
      · simp only [if_neg hk]

namespace LocalStore

/-- The data that the pending batches make of a document. -/
theorem applyLocalMutations_data {batches : List MutationBatch} {key : DocumentKey}
    (h : ∀ b ∈ batches, Mutation.Unconditional key b.mutations) (doc : Option MaybeDocument) :
    dataOf (applyLocalMutations batches key doc) =
      (batches.map MutationBatch.mutations).foldl (Mutation.commitAt key) (dataOf doc) := by
  unfold applyLocalMutations
  induction batches generalizing doc with
  | nil => rfl
  | cons b batches ih =>
    rw [List.foldl_cons, List.map_cons, List.foldl_cons,
      ih fun b' hb' => h b' (List.mem_cons_of_mem b hb'),
      MutationBatch.dataOf_applyToLocalDocument (h b List.mem_cons_self)]

theorem data_getD (doc : Option MaybeDocument) :
    (doc.getD (.noDocument 0 false)).data = dataOf doc := by
  cases doc <;> rfl

/-- Batches of other documents make no difference. -/
theorem foldl_commitAt_filter (key : DocumentKey) (p : MutationBatch → Bool)
    {batches : List MutationBatch} (hp : ∀ b ∈ batches, key ∈ b.keys → p b = true)
    (doc : Option ObjectValue) :
    ((batches.filter p).map MutationBatch.mutations).foldl (Mutation.commitAt key) doc =
      (batches.map MutationBatch.mutations).foldl (Mutation.commitAt key) doc := by
  induction batches generalizing doc with
  | nil => rfl
  | cons b batches ih =>
    have hrest := fun b' hb' => hp b' (List.mem_cons_of_mem b hb')
    cases hb : p b with
    | true =>
      rw [List.filter_cons_of_pos hb, List.map_cons, List.map_cons, List.foldl_cons,
        List.foldl_cons, ih hrest]
    | false =>
      have hother : ∀ m ∈ b.mutations, m.key ≠ key := by
        intro m hm hk
        have := hp b List.mem_cons_self (List.mem_map.2 ⟨m, hm, hk⟩)
        rw [hb] at this
        cases this
      rw [List.filter_cons_of_neg (by simp [hb]), ih hrest, List.map_cons, List.foldl_cons,
        Mutation.commitAt_other hother]

/-- **What a read shows**: the cached data, with the batches of the queue on top. -/
theorem getDocument_data {s : LocalStore} (hc : s.db.Consistent) {key : DocumentKey}
    (h : ∀ b ∈ s.pending, Mutation.Unconditional key b.mutations) :
    (s.getDocument key).map dataOf =
      some ((s.pending.map MutationBatch.mutations).foldl (Mutation.commitAt key)
        (dataOf (s.db.remoteDocuments.lookup key))) := by
  rw [getDocument_eq hc, Option.map_some, applyLocalMutations_data
    fun b hb => h b (List.mem_of_mem_filter hb), foldl_commitAt_filter]
  intro b _ hk
  simpa using hk

/-! ## The oldest batch is acknowledged -/

/-- The result is newer than the cached document. -/
def Newer (cache : Finmap fun _ : DocumentKey => MaybeDocument) (r : MutationBatchResult)
    (key : DocumentKey) : Prop :=
  ∀ doc, cache.lookup key = some doc → ∀ version ∈ r.mutationResults, doc.version < version

theorem docVersion_mem {r : MutationBatchResult} {key : DocumentKey} {version : SnapshotVersion}
    (h : r.docVersion key = some version) : version ∈ r.mutationResults := by
  unfold MutationBatchResult.docVersion at h
  obtain ⟨x, hx, rfl⟩ := Option.map_eq_some_iff.1 h
  exact (List.of_mem_zip (List.mem_of_mem_filter (List.mem_of_getLast? hx))).2

theorem applyResultTo_other {r : MutationBatchResult}
    {docs docs' : Finmap fun _ : DocumentKey => MaybeDocument} {key key' : DocumentKey}
    (h : applyResultTo r docs key' = some docs') (hne : key ≠ key') :
    docs'.lookup key = docs.lookup key := by
  unfold applyResultTo at h
  simp only [Option.bind_eq_bind] at h
  obtain ⟨version, -, h⟩ := Option.bind_eq_some_iff.1 h
  split at h
  · split at h
    · split at h
      · rw [← Option.some.inj h]
      · cases h
    · rw [← Option.some.inj h, Finmap.lookup_insert_of_ne _ hne]
  · rw [← Option.some.inj h]

theorem applyResultTo_data {r : MutationBatchResult}
    {docs docs' : Finmap fun _ : DocumentKey => MaybeDocument} {key : DocumentKey}
    (h : applyResultTo r docs key = some docs') (hnew : Newer docs r key)
    (hun : Mutation.Unconditional key r.batch.mutations) :
    dataOf (docs'.lookup key) =
      Mutation.commitAt key (dataOf (docs.lookup key)) r.batch.mutations := by
  rw [← r.dataOf_applyToRemoteDocument hun]
  unfold applyResultTo at h
  simp only [Option.bind_eq_bind] at h
  obtain ⟨version, hversion, h⟩ := Option.bind_eq_some_iff.1 h
  have hall : (docs.lookup key).all (fun doc => decide (doc.version < version)) = true := by
    cases hdoc : docs.lookup key with
    | none => rfl
    | some doc => simpa using hnew doc hdoc version (docVersion_mem hversion)
  rw [if_pos hall] at h
  split at h
  · next happly =>
    split at h
    · next hnone =>
      rw [← Option.some.inj h, happly, Option.isNone_iff_eq_none.1 hnone]
    · cases h
  · next doc happly =>
    rw [← Option.some.inj h, Finmap.lookup_insert, happly]

theorem applyResult_other {r : MutationBatchResult} {key : DocumentKey} {keys : List DocumentKey}
    (hk : key ∉ keys) :
    ∀ {docs docs' : Finmap fun _ : DocumentKey => MaybeDocument},
      keys.foldlM (applyResultTo r) docs = some docs' → docs'.lookup key = docs.lookup key := by
  induction keys with
  | nil =>
    intro docs docs' h
    rw [List.foldlM_nil] at h
    rw [← Option.some.inj h]
  | cons first keys ih =>
    intro docs docs' h
    rw [List.foldlM_cons] at h
    obtain ⟨mid, hmid, h⟩ := Option.bind_eq_some_iff.1 h
    rw [ih (fun e => hk (List.mem_cons_of_mem first e)) h,
      applyResultTo_other hmid fun e => hk (e ▸ List.mem_cons_self)]

/-- The cache takes up the batch. -/
theorem applyResult_data {r : MutationBatchResult} {key : DocumentKey}
    (hun : Mutation.Unconditional key r.batch.mutations) (keys : List DocumentKey)
    (hnodup : keys.Nodup) :
    ∀ {docs docs' : Finmap fun _ : DocumentKey => MaybeDocument},
      keys.foldlM (applyResultTo r) docs = some docs' → Newer docs r key →
      dataOf (docs'.lookup key) =
        if key ∈ keys then Mutation.commitAt key (dataOf (docs.lookup key)) r.batch.mutations
        else dataOf (docs.lookup key) := by
  induction keys with
  | nil =>
    intro docs docs' h _
    rw [List.foldlM_nil] at h
    rw [← Option.some.inj h]
    simp
  | cons first keys ih =>
    intro docs docs' h hnew
    obtain ⟨hfirst, hrest⟩ := List.nodup_cons.1 hnodup
    rw [List.foldlM_cons] at h
    obtain ⟨mid, hmid, hkeys⟩ := Option.bind_eq_some_iff.1 h
    by_cases hk : key = first
    · subst hk
      rw [if_pos List.mem_cons_self, applyResult_other hfirst hkeys,
        applyResultTo_data hmid hnew hun]
    · have hsame := applyResultTo_other hmid hk
      have hnew' : Newer mid r key := by
        intro doc hdoc
        exact hnew doc (hsame ▸ hdoc)
      rw [ih hrest hkeys hnew', hsame]
      simp [hk]

/-- **An acknowledged batch changes nothing for a reader**: what it loses from the queue it finds
in the cache. -/
theorem acknowledge_keeps_reads {s s' : LocalStore} {r : MutationBatchResult}
    {rest : List MutationBatch} {changes : List (DocumentKey × MaybeDocument)} {key : DocumentKey}
    (hs : s.Ok) (hp : s.pending = r.batch :: rest) (h : s.acknowledgeBatch r = some (s', changes))
    (hnew : Newer s.db.remoteDocuments r key)
    (hun : ∀ b ∈ s.pending, Mutation.Unconditional key b.mutations) :
    (s'.getDocument key).map dataOf = (s.getDocument key).map dataOf := by
  obtain ⟨s1, changes1, h1, hd, hcache⟩ := acknowledgeBatch_ok hs hp
  rw [h] at h1
  obtain ⟨rfl, -⟩ := Prod.mk.inj (Option.some.inj h1)
  have hbatch : Mutation.Unconditional key r.batch.mutations := hun _ (hp ▸ List.mem_cons_self)
  have hpending : s'.pending = rest := by
    unfold LocalStore.pending
    rw [hd.userId, hd.pending, if_pos rfl]
  have hdata : dataOf (s'.db.remoteDocuments.lookup key) =
      Mutation.commitAt key (dataOf (s.db.remoteDocuments.lookup key)) r.batch.mutations := by
    rw [applyResult_data hbatch _ (List.nodup_dedup _) hcache hnew]
    split
    · rfl
    · next hk =>
      rw [Mutation.commitAt_other]
      intro m hm e
      exact hk (List.mem_dedup.2 (List.mem_map.2 ⟨m, hm, e⟩))
  rw [getDocument_data hs.consistent hun, getDocument_data hd.ok.consistent
    (fun b hb => hun b (hp ▸ List.mem_cons_of_mem _ (hpending ▸ hb))), hpending, hp, hdata]
  rfl

/-- Two batches in a new store: two notes of one user, then a third one and a note of another. -/
theorem two_batches :
    ∃ (s : LocalStore) (b c : MutationBatch), s.Ok ∧ s.nextBatchId = 3 ∧ s.pending = [b, c] ∧
      b.mutations = [Mutation.noteIn "A" "one", Mutation.noteIn "A" "two"] ∧
      c.mutations = [Mutation.noteIn "A" "three", Mutation.noteIn "B" "four"] ∧
      s.db.remoteDocuments = ∅ := by
  obtain ⟨s1, -, -, h1⟩ := @writeLocally_ok _ (ok_empty "A")
    [Mutation.noteIn "A" "one", Mutation.noteIn "A" "two"] (by simp) (by decide)
    (by decide)
  have hid : s1.nextBatchId = 2 := h1.nextBatchId
  obtain ⟨s2, -, -, h2⟩ := @writeLocally_ok _ h1.ok
    [Mutation.noteIn "A" "three", Mutation.noteIn "B" "four"] (by simp) (by decide)
    (by rw [hid]; decide)
  obtain ⟨b, -, hb, hp1⟩ := h1.pending
  obtain ⟨c, -, hc, hp2⟩ := h2.pending
  refine ⟨s2, b, c, h2.ok, by rw [h2.nextBatchId, hid]; rfl, ?_, hb, hc,
    h2.remoteDocuments.trans h1.remoteDocuments⟩
  unfold LocalStore.pending
  rw [h2.userId, hp2, if_pos rfl, h1.userId, hp1, if_pos rfl]
  rfl

theorem acknowledge_keeps_reads_two :
    ∃ (s s' : LocalStore) (r : MutationBatchResult) (c : MutationBatch) (changes : _),
      s.pending = [r.batch, c] ∧
      r.batch.mutations = [Mutation.noteIn "A" "one", Mutation.noteIn "A" "two"] ∧
      s.acknowledgeBatch r = some (s', changes) ∧
      (s'.getDocument ["users", "A"]).map dataOf = (s.getDocument ["users", "A"]).map dataOf := by
  obtain ⟨s, b, c, hok, -, hp, hb, hc, hcache⟩ := two_batches
  have hlen : [7, 8].length = b.mutations.length := by rw [hb]; rfl
  obtain ⟨s', changes, hack, -, -⟩ := @acknowledgeBatch_ok s hok ⟨b, [7, 8], hlen⟩ [c] hp
  refine ⟨s, s', ⟨b, [7, 8], hlen⟩, c, changes, hp, hb, hack,
    acknowledge_keeps_reads hok hp hack (fun doc hdoc => ?_) fun b' hb' => ?_⟩
  · rw [hcache] at hdoc
    cases hdoc
  · rw [hp] at hb'
    rcases List.mem_pair.1 hb' with rfl | rfl
    · rw [hb]
      decide
    · rw [hc]
      decide

/-! ## A write -/

/-- What `WriteLocally` makes of the entry of one document. -/
def changeEntry (batch : MutationBatch) (d : DocumentKey × MaybeDocument) (m : Mutation) :
    DocumentKey × MaybeDocument :=
  if d.1 = m.key then (d.1, (batch.applyToLocalDocument (some d.2) m.key).getD d.2) else d

theorem change_entries (batch : MutationBatch) (mutations : List Mutation) :
    ∀ docs : List (DocumentKey × MaybeDocument),
      mutations.foldl (fun docs m => docs.map fun d => if d.1 = m.key then
        (d.1, (batch.applyToLocalDocument (some d.2) m.key).getD d.2) else d) docs =
      docs.map fun d => mutations.foldl (changeEntry batch) d := by
  induction mutations with
  | nil => intro docs; simp
  | cons m mutations ih =>
    intro docs
    rw [List.foldl_cons, ih, List.map_map]
    rfl

/-- The batch is applied once for every mutation of the document, which is as good as once. -/
theorem changeEntry_data {batch : MutationBatch} {d : DocumentKey × MaybeDocument}
    (hun : Mutation.Unconditional d.1 batch.mutations) (mutations : List Mutation) :
    (mutations.foldl (changeEntry batch) d).1 = d.1 ∧
      (mutations.foldl (changeEntry batch) d).2.data =
        if d.1 ∈ mutations.map Mutation.key then
          Mutation.commitAt d.1 d.2.data batch.mutations
        else d.2.data := by
  induction mutations generalizing d with
  | nil => simp
  | cons m mutations ih =>
    rw [List.foldl_cons]
    by_cases hk : d.1 = m.key
    · obtain ⟨doc, hdoc⟩ := batch.applyToLocalDocument_isSome m.key d.2
      have hstep : changeEntry batch d m = (d.1, doc) := by
        unfold changeEntry
        rw [if_pos hk, hdoc]
        rfl
      have hdata : doc.data = Mutation.commitAt d.1 d.2.data batch.mutations := by
        have := MutationBatch.dataOf_applyToLocalDocument hun (some d.2)
        rw [hk, hdoc] at this
        rw [hk]
        exact this
      obtain ⟨h1, h2⟩ := ih (d := (d.1, doc)) hun
      have hmem : d.1 ∈ (m :: mutations).map Mutation.key := by simp [hk]
      rw [hstep, if_pos hmem]
      refine ⟨h1, ?_⟩
      rw [h2]
      simp only [hdata]
      split
      · exact Mutation.commitAt_twice hun _
      · rfl
    · have hstep : changeEntry batch d m = d := by
        unfold changeEntry
        rw [if_neg hk]
      rw [hstep]
      refine ⟨(ih hun).1, ?_⟩
      rw [(ih hun).2]
      simp [hk]

section WriteLocally

variable {s s' : LocalStore} {mutations : List Mutation} {batchId : Int}
  {changed : List (DocumentKey × MaybeDocument)}

theorem ne_nil_of_writeLocally (h : s.writeLocally mutations = some (s', batchId, changed)) :
    mutations ≠ [] := by
  rintro rfl
  unfold writeLocally at h
  simp only [Option.bind_eq_bind, Option.bind_eq_some_iff] at h
  obtain ⟨existing, -, h⟩ := h
  simp at h

/-- A read after the write is a read before it, with the batch applied. -/
theorem Wrote.getDocument_data (hs : s.Ok) (hw : Wrote s mutations s')
    (hpending : ∀ b ∈ s.pending, ∀ m ∈ b.mutations, m.precondition = .none)
    (hun : ∀ m ∈ mutations, m.precondition = .none) (key : DocumentKey) :
    (s'.getDocument key).map dataOf =
      ((s.getDocument key).map dataOf).map (Mutation.commitAt key · mutations) := by
  obtain ⟨b, -, hms, hp⟩ := hw.pending
  have hnow : s'.pending = s.pending ++ [b] := by
    unfold LocalStore.pending
    rw [hw.userId, hp, if_pos rfl]
  have hold : ∀ b ∈ s.pending, Mutation.Unconditional key b.mutations :=
    fun b hb m hm _ => hpending b hb m hm
  have hnew : ∀ b ∈ s'.pending, Mutation.Unconditional key b.mutations := by
    intro b' hb' m hm _
    rw [hnow] at hb'
    rcases List.mem_append.1 hb' with hb' | hb'
    · exact hpending b' hb' m hm
    · rw [List.mem_singleton.1 hb', hms] at hm
      exact hun m hm
  rw [LocalStore.getDocument_data hw.ok.consistent hnew,
    LocalStore.getDocument_data hs.consistent hold, hnow, hw.remoteDocuments, List.map_append,
    List.foldl_append, hms.symm]
  rfl

/-- The documents that are returned: those of the batch's keys, each as it was read before the
write, with the batch applied. -/
theorem writeLocally_changed (hs : s.Ok)
    (hpending : ∀ b ∈ s.pending, ∀ m ∈ b.mutations, m.precondition = .none)
    (hun : ∀ m ∈ mutations, m.precondition = .none)
    (h : s.writeLocally mutations = some (s', batchId, changed)) :
    changed.map Prod.fst = (mutations.map Mutation.key).dedup ∧
      ∀ key doc, (key, doc) ∈ changed →
        ((s.getDocument key).map dataOf).map (Mutation.commitAt key · mutations) =
          some doc.data := by
  have hne := ne_nil_of_writeLocally h
  have hold : ∀ key, ∀ b ∈ s.pending, Mutation.Unconditional key b.mutations :=
    fun key b hb m hm _ => hpending b hb m hm
  unfold writeLocally at h
  rw [getDocuments_eq hs.consistent] at h
  simp only [Option.bind_eq_bind, Option.bind_some, dif_pos hne, change_entries] at h
  obtain ⟨-, hrest⟩ := Prod.mk.inj (Option.some.inj h)
  obtain ⟨-, rfl⟩ := Prod.mk.inj hrest
  have hentry : ∀ d : DocumentKey × MaybeDocument,
      (mutations.foldl (changeEntry ⟨s.nextBatchId, mutations, hne⟩) d).1 = d.1 ∧
      (mutations.foldl (changeEntry ⟨s.nextBatchId, mutations, hne⟩) d).2.data =
        if d.1 ∈ mutations.map Mutation.key then Mutation.commitAt d.1 d.2.data mutations
        else d.2.data :=
    fun d => @changeEntry_data ⟨s.nextBatchId, mutations, hne⟩ d
      (fun m hm _ => hun m hm) mutations
  refine ⟨?_, fun key doc hdoc => ?_⟩
  · rw [List.map_map, List.map_map]
    exact (List.map_congr_left fun key _ => (hentry _).1).trans (List.map_id _)
  · obtain ⟨d, hd, hdoc⟩ := List.mem_map.1 hdoc
    obtain ⟨key', hkey, rfl⟩ := List.mem_map.1 hd
    obtain ⟨hfst, hdata⟩ := hentry (key', (applyLocalMutations _ key' _).getD (.noDocument 0 false))
    rw [hdoc] at hfst hdata
    simp only at hfst hdata
    subst hfst
    rw [if_pos (List.mem_dedup.1 hkey), data_getD,
      applyLocalMutations_data fun b hb => hold key b (List.mem_of_mem_filter hb),
      foldl_commitAt_filter] at hdata
    · rw [LocalStore.getDocument_data hs.consistent (hold key), hdata]
      rfl
    · intro b _ hb
      exact List.any_eq_true.2 ⟨key, hkey, by simpa using hb⟩

end WriteLocally

/-- **A write is seen at once**, and `WriteLocally` returns what a read then shows. -/
theorem writeLocally_shows {s s' : LocalStore} {mutations : List Mutation} {batchId : Int}
    {changed : List (DocumentKey × MaybeDocument)} (hs : s.Ok)
    (hread : ∀ m ∈ mutations, m.Readable) (hroom : s.nextBatchId < maxBatchId)
    (hpending : ∀ b ∈ s.pending, ∀ m ∈ b.mutations, m.precondition = .none)
    (hun : ∀ m ∈ mutations, m.precondition = .none)
    (h : s.writeLocally mutations = some (s', batchId, changed)) :
    (∀ key, (s'.getDocument key).map dataOf =
      ((s.getDocument key).map dataOf).map (Mutation.commitAt key · mutations)) ∧
    (changed.map Prod.fst = (mutations.map Mutation.key).dedup ∧
      ∀ key doc, (key, doc) ∈ changed → (s'.getDocument key).map dataOf = some doc.data) := by
  obtain ⟨s1, changes1, h1, hw⟩ := writeLocally_ok hs (ne_nil_of_writeLocally h) hread hroom
  rw [h] at h1
  obtain ⟨rfl, -⟩ := Prod.mk.inj (Option.some.inj h1)
  have hshown := hw.getDocument_data hs hpending hun
  obtain ⟨hkeys, hdocs⟩ := writeLocally_changed hs hpending hun h
  exact ⟨hshown, hkeys, fun key doc hdoc => (hshown key).trans (hdocs key doc hdoc)⟩

theorem writeLocally_shows_two :
    ∃ (s s' : LocalStore) (batchId : Int) (changed : _), s.pending.length = 2 ∧
      s.writeLocally [Mutation.noteIn "A" "five", Mutation.noteIn "A" "six"] =
        some (s', batchId, changed) ∧
      ∀ key doc, (key, doc) ∈ changed → (s'.getDocument key).map dataOf = some doc.data := by
  obtain ⟨s, b, c, hok, hid, hp, hb, hc, -⟩ := two_batches
  have hroom : s.nextBatchId < maxBatchId := by rw [hid]; decide
  obtain ⟨s', changed, h, -⟩ := @writeLocally_ok _ hok
    [Mutation.noteIn "A" "five", Mutation.noteIn "A" "six"] (by simp) (by decide)
    hroom
  refine ⟨s, s', _, changed, by rw [hp]; rfl, h,
    (writeLocally_shows hok (by decide) hroom (fun b' hb' => ?_) (by decide) h).2.2⟩
  rw [hp] at hb'
  rcases List.mem_pair.1 hb' with rfl | rfl
  · rw [hb]
    decide
  · rw [hc]
    decide

end LocalStore

end ProjectSY.Firestore
