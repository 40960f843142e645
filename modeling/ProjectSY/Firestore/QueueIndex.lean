import ProjectSY.Firestore.MutationQueue

/-!
# The index by document

The index names, for every user and document, the batches of the queue that
touch it.  So reading a document through the index finds them all, in the order
of the queue (`affecting_eq`), and neither of the two assertions on the index
fails: no entry dangles, and none is left when the queue is empty.
-/

namespace ProjectSY.Firestore

open Tables

namespace Db

variable {db : Db} (hc : db.Consistent)

include hc in
theorem performConsistencyCheck_eq_true (userId : String) :
    db.performConsistencyCheck userId = true := by
  unfold performConsistencyCheck
  by_cases he : db.isEmpty userId = true
  · rw [he, Bool.not_true, Bool.false_or, List.isEmpty_iff,
      scan_eq_filter DocumentMutationKey.userId (fun k l h => ?_) userId _ _
        (fun r => by simp only [decide_eq_true_eq]) (fun r => by simp only [decide_eq_true_eq])
        db.documentMutations.sorted, List.filter_eq_nil_iff]
    · intro r hr hu
      have hget := (db.documentMutations.mem_rows (k := r.1) (v := r.2)).1 hr
      obtain ⟨b, hb, -⟩ := (hc.index r.1).1 (by rw [hget]; rfl)
      have hmem : b ∈ db.pending userId := by
        rw [mem_pending hc, batchId_eq hc hb, ← of_decide_eq_true hu]
        exact hb
      rw [(isEmpty_iff hc userId).1 he] at hmem
      simp at hmem
    · rcases Prod.Lex.toLex_lt_toLex.1 h with h | h
      · exact h.le
      · exact h.1.le
  · rw [Bool.not_eq_true] at he
    rw [he]
    rfl

theorem documentKey_mono (k l : DocumentMutationKey) (h : k < l) :
    toLex (k.userId, k.documentKey) ≤ toLex (l.userId, l.documentKey) := by
  rw [Prod.Lex.toLex_le_toLex]
  rcases Prod.Lex.toLex_lt_toLex.1 h with h | ⟨hu, h⟩
  · exact Or.inl h
  · rcases Prod.Lex.toLex_lt_toLex.1 h with h | h
    · exact Or.inr ⟨hu, h.le⟩
    · exact Or.inr ⟨hu, h.1.le⟩

theorem mem_batchIdsOfDocument (db : Db) (userId : String) (key : DocumentKey) (batchId : Int) :
    batchId ∈ db.batchIdsOfDocument userId key ↔
      (db.documentMutations.get ⟨userId, key, batchId⟩).isSome = true := by
  unfold batchIdsOfDocument
  rw [scan_eq_filter (fun k : DocumentMutationKey => toLex (k.userId, k.documentKey))
    documentKey_mono (toLex (userId, key)) _ _ (fun r => by simp only [decide_eq_true_eq])
    (fun r => by simp) db.documentMutations.sorted]
  constructor
  · intro h
    obtain ⟨r, hr, rfl⟩ := List.mem_map.1 h
    obtain ⟨hmem, hp⟩ := List.mem_filter.1 hr
    obtain ⟨hu, hd⟩ := of_decide_eq_true hp
    have hget := (db.documentMutations.mem_rows (k := r.1) (v := r.2)).1 hmem
    rw [← hu, ← hd, hget]
    rfl
  · intro h
    obtain ⟨v, hv⟩ := Option.isSome_iff_exists.1 h
    exact List.mem_map.2 ⟨(⟨userId, key, batchId⟩, v),
      List.mem_filter.2 ⟨db.documentMutations.mem_rows.2 hv, by simp⟩, rfl⟩

theorem get_putAll (ids : List Int) (i : Int) : ∀ t : Table Int Unit,
    ((ids.foldl (fun t i => t.put i ()) t).get i).isSome = true ↔
      i ∈ ids ∨ (t.get i).isSome = true := by
  induction ids with
  | nil => intro t; simp
  | cons j ids ih =>
    intro t
    rw [List.foldl_cons, ih, Table.get_put]
    by_cases h : i = j
    · simp [h]
    · simp [h]

theorem get_batchIdsOfDocuments (db : Db) (userId : String) (keys : List DocumentKey) (i : Int) :
    ((db.batchIdsOfDocuments userId keys).get i).isSome = true ↔
      ∃ key ∈ keys, (db.documentMutations.get ⟨userId, key, i⟩).isSome = true := by
  have hloop : ∀ t : Table Int Unit, ((keys.foldl (fun ids key =>
      (db.batchIdsOfDocument userId key).foldl (fun ids batchId => ids.put batchId ()) ids) t).get
        i).isSome = true ↔
      (∃ key ∈ keys, (db.documentMutations.get ⟨userId, key, i⟩).isSome = true) ∨
        (t.get i).isSome = true := by
    induction keys with
    | nil => intro t; simp
    | cons key keys ih =>
      intro t
      rw [List.foldl_cons, ih, get_putAll, mem_batchIdsOfDocument]
      simp only [List.mem_cons, exists_eq_or_imp, or_assoc]
      exact or_left_comm
  unfold batchIdsOfDocuments
  rw [hloop]
  simp

include hc in
/-- The batches found one by one are numbered like the ids. -/
theorem exists_batchesWithIds (userId : String) (ids : List Int)
    (h : ∀ i ∈ ids, (db.batch ⟨userId, i⟩).isSome = true) :
    ∃ bs, db.allMutationBatchesWithIds userId ids = some bs ∧ bs.map MutationBatch.batchId = ids ∧
      ∀ b ∈ bs, b ∈ db.pending userId := by
  unfold allMutationBatchesWithIds
  induction ids with
  | nil => exact ⟨[], rfl, rfl, fun b hb => by simp at hb⟩
  | cons i ids ih =>
    obtain ⟨bs, hbs, hids, hmem⟩ := ih fun j hj => h j (List.mem_cons_of_mem _ hj)
    obtain ⟨b, hb⟩ := Option.isSome_iff_exists.1 (h i List.mem_cons_self)
    have hid : b.batchId = i := batchId_eq hc hb
    obtain ⟨w, hw, hdec⟩ := batch_eq_some.1 hb
    refine ⟨b :: bs, ?_, by rw [List.map_cons, hids, hid], fun b' hb' => ?_⟩
    · rw [List.mapM_cons, Table.seek_of_get hw, hbs]
      simp [parseMutationBatch, hdec]
    · rcases List.mem_cons.1 hb' with rfl | hb'
      · rw [mem_pending hc, hid]
        exact hb
      · exact hmem b' hb'

include hc in
/-- No index entry dangles, and the index finds the batches of the queue that touch one of the
documents, in their order. -/
theorem affecting_eq (userId : String) (keys : List DocumentKey) :
    db.allMutationBatchesAffectingDocumentKeys userId keys =
      some ((db.pending userId).filter fun b => keys.any fun key => b.keys.contains key) := by
  set ids := (db.batchIdsOfDocuments userId keys).rows.map Prod.fst with hids
  have hmem : ∀ i, i ∈ ids ↔ ∃ b, db.batch ⟨userId, i⟩ = some b ∧
      ∃ key ∈ keys, key ∈ b.keys := by
    intro i
    have : i ∈ ids ↔ ((db.batchIdsOfDocuments userId keys).get i).isSome = true := by
      rw [hids, List.mem_map, Option.isSome_iff_exists]
      constructor
      · rintro ⟨r, hr, rfl⟩
        exact ⟨r.2, ((db.batchIdsOfDocuments userId keys).mem_rows).1 hr⟩
      · rintro ⟨v, hv⟩
        exact ⟨(i, v), ((db.batchIdsOfDocuments userId keys).mem_rows).2 hv, rfl⟩
    rw [this, get_batchIdsOfDocuments]
    simp only [hc.index]
    constructor
    · rintro ⟨key, hk, b, hb, hkb⟩
      exact ⟨b, hb, key, hk, hkb⟩
    · rintro ⟨b, hb, key, hk, hkb⟩
      exact ⟨key, hk, b, hb, hkb⟩
  have hsorted : ids.Pairwise (· < ·) := List.pairwise_map.2 (db.batchIdsOfDocuments _ _).sorted
  obtain ⟨bs, hbs, hbids, hbmem⟩ := exists_batchesWithIds hc userId ids fun i hi => by
    obtain ⟨b, hb, -⟩ := (hmem i).1 hi
    rw [hb]
    rfl
  unfold allMutationBatchesAffectingDocumentKeys
  rw [← hids, hbs]
  congr 1
  -- both lists are in the order of the ids, and they have the same batches
  have hleft : bs.Pairwise fun b b' => b.batchId < b'.batchId := by
    rw [← hbids] at hsorted
    exact List.pairwise_map.1 hsorted
  have hright := (pending_increasing hc userId).filter
    fun b => keys.any fun key => b.keys.contains key
  refine List.Perm.eq_of_pairwise (fun a b _ _ hab hba => absurd hab (lt_asymm hba)) hleft hright ?_
  have hnodup : ∀ {l : List MutationBatch}, (l.Pairwise fun b b' => b.batchId < b'.batchId) →
      l.Nodup := fun h => h.imp fun {a b} (hlt : a.batchId < b.batchId) (e : a = b) => by
    rw [e] at hlt
    exact lt_irrefl _ hlt
  rw [List.perm_ext_iff_of_nodup (hnodup hleft) (hnodup hright)]
  intro b
  rw [List.mem_filter]
  constructor
  · intro hb
    have hi : b.batchId ∈ ids := hbids ▸ List.mem_map_of_mem hb
    obtain ⟨b', hget, key, hk, hkb⟩ := (hmem _).1 hi
    have hbb : b = b' := Option.some.inj (((mem_pending hc).1 (hbmem b hb)).symm.trans hget)
    exact ⟨hbmem b hb, List.any_eq_true.2 ⟨key, hk, by simpa [hbb] using hkb⟩⟩
  · rintro ⟨hb, hany⟩
    obtain ⟨key, hk, hkb⟩ := List.any_eq_true.1 hany
    have hget := (mem_pending hc).1 hb
    have hi : b.batchId ∈ ids := (hmem _).2 ⟨b, hget, key, hk, by simpa using hkb⟩
    rw [← hbids] at hi
    obtain ⟨b', hb', he⟩ := List.mem_map.1 hi
    have hget' := (mem_pending hc).1 (hbmem b' hb')
    rw [he] at hget'
    rwa [Option.some.inj (hget.symm.trans hget')]

end Db

end ProjectSY.Firestore
