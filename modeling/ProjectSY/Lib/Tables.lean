import Mathlib.Data.Finmap
import Mathlib.Order.Defs.LinearOrder
import Mathlib.Data.List.Basic

/-!
# Ordered tables

A table is a list of rows in strictly increasing order of their keys, as a key
value store keeps them: one row is put, deleted or looked up by its key, and an
iterator is positioned at the first row whose key is not below a given one
(`seek`).  `find_insertRow` and `find_eraseRow` are stated for any list of
rows; what depends on the order (`ext`, `seek_eq_filter`) is stated for tables.
-/

namespace Tables

variable {κ ν : Type*} [LinearOrder κ]

def find (k : κ) (rows : List (κ × ν)) : Option ν := (rows.find? fun r => r.1 = k).map Prod.snd

def insertRow (k : κ) (v : ν) : List (κ × ν) → List (κ × ν)
  | [] => [(k, v)]
  | (k', v') :: rest =>
    if k < k' then (k, v) :: (k', v') :: rest
    else if k = k' then (k, v) :: rest
    else (k', v') :: insertRow k v rest

def eraseRow (k : κ) (rows : List (κ × ν)) : List (κ × ν) := rows.filter fun r => r.1 ≠ k

/-- Strictly increasing in the key. -/
def Sorted (rows : List (κ × ν)) : Prop := rows.Pairwise fun r r' => r.1 < r'.1

@[simp] theorem find_nil (k : κ) : find k ([] : List (κ × ν)) = none := rfl

theorem find_cons (k : κ) (r : κ × ν) (rows : List (κ × ν)) :
    find k (r :: rows) = if r.1 = k then some r.2 else find k rows := by
  unfold find
  by_cases h : r.1 = k
  · simp [h]
  · simp [h]

theorem insertRow_cons (k : κ) (v : ν) (r : κ × ν) (rest : List (κ × ν)) :
    insertRow k v (r :: rest) =
      if k < r.1 then (k, v) :: r :: rest
      else if k = r.1 then (k, v) :: rest
      else r :: insertRow k v rest := rfl

theorem find_insertRow (k k' : κ) (v : ν) (rows : List (κ × ν)) :
    find k' (insertRow k v rows) = if k' = k then some v else find k' rows := by
  induction rows with
  | nil =>
    simp only [insertRow, find_cons, find_nil]
    by_cases h : k' = k
    · simp [h]
    · simp [h, Ne.symm h]
  | cons r rest ih =>
    rw [insertRow_cons]
    by_cases hlt : k < r.1
    · rw [if_pos hlt, find_cons]
      by_cases h : k' = k
      · simp [h]
      · simp [h, Ne.symm h]
    · rw [if_neg hlt]
      by_cases heq : k = r.1
      · rw [if_pos heq, find_cons, find_cons]
        by_cases h : k' = k
        · simp [h]
        · have hr : ¬ r.1 = k' := fun e => h (e.symm.trans heq.symm)
          simp [h, Ne.symm h, hr]
      · rw [if_neg heq, find_cons, find_cons, ih]
        by_cases hr : r.1 = k'
        · have h : ¬ k' = k := fun e => heq (e.symm.trans hr.symm)
          simp [hr, h]
        · simp [hr]

theorem find_eraseRow (k k' : κ) (rows : List (κ × ν)) :
    find k' (eraseRow k rows) = if k' = k then none else find k' rows := by
  induction rows with
  | nil => simp [eraseRow]
  | cons r rest ih =>
    unfold eraseRow at ih ⊢
    by_cases hr : r.1 = k
    · rw [List.filter_cons_of_neg (by simp [hr]), ih, find_cons]
      by_cases h : k' = k
      · simp [h]
      · have : ¬ r.1 = k' := fun e => h (e.symm.trans hr)
        simp [h, this]
    · rw [List.filter_cons_of_pos (by simp [hr]), find_cons, find_cons, ih]
      by_cases h : r.1 = k'
      · have : ¬ k' = k := fun e => hr (h.trans e)
        simp [h, this]
      · simp [h]

theorem mem_of_find {k : κ} {v : ν} {rows : List (κ × ν)} (h : find k rows = some v) :
    (k, v) ∈ rows := by
  unfold find at h
  obtain ⟨r, hr, rfl⟩ := Option.map_eq_some_iff.1 h
  have hk : r.1 = k := by simpa using List.find?_some hr
  rw [← hk]
  exact List.mem_of_find?_eq_some hr

theorem find_eq_none {k : κ} {rows : List (κ × ν)} (h : ∀ r ∈ rows, r.1 ≠ k) :
    find k rows = none := by
  unfold find
  rw [Option.map_eq_none_iff, List.find?_eq_none]
  intro r hr
  simpa using h r hr

theorem find_of_mem {k : κ} {v : ν} {rows : List (κ × ν)} (hs : Sorted rows)
    (h : (k, v) ∈ rows) : find k rows = some v := by
  induction rows with
  | nil => simp at h
  | cons r rest ih =>
    obtain ⟨hlt, hrest⟩ := List.pairwise_cons.1 hs
    rw [find_cons]
    rcases List.mem_cons.1 h with rfl | hm
    · simp
    · have hne : ¬ r.1 = k := ne_of_lt (hlt _ hm)
      rw [if_neg hne]
      exact ih hrest hm

theorem mem_iff_find {k : κ} {v : ν} {rows : List (κ × ν)} (hs : Sorted rows) :
    (k, v) ∈ rows ↔ find k rows = some v := ⟨find_of_mem hs, mem_of_find⟩

theorem mem_insertRow_of_mem {k : κ} {v : ν} {r : κ × ν} {rows : List (κ × ν)}
    (h : r ∈ insertRow k v rows) : r = (k, v) ∨ r ∈ rows := by
  induction rows with
  | nil => simpa [insertRow] using h
  | cons r' rest ih =>
    rw [insertRow_cons] at h
    split at h
    · simpa using h
    · split at h
      · rcases List.mem_cons.1 h with h | h
        · exact Or.inl h
        · exact Or.inr (List.mem_cons_of_mem _ h)
      · rcases List.mem_cons.1 h with h | h
        · exact Or.inr (by rw [h]; exact List.mem_cons_self)
        · exact (ih h).imp id (List.mem_cons_of_mem _)

theorem sorted_insertRow (k : κ) (v : ν) {rows : List (κ × ν)} (hs : Sorted rows) :
    Sorted (insertRow k v rows) := by
  induction rows with
  | nil => exact List.pairwise_singleton _ _
  | cons r rest ih =>
    obtain ⟨hlt, hrest⟩ := List.pairwise_cons.1 hs
    rw [insertRow_cons]
    by_cases hk : k < r.1
    · rw [if_pos hk]
      refine List.pairwise_cons.2 ⟨fun r' hr' => ?_, hs⟩
      rcases List.mem_cons.1 hr' with rfl | hr'
      · exact hk
      · exact lt_trans hk (hlt r' hr')
    · rw [if_neg hk]
      by_cases heq : k = r.1
      · rw [if_pos heq]
        exact List.pairwise_cons.2 ⟨fun r' hr' => heq ▸ hlt r' hr', hrest⟩
      · rw [if_neg heq]
        refine List.pairwise_cons.2 ⟨fun r' hr' => ?_, ih hrest⟩
        rcases mem_insertRow_of_mem hr' with rfl | hr'
        · exact lt_of_le_of_ne (not_lt.1 hk) (Ne.symm heq)
        · exact hlt r' hr'

theorem sorted_eraseRow (k : κ) {rows : List (κ × ν)} (hs : Sorted rows) :
    Sorted (eraseRow k rows) := List.Pairwise.filter _ hs

/-- A row above all the others goes to the end. -/
theorem insertRow_last {k : κ} {v : ν} {rows : List (κ × ν)} (h : ∀ r ∈ rows, r.1 < k) :
    insertRow k v rows = rows ++ [(k, v)] := by
  induction rows with
  | nil => rfl
  | cons r rest ih =>
    have hr : r.1 < k := h r List.mem_cons_self
    rw [insertRow_cons, if_neg (not_lt.2 hr.le), if_neg hr.ne',
      ih fun r' hr' => h r' (List.mem_cons_of_mem _ hr')]
    rfl

/-- Among the rows that pass `p`, a put of a new row is a put or nothing. -/
theorem filter_insertRow (p : κ × ν → Bool) {k : κ} {v : ν} {rows : List (κ × ν)}
    (hs : Sorted rows) (hnew : ∀ r ∈ rows, r.1 ≠ k) :
    (insertRow k v rows).filter p =
      if p (k, v) then insertRow k v (rows.filter p) else rows.filter p := by
  induction rows with
  | nil =>
    by_cases hp : p (k, v) = true
    · simp [insertRow, hp]
    · simp [insertRow, hp]
  | cons r rest ih =>
    obtain ⟨hlt, hrest⟩ := List.pairwise_cons.1 hs
    have hne : k ≠ r.1 := (hnew r List.mem_cons_self).symm
    rw [insertRow_cons]
    by_cases hk : k < r.1
    · rw [if_pos hk]
      by_cases hp : p (k, v) = true
      · -- the new row is below every row that is kept
        rw [List.filter_cons_of_pos hp, if_pos hp]
        by_cases hr : p r = true
        · rw [List.filter_cons_of_pos hr]
          simp [insertRow, hk]
        · rw [List.filter_cons_of_neg hr]
          cases hf : rest.filter p with
          | nil => rfl
          | cons r' rest' =>
            have hr' : r' ∈ rest := List.mem_of_mem_filter (hf ▸ List.mem_cons_self)
            simp [insertRow, lt_trans hk (hlt r' hr')]
      · rw [List.filter_cons_of_neg hp, if_neg hp]
    · rw [if_neg hk, if_neg hne]
      have ih := ih hrest fun r' hr' => hnew r' (List.mem_cons_of_mem _ hr')
      by_cases hr : p r = true
      · rw [List.filter_cons_of_pos hr, List.filter_cons_of_pos hr, ih]
        by_cases hp : p (k, v) = true
        · rw [if_pos hp, if_pos hp]
          rw [insertRow_cons, if_neg hk, if_neg hne]
        · rw [if_neg hp, if_neg hp]
      · rw [List.filter_cons_of_neg hr, List.filter_cons_of_neg hr, ih]

/-- Two lists of rows in order with the same content are the same list. -/
theorem sorted_ext {rows rows' : List (κ × ν)} (hs : Sorted rows) (hs' : Sorted rows')
    (h : ∀ k, find k rows = find k rows') : rows = rows' := by
  induction rows generalizing rows' with
  | nil =>
    cases rows' with
    | nil => rfl
    | cons r' rest' =>
      have := h r'.1
      simp [find_cons] at this
  | cons r rest ih =>
    cases rows' with
    | nil =>
      have := h r.1
      simp [find_cons] at this
    | cons r' rest' =>
      obtain ⟨hlt, hrest⟩ := List.pairwise_cons.1 hs
      obtain ⟨hlt', hrest'⟩ := List.pairwise_cons.1 hs'
      have hmem : r ∈ r' :: rest' :=
        mem_of_find (by rw [← h]; exact find_of_mem hs List.mem_cons_self)
      have hmem' : r' ∈ r :: rest :=
        mem_of_find (by rw [h]; exact find_of_mem hs' List.mem_cons_self)
      have hrr : r = r' := by
        rcases List.mem_cons.1 hmem with e | hr
        · exact e
        · rcases List.mem_cons.1 hmem' with e | hr'
          · exact e.symm
          · exact absurd (hlt' r hr) (lt_asymm (hlt r' hr'))
      subst hrr
      congr 1
      refine ih hrest hrest' fun k => ?_
      have hk := h k
      rw [find_cons, find_cons] at hk
      by_cases e : r.1 = k
      · rw [find_eq_none fun x hx => ne_of_gt (e ▸ hlt x hx),
          find_eq_none fun x hx => ne_of_gt (e ▸ hlt' x hx)]
      · simpa [e] using hk

/-- In order, what is dropped is what a filter removes, when `p` holds up to some key. -/
theorem dropWhile_eq_filter (p : κ × ν → Bool)
    (hp : ∀ r r', r.1 < r'.1 → p r' = true → p r = true) {rows : List (κ × ν)} (hs : Sorted rows) :
    rows.dropWhile p = rows.filter fun r => !p r := by
  induction rows with
  | nil => rfl
  | cons r rest ih =>
    obtain ⟨hlt, hrest⟩ := List.pairwise_cons.1 hs
    by_cases hr : p r = true
    · rw [List.dropWhile_cons_of_pos hr, List.filter_cons_of_neg (by simp [hr]), ih hrest]
    · rw [List.dropWhile_cons_of_neg hr, List.filter_cons_of_pos (by simp [hr])]
      congr 1
      symm
      rw [List.filter_eq_self]
      intro x hx
      have : ¬ p x = true := fun h => hr (hp _ _ (hlt x hx) h)
      simpa using this

theorem takeWhile_eq_filter (p : κ × ν → Bool)
    (hp : ∀ r r', r.1 < r'.1 → p r' = true → p r = true) {rows : List (κ × ν)} (hs : Sorted rows) :
    rows.takeWhile p = rows.filter p := by
  induction rows with
  | nil => rfl
  | cons r rest ih =>
    obtain ⟨hlt, hrest⟩ := List.pairwise_cons.1 hs
    by_cases hr : p r = true
    · rw [List.takeWhile_cons_of_pos hr, List.filter_cons_of_pos hr, ih hrest]
    · rw [List.takeWhile_cons_of_neg hr]
      symm
      rw [List.filter_eq_nil_iff]
      intro x hx
      rcases List.mem_cons.1 hx with rfl | hx
      · exact hr
      · exact fun h => hr (hp _ _ (hlt x hx) h)

section Scan

variable {β : Type*} [LinearOrder β] (f : κ → β) (hf : ∀ k l, k < l → f k ≤ f l)

include hf in
/-- When no row is below the key prefix `b`, the rows that have it come first. -/
theorem takeWhile_prefix (b : β) (p : κ × ν → Bool) (hp : ∀ r, p r = true ↔ f r.1 = b)
    {rows : List (κ × ν)} (hs : Sorted rows) (hge : ∀ r ∈ rows, b ≤ f r.1) :
    rows.takeWhile p = rows.filter p := by
  induction rows with
  | nil => rfl
  | cons r rest ih =>
    obtain ⟨hlt, hrest⟩ := List.pairwise_cons.1 hs
    by_cases hr : p r = true
    · rw [List.takeWhile_cons_of_pos hr, List.filter_cons_of_pos hr,
        ih hrest fun r' hr' => hge r' (List.mem_cons_of_mem _ hr')]
    · rw [List.takeWhile_cons_of_neg hr]
      symm
      rw [List.filter_eq_nil_iff]
      have hgt : b < f r.1 :=
        lt_of_le_of_ne (hge r List.mem_cons_self) fun e => hr ((hp r).2 e.symm)
      intro x hx hpx
      have hxb : f x.1 = b := (hp x).1 hpx
      rcases List.mem_cons.1 hx with rfl | hx
      · exact hr hpx
      · have hle : f r.1 ≤ f x.1 := hf _ _ (hlt x hx)
        rw [hxb] at hle
        exact absurd hgt (not_lt.2 hle)

include hf in
/-- An iteration over a key prefix reads the rows that have it. -/
theorem scan_eq_filter (b : β) (p q : κ × ν → Bool) (hp : ∀ r, p r = true ↔ f r.1 < b)
    (hq : ∀ r, q r = true ↔ f r.1 = b) {rows : List (κ × ν)} (hs : Sorted rows) :
    (rows.dropWhile p).takeWhile q = rows.filter q := by
  have hdrop : rows.dropWhile p = rows.filter fun r => !p r := by
    refine dropWhile_eq_filter p (fun r r' hlt hr' => ?_) hs
    exact (hp r).2 (lt_of_le_of_lt (hf _ _ hlt) ((hp r').1 hr'))
  rw [hdrop, takeWhile_prefix f hf b q hq (List.Pairwise.filter _ hs), List.filter_filter]
  · refine List.filter_congr fun r _ => ?_
    by_cases hr : q r = true
    · have : ¬ p r = true := fun h => ne_of_lt ((hp r).1 h) ((hq r).1 hr)
      simp [hr, this]
    · simp [hr]
  · intro r hr
    have hnp : ¬ p r = true := by simpa using (List.mem_filter.1 hr).2
    exact not_lt.1 fun h => hnp ((hp r).2 h)

end Scan

end Tables

open Tables in
/-- Rows in order, with the proof that they are. -/
structure Table (κ ν : Type*) [LinearOrder κ] where
  rows : List (κ × ν)
  sorted : Sorted rows
  deriving DecidableEq

namespace Table

open Tables

variable {κ ν : Type*} [LinearOrder κ]

def empty : Table κ ν := ⟨[], List.Pairwise.nil⟩

def get (t : Table κ ν) (k : κ) : Option ν := find k t.rows

def put (t : Table κ ν) (k : κ) (v : ν) : Table κ ν :=
  ⟨insertRow k v t.rows, sorted_insertRow k v t.sorted⟩

def delete (t : Table κ ν) (k : κ) : Table κ ν := ⟨eraseRow k t.rows, sorted_eraseRow k t.sorted⟩

/-- The rows from the first one on whose key is not below `k`. -/
def seek (t : Table κ ν) (k : κ) : List (κ × ν) := t.rows.dropWhile fun r => r.1 < k

@[simp] theorem get_empty (k : κ) : (empty : Table κ ν).get k = none := rfl

@[simp] theorem get_put (t : Table κ ν) (k k' : κ) (v : ν) :
    (t.put k v).get k' = if k' = k then some v else t.get k' := find_insertRow k k' v t.rows

@[simp] theorem get_delete (t : Table κ ν) (k k' : κ) :
    (t.delete k).get k' = if k' = k then none else t.get k' := find_eraseRow k k' t.rows

theorem mem_rows (t : Table κ ν) {k : κ} {v : ν} : (k, v) ∈ t.rows ↔ t.get k = some v :=
  mem_iff_find t.sorted

theorem ext {t t' : Table κ ν} (h : ∀ k, t.get k = t'.get k) : t = t' := by
  obtain ⟨rows, hs⟩ := t
  obtain ⟨rows', hs'⟩ := t'
  obtain rfl := sorted_ext hs hs' h
  rfl

theorem seek_eq_filter (t : Table κ ν) (k : κ) :
    t.seek k = t.rows.filter fun r => decide (k ≤ r.1) := by
  unfold seek
  rw [dropWhile_eq_filter _
    (fun r r' hlt hr' => by simpa using lt_trans hlt (by simpa using hr')) t.sorted]
  refine List.filter_congr fun r _ => ?_
  by_cases h : k ≤ r.1
  · simp [h]
  · simp [h, not_le.1 h]

/-- A row is found by seeking its key. -/
theorem seek_of_get {t : Table κ ν} {k : κ} {v : ν} (h : t.get k = some v) :
    (t.seek k).head? = some (k, v) := by
  rw [seek_eq_filter]
  have hmem : (k, v) ∈ t.rows.filter fun r => decide (k ≤ r.1) :=
    List.mem_filter.2 ⟨t.mem_rows.2 h, by simp⟩
  have hs : Sorted (t.rows.filter fun r => decide (k ≤ r.1)) := List.Pairwise.filter _ t.sorted
  cases hf : t.rows.filter fun r => decide (k ≤ r.1) with
  | nil => rw [hf] at hmem; simp at hmem
  | cons r rest =>
    rw [hf] at hmem hs
    rcases List.mem_cons.1 hmem with e | hr
    · rw [e]; rfl
    · have hlt : r.1 < k := (List.pairwise_cons.1 hs).1 _ hr
      have hle : k ≤ r.1 := by
        have hmem' : r ∈ t.rows.filter fun r => decide (k ≤ r.1) := hf ▸ List.mem_cons_self
        simpa using (List.mem_filter.1 hmem').2
      exact absurd hlt (not_lt.2 hle)

end Table
