import Mathlib.Data.Finmap

/-!
# Finite maps as records

Lookups after the updates that stores and dictionaries make: one key set, one
key removed, one record merged over another, a whole list of keys removed.
All are stated as an `if` or an `Option.or`, so that a goal about one key is
settled by comparing keys.
-/

namespace Records

variable {α : Type*} {ν : Type*} [DecidableEq α]

theorem lookup_insert_if (k k' : α) (v : ν) (s : Finmap fun _ : α => ν) :
    (s.insert k v).lookup k' = if k' = k then some v else s.lookup k' := by
  by_cases h : k' = k
  · subst h; rw [Finmap.lookup_insert, if_pos rfl]
  · rw [Finmap.lookup_insert_of_ne s h, if_neg h]

theorem lookup_erase_if (k k' : α) (s : Finmap fun _ : α => ν) :
    (s.erase k).lookup k' = if k' = k then none else s.lookup k' := by
  by_cases h : k' = k
  · subst h; rw [Finmap.lookup_erase, if_pos rfl]
  · rw [Finmap.lookup_erase_ne h, if_neg h]

theorem lookup_singleton_if (k k' : α) (v : ν) :
    (Finmap.singleton k v : Finmap fun _ : α => ν).lookup k' = if k' = k then some v else none := by
  by_cases h : k' = k
  · subst h; rw [Finmap.lookup_singleton_eq, if_pos rfl]
  · rw [if_neg h, Finmap.lookup_eq_none, Finmap.mem_singleton]; exact h

/-- In a merge the left record wins. -/
theorem lookup_union_or (k : α) (s t : Finmap fun _ : α => ν) :
    (s ∪ t).lookup k = (s.lookup k).or (t.lookup k) := by
  by_cases h : k ∈ s
  · rw [Finmap.lookup_union_left h]
    obtain ⟨v, hv⟩ := Finmap.mem_iff.1 h
    rw [hv]; rfl
  · rw [Finmap.lookup_union_right h, Finmap.lookup_eq_none.2 h]; rfl

/-- A merge changes nothing when the right record has no key of its own. -/
theorem union_eq_left_iff (s t : Finmap fun _ : α => ν) : s ∪ t = s ↔ ∀ k ∈ t, k ∈ s := by
  constructor
  · intro h k hk
    rw [← h, Finmap.mem_union]
    exact Or.inr hk
  · intro h
    apply Finmap.ext_lookup
    intro k
    rw [lookup_union_or]
    by_cases hk : k ∈ s
    · obtain ⟨v, hv⟩ := Finmap.mem_iff.1 hk
      rw [hv, Option.some_or]
    · rw [Finmap.lookup_eq_none.2 hk, Finmap.lookup_eq_none.2 fun ht => hk (h k ht)]
      rfl

instance rightCommutative_erase :
    RightCommutative fun (s : Finmap fun _ : α => ν) (k : α) => s.erase k :=
  ⟨fun _ _ _ => Finmap.erase_erase⟩

/-- Remove the keys one after the other; their order does not matter. -/
def eraseKeys (s : Finmap fun _ : α => ν) (ks : Multiset α) : Finmap fun _ : α => ν :=
  ks.foldl (fun s k => s.erase k) s

theorem lookup_eraseKeys (ks : Multiset α) (k : α) :
    ∀ s : Finmap fun _ : α => ν, (eraseKeys s ks).lookup k = if k ∈ ks then none else s.lookup k := by
  induction ks using Multiset.induction_on with
  | empty => intro s; simp [eraseKeys]
  | cons a ks ih =>
    intro s
    unfold eraseKeys at ih ⊢
    rw [Multiset.foldl_cons, ih, lookup_erase_if]
    by_cases hk : k ∈ ks
    · simp [hk]
    · by_cases ha : k = a
      · simp [ha]
      · simp [hk, ha]

/-- Removing at least the keys of the record empties it. -/
theorem eraseKeys_eq_empty (s : Finmap fun _ : α => ν) (ks : Multiset α)
    (h : ∀ k ∈ s, k ∈ ks) : eraseKeys s ks = ∅ := by
  apply Finmap.ext_lookup
  intro k
  rw [lookup_eraseKeys, Finmap.lookup_empty]
  split
  · rfl
  · next hk => exact Finmap.lookup_eq_none.2 fun hs => hk (h k hs)

end Records
