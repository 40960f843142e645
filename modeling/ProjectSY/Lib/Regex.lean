import Mathlib.Data.List.Basic

/-!
# Regular expressions and a backtracking matcher

Expressions over classes `κ` of characters `α`; `has k a` says that `a` is in the
class `k`.

    Matches has r before w   `r` matches `w` where `before` stands before it
    backtrack has r          the matcher: greedy, with a continuation to fall back on
    fullMatch has r w        the whole of `w` is matched

What comes before a match counts for the start anchor only.  The matcher tries the
alternatives one after the other; `backtrack_iff` says that it finds a match
whenever there is one, so `fullMatch` decides `Matches` (`fullMatch_iff`).
-/

namespace Regex

inductive Expr (κ : Type*) where
  | empty
  /-- The start anchor. -/
  | start
  | one (k : κ)
  | seq (r s : Expr κ)
  /-- `least` times, and up to `extra` times more. -/
  | repeated (r : Expr κ) (least extra : Nat)
  deriving DecidableEq, Repr

variable {κ α : Type*} (has : κ → α → Bool)

/-! ## Meaning -/

/-- `n` matches of `P`, one after the other. -/
def Times (P : List α → List α → Prop) : Nat → List α → List α → Prop
  | 0, _, w => w = []
  | n + 1, before, w => ∃ u v, w = u ++ v ∧ P before u ∧ Times P n (before ++ u) v

def Matches : Expr κ → List α → List α → Prop
  | .empty, _, w => w = []
  | .start, before, w => before = [] ∧ w = []
  | .one k, _, w => ∃ a, w = [a] ∧ has k a = true
  | .seq r s, before, w => ∃ u v, w = u ++ v ∧ Matches r before u ∧ Matches s (before ++ u) v
  | .repeated r least extra, before, w =>
    ∃ n, least ≤ n ∧ n ≤ least + extra ∧ Times (Matches r) n before w

theorem matches_empty (before w : List α) : Matches has .empty before w ↔ w = [] := Iff.rfl

theorem matches_seq (r s : Expr κ) (before w : List α) :
    Matches has (.seq r s) before w ↔
      ∃ u v, w = u ++ v ∧ Matches has r before u ∧ Matches has s (before ++ u) v := Iff.rfl

theorem matches_one (k : κ) (before w : List α) :
    Matches has (.one k) before w ↔ ∃ a, w = [a] ∧ has k a = true := Iff.rfl

/-- An expression at the end of a sequence. -/
theorem matches_seq_empty (r : Expr κ) (before w : List α) :
    Matches has (.seq r .empty) before w ↔ Matches has r before w := by
  constructor
  · rintro ⟨u, v, rfl, hu, rfl⟩
    rw [List.append_nil]
    exact hu
  · intro h
    exact ⟨w, [], (List.append_nil w).symm, h, rfl⟩

/-- A group of one expression. -/
theorem matches_group_seq (r s : Expr κ) (before w : List α) :
    Matches has (.seq (.seq r .empty) s) before w ↔ Matches has (.seq r s) before w := by
  rw [matches_seq, matches_seq]
  simp only [matches_seq_empty]

/-- One character of a class, and then the rest. -/
theorem matches_one_seq (k : κ) (s : Expr κ) (before w : List α) :
    Matches has (.seq (.one k) s) before w ↔
      ∃ a v, w = a :: v ∧ has k a = true ∧ Matches has s (before ++ [a]) v := by
  constructor
  · rintro ⟨u, v, rfl, ⟨a, rfl, ha⟩, hv⟩
    exact ⟨a, v, rfl, ha, hv⟩
  · rintro ⟨a, v, rfl, ha, hv⟩
    exact ⟨[a], v, rfl, ⟨a, rfl, ha⟩, hv⟩

/-- The start anchor holds at the start. -/
theorem matches_start_seq (s : Expr κ) (w : List α) :
    Matches has (.seq .start s) [] w ↔ Matches has s [] w := by
  constructor
  · rintro ⟨u, v, rfl, ⟨-, rfl⟩, hv⟩
    exact hv
  · intro h
    exact ⟨[], w, rfl, ⟨rfl, rfl⟩, h⟩

theorem times_one (k : κ) (n : Nat) (before w : List α) :
    Times (Matches has (.one k)) n before w ↔ w.length = n ∧ ∀ a ∈ w, has k a = true := by
  induction n generalizing before w with
  | zero =>
    constructor
    · rintro rfl
      exact ⟨rfl, fun a ha => absurd ha (List.not_mem_nil)⟩
    · rintro ⟨hlen, -⟩
      exact List.length_eq_zero_iff.1 hlen
  | succ n ih =>
    constructor
    · rintro ⟨u, v, rfl, ⟨a, rfl, ha⟩, hv⟩
      obtain ⟨hlen, hall⟩ := (ih _ v).1 hv
      refine ⟨by simp [hlen], fun b hb => ?_⟩
      rcases List.mem_cons.1 hb with rfl | hb
      · exact ha
      · exact hall b hb
    · rintro ⟨hlen, hall⟩
      obtain ⟨a, v, rfl⟩ := List.exists_cons_of_length_eq_add_one hlen
      refine ⟨[a], v, rfl, ⟨a, rfl, hall a List.mem_cons_self⟩, (ih _ v).2 ⟨?_, ?_⟩⟩
      · simpa using hlen
      · exact fun b hb => hall b (List.mem_cons_of_mem a hb)

/-- A counted class matches the words of its characters with a length in the bounds. -/
theorem matches_repeated_one (k : κ) (least extra : Nat) (before w : List α) :
    Matches has (.repeated (.one k) least extra) before w ↔
      least ≤ w.length ∧ w.length ≤ least + extra ∧ ∀ a ∈ w, has k a = true := by
  constructor
  · rintro ⟨n, hl, hm, ht⟩
    obtain ⟨rfl, hall⟩ := (times_one has k n before w).1 ht
    exact ⟨hl, hm, hall⟩
  · rintro ⟨hl, hm, hall⟩
    exact ⟨w.length, hl, hm, (times_one has k _ before w).2 ⟨rfl, hall⟩⟩

/-- A counted class, and then the rest. -/
theorem matches_repeated_one_seq (k : κ) (least extra : Nat) (s : Expr κ) (before w : List α) :
    Matches has (.seq (.repeated (.one k) least extra) s) before w ↔
      ∃ u v, w = u ++ v ∧ (least ≤ u.length ∧ u.length ≤ least + extra ∧ ∀ a ∈ u, has k a = true) ∧
        Matches has s (before ++ u) v := by
  rw [matches_seq]
  simp only [matches_repeated_one]

/-- A class taken exactly once is the class. -/
theorem matches_once (k : κ) (before w : List α) :
    Matches has (.repeated (.one k) 1 0) before w ↔ Matches has (.one k) before w := by
  rw [matches_repeated_one, matches_one]
  constructor
  · rintro ⟨h1, h2, hall⟩
    obtain ⟨a, rfl⟩ := List.length_eq_one_iff.1 (Nat.le_antisymm h2 h1)
    exact ⟨a, rfl, hall a (List.mem_singleton_self a)⟩
  · rintro ⟨a, rfl, ha⟩
    exact ⟨Nat.le_refl 1, Nat.le_refl 1, fun b hb => by rwa [List.mem_singleton.1 hb]⟩

theorem matches_once_seq (k : κ) (s : Expr κ) (before w : List α) :
    Matches has (.seq (.repeated (.one k) 1 0) s) before w ↔
      Matches has (.seq (.one k) s) before w := by
  rw [matches_seq, matches_seq]
  simp only [matches_once]

/-! ## The matcher -/

/-- A matcher reads a piece of what is left and hands the rest to a continuation;
when the continuation fails it tries the next piece. -/
abbrev Matcher (α : Type*) := List α → List α → (List α → List α → Bool) → Bool

/-- Up to `extra` times, as often as possible first. -/
def backtrackUpTo (f : Matcher α) : Nat → Matcher α
  | 0, before, rest, k => k before rest
  | extra + 1, before, rest, k =>
    f before rest (fun before rest => backtrackUpTo f extra before rest k) || k before rest

/-- `least` times, and then up to `extra` times more. -/
def backtrackTimes (f : Matcher α) (extra : Nat) : Nat → Matcher α
  | 0, before, rest, k => backtrackUpTo f extra before rest k
  | least + 1, before, rest, k =>
    f before rest fun before rest => backtrackTimes f extra least before rest k

def backtrack : Expr κ → Matcher α
  | .empty, before, rest, k => k before rest
  | .start, before, rest, k => before.isEmpty && k before rest
  | .one _, _, [], _ => false
  | .one c, before, a :: rest, k => has c a && k (before ++ [a]) rest
  | .seq r s, before, rest, k =>
    backtrack r before rest fun before rest => backtrack s before rest k
  | .repeated r least extra, before, rest, k =>
    backtrackTimes (backtrack r) extra least before rest k

def fullMatch (r : Expr κ) (w : List α) : Bool :=
  backtrack has r [] w fun _ rest => rest.isEmpty

/-- The matcher finds exactly the pieces that `P` describes. -/
def Finds (f : Matcher α) (P : List α → List α → Prop) : Prop :=
  ∀ before rest k, f before rest k = true ↔
    ∃ u v, rest = u ++ v ∧ P before u ∧ k (before ++ u) v = true

/-- One more piece in front of the pieces found by `g`. -/
theorem finds_then (f g : Matcher α) (P Q : List α → List α → Prop) (hf : Finds f P)
    (hg : Finds g Q) :
    Finds (fun before rest k => f before rest fun before rest => g before rest k)
      (fun before w => ∃ u v, w = u ++ v ∧ P before u ∧ Q (before ++ u) v) := by
  intro before rest k
  show f before rest (fun before rest => g before rest k) = true ↔ _
  rw [hf]
  constructor
  · rintro ⟨u, v, rfl, hu, hk⟩
    obtain ⟨u', v', rfl, hu', hk'⟩ := (hg _ _ _).1 hk
    refine ⟨u ++ u', v', (List.append_assoc u u' v').symm, ⟨u, u', rfl, hu, hu'⟩, ?_⟩
    rw [← List.append_assoc]
    exact hk'
  · rintro ⟨w, v', rfl, ⟨u, u', rfl, hu, hu'⟩, hk'⟩
    rw [← List.append_assoc] at hk'
    exact ⟨u, u' ++ v', List.append_assoc u u' v', hu, (hg _ _ _).2 ⟨u', v', rfl, hu', hk'⟩⟩

theorem finds_congr (f : Matcher α) (P Q : List α → List α → Prop) (hf : Finds f P)
    (h : ∀ before w, P before w ↔ Q before w) : Finds f Q := by
  intro before rest k
  rw [hf before rest k]
  simp only [h]

theorem finds_backtrackUpTo (f : Matcher α) (P : List α → List α → Prop) (hf : Finds f P)
    (extra : Nat) :
    Finds (backtrackUpTo f extra) (fun before w => ∃ n, n ≤ extra ∧ Times P n before w) := by
  induction extra with
  | zero =>
    intro before rest k
    show k before rest = true ↔ _
    constructor
    · intro hk
      refine ⟨[], rest, rfl, ⟨0, Nat.le_refl 0, rfl⟩, ?_⟩
      rw [List.append_nil]
      exact hk
    · rintro ⟨u, v, rfl, ⟨n, hn, ht⟩, hk⟩
      obtain rfl : n = 0 := by omega
      obtain rfl : u = [] := ht
      rw [List.append_nil] at hk
      exact hk
  | succ extra ih =>
    intro before rest k
    show (f before rest (fun before rest => backtrackUpTo f extra before rest k) ||
      k before rest) = true ↔ _
    rw [Bool.or_eq_true, finds_then f _ P _ hf ih before rest k]
    constructor
    · rintro (⟨w, v, rfl, ⟨u, u', rfl, hu, n, hn, ht⟩, hk⟩ | hk)
      · exact ⟨u ++ u', v, rfl, ⟨n + 1, by omega, u, u', rfl, hu, ht⟩, hk⟩
      · refine ⟨[], rest, rfl, ⟨0, by omega, rfl⟩, ?_⟩
        rw [List.append_nil]
        exact hk
    · rintro ⟨w, v, rfl, ⟨n, hn, ht⟩, hk⟩
      cases n with
      | zero =>
        obtain rfl : w = [] := ht
        rw [List.append_nil] at hk
        exact Or.inr hk
      | succ n =>
        obtain ⟨u, u', rfl, hu, ht⟩ := ht
        exact Or.inl ⟨u ++ u', v, rfl, ⟨u, u', rfl, hu, n, by omega, ht⟩, hk⟩

theorem finds_backtrackTimes (f : Matcher α) (P : List α → List α → Prop) (hf : Finds f P)
    (extra least : Nat) :
    Finds (backtrackTimes f extra least)
      (fun before w => ∃ n, least ≤ n ∧ n ≤ least + extra ∧ Times P n before w) := by
  induction least with
  | zero =>
    refine finds_congr _ _ _ (finds_backtrackUpTo f P hf extra) fun before w => ?_
    simp only [Nat.zero_le, true_and, Nat.zero_add]
  | succ least ih =>
    refine finds_congr _ _ _ (finds_then f _ P _ hf ih) fun before w => ?_
    constructor
    · rintro ⟨u, u', rfl, hu, n, hl, hn, ht⟩
      exact ⟨n + 1, by omega, by omega, u, u', rfl, hu, ht⟩
    · rintro ⟨n, hl, hn, ht⟩
      obtain ⟨n, rfl⟩ : ∃ m, n = m + 1 := ⟨n - 1, by omega⟩
      obtain ⟨u, u', rfl, hu, ht⟩ := ht
      exact ⟨u, u', rfl, hu, n, by omega, by omega, ht⟩

/-- **The matcher finds every match, and nothing else.** -/
theorem finds_backtrack (r : Expr κ) : Finds (backtrack has r) (Matches has r) := by
  induction r with
  | empty =>
    intro before rest k
    show k before rest = true ↔ _
    constructor
    · intro hk
      refine ⟨[], rest, rfl, rfl, ?_⟩
      rw [List.append_nil]
      exact hk
    · rintro ⟨u, v, rfl, hu, hk⟩
      obtain rfl : u = [] := hu
      rw [List.append_nil] at hk
      exact hk
  | start =>
    intro before rest k
    show (before.isEmpty && k before rest) = true ↔ _
    rw [Bool.and_eq_true, List.isEmpty_iff]
    constructor
    · rintro ⟨hb, hk⟩
      refine ⟨[], rest, rfl, ⟨hb, rfl⟩, ?_⟩
      rw [List.append_nil]
      exact hk
    · rintro ⟨u, v, rfl, ⟨hb, rfl⟩, hk⟩
      rw [List.append_nil] at hk
      exact ⟨hb, hk⟩
  | one c =>
    intro before rest k
    cases rest with
    | nil =>
      constructor
      · intro h
        cases h
      · rintro ⟨u, v, hw, ⟨a, rfl, -⟩, -⟩
        cases hw
    | cons a rest =>
      show (has c a && k (before ++ [a]) rest) = true ↔ _
      rw [Bool.and_eq_true]
      constructor
      · rintro ⟨ha, hk⟩
        exact ⟨[a], rest, rfl, ⟨a, rfl, ha⟩, hk⟩
      · rintro ⟨u, v, hw, ⟨b, rfl, hb⟩, hk⟩
        cases hw
        exact ⟨hb, hk⟩
  | seq r s ihr ihs => exact finds_then (backtrack has r) (backtrack has s) _ _ ihr ihs
  | repeated r least extra ih => exact finds_backtrackTimes _ _ ih extra least

theorem fullMatch_iff (r : Expr κ) (w : List α) :
    fullMatch has r w = true ↔ Matches has r [] w := by
  unfold fullMatch
  rw [finds_backtrack has r [] w]
  constructor
  · rintro ⟨u, v, rfl, hu, hv⟩
    rw [List.isEmpty_iff.1 hv, List.append_nil]
    exact hu
  · intro h
    exact ⟨w, [], (List.append_nil w).symm, h, rfl⟩

end Regex
