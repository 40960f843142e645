import ProjectSY.Controllers.MakeNewConnect

/-!
# The connection code as a decimal number

`connectionCode n` should be `n` written with at least six digits, as the entry
prompt asks for.  The zeros are counted by a loop that divides by ten and counts no
digit for 0, while `String(randomNum)` writes one:

    n = 0             six zeros and "0": seven digits
    0 < n < 1000000   six digits
    1000000 ≤ n       the digits of `n`

The loop is right for every number but 0 (`paddedDecimal_iff`).
-/

namespace ProjectSY

/-- The code of `n` is `n` in decimal, padded to six digits. -/
structure PaddedDecimal (n : Nat) : Prop where
  digits : ∀ c ∈ (connectionCode n).toList, c.isDigit = true
  /-- `Nat.toDigits 10` has one digit for 0. -/
  length : (connectionCode n).length = max 6 (Nat.toDigits 10 n).length
  value : Nat.ofDigitChars 10 (connectionCode n).toList 0 = n
  injective : ∀ m, connectionCode m = connectionCode n → m = n
  sixDigits : n < 1000000 → (connectionCode n).length = 6

theorem digitCount_eq (n : Nat) :
    digitCount n = if n = 0 then 0 else (Nat.toDigits 10 n).length := by
  unfold digitCount
  rw [digitLoop_eq n n 0 (Nat.le_refl n), Nat.zero_add]

theorem isDigit_connectionCode (n : Nat) : ∀ c ∈ (connectionCode n).toList, c.isDigit = true := by
  intro c hc
  rw [toList_connectionCode, List.mem_append] at hc
  rcases hc with hc | hc
  · rw [List.eq_of_mem_replicate hc]
    rfl
  · exact Nat.isDigit_of_mem_toDigits (by decide) (by decide) hc

theorem length_connectionCode (n : Nat) :
    (connectionCode n).length = 6 - digitCount n + (Nat.toDigits 10 n).length := by
  rw [← String.length_toList, toList_connectionCode, List.length_append, List.length_replicate]

theorem length_connectionCode_zero : (connectionCode 0).length = 7 := by
  rw [length_connectionCode, digitCount_eq, Nat.toDigits_zero]
  rfl

/-- The loop and the rendering agree on every number but 0. -/
theorem length_connectionCode_of_ne (n : Nat) (h : n ≠ 0) :
    (connectionCode n).length = max 6 (Nat.toDigits 10 n).length := by
  rw [length_connectionCode, digitCount_eq, if_neg h]
  omega

/-- **When the code is a padded decimal.**  It has only digits and is the number
drawn, always; it has the width of six or more digits exactly when the number is not
0. -/
theorem paddedDecimal_iff (n : Nat) : PaddedDecimal n ↔ n ≠ 0 := by
  constructor
  · rintro h rfl
    have hsix := h.sixDigits (by decide)
    rw [length_connectionCode_zero] at hsix
    omega
  · intro h
    refine ⟨isDigit_connectionCode n, length_connectionCode_of_ne n h,
      ofDigitChars_connectionCode n, fun m hm => connectionCode_injective m n hm, fun hlt => ?_⟩
    have hsix : (Nat.toDigits 10 n).length ≤ 6 :=
      (Nat.length_toDigits_le_iff (by decide) (by decide)).2 hlt
    rw [length_connectionCode_of_ne n h]
    omega

/-- The code drawn as 0 has seven digits. -/
theorem zero_not_padded : ¬ ∀ n, PaddedDecimal n := by
  intro h
  have hsix := (h 0).sixDigits (by decide)
  rw [length_connectionCode_zero] at hsix
  omega

end ProjectSY
