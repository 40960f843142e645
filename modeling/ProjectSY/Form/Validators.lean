import ProjectSY.Controllers.TextFields

/-!
# What the two patterns accept

The form asks for a phone number as `000-0000-0000` and for a birthday as
`0000.00.00`.

    phone      a mobile number is `01`, one of 0, 1, 6, 7, 8, 9, `-`, three or four
               digits, `-`, four digits.  The set `[0|1|6|7|8|9]` has the bar in it,
               so `01|-123-4567` is accepted as well.
    birthday   a date is four digits, a dot, a month from 01 to 12, a dot, a day from
               01 to 31.  The dots of the pattern are not escaped and the digits of
               month and day are matched one by one, so `2020/13/00` is accepted.

Either pattern is right about a text exactly when the text is not of the kind that
is accepted by mistake (`phone_right_iff`, `birthday_right_iff`).
-/

namespace ProjectSY

open Regex

def digitClass : CharClass := .set [.range '0' '9']

/-! ## The phone number -/

/-- `01`, the character `third`, `-`, three or four digits, `-`, four digits. -/
def PhoneNumber (third : Char) (text : String) : Prop :=
  ∃ mid last : List Char,
    text.toList = '0' :: '1' :: third :: '-' :: (mid ++ '-' :: last) ∧
    (mid.length = 3 ∨ mid.length = 4) ∧ last.length = 4 ∧
    (∀ c ∈ mid, c.isDigit = true) ∧ (∀ c ∈ last, c.isDigit = true)

/-- A Korean mobile number. -/
def KoreanMobile (text : String) : Prop :=
  ∃ third ∈ ['0', '1', '6', '7', '8', '9'], PhoneNumber third text

/-- The set in the phone pattern. -/
def thirdClass : CharClass :=
  .set [.char '0', .char '|', .char '1', .char '|', .char '6', .char '|', .char '7', .char '|',
    .char '8', .char '|', .char '9']

def phoneExpr : Expr CharClass :=
  .seq .start (.seq (.one (.char '0')) (.seq (.one (.char '1')) (.seq (.seq (.one thirdClass) .empty)
    (.seq (.one (.char '-')) (.seq (.seq (.repeated (.one digitClass) 3 1) .empty)
      (.seq (.one (.char '-')) (.seq (.seq (.repeated (.one digitClass) 4 0) .empty) .empty)))))))

theorem parse_phoneRegex : parse phoneRegex = some phoneExpr := by decide +kernel

theorem has_thirdClass (c : Char) :
    thirdClass.has c = true ↔ c ∈ ['0', '1', '6', '7', '8', '9'] ∨ c = '|' := by
  unfold thirdClass CharClass.has
  simp only [List.any_cons, List.any_nil, SetItem.has, Bool.or_eq_true, decide_eq_true_eq,
    List.mem_cons, List.not_mem_nil, Bool.or_false]
  tauto

theorem has_char (c a : Char) : (CharClass.char c).has a = true ↔ a = c := decide_eq_true_iff

theorem has_digitClass (c : Char) : digitClass.has c = true ↔ c.isDigit = true := by
  unfold digitClass
  rw [has_digits]

theorem matches_phoneExpr (w : List Char) :
    Matches CharClass.has phoneExpr [] w ↔ ∃ third mid last,
      w = '0' :: '1' :: third :: '-' :: (mid ++ '-' :: last) ∧ thirdClass.has third = true ∧
      (mid.length = 3 ∨ mid.length = 4) ∧ last.length = 4 ∧
      (∀ c ∈ mid, c.isDigit = true) ∧ (∀ c ∈ last, c.isDigit = true) := by
  unfold phoneExpr
  simp only [matches_start_seq, matches_one_seq, matches_group_seq, matches_repeated_one_seq,
    matches_empty, has_char, has_digitClass]
  constructor
  · rintro ⟨_, _, rfl, rfl, _, _, rfl, rfl, third, _, rfl, hthird, _, _, rfl, rfl, mid, _, rfl,
      ⟨hleast, hmost, hmid⟩, _, _, rfl, rfl, last, _, rfl, ⟨hlow, hhigh, hlast⟩, rfl⟩
    rw [List.append_nil]
    exact ⟨third, mid, last, rfl, hthird, by omega, by omega, hmid, hlast⟩
  · rintro ⟨third, mid, last, rfl, hthird, hmid, hlast, hm, hl⟩
    exact ⟨_, _, rfl, rfl, _, _, rfl, rfl, third, _, rfl, hthird, _, _, rfl, rfl, mid, _, rfl,
      ⟨by omega, by omega, hm⟩, _, _, rfl, rfl, last, [], (List.append_nil last).symm,
      ⟨by omega, by omega, hl⟩, rfl⟩

/-- With a pattern that is one, no predicate raises. -/
theorem isTextFieldValid_eq (textField : UITextField) (regex : String) (r : Expr CharClass)
    (hr : parse regex = some r) :
    isTextFieldValid textField regex =
      some (fullMatch CharClass.has r textField.entered.toList) := by
  show selfMatches regex textField.entered = _
  unfold selfMatches
  rw [hr, Option.map_some]

theorem isTextFieldValid_iff (textField : UITextField) (regex : String) (r : Expr CharClass)
    (hr : parse regex = some r) :
    isTextFieldValid textField regex = some true ↔
      Matches CharClass.has r [] textField.entered.toList := by
  rw [isTextFieldValid_eq textField regex r hr, Option.some.injEq, fullMatch_iff]

/-- The phone pattern accepts the mobile numbers and those with a bar. -/
theorem phoneValid_iff (textField : UITextField) :
    isTextFieldValid textField phoneRegex = some true ↔
      KoreanMobile textField.entered ∨ PhoneNumber '|' textField.entered := by
  rw [isTextFieldValid_iff textField phoneRegex phoneExpr parse_phoneRegex, matches_phoneExpr]
  constructor
  · rintro ⟨third, mid, last, hw, hthird, hshape⟩
    rcases (has_thirdClass third).1 hthird with hmem | rfl
    · exact Or.inl ⟨third, hmem, mid, last, hw, hshape⟩
    · exact Or.inr ⟨mid, last, hw, hshape⟩
  · rintro (⟨third, hmem, mid, last, hw, hshape⟩ | ⟨mid, last, hw, hshape⟩)
    · exact ⟨third, mid, last, hw, (has_thirdClass third).2 (Or.inl hmem), hshape⟩
    · exact ⟨'|', mid, last, hw, (has_thirdClass '|').2 (Or.inr rfl), hshape⟩

theorem phoneNumber_third (a b : Char) (text : String) (ha : PhoneNumber a text)
    (hb : PhoneNumber b text) : a = b := by
  obtain ⟨mid, last, hw, -⟩ := ha
  obtain ⟨mid', last', hw', -⟩ := hb
  rw [hw] at hw'
  simp only [List.cons.injEq] at hw'
  exact hw'.2.2.1

/-- **When the phone validator is right.**  It accepts exactly the Korean mobile
numbers, but for the texts that have a bar where the third digit belongs. -/
theorem phone_right_iff (textField : UITextField) :
    (isTextFieldValid textField phoneRegex = some true ↔ KoreanMobile textField.entered) ↔
      ¬ PhoneNumber '|' textField.entered := by
  rw [phoneValid_iff]
  constructor
  · intro h hbar
    obtain ⟨third, hmem, hnumber⟩ := h.1 (Or.inr hbar)
    obtain rfl : third = '|' := phoneNumber_third third '|' _ hnumber hbar
    revert hmem
    decide
  · intro hbar
    exact ⟨fun h => h.resolve_right hbar, Or.inl⟩

/-- `01|-123-4567` is taken for a mobile number. -/
theorem phone_wrong :
    ¬ ∀ textField : UITextField,
      isTextFieldValid textField phoneRegex = some true ↔ KoreanMobile textField.entered := by
  intro h
  have hbar : PhoneNumber '|' "01|-123-4567" :=
    ⟨['1', '2', '3'], ['4', '5', '6', '7'], by decide +kernel, by decide, by decide,
      List.all_eq_true.1 rfl, List.all_eq_true.1 rfl⟩
  obtain ⟨third, hmem, hnumber⟩ := (h ⟨"01|-123-4567"⟩).1 ((phoneValid_iff _).2 (Or.inr hbar))
  obtain rfl : third = '|' := phoneNumber_third third '|' _ hnumber hbar
  revert hmem
  decide

/-! ## The birthday -/

/-- Two decimal digits. -/
def twoDigits (n : Nat) : List Char := [Nat.digitChar (n / 10), Nat.digitChar (n % 10)]

/-- Four digits, `p`, two digits, `q`, two digits. -/
def Written (p q : Char) (month day : Nat) (text : String) : Prop :=
  ∃ year : List Char, text.toList = year ++ p :: (twoDigits month ++ q :: twoDigits day) ∧
    year.length = 4 ∧ ∀ c ∈ year, c.isDigit = true

/-- A date as the field asks for it: 0000.00.00. -/
def Birthday (text : String) : Prop :=
  ∃ month day, 1 ≤ month ∧ month ≤ 12 ∧ 1 ≤ day ∧ day ≤ 31 ∧ Written '.' '.' month day text

/-- What the pattern reads as a date: the separators are any characters of a line,
the month goes up to 19 and the day up to 39. -/
def ReadAsDate (p q : Char) (month day : Nat) (text : String) : Prop :=
  p ∉ lineTerminators ∧ q ∉ lineTerminators ∧ month ≤ 19 ∧ day ≤ 39 ∧ Written p q month day text

/-- A text that is read as a date with another separator, or with a month or a day
that does not exist. -/
def Misread (text : String) : Prop :=
  ∃ p q month day, ReadAsDate p q month day text ∧
    (p ≠ '.' ∨ q ≠ '.' ∨ month = 0 ∨ 12 < month ∨ day = 0 ∨ 31 < day)

def birthdayExpr : Expr CharClass :=
  .seq (.seq (.repeated (.one digitClass) 4 0) .empty) (.seq (.one .any)
    (.seq (.seq (.repeated (.one (.set [.range '0' '1'])) 1 0) .empty)
      (.seq (.seq (.repeated (.one digitClass) 1 0) (.seq (.one .any)
        (.seq (.seq (.repeated (.one (.set [.range '0' '3'])) 1 0) .empty)
          (.seq (.seq (.repeated (.one digitClass) 1 0) .empty) .empty)))) .empty)))

theorem parse_birthdayRegex : parse birthdayRegex = some birthdayExpr := by decide +kernel

theorem has_any (a : Char) : CharClass.any.has a = true ↔ a ∉ lineTerminators := decide_eq_true_iff

/-- The digits up to `hi`. -/
theorem has_digitsUpTo (hi : Nat) (hhi : hi < 10) (a : Char) :
    (CharClass.set [.range '0' (Nat.digitChar hi)]).has a = true ↔
      ∃ n ≤ hi, a = Nat.digitChar n := by
  show ((decide ('0' ≤ a) && decide (a ≤ Nat.digitChar hi)) || false) = true ↔ _
  rw [Bool.or_false, Bool.and_eq_true, decide_eq_true_eq, decide_eq_true_eq]
  have hle : ∀ a b : Char, a ≤ b ↔ a.toNat ≤ b.toNat := fun a b => Iff.rfl
  rw [hle, hle, Nat.toNat_digitChar_of_lt_ten hhi]
  have hzero : '0'.toNat = 48 := rfl
  constructor
  · rintro ⟨hlo, hup⟩
    refine ⟨a.toNat - 48, by omega, ?_⟩
    rw [← Char.toNat_inj, Nat.toNat_digitChar_of_lt_ten (by omega)]
    omega
  · rintro ⟨n, hn, rfl⟩
    rw [Nat.toNat_digitChar_of_lt_ten (by omega)]
    omega

theorem twoDigits_of_digits (t u : Nat) (hu : u < 10) :
    twoDigits (10 * t + u) = [Nat.digitChar t, Nat.digitChar u] := by
  unfold twoDigits
  rw [show (10 * t + u) / 10 = t by omega, show (10 * t + u) % 10 = u by omega]

theorem digitChar_inj (m n : Nat) (hm : m < 10) (hn : n < 10)
    (h : Nat.digitChar m = Nat.digitChar n) : m = n := by
  have hnat := congrArg Char.toNat h
  rw [Nat.toNat_digitChar_of_lt_ten hm, Nat.toNat_digitChar_of_lt_ten hn] at hnat
  omega

theorem twoDigits_inj (m n : Nat) (hm : m < 100) (hn : n < 100) (h : twoDigits m = twoDigits n) :
    m = n := by
  unfold twoDigits at h
  simp only [List.cons.injEq, and_true] at h
  have htens := digitChar_inj (m / 10) (n / 10) (by omega) (by omega) h.1
  have hunits := digitChar_inj (m % 10) (n % 10) (by omega) (by omega) h.2
  omega

theorem matches_birthdayExpr (w : List Char) :
    Matches CharClass.has birthdayExpr [] w ↔ ∃ p q month day,
      p ∉ lineTerminators ∧ q ∉ lineTerminators ∧ month ≤ 19 ∧ day ≤ 39 ∧
      ∃ year : List Char, w = year ++ p :: (twoDigits month ++ q :: twoDigits day) ∧
        year.length = 4 ∧ ∀ c ∈ year, c.isDigit = true := by
  have hone : ∀ a, (CharClass.set [.range '0' '1']).has a = true ↔ ∃ n ≤ 1, a = Nat.digitChar n :=
    has_digitsUpTo 1 (by decide)
  have hthree : ∀ a, (CharClass.set [.range '0' '3']).has a = true ↔
      ∃ n ≤ 3, a = Nat.digitChar n := has_digitsUpTo 3 (by decide)
  have hnine : ∀ a, digitClass.has a = true ↔ ∃ n ≤ 9, a = Nat.digitChar n :=
    has_digitsUpTo 9 (by decide)
  unfold birthdayExpr
  rw [matches_group_seq, matches_repeated_one_seq]
  simp only [matches_one_seq, matches_group_seq, matches_once_seq, matches_once, matches_one,
    matches_seq_empty, has_any, hone, hthree]
  constructor
  · rintro ⟨year, _, rfl, ⟨hleast, hmost, hyear⟩, p, _, rfl, hp, _, _, rfl, ⟨m, hm, rfl⟩, _, _, rfl,
      hm', q, _, rfl, hq, _, _, rfl, ⟨d, hd, rfl⟩, _, rfl, hd'⟩
    obtain ⟨m', hm', rfl⟩ := (hnine _).1 hm'
    obtain ⟨d', hd', rfl⟩ := (hnine _).1 hd'
    refine ⟨p, q, 10 * m + m', 10 * d + d', hp, hq, by omega, by omega, year, ?_, by omega,
      fun c hc => (has_digitClass c).1 (hyear c hc)⟩
    rw [twoDigits_of_digits m m' (by omega), twoDigits_of_digits d d' (by omega)]
    rfl
  · rintro ⟨p, q, month, day, hp, hq, hmonth, hday, year, rfl, hlen, hyear⟩
    refine ⟨year, _, rfl, ⟨by omega, by omega, fun c hc => (has_digitClass c).2 (hyear c hc)⟩,
      p, _, rfl, hp, _, _, rfl, ⟨month / 10, by omega, rfl⟩, _, _, rfl, ?_, q, _, rfl, hq, _, _, rfl,
      ⟨day / 10, by omega, rfl⟩, _, rfl, ?_⟩
    · exact (hnine _).2 ⟨month % 10, by omega, rfl⟩
    · exact (hnine _).2 ⟨day % 10, by omega, rfl⟩

/-- The birthday pattern accepts what it reads as a date. -/
theorem birthdayValid_iff (textField : UITextField) :
    isTextFieldValid textField birthdayRegex = some true ↔
      ∃ p q month day, ReadAsDate p q month day textField.entered := by
  rw [isTextFieldValid_iff textField birthdayRegex birthdayExpr parse_birthdayRegex,
    matches_birthdayExpr]
  rfl

/-- A text is written in one way only. -/
theorem readAsDate_unique (p q p' q' : Char) (month day month' day' : Nat) (text : String)
    (h : ReadAsDate p q month day text) (h' : ReadAsDate p' q' month' day' text) :
    p = p' ∧ q = q' ∧ month = month' ∧ day = day' := by
  obtain ⟨-, -, hmonth, hday, year, hw, hlen, -⟩ := h
  obtain ⟨-, -, hmonth', hday', year', hw', hlen', -⟩ := h'
  rw [hw] at hw'
  obtain ⟨-, hrest⟩ := List.append_inj hw' (by rw [hlen, hlen'])
  simp only [List.cons.injEq] at hrest
  obtain ⟨hp, hrest⟩ := hrest
  obtain ⟨hm, hrest⟩ := List.append_inj hrest rfl
  simp only [List.cons.injEq] at hrest
  exact ⟨hp, hrest.1, twoDigits_inj month month' (by omega) (by omega) hm,
    twoDigits_inj day day' (by omega) (by omega) hrest.2⟩

/-- A date is read as the date it is. -/
theorem Birthday.readAsDate {text : String} (h : Birthday text) :
    ∃ month day, 1 ≤ month ∧ month ≤ 12 ∧ 1 ≤ day ∧ day ≤ 31 ∧
      ReadAsDate '.' '.' month day text := by
  obtain ⟨month, day, hm, hm', hd, hd', hw⟩ := h
  exact ⟨month, day, hm, hm', hd, hd', by decide, by decide, by omega, by omega, hw⟩

/-- What is misread is no date. -/
theorem Misread.not_birthday {text : String} (h : Misread text) : ¬ Birthday text := by
  intro hdate
  obtain ⟨p, q, month, day, hread, hwrong⟩ := h
  obtain ⟨month', day', hm, hm', hd, hd', hread'⟩ := hdate.readAsDate
  obtain ⟨rfl, rfl, rfl, rfl⟩ := readAsDate_unique p q '.' '.' month day month' day' text hread hread'
  rcases hwrong with hp | hq | hwrong
  · exact hp rfl
  · exact hq rfl
  · omega

/-- **When the birthday validator is right.**  It accepts exactly the dates of the
form 0000.00.00, but for the texts it misreads. -/
theorem birthday_right_iff (textField : UITextField) :
    (isTextFieldValid textField birthdayRegex = some true ↔ Birthday textField.entered) ↔
      ¬ Misread textField.entered := by
  rw [birthdayValid_iff]
  constructor
  · intro h hmis
    have hdate := hmis.not_birthday
    obtain ⟨p, q, month, day, hread, -⟩ := hmis
    exact hdate (h.1 ⟨p, q, month, day, hread⟩)
  · intro hmis
    constructor
    · rintro ⟨p, q, month, day, hread⟩
      by_contra hdate
      refine hmis ⟨p, q, month, day, hread, ?_⟩
      by_contra hright
      simp only [not_or, not_not, Nat.not_lt] at hright
      obtain ⟨rfl, rfl, hm, hm', hd, hd'⟩ := hright
      exact hdate ⟨month, day, by omega, hm', by omega, hd', hread.2.2.2.2⟩
    · intro hdate
      obtain ⟨month, day, -, -, -, -, hread⟩ := hdate.readAsDate
      exact ⟨'.', '.', month, day, hread⟩

/-- `2020/13/00` is taken for a date. -/
theorem birthday_wrong :
    ¬ ∀ textField : UITextField,
      isTextFieldValid textField birthdayRegex = some true ↔ Birthday textField.entered := by
  intro h
  have hread : ReadAsDate '/' '/' 13 0 "2020/13/00" :=
    ⟨by decide, by decide, by decide, by decide, ['2', '0', '2', '0'], by decide +kernel, by decide,
      List.all_eq_true.1 rfl⟩
  have hmis : Misread "2020/13/00" := ⟨'/', '/', 13, 0, hread, Or.inl (by decide)⟩
  exact hmis.not_birthday ((h ⟨"2020/13/00"⟩).1 ((birthdayValid_iff _).2 ⟨'/', '/', 13, 0, hread⟩))

end ProjectSY
