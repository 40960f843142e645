import ProjectSY.Models.User

/-!
# `makeNewConnectViewController`

`getConnectionCode` draws a number, writes it with six digits, deletes the code
it remembers, sets `connection/<code>` to the sender, merges the code into
`users/<uid>` and sets it in `User.shared`.  The three writes are issued in this
order and nothing waits for them.
-/

namespace ProjectSY

/-! ## The code -/

/-- `while temp > 0 { temp /= 10; digit += 1 }`, run at most `fuel` times. -/
def digitLoop : Nat → Nat → Nat → Nat
  | 0, _, digit => digit
  | fuel + 1, temp, digit => if temp > 0 then digitLoop fuel (temp / 10) (digit + 1) else digit

/-- `digit` after the loop; `randomNum` turns are enough, since `temp` falls in
every turn. -/
def digitCount (randomNum : Nat) : Nat := digitLoop randomNum randomNum 0

/-- `for _ in 0...k-1 { labeltext += "0" }`. -/
def padLoop : Nat → String → String
  | 0, labeltext => labeltext
  | k + 1, labeltext => padLoop k (labeltext ++ "0")

/-- `labeltext`, the connection code made of `randomNum`. -/
def connectionCode (randomNum : Nat) : String :=
  let digit : Int := digitCount randomNum
  let labeltext := if 6 - digit - 1 ≥ 0 then padLoop (6 - digit - 1 + 1).toNat "" else ""
  labeltext ++ toString randomNum

/-- With enough turns the loop counts the decimal digits of `temp`, and none for 0. -/
theorem digitLoop_eq (fuel temp digit : Nat) (h : temp ≤ fuel) :
    digitLoop fuel temp digit =
      digit + if temp = 0 then 0 else (Nat.toDigits 10 temp).length := by
  induction fuel generalizing temp digit with
  | zero =>
    rw [if_pos (Nat.le_zero.1 h)]
    rfl
  | succ fuel ih =>
    unfold digitLoop
    by_cases h0 : temp = 0
    · rw [if_neg (by omega), if_pos h0]
      rfl
    · rw [if_pos (by omega), ih (temp / 10) (digit + 1) (by omega), if_neg h0,
        Nat.toDigits_eq_if (by omega) (n := temp)]
      by_cases h10 : temp < 10
      · rw [if_pos (by omega), if_pos h10]
        rfl
      · rw [if_neg (by omega), if_neg h10, List.length_append, List.length_singleton]
        omega

theorem toList_padLoop (k : Nat) (t : String) :
    (padLoop k t).toList = t.toList ++ List.replicate k '0' := by
  induction k generalizing t with
  | zero => simp [padLoop]
  | succ k ih =>
    rw [padLoop, ih, String.toList_append, List.append_assoc, List.replicate_succ]
    rfl

/-- The code is the decimal rendering of the number, with zeros before it up to six
digits as `digitCount` has them. -/
theorem toList_connectionCode (n : Nat) :
    (connectionCode n).toList =
      List.replicate (6 - digitCount n) '0' ++ Nat.toDigits 10 n := by
  have hn : (toString n).toList = Nat.toDigits 10 n := Nat.toList_repr
  unfold connectionCode
  simp only [String.toList_append, hn]
  split
  · rw [toList_padLoop, show (6 - (digitCount n : Int) - 1 + 1).toNat = 6 - digitCount n by omega]
    rfl
  · rw [show 6 - digitCount n = 0 by omega]
    rfl

/-- Read as a decimal number the code is the number drawn. -/
theorem ofDigitChars_connectionCode (n : Nat) :
    Nat.ofDigitChars 10 (connectionCode n).toList 0 = n := by
  rw [toList_connectionCode, Nat.ofDigitChars_append, Nat.ofDigitChars_replicate_zero, Nat.mul_zero,
    Nat.ofDigitChars_ten_toDigits]

theorem connectionCode_injective (n m : Nat) (h : connectionCode n = connectionCode m) : n = m := by
  rw [← ofDigitChars_connectionCode n, h, ofDigitChars_connectionCode]

/-! ## `getConnectionCode` -/

/-- `["sender": userIdToken]`. -/
def senderData (userIdToken : String) : Dict := Finmap.singleton "sender" (.string userIdToken)

/-- `["connectionCode": labeltext]`. -/
def codeData (labeltext : String) : Dict :=
  Finmap.singleton "connectionCode" (.string labeltext)

/-- The code the session remembers: `User.shared.getUserData()?["connectionCode"] as? String`. -/
def lastConnectionCode (user : User) : Option String :=
  user.getUserData.bind fun d => stringField d "connectionCode"

/-- The deletion of the remembered code, if there is one. -/
def removeLastCode (user : User) : List Write :=
  match lastConnectionCode user with
  | some lastConnectionCode => [AppDB.removeData "connection" lastConnectionCode]
  | none => []

/-- The writes that were issued and the session afterwards; no session when a
forced unwrap trapped on the way. -/
def getConnectionCode (user : User) (randomNum : Nat) : List Write × Option User :=
  let labeltext := connectionCode randomNum
  -- delete last connectionCode
  let removed := removeLastCode user
  match user.getUserIdToken with
  | none => (removed, none)
  | some userIdToken =>
    -- server side, then local side
    (removed ++ [AppDB.addData "connection" labeltext (senderData userIdToken),
        AppDB.addSingleData "users" userIdToken (codeData labeltext)],
      user.setSingleUserData "connectionCode" (.string labeltext))

/-- The writes of a signed-in user who asks for a code. -/
def codeWrites (user : User) (uid labeltext : String) : List Write :=
  removeLastCode user ++ [AppDB.addData "connection" labeltext (senderData uid),
    AppDB.addSingleData "users" uid (codeData labeltext)]

theorem mem_codeWrites (user : User) (uid labeltext : String) (w : Write) :
    w ∈ codeWrites user uid labeltext ↔
      (∃ last, lastConnectionCode user = some last ∧ w = .delete "connection" last) ∨
      w = .setData "connection" labeltext (senderData uid) ∨
      w = .mergeData "users" uid (codeData labeltext) := by
  unfold codeWrites removeLastCode AppDB.removeData AppDB.addData AppDB.addSingleData
  rw [List.mem_append]
  cases lastConnectionCode user with
  | none => simp
  | some last => simp

theorem getConnectionCode_writes (user : User) (n : Nat) (uid : String)
    (h : user.userIdToken = some uid) :
    (getConnectionCode user n).1 = codeWrites user uid (connectionCode n) := by
  unfold getConnectionCode User.getUserIdToken
  rw [h]; rfl

/-- With a user id and data no forced unwrap traps, and the session keeps
nothing of its data but the new code. -/
theorem getConnectionCode_user (user : User) (n : Nat) (ht : user.userIdToken ≠ none)
    (hd : user.userData ≠ none) :
    (getConnectionCode user n).2 =
      some { user with userData := some (codeData (connectionCode n)) } := by
  obtain ⟨uid, huid⟩ := Option.ne_none_iff_exists'.1 ht
  unfold getConnectionCode User.getUserIdToken
  rw [huid]
  show user.setSingleUserData _ _ = _
  rw [User.setSingleUserData_eq, if_neg hd, ← huid]
  rfl

/-- A forced unwrap traps exactly when there is no user id or no data. -/
theorem getConnectionCode_trap (user : User) (n : Nat) :
    (getConnectionCode user n).2 = none ↔ user.userIdToken = none ∨ user.userData = none := by
  unfold getConnectionCode User.getUserIdToken
  cases ht : user.userIdToken with
  | none => simp
  | some uid =>
    show user.setSingleUserData _ _ = none ↔ _
    rw [User.setSingleUserData_eq]
    by_cases hd : user.userData = none
    · simp [hd]
    · simp [hd]

theorem lookup_codeData (code key : String) :
    (codeData code).lookup key = if key = "connectionCode" then some (.string code) else none :=
  Records.lookup_singleton_if _ _ _

theorem stringField_senderData (uid : String) : stringField (senderData uid) "sender" = some uid :=
  stringField_singleton _ _

theorem stringField_codeData (code : String) :
    stringField (codeData code) "connectionCode" = some code :=
  stringField_singleton _ _

/-- After the call the session remembers the new code. -/
theorem lastConnectionCode_of_codeData (user : User) (code : String)
    (h : user.userData = some (codeData code)) : lastConnectionCode user = some code := by
  unfold lastConnectionCode User.getUserData
  rw [h]
  exact stringField_codeData code

end ProjectSY
