import ProjectSY.Lib.Regex
import Mathlib.Data.Nat.Digits.Defs

/-!
# Patterns

How a pattern is read, for the part of the ICU syntax that has

    x          the character itself
    .          any character but a line terminator
    ^          the start of the text
    [ab0-9]    a set: single characters and ranges; `|`, `.` and `^` inside it are
               characters like any other
    (r)        a group
    r{n} r{n,m}

`parse` gives `none` for a pattern that ICU refuses, and for one with anything else
in it.
-/

namespace Regex

/-! ## Classes of characters -/

inductive SetItem where
  | char (c : Char)
  | range (lo hi : Char)
  deriving DecidableEq, Repr

inductive CharClass where
  | char (c : Char)
  | any
  | set (items : List SetItem)
  deriving DecidableEq, Repr

def SetItem.has : SetItem → Char → Bool
  | .char c, a => a = c
  | .range lo hi, a => lo ≤ a && a ≤ hi

/-- What ends a line: `.` does not match it. -/
def lineTerminators : List Char :=
  ['\n', '\x0b', '\x0c', '\r', '\u0085', '\u2028', '\u2029']

def CharClass.has : CharClass → Char → Bool
  | .char c, a => a = c
  | .any, a => a ∉ lineTerminators
  | .set items, a => items.any fun item => item.has a

/-- The range of a set that stands for the digits. -/
theorem has_digits (a : Char) : (CharClass.set [.range '0' '9']).has a = a.isDigit := by
  show ((decide ('0' ≤ a) && decide (a ≤ '9')) || false) = _
  rw [Bool.or_false]
  rfl

/-! ## Reading a pattern -/

/-- The digits at the front, as a number. -/
def number (cs : List Char) : Option (Nat × List Char) :=
  match cs.takeWhile Char.isDigit with
  | [] => none
  | digits => some (Nat.ofDigitChars 10 digits 0, cs.dropWhile Char.isDigit)

/-- What follows a brace: the least count, and how many more there can be. -/
def counts (cs : List Char) : Option (Nat × Nat × List Char) :=
  match number cs with
  | some (n, '}' :: cs) => some (n, 0, cs)
  | some (n, ',' :: cs) =>
    match number cs with
    | some (m, '}' :: cs) => if n ≤ m then some (n, m - n, cs) else none
    | _ => none
  | _ => none

/-- What has a meaning of its own inside a set. -/
def setSyntax : List Char := ['[', '\\', '-', '&', ']']

/-- The items of a set and what follows its closing bracket. -/
def setItems : List Char → Option (List SetItem × List Char)
  | [] => none
  | ']' :: cs => some ([], cs)
  | lo :: '-' :: hi :: cs =>
    if lo ∈ setSyntax ∨ hi ∈ setSyntax ∨ hi < lo then none
    else (setItems cs).map fun (items, cs) => (.range lo hi :: items, cs)
  | c :: cs =>
    if c ∈ setSyntax then none
    else (setItems cs).map fun (items, cs) => (.char c :: items, cs)

/-- What has a meaning of its own outside a set. -/
def metacharacters : List Char :=
  ['*', '?', '+', '[', '(', ')', '{', '}', '^', '$', '|', '\\', '.', ']']

/-- One character, set or group; `group` reads what stands between parentheses. -/
def atom (group : List Char → Option (Expr CharClass × List Char)) :
    List Char → Option (Expr CharClass × List Char)
  | '^' :: cs => some (.start, cs)
  | '.' :: cs => some (.one .any, cs)
  | '[' :: cs =>
    -- a set that starts so is negated, a named one, or has a bracket in it
    if cs.head? ∈ [some '^', some ':', some ']'] then none
    else (setItems cs).map fun (items, cs) => (.one (.set items), cs)
  | '(' :: cs =>
    match group cs with
    | some (r, ')' :: cs) => some (r, cs)
    | _ => none
  | c :: cs => if c ∈ metacharacters then none else some (.one (.char c), cs)
  | [] => none

/-- The count after an atom, if there is one. -/
def quantified (r : Expr CharClass) : List Char → Option (Expr CharClass × List Char)
  | '{' :: cs => (counts cs).map fun (least, extra, cs) => (.repeated r least extra, cs)
  | cs => some (r, cs)

/-- Atoms up to a closing parenthesis or the end; every atom takes one of `fuel`. -/
def sequence : Nat → List Char → Option (Expr CharClass × List Char)
  | _, [] => some (.empty, [])
  | _, ')' :: cs => some (.empty, ')' :: cs)
  | 0, _ => none
  | fuel + 1, cs => do
    let (r, cs) ← atom (sequence fuel) cs
    let (r, cs) ← quantified r cs
    let (s, cs) ← sequence fuel cs
    return (.seq r s, cs)

def parse (pattern : String) : Option (Expr CharClass) :=
  match sequence pattern.length pattern.toList with
  | some (r, []) => some r
  | _ => none

end Regex
