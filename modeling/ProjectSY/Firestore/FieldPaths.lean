import ProjectSY.Firestore.Values

/-!
# Field paths as strings (`model/field_path.cc`)

The mask of a patch goes to the disk and to the server as strings: the segments
joined by dots, and a segment that is no identifier between backticks, with its
backticks and backslashes escaped.

`fromServerFormat_canonicalString`: a path is read back from its string unless a
segment is empty or has a null character, at which the reader stops.
-/

namespace ProjectSY.Firestore

namespace FieldPath

def backtick : Char := Char.ofNat 96

def backslash : Char := Char.ofNat 92

def null : Char := Char.ofNat 0

def isIdentifierStart (c : Char) : Bool := c = '_' || c.isAlpha

def isValidIdentifier : List Char → Bool
  | [] => false
  | first :: rest => isIdentifierStart first && rest.all fun c => isIdentifierStart c || c.isDigit

/-- `StrReplaceAll` of backslashes and backticks. -/
def escape (segment : List Char) : List Char :=
  segment.flatMap fun c => if c = backslash ∨ c = backtick then [backslash, c] else [c]

def escapedSegment (segment : List Char) : List Char :=
  if isValidIdentifier (escape segment) then escape segment
  else backtick :: escape segment ++ [backtick]

def canonicalString (path : FieldPath) : String :=
  String.ofList ((path.map fun segment => escapedSegment segment.toList).intersperse ['.']).flatten

/-- `finish_segment`, and the assertion that no backtick is left open. -/
def finish (segments : List String) (segment : List Char) (insideBackticks : Bool) :
    Option FieldPath :=
  if segment = [] ∨ insideBackticks then none else some (segments ++ [String.ofList segment])

/-- The loop of `FromServerFormat`; `none` where an assertion fails. -/
def readSegments (segments : List String) (segment : List Char) (insideBackticks : Bool) :
    List Char → Option FieldPath
  | [] => finish segments segment insideBackticks
  | c :: rest =>
    if c = null then finish segments segment insideBackticks
    else if c = '.' ∧ !insideBackticks then
      if segment = [] then none
      else readSegments (segments ++ [String.ofList segment]) [] insideBackticks rest
    else if c = backtick then readSegments segments segment (!insideBackticks) rest
    else if c = backslash then
      match rest with
      | [] => none
      | escaped :: rest => readSegments segments (segment ++ [escaped]) insideBackticks rest
    else readSegments segments (segment ++ [c]) insideBackticks rest

def fromServerFormat (path : String) : Option FieldPath := readSegments [] [] false path.toList

/-! ## Reading back what was written -/

section Step

variable (segments : List String) (segment rest : List Char) (inside : Bool)

theorem readSegments_null :
    readSegments segments segment inside (null :: rest) = finish segments segment inside := by
  rw [readSegments.eq_def]
  exact if_pos rfl

theorem readSegments_dot (h : segment ≠ []) :
    readSegments segments segment false ('.' :: rest) =
      readSegments (segments ++ [String.ofList segment]) [] false rest := by
  rw [readSegments.eq_def]
  simp only
  rw [if_neg (by decide), if_pos (by decide), if_neg h]

theorem readSegments_dot_empty : readSegments segments [] false ('.' :: rest) = none := by
  rw [readSegments.eq_def]
  simp only
  rw [if_neg (by decide), if_pos (by decide), if_pos trivial]

theorem readSegments_backtick :
    readSegments segments segment inside (backtick :: rest) =
      readSegments segments segment (!inside) rest := by
  rw [readSegments.eq_def]
  simp only
  rw [if_neg (by decide), if_neg fun h => absurd h.1 (by decide), if_pos trivial]

theorem readSegments_backslash (c : Char) :
    readSegments segments segment inside (backslash :: c :: rest) =
      readSegments segments (segment ++ [c]) inside rest := by
  rw [readSegments.eq_def]
  simp only
  rw [if_neg (by decide), if_neg fun h => absurd h.1 (by decide), if_neg (by decide),
    if_pos trivial]

theorem readSegments_other {c : Char} (hnull : c ≠ null) (hdot : c = '.' → inside = true)
    (htick : c ≠ backtick) (hslash : c ≠ backslash) :
    readSegments segments segment inside (c :: rest) =
      readSegments segments (segment ++ [c]) inside rest := by
  rw [readSegments.eq_def]
  simp only
  rw [if_neg hnull, if_neg fun h => by simp [hdot h.1] at h, if_neg htick, if_neg hslash]

end Step

theorem identifier_plain {c : Char} (h : (isIdentifierStart c || c.isDigit) = true) :
    c ≠ null ∧ c ≠ '.' ∧ c ≠ backtick ∧ c ≠ backslash := by
  refine ⟨?_, ?_, ?_, ?_⟩
  · rintro rfl
    exact absurd h (by decide)
  · rintro rfl
    exact absurd h (by decide)
  · rintro rfl
    exact absurd h (by decide)
  · rintro rfl
    exact absurd h (by decide)

theorem identifier_chars {segment : List Char} (h : isValidIdentifier segment = true) :
    segment ≠ [] ∧ ∀ c ∈ segment, (isIdentifierStart c || c.isDigit) = true := by
  cases segment with
  | nil => exact absurd h (by decide)
  | cons first rest =>
    obtain ⟨hfirst, hrest⟩ := Bool.and_eq_true_iff.1 h
    refine ⟨List.cons_ne_nil _ _, fun c hc => ?_⟩
    rcases List.mem_cons.1 hc with rfl | hc
    · simp [hfirst]
    · exact List.all_eq_true.1 hrest c hc

/-- Only what needs no escaping is an identifier once it is escaped. -/
theorem escape_identifier {segment : List Char} (h : isValidIdentifier (escape segment) = true) :
    escape segment = segment := by
  obtain ⟨-, hchars⟩ := identifier_chars h
  have hplain : ∀ c ∈ segment, ¬ (c = backslash ∨ c = backtick) := by
    intro c hc hspecial
    have hmem : backslash ∈ escape segment := by
      refine List.mem_flatMap.2 ⟨c, hc, ?_⟩
      rw [if_pos hspecial]
      exact List.mem_cons_self
    exact (identifier_plain (hchars _ hmem)).2.2.2 rfl
  unfold escape
  clear h hchars
  induction segment with
  | nil => rfl
  | cons c rest ih =>
    rw [List.flatMap_cons, if_neg (hplain c List.mem_cons_self),
      ih fun c' hc' => hplain c' (List.mem_cons_of_mem c hc')]
    rfl

/-- Inside of backticks an escaped segment is read as it was, up to a null character. -/
theorem readSegments_escape (segments : List String) (text rest : List Char)
    (h : null ∉ text) : ∀ segment : List Char,
      readSegments segments segment true (escape text ++ rest) =
        readSegments segments (segment ++ text) true rest := by
  induction text with
  | nil => intro segment; simp [escape]
  | cons c text ih =>
    intro segment
    have hnull : c ≠ null := fun e => h (e ▸ List.mem_cons_self)
    have htext : null ∉ text := fun hm => h (List.mem_cons_of_mem c hm)
    unfold escape at ih ⊢
    rw [List.flatMap_cons, List.append_assoc]
    by_cases hspecial : c = backslash ∨ c = backtick
    · rw [if_pos hspecial, List.cons_append, List.singleton_append, readSegments_backslash,
        ih htext, List.append_assoc, List.singleton_append]
    · obtain ⟨hslash, htick⟩ := not_or.1 hspecial
      rw [if_neg hspecial, List.singleton_append,
        readSegments_other segments segment _ true hnull (fun _ => rfl) htick hslash, ih htext,
        List.append_assoc, List.singleton_append]

/-- A null character is the end of the string, and the backtick stays open. -/
theorem readSegments_escape_null (segments : List String) (text rest : List Char)
    (h : null ∈ text) : ∀ segment : List Char,
      readSegments segments segment true (escape text ++ rest) = none := by
  induction text with
  | nil => cases h
  | cons c text ih =>
    intro segment
    unfold escape at ih ⊢
    rw [List.flatMap_cons, List.append_assoc]
    by_cases hspecial : c = backslash ∨ c = backtick
    · have htext : null ∈ text := by
        rcases List.mem_cons.1 h with rfl | h
        · exact absurd hspecial (by decide)
        · exact h
      rw [if_pos hspecial, List.cons_append, List.singleton_append, readSegments_backslash,
        ih htext]
    · obtain ⟨hslash, htick⟩ := not_or.1 hspecial
      rw [if_neg hspecial, List.singleton_append]
      by_cases hnull : c = null
      · rw [hnull, readSegments_null]
        simp [finish]
      · have htext : null ∈ text := by
          rcases List.mem_cons.1 h with rfl | h
          · exact absurd rfl hnull
          · exact h
        rw [readSegments_other segments segment _ true hnull (fun _ => rfl) htick hslash, ih htext]

theorem readSegments_plain (segments : List String) (text rest : List Char)
    (h : ∀ c ∈ text, (isIdentifierStart c || c.isDigit) = true) : ∀ segment : List Char,
      readSegments segments segment false (text ++ rest) =
        readSegments segments (segment ++ text) false rest := by
  induction text with
  | nil => intro segment; simp
  | cons c text ih =>
    intro segment
    obtain ⟨hnull, hdot, htick, hslash⟩ := identifier_plain (h c List.mem_cons_self)
    rw [List.cons_append,
      readSegments_other segments segment _ false hnull (fun e => absurd e hdot) htick hslash,
      ih fun c' hc' => h c' (List.mem_cons_of_mem c hc'), List.append_assoc, List.singleton_append]

/-- A segment without null characters is read back. -/
theorem readSegments_segment (segments : List String) {text : List Char} (h : null ∉ text)
    (rest : List Char) :
    readSegments segments [] false (escapedSegment text ++ rest) =
      readSegments segments text false rest := by
  unfold escapedSegment
  by_cases hid : isValidIdentifier (escape text) = true
  · rw [if_pos hid]
    have hsame := escape_identifier hid
    rw [hsame] at hid ⊢
    rw [readSegments_plain segments text rest (identifier_chars hid).2, List.nil_append]
  · rw [if_neg hid, List.append_assoc, List.cons_append, readSegments_backtick, Bool.not_false,
      readSegments_escape segments text _ h, List.nil_append, List.singleton_append,
      readSegments_backtick, Bool.not_true]

theorem readSegments_segment_null (segments : List String) {text : List Char} (h : null ∈ text)
    (rest : List Char) :
    readSegments segments [] false (escapedSegment text ++ rest) = none := by
  have hid : ¬ isValidIdentifier (escape text) = true := by
    intro hid
    have hsame := escape_identifier hid
    rw [hsame] at hid
    exact (identifier_plain ((identifier_chars hid).2 null h)).1 rfl
  unfold escapedSegment
  rw [if_neg hid, List.append_assoc, List.cons_append, readSegments_backtick, Bool.not_false,
    readSegments_escape_null segments text _ h]

/-- The segments are not empty and have no null characters. -/
def Storable (path : FieldPath) : Prop :=
  path ≠ [] ∧ ∀ segment ∈ path, segment ≠ "" ∧ null ∉ segment.toList

instance (path : FieldPath) : Decidable path.Storable := inferInstanceAs (Decidable (_ ∧ _))

theorem readSegments_path (path : FieldPath) : ∀ segments : List String, path ≠ [] →
    readSegments segments [] false
        ((path.map fun segment => escapedSegment segment.toList).intersperse ['.']).flatten =
      if path.Storable then some (segments ++ path) else none := by
  induction path with
  | nil => intro segments h; exact absurd rfl h
  | cons segment path ih =>
    intro segments _
    have hstorable : Storable (segment :: path) ↔
        (segment ≠ "" ∧ null ∉ segment.toList) ∧ ∀ s ∈ path, s ≠ "" ∧ null ∉ s.toList := by
      simp [Storable]
    by_cases hnull : null ∈ segment.toList
    · rw [if_neg fun h => (hstorable.1 h).1.2 hnull]
      cases path with
      | nil =>
        have := readSegments_segment_null segments hnull []
        simpa using this
      | cons next path =>
        rw [List.map_cons, List.map_cons, List.intersperse_cons_cons, List.flatten_cons]
        exact readSegments_segment_null segments hnull _
    · cases path with
      | nil =>
        have hread := readSegments_segment segments hnull []
        simp only [List.append_nil] at hread
        rw [List.map_cons, List.map_nil, List.intersperse_singleton, List.flatten_singleton, hread]
        show finish segments segment.toList false = _
        unfold finish
        by_cases he : segment = ""
        · rw [if_neg fun h => (hstorable.1 h).1.1 he, if_pos (by simp [he])]
        · have hne : segment.toList ≠ [] := fun e => he (by simpa using e)
          rw [if_neg (by simp [hne]), if_pos (hstorable.2 ⟨⟨he, hnull⟩, by simp⟩)]
          simp
      | cons next path =>
        rw [List.map_cons, List.map_cons, List.intersperse_cons_cons, List.flatten_cons,
          readSegments_segment segments hnull, List.flatten_cons, List.singleton_append]
        by_cases he : segment = ""
        · rw [if_neg fun h => (hstorable.1 h).1.1 he, he]
          exact readSegments_dot_empty segments _
        · have hne : segment.toList ≠ [] := fun e => he (by simpa using e)
          have hrest := ih (segments ++ [String.ofList segment.toList]) (List.cons_ne_nil _ _)
          rw [List.map_cons] at hrest
          rw [readSegments_dot segments _ _ hne, hrest]
          have hiff : Storable (next :: path) ↔ Storable (segment :: next :: path) := by
            rw [hstorable]
            simp [Storable, he, hnull]
          by_cases hs : Storable (next :: path)
          · rw [if_pos hs, if_pos (hiff.1 hs)]
            simp
          · rw [if_neg hs, if_neg fun h => hs (hiff.2 h)]

theorem readSegments_canonicalString (path : FieldPath) :
    readSegments [] [] false (canonicalString path).toList =
      if path.Storable then some path else none := by
  unfold canonicalString
  rw [String.toList_ofList]
  by_cases hne : path = []
  · subst hne
    rfl
  · rw [readSegments_path path [] hne, List.nil_append]

/-- **A path is read back from its string**, exactly when it can be stored. -/
theorem fromServerFormat_canonicalString (path : FieldPath) :
    fromServerFormat (canonicalString path) = if path.Storable then some path else none :=
  readSegments_canonicalString path

example : fromServerFormat (canonicalString ["a b.c", "`"]) = some ["a b.c", "`"] := by
  decide +kernel

end FieldPath

end ProjectSY.Firestore
