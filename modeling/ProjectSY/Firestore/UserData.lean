import ProjectSY.Firestore.FieldPaths
import ProjectSY.Firestore.Mutations

/-!
# What the app writes (`Source/API/FSTUserDataConverter.mm`, `core/user_data.cc`)

A dictionary becomes an object and a list of field paths, one for every leaf of
the dictionary (`leaves`); `setData` makes a set of the object, or a patch of the
object and the paths when it merges.

`merge_leaves`: whatever was there, a patch of this kind puts every leaf of the
dictionary into the document, and leaves all field paths apart from them alone.
-/

namespace ProjectSY.Firestore

/-- What a dictionary can hold, in the order in which it is enumerated. -/
inductive UserValue where
  /-- Any type but a dictionary and the sentinels of `FieldValue`; of those only `delete` is
  here, the others (`serverTimestamp`, `increment`, the array operations) become transforms. -/
  | scalar (v : AnyValue)
  | delete
  | dictionary (entries : List (String × UserValue))

inductive UserDataSource where
  | set
  | mergeSet
  deriving DecidableEq

/-- What `ThrowInvalidArgument` is called for, with the path of the context. -/
inductive InvalidArgument where
  | emptyField (path : FieldPath)
  | reservedField (path : FieldPath)
  | deleteWithoutMerge (path : FieldPath)
  deriving DecidableEq

def fieldDescription (path : FieldPath) : String :=
  if path = [] then "" else " (found in field " ++ path.canonicalString ++ ")"

def InvalidArgument.message : InvalidArgument → String
  | .emptyField path =>
    "Invalid data. Document fields must not be empty" ++ fieldDescription path
  | .reservedField path =>
    "Invalid data. Document fields cannot begin and end with \"__\"" ++ fieldDescription path
  | .deleteWithoutMerge path =>
    "FieldValue.delete() can only be used with updateData() and setData() with merge:true" ++
      fieldDescription path

def validatePathSegment (path : FieldPath) (segment : String) : Except InvalidArgument Unit :=
  if segment = "" then .error (.emptyField path)
  else if segment.startsWith "__" && segment.endsWith "__" then .error (.reservedField path)
  else .ok ()

abbrev ParsedValue := { v : FieldValue // v.WellFormed }

mutual

/-- The parsed value, `none` for a sentinel, and the paths that go to the mask.  The path is that
of a field, so it is not empty. -/
def parseData (source : UserDataSource) (path : FieldPath) :
    UserValue → Except InvalidArgument (Option ParsedValue × List FieldPath)
  | .scalar v => .ok (some ⟨.value v, .value v⟩, [path])
  | .delete => match source with
    | .mergeSet => .ok (none, [path])
    | .set => .error (.deleteWithoutMerge path)
  | .dictionary entries => do
    let (o, mask) ← parseEntries source path entries ObjectValue.empty
    return (some ⟨.object o.fields, o.wellFormed⟩, if entries.isEmpty then [path] else mask)

/-- The loop of `parseDictionary`. -/
def parseEntries (source : UserDataSource) (path : FieldPath) :
    List (String × UserValue) → ObjectValue → Except InvalidArgument (ObjectValue × List FieldPath)
  | [], result => .ok (result, [])
  | (key, value) :: entries, result => do
    validatePathSegment (path ++ [key]) key
    let (parsed, mask) ← parseData source (path ++ [key]) value
    let result := match parsed with
      | some v => result.set key [] v.1 v.2
      | none => result
    let (result, others) ← parseEntries source path entries result
    return (result, mask ++ others)

end

def parsedSetData (entries : List (String × UserValue)) : Except InvalidArgument ObjectValue := do
  let (value, _) ← parseEntries .set [] entries ObjectValue.empty
  return value

def parsedMergeData (entries : List (String × UserValue)) :
    Except InvalidArgument (ObjectValue × FieldMask) := do
  let (value, paths) ← parseEntries .mergeSet [] entries ObjectValue.empty
  return (value, FieldMask.of paths)

/-- `DocumentReference::SetData`, with what it is given. -/
def setData (key : DocumentKey) (entries : List (String × UserValue)) (merge : Bool) :
    Except InvalidArgument (List Mutation) :=
  if merge then do
    let (value, mask) ← parsedMergeData entries
    return [.patch key value mask .none]
  else do
    let value ← parsedSetData entries
    return [.set key value .none]

def deleteDocument (key : DocumentKey) : List Mutation := [.delete key .none]

/-! ## The leaves of a dictionary -/

mutual

/-- The leaves with their paths; `none` where a field is to be deleted.  An empty dictionary is
a leaf. -/
def leaves : UserValue → List (FieldPath × Option FieldValue)
  | .scalar v => [([], some (.value v))]
  | .delete => [([], none)]
  | .dictionary entries => if entries.isEmpty then [([], some (.object []))] else leavesOf entries

def leavesOf : List (String × UserValue) → List (FieldPath × Option FieldValue)
  | [] => []
  | (key, value) :: entries => (leaves value).map (fun l => (key :: l.1, l.2)) ++ leavesOf entries

end

mutual

/-- A dictionary has each of its keys once, at every depth. -/
def Distinct : UserValue → Prop
  | .scalar _ => True
  | .delete => True
  | .dictionary entries => DistinctEntries entries

def DistinctEntries : List (String × UserValue) → Prop
  | [] => True
  | (key, value) :: entries =>
    (∀ e ∈ entries, e.1 ≠ key) ∧ Distinct value ∧ DistinctEntries entries

end

theorem leavesOf_cons (key : String) (value : UserValue) (entries : List (String × UserValue)) :
    leavesOf ((key, value) :: entries) =
      (leaves value).map (fun l => (key :: l.1, l.2)) ++ leavesOf entries := by
  rw [leavesOf]

/-- A leaf is under the key of an entry. -/
theorem exists_of_mem_leavesOf {entries : List (String × UserValue)}
    {l : FieldPath × Option FieldValue} (h : l ∈ leavesOf entries) :
    ∃ e ∈ entries, ∃ rest, l.1 = e.1 :: rest := by
  induction entries with
  | nil => rw [leavesOf] at h; cases h
  | cons e entries ih =>
    obtain ⟨key, value⟩ := e
    rw [leavesOf_cons] at h
    rcases List.mem_append.1 h with h | h
    · obtain ⟨m, -, rfl⟩ := List.mem_map.1 h
      exact ⟨_, List.mem_cons_self, m.1, rfl⟩
    · obtain ⟨e, he, hl⟩ := ih h
      exact ⟨e, List.mem_cons_of_mem _ he, hl⟩

mutual

theorem leaves_apart : ∀ v : UserValue, Distinct v →
    (leaves v).Pairwise fun l m => FieldValue.Apart l.1 m.1
  | .scalar _, _ => by rw [leaves]; exact List.pairwise_singleton _ _
  | .delete, _ => by rw [leaves]; exact List.pairwise_singleton _ _
  | .dictionary entries, h => by
    rw [leaves]
    split
    · exact List.pairwise_singleton _ _
    · rw [Distinct] at h
      exact leavesOf_apart entries h

theorem leavesOf_apart : ∀ entries : List (String × UserValue), DistinctEntries entries →
    (leavesOf entries).Pairwise fun l m => FieldValue.Apart l.1 m.1
  | [], _ => by rw [leavesOf]; exact List.Pairwise.nil
  | (key, value) :: entries, h => by
    rw [DistinctEntries] at h
    obtain ⟨hkey, hvalue, hentries⟩ := h
    rw [leavesOf_cons, List.pairwise_append]
    refine ⟨?_, leavesOf_apart entries hentries, fun l hl m hm => ?_⟩
    · rw [List.pairwise_map]
      exact (leaves_apart value hvalue).imp fun hlm =>
        FieldValue.apart_cons.2 fun _ => hlm
    · obtain ⟨l', -, rfl⟩ := List.mem_map.1 hl
      obtain ⟨e, he, rest, hm⟩ := exists_of_mem_leavesOf hm
      rw [hm]
      exact FieldValue.apart_cons.2 fun e' => absurd e'.symm (hkey e he)

end

/-! ## Parsing -/

/-- The loop passes a key whose value parses. -/
theorem parseEntries_cons {source : UserDataSource} {path : FieldPath} {key : String}
    {value : UserValue} {entries : List (String × UserValue)} {result o : ObjectValue}
    {mask : List FieldPath}
    (h : parseEntries source path ((key, value) :: entries) result = .ok (o, mask)) :
    ∃ parsed first others, parseData source (path ++ [key]) value = .ok (parsed, first) ∧
      parseEntries source path entries (match parsed with
        | some v => result.set key [] v.1 v.2
        | none => result) = .ok (o, others) ∧ mask = first ++ others := by
  rw [parseEntries] at h
  cases hv : validatePathSegment (path ++ [key]) key with
  | error e => rw [hv] at h; cases h
  | ok _ =>
    cases hp : parseData source (path ++ [key]) value with
    | error e => rw [hv, hp] at h; cases h
    | ok parsed =>
      obtain ⟨parsed, first⟩ := parsed
      rw [hv, hp] at h
      simp only [bind, Except.bind, pure, Except.pure] at h
      split at h
      · cases h
      · next r hr =>
        obtain ⟨o', others⟩ := r
        cases h
        exact ⟨parsed, first, others, rfl, hr, rfl⟩

theorem find_set_entry (result : ObjectValue) (key : String) (parsed : Option ParsedValue)
    (hfree : Tables.find key result.fields = none) (name : String) :
    Tables.find name (match parsed with
      | some v => result.set key [] v.1 v.2
      | none => result : ObjectValue).fields =
        if name = key then parsed.map Subtype.val else Tables.find name result.fields := by
  cases parsed with
  | none =>
    by_cases h : name = key
    · rw [if_pos h, h]
      exact hfree
    · rw [if_neg h]
  | some v =>
    show Tables.find name (Tables.insertRow key v.1 result.fields) = _
    rw [Tables.find_insertRow]
    rfl

mutual

/-- The mask has the paths of the leaves, and under them is what they say. -/
theorem parseData_spec : ∀ (v : UserValue) {source : UserDataSource} {path : FieldPath}
    {parsed : Option ParsedValue} {mask : List FieldPath}, Distinct v →
    parseData source path v = .ok (parsed, mask) →
    mask = (leaves v).map (fun l => path ++ l.1) ∧
      ∀ l ∈ leaves v, (parsed.map Subtype.val).bind (·.get l.1) = l.2
  | .scalar v, source, path, parsed, mask, _, h => by
    rw [parseData] at h
    cases h
    rw [leaves]
    refine ⟨by simp, fun l hl => ?_⟩
    rw [List.mem_singleton.1 hl]
    rfl
  | .delete, source, path, parsed, mask, _, h => by
    cases source with
    | set =>
      rw [parseData] at h
      cases h
    | mergeSet =>
      rw [parseData] at h
      cases h
      rw [leaves]
      refine ⟨by simp, fun l hl => ?_⟩
      rw [List.mem_singleton.1 hl]
      rfl
  | .dictionary entries, source, path, parsed, mask, hd, h => by
    rw [parseData] at h
    cases he : parseEntries source path entries ObjectValue.empty with
    | error e => rw [he] at h; cases h
    | ok r =>
      obtain ⟨o, m⟩ := r
      rw [he] at h
      cases h
      rw [Distinct] at hd
      obtain ⟨hmask, hget, -⟩ :=
        parseEntries_spec entries hd (fun e _ => rfl) he
      rw [leaves]
      cases entries with
      | nil =>
        rw [parseEntries] at he
        cases he
        refine ⟨by simp, fun l hl => ?_⟩
        rw [List.mem_singleton.1 hl]
        rfl
      | cons e entries => exact ⟨hmask, hget⟩

theorem parseEntries_spec : ∀ (entries : List (String × UserValue)) {source : UserDataSource}
    {path : FieldPath} {result o : ObjectValue} {mask : List FieldPath}, DistinctEntries entries →
    (∀ e ∈ entries, Tables.find e.1 result.fields = none) →
    parseEntries source path entries result = .ok (o, mask) →
    mask = (leavesOf entries).map (fun l => path ++ l.1) ∧
      (∀ l ∈ leavesOf entries, o.get l.1 = l.2) ∧
      ∀ name, (∀ e ∈ entries, e.1 ≠ name) →
        Tables.find name o.fields = Tables.find name result.fields
  | [], source, path, result, o, mask, _, _, h => by
    rw [parseEntries] at h
    cases h
    rw [leavesOf]
    exact ⟨rfl, fun l hl => absurd hl List.not_mem_nil, fun _ _ => rfl⟩
  | (key, value) :: entries, source, path, result, o, mask, hd, hfree, h => by
    rw [DistinctEntries] at hd
    obtain ⟨hkey, hvalue, hentries⟩ := hd
    obtain ⟨parsed, first, others, hp, hrest, rfl⟩ := parseEntries_cons h
    have hfind := find_set_entry result key parsed (hfree _ List.mem_cons_self)
    obtain ⟨hfirst, hone⟩ := parseData_spec value hvalue hp
    obtain ⟨hothers, hget, hsame⟩ := parseEntries_spec entries hentries (fun e he => by
      rw [hfind, if_neg (hkey e he)]
      exact hfree e (List.mem_cons_of_mem _ he)) hrest
    refine ⟨?_, fun l hl => ?_, fun name hname => ?_⟩
    · rw [leavesOf_cons, List.map_append, List.map_map, hfirst, hothers]
      congr 1
      refine List.map_congr_left fun l _ => ?_
      simp
    · rw [leavesOf_cons] at hl
      rcases List.mem_append.1 hl with hl | hl
      · obtain ⟨m, hm, rfl⟩ := List.mem_map.1 hl
        show (FieldValue.object o.fields).get (key :: m.1) = m.2
        rw [FieldValue.get_cons, hsame key hkey, hfind, if_pos rfl]
        exact hone m hm
      · exact hget l hl
    · rw [hsame name fun e he => hname e (List.mem_cons_of_mem _ he), hfind,
        if_neg fun e => hname _ List.mem_cons_self e.symm]

end

/-! ## Merging -/

theorem get_patchField_self (value o : ObjectValue) {path : FieldPath} (hne : path ≠ []) :
    (Mutation.patchField value o path).get path = value.get path := by
  cases path with
  | nil => exact absurd rfl hne
  | cons name rest =>
    unfold Mutation.patchField
    simp only
    split
    · next h =>
      rw [h]
      exact FieldValue.get_delete_self rest o.fields name
    · next v h => exact (FieldValue.get_set_self v rest o.fields name).trans h.symm

theorem get_patchField_apart (value o : ObjectValue) {path q : FieldPath}
    (h : FieldValue.Apart path q) : (Mutation.patchField value o path).get q = o.get q := by
  cases path with
  | nil => exact absurd List.nil_prefix h.1
  | cons name rest =>
    unfold Mutation.patchField
    simp only
    split
    · exact FieldValue.get_delete_apart rest o.fields name h
    · exact FieldValue.get_set_apart _ rest o.fields name h

/-- A patch whose paths are apart sets each of them, and nothing else. -/
theorem get_patchFields (value : ObjectValue) (paths : List FieldPath)
    (hne : ∀ p ∈ paths, p ≠ []) (hapart : ∀ p ∈ paths, ∀ q ∈ paths, p ≠ q → FieldValue.Apart p q) :
    ∀ o : ObjectValue,
      (∀ p ∈ paths, (paths.foldl (Mutation.patchField value) o).get p = value.get p) ∧
      ∀ q, (∀ p ∈ paths, FieldValue.Apart p q) →
        (paths.foldl (Mutation.patchField value) o).get q = o.get q := by
  induction paths with
  | nil => exact fun o => ⟨fun p hp => absurd hp List.not_mem_nil, fun q _ => rfl⟩
  | cons first paths ih =>
    intro o
    obtain ⟨hset, hkeep⟩ := ih (fun p hp => hne p (List.mem_cons_of_mem _ hp))
      (fun p hp q hq => hapart p (List.mem_cons_of_mem _ hp) q (List.mem_cons_of_mem _ hq))
      (Mutation.patchField value o first)
    rw [List.foldl_cons]
    refine ⟨fun p hp => ?_, fun q hq => ?_⟩
    · by_cases hmem : p ∈ paths
      · exact hset p hmem
      · -- it is the first one, and the others are apart from it
        have hp : p = first := (List.mem_cons.1 hp).resolve_right hmem
        subst hp
        rw [hkeep p fun q hq => hapart q (List.mem_cons_of_mem _ hq) p List.mem_cons_self
          fun e => hmem (e ▸ hq)]
        exact get_patchField_self value o (hne p List.mem_cons_self)
    · rw [hkeep q fun p hp => hq p (List.mem_cons_of_mem _ hp)]
      exact get_patchField_apart value o (hq first List.mem_cons_self)

/-- **What merging does.**  The patch that `setData(merge: true)` makes puts every leaf of the
dictionary into the document, whatever was there, and a field path apart from the leaves leads to
what it led to. -/
theorem merge_leaves {entries : List (String × UserValue)} (hd : DistinctEntries entries)
    {value : ObjectValue} {mask : FieldMask} (h : parsedMergeData entries = .ok (value, mask))
    (doc : Option MaybeDocument) :
    (∀ l ∈ leavesOf entries, (Mutation.patchDocument value mask doc).get l.1 = l.2) ∧
    ∀ q, (∀ l ∈ leavesOf entries, FieldValue.Apart l.1 q) →
      (Mutation.patchDocument value mask doc).get q =
        ((dataOf doc).getD ObjectValue.empty).get q := by
  unfold parsedMergeData at h
  cases he : parseEntries .mergeSet [] entries ObjectValue.empty with
  | error e => rw [he] at h; cases h
  | ok r =>
    obtain ⟨o, paths⟩ := r
    rw [he] at h
    cases h
    obtain ⟨hpaths, hget, -⟩ := parseEntries_spec entries hd (fun e _ => rfl) he
    have hpaths : paths = (leavesOf entries).map Prod.fst := by rw [hpaths]; rfl
    have hmem : ∀ p, p ∈ (FieldMask.of paths).paths ↔ ∃ l ∈ leavesOf entries, l.1 = p := by
      intro p
      rw [FieldMask.mem_paths_of, hpaths, List.mem_map]
    have hne : ∀ p ∈ (FieldMask.of paths).paths, p ≠ [] := by
      intro p hp
      obtain ⟨l, hl, rfl⟩ := (hmem p).1 hp
      obtain ⟨e, -, rest, hl⟩ := exists_of_mem_leavesOf hl
      rw [hl]
      exact List.cons_ne_nil _ _
    have hapart : ∀ p ∈ (FieldMask.of paths).paths, ∀ q ∈ (FieldMask.of paths).paths, p ≠ q →
        FieldValue.Apart p q := by
      intro p hp q hq hpq
      obtain ⟨l, hl, rfl⟩ := (hmem p).1 hp
      obtain ⟨m, hm, rfl⟩ := (hmem q).1 hq
      have : Std.Symm fun l m : FieldPath × Option FieldValue => FieldValue.Apart l.1 m.1 :=
        ⟨fun _ _ h => h.symm⟩
      exact (leavesOf_apart entries hd).forall hl hm fun e => hpq (e ▸ rfl)
    obtain ⟨hset, hkeep⟩ := get_patchFields value (FieldMask.of paths).paths hne hapart
      ((dataOf doc).getD ObjectValue.empty)
    refine ⟨fun l hl => ?_, fun q hq => hkeep q fun p hp => ?_⟩
    · rw [← hget l hl]
      exact hset l.1 ((hmem l.1).2 ⟨l, hl, rfl⟩)
    · obtain ⟨l, hl, rfl⟩ := (hmem p).1 hp
      exact hq l hl

/-- A field in a field, a field of it that is to go, and an empty dictionary. -/
def movedHouse : List (String × UserValue) :=
  [("name", .scalar (.string "A")),
    ("address", .dictionary [("city", .scalar (.string "Seoul")), ("street", .delete)]),
    ("tags", .dictionary [])]

theorem merge_leaves_movedHouse :
    ∃ value mask, parsedMergeData movedHouse = .ok (value, mask) ∧
      ∀ doc, (Mutation.patchDocument value mask doc).get ["address", "street"] = none ∧
        (Mutation.patchDocument value mask doc).get ["address", "zip"] =
          ((dataOf doc).getD ObjectValue.empty).get ["address", "zip"] := by
  have hok : (parsedMergeData movedHouse).toOption.isSome = true := by decide +kernel
  have hd : DistinctEntries movedHouse := by simp [movedHouse, DistinctEntries, Distinct]
  cases h : parsedMergeData movedHouse with
  | error e => rw [h] at hok; cases hok
  | ok r =>
    obtain ⟨value, mask⟩ := r
    refine ⟨value, mask, rfl, fun doc => ?_⟩
    obtain ⟨hset, hkeep⟩ := merge_leaves hd h doc
    refine ⟨hset (["address", "street"], none) ?_, hkeep _ fun l hl => ?_⟩
    · simp [movedHouse, leavesOf, leaves]
    · simp [movedHouse, leavesOf, leaves] at hl
      rcases hl with rfl | rfl | rfl | rfl <;> decide

end ProjectSY.Firestore
