import ProjectSY.Utils.Backend

/-!
# The session: `User.shared` and `UserDefaults.standard`

`User` is the copy of the session in memory, it starts empty at every launch.
`UserDefaults` is the copy on disk.  A key is looked up in the app's own domain
first, then in the other domains of the search list; `set` and `removeObject`
touch the app's own domain only.
-/

namespace ProjectSY

/-! ## `UserDefaults.standard` -/

/-- A property list value.  A number is known by its `stringValue`, which is
what `string(forKey:)` makes of it. -/
inductive DefaultsValue where
  | string (s : String)
  | number (stringValue : String)
  | dictionary (d : Dict)
  | other (id : Nat)
  deriving DecidableEq

structure UserDefaults where
  app : Finmap fun _ : String => DefaultsValue
  others : Finmap fun _ : String => DefaultsValue
  deriving DecidableEq

namespace UserDefaults

/-- `object(forKey:)`. -/
def object (d : UserDefaults) (key : String) : Option DefaultsValue :=
  (d.app.lookup key).or (d.others.lookup key)

/-- `string(forKey:)`. -/
def string (d : UserDefaults) (key : String) : Option String :=
  match d.object key with
  | some (.string s) => some s
  | some (.number stringValue) => some stringValue
  | _ => none

/-- `dictionary(forKey:)`. -/
def dictionary (d : UserDefaults) (key : String) : Option Dict :=
  match d.object key with
  | some (.dictionary data) => some data
  | _ => none

/-- `set(_:forKey:)`. -/
def set (d : UserDefaults) (value : DefaultsValue) (key : String) : UserDefaults :=
  { d with app := d.app.insert key value }

/-- `dictionaryRepresentation()`: every domain of the search list. -/
def dictionaryRepresentation (d : UserDefaults) : Finmap fun _ : String => DefaultsValue :=
  d.app ∪ d.others

/-- The loop of `User.signOut`: `removeObject(forKey:)` for every key of the
representation. -/
def removeAll (d : UserDefaults) : UserDefaults :=
  { d with app := Records.eraseKeys d.app d.dictionaryRepresentation.keys.val }

theorem object_set (d : UserDefaults) (v : DefaultsValue) (key key' : String) :
    (d.set v key).object key' = if key' = key then some v else d.object key' := by
  unfold object set
  simp only [Records.lookup_insert_if]
  by_cases h : key' = key
  · rw [if_pos h, if_pos h]; rfl
  · rw [if_neg h, if_neg h]

@[simp] theorem string_set_string (d : UserDefaults) (s key : String) :
    (d.set (.string s) key).string key = some s := by
  unfold string
  rw [object_set, if_pos rfl]

@[simp] theorem dictionary_set_dictionary (d : UserDefaults) (data : Dict) (key : String) :
    (d.set (.dictionary data) key).dictionary key = some data := by
  unfold dictionary
  rw [object_set, if_pos rfl]

theorem string_set_of_ne (d : UserDefaults) (v : DefaultsValue) (key key' : String)
    (h : key' ≠ key) : (d.set v key).string key' = d.string key' := by
  unfold string
  rw [object_set, if_neg h]

theorem dictionary_set_of_ne (d : UserDefaults) (v : DefaultsValue) (key key' : String)
    (h : key' ≠ key) : (d.set v key).dictionary key' = d.dictionary key' := by
  unfold dictionary
  rw [object_set, if_neg h]

/-- After the loop the app's own domain is empty. -/
theorem removeAll_app (d : UserDefaults) : d.removeAll.app = ∅ := by
  unfold removeAll
  refine Records.eraseKeys_eq_empty _ _ fun k hk => ?_
  show k ∈ d.dictionaryRepresentation.keys
  rw [Finmap.mem_keys, dictionaryRepresentation, Finmap.mem_union]
  exact Or.inl hk

theorem object_removeAll (d : UserDefaults) (key : String) :
    d.removeAll.object key = d.others.lookup key := by
  unfold object
  rw [removeAll_app, Finmap.lookup_empty]
  rfl

end UserDefaults

/-! ## `User.shared` -/

structure User where
  userIdToken : Option String
  connectionToken : Option String
  userData : Option Dict
  deriving DecidableEq

namespace User

/-- `User()`, the value of `User.shared` when the process starts. -/
def init : User := ⟨none, none, none⟩

def setUserIdToken (u : User) (newUserIdToken : String) : User :=
  { u with userIdToken := some newUserIdToken }

def getUserIdToken (u : User) : Option String := u.userIdToken

def setUserData (u : User) (userData : Dict) : User := { u with userData := some userData }

/-- `setSingleUserData`; `none` is the trap of `self.userData![key]` on nil.
The guard lets nil through to the subscript and sends every record to the
`else`, where the one field takes the place of the whole record. -/
def setSingleUserData (u : User) (key : String) (value : AnyValue) : Option User :=
  if u.userData = none then
    match u.userData with
    | some d => some { u with userData := some (d.insert key value) }
    | none => none
  else some { u with userData := some (Finmap.singleton key value) }

def getUserData (u : User) : Option Dict := u.userData

def setConnectionToken (u : User) (newConnectionToken : String) : User :=
  { u with connectionToken := some newConnectionToken }

def getConnectionToken (u : User) : Option String := u.connectionToken

def clean (_ : User) : User := ⟨none, none, none⟩

/-- `signOut`; `GIDSignIn` keeps nothing that the session reads. -/
def signOut (u : User) (d : UserDefaults) : User × UserDefaults := (u.clean, d.removeAll)

/-- `setSingleUserData` never reaches the subscript with a record: it traps when
there is no data and replaces the data when there is. -/
theorem setSingleUserData_eq (u : User) (key : String) (value : AnyValue) :
    u.setSingleUserData key value =
      if u.userData = none then none
      else some { u with userData := some (Finmap.singleton key value) } := by
  unfold setSingleUserData
  by_cases h : u.userData = none
  · rw [if_pos h, if_pos h, h]
  · rw [if_neg h, if_neg h]

end User

/-- The keys the app keeps in `UserDefaults`. -/
def defaultsKeys : List String := ["userIdToken", "userData", "connectionToken"]

/-- Nothing is stored under the app's keys, in any domain. -/
def FreshInstall (d : UserDefaults) : Prop := ∀ key ∈ defaultsKeys, d.object key = none

/-- Nothing is stored in any domain. -/
def UserDefaults.empty : UserDefaults := ⟨∅, ∅⟩

theorem freshInstall_empty : FreshInstall UserDefaults.empty := fun _ _ => rfl

theorem FreshInstall.others {d : UserDefaults} (h : FreshInstall d) :
    ∀ key ∈ defaultsKeys, d.others.lookup key = none := by
  intro key hk
  have := h key hk
  rw [UserDefaults.object, Option.or_eq_none_iff] at this
  exact this.2

theorem string_eq_none (d : UserDefaults) (key : String) (h : d.object key = none) :
    d.string key = none := by
  unfold UserDefaults.string; rw [h]

theorem dictionary_eq_none (d : UserDefaults) (key : String) (h : d.object key = none) :
    d.dictionary key = none := by
  unfold UserDefaults.dictionary; rw [h]

/-- After sign-out nothing is stored under the app's keys. -/
theorem freshInstall_removeAll (d : UserDefaults)
    (h : ∀ key ∈ defaultsKeys, d.others.lookup key = none) : FreshInstall d.removeAll := by
  intro key hk
  rw [UserDefaults.object_removeAll]
  exact h key hk

theorem FreshInstall.string {d : UserDefaults} (h : FreshInstall d) :
    d.string "userIdToken" = none :=
  string_eq_none d _ (h _ (by simp [defaultsKeys]))

theorem FreshInstall.dictionary {d : UserDefaults} (h : FreshInstall d) :
    d.dictionary "userData" = none :=
  dictionary_eq_none d _ (h _ (by simp [defaultsKeys]))

end ProjectSY
