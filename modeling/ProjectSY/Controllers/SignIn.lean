import ProjectSY.Models.User

/-!
# `StartViewController` and `SignInViewController`

`searchUserFromKeychain` loads `User.shared` from `UserDefaults` and says how
far the stored session goes.  `firebaseSignIn` hands a completion to
`Auth.signIn`; this completion stores the user id, starts the fetch of
`users/<uid>` in `checkProfile` and routes on what `checkProfile` returns.  The
fetch is only requested there: its own completion is a `Callback` of its own,
run at some later time.
-/

namespace ProjectSY

/-- The controllers of the two storyboards, and what a controller presents for a
moment: `alert` stands for an alert, an action sheet, an image picker or the
Google sheet, `signOutAlert` for the alert of `backToSignIn`. -/
inductive Screen where
  | start
  | signIn
  | newProfile
  | makeNewConnect
  | mainHome
  | alert
  | signOutAlert
  deriving DecidableEq, Repr

/-- What a `getDocument` completion is given: an error, a snapshot whose
`data()` is nil, or a snapshot with data. -/
inductive FetchResult where
  | error
  | noDocument
  | data (d : Dict)
  deriving DecidableEq

/-- A completion handler that is still to run.  The number in `authSignIn` is
the place of the controller (`self`) in the presentation stack. -/
inductive Callback where
  | googleSignIn
  | authSignIn (uid : String) (controller : Nat)
  | getDocument (uid : String)
  | documentSnapshot (uid : String) (result : FetchResult)
  deriving DecidableEq

/-! ## `StartViewController` -/

inductive SignInStatus where
  | signInSuccess
  | noUserProfile
  | noUserConnection
  | noSignInData
  deriving DecidableEq, Repr

def searchUserFromKeychain (user : User) (defaults : UserDefaults) : SignInStatus × User :=
  match defaults.string "userIdToken" with
  | some idToken =>
    let user := user.setUserIdToken idToken
    match defaults.dictionary "userData" with
    | some userData =>
      let user := user.setUserData userData
      match defaults.string "connectionToken" with
      | some connectionToken => (.signInSuccess, user.setConnectionToken connectionToken)
      | none => (.noUserConnection, user)
    | none => (.noUserProfile, user)
  | none => (.noSignInData, user)

/-- The controller `goToNextStorybaord` presents; every identifier it asks for
is in a storyboard. -/
def SignInStatus.destination : SignInStatus → Screen
  | .signInSuccess => .mainHome
  | .noUserConnection => .makeNewConnect
  | .noUserProfile => .newProfile
  | .noSignInData => .signIn

/-- What `searchUserFromKeychain` leaves in memory is what the two keys hold. -/
theorem searchUserFromKeychain_init (d : UserDefaults) :
    (searchUserFromKeychain User.init d).2.userIdToken = d.string "userIdToken" ∧
    (searchUserFromKeychain User.init d).2.userData =
      if d.string "userIdToken" = none then none else d.dictionary "userData" := by
  unfold searchUserFromKeychain
  cases ht : d.string "userIdToken" with
  | none => exact ⟨rfl, rfl⟩
  | some idToken =>
    cases hd : d.dictionary "userData" with
    | none => exact ⟨rfl, rfl⟩
    | some userData =>
      cases hc : d.string "connectionToken" with
      | none => exact ⟨rfl, rfl⟩
      | some connectionToken => exact ⟨rfl, rfl⟩

theorem searchUserFromKeychain_status (u : User) (d : UserDefaults) :
    ((searchUserFromKeychain u d).1 = .noSignInData ↔ d.string "userIdToken" = none) ∧
    ((searchUserFromKeychain u d).1 = .noUserProfile ↔
      d.string "userIdToken" ≠ none ∧ d.dictionary "userData" = none) := by
  unfold searchUserFromKeychain
  cases ht : d.string "userIdToken" with
  | none => simp
  | some idToken =>
    cases hd : d.dictionary "userData" with
    | none => simp
    | some userData =>
      cases hc : d.string "connectionToken" with
      | none => simp
      | some connectionToken => simp

/-! ## `SignInViewController` -/

/-- `checkProfile` asks for the document and answers from what the session holds
now: the request is still under way. -/
def checkProfile (user : User) (userIdToken : String) : Callback × Bool :=
  (.getDocument userIdToken, if user.getUserData = none then false else true)

/-- The completion `checkProfile` hands to `getDocument`. -/
def getDocumentCompletion (user : User) : FetchResult → User
  | .error => user
  | .noDocument => user
  | .data downloadedData => user.setUserData downloadedData

/-- What the completion of `Auth.signIn` does: the session, the fetch it starts,
what `checkProfile` answered and the controller it presents. -/
structure SignedIn where
  user : User
  defaults : UserDefaults
  fetch : Callback
  hasProfile : Bool
  presents : Option Screen

/-- The completion `firebaseSignIn` hands to `Auth.signIn`, on success. -/
def firebaseSignInCompletion (user : User) (defaults : UserDefaults) (uid : String) : SignedIn :=
  let userIdToken := uid
  let defaults := defaults.set (.string userIdToken) "userIdToken"
  let user := user.setUserIdToken userIdToken
  let (fetch, hasProfile) := checkProfile user userIdToken
  { user := user
    defaults := defaults
    fetch := fetch
    hasProfile := hasProfile
    presents :=
      if hasProfile then
        -- with a connectionToken the branch is empty
        if (user.getUserData.bind fun d => d.lookup "connectionToken") ≠ none then none
        else some .makeNewConnect
      else some .newProfile }

end ProjectSY
