import ProjectSY.Controllers.SignIn
import ProjectSY.Controllers.NewProfile
import ProjectSY.Controllers.MakeNewConnect
import ProjectSY.Lib.Runs

/-!
# One device and the backend

The state is the session in memory and on disk, the presentation stack, the
completion handlers that are still to run, the uploads under way, what Firebase keeps
on the device, and the server.  An event is a tap on the frontmost controller, a
completion handler being run, a write or an upload being taken or refused, or the
process being killed and launched again.

Assumed of the platform:

* a completion handler runs at some later time, in any order with the others;
* a fetch is answered between the request and the completion, by the server or, while
  the device is offline, from the documents Firestore has kept; the answer shows any
  number of the pending writes of the user Firebase is signed in as;
* only the frontmost controller receives taps;
* `present` on a controller that already presents another is ignored;
* Firebase takes on the account of a sign-in when its completion runs, and keeps it over
  launches until the app signs out or another sign-in completes;
* the writes of one account are taken in the order they were issued, each once, and only
  while Firebase is signed in as that account; they outlive the process;
* uploads are taken in any order, and end with the process.
-/

namespace ProjectSY

/-- What Firebase keeps on the device. -/
structure Firebase where
  /-- `Auth.auth().currentUser`, whose mutation queue Firestore works off. -/
  currentUser : Option String
  /-- The writes that are still to be taken, each with the user it was issued as. -/
  outbox : List (Option String × Write)
  /-- The documents as the server last had them, as far as the device knows. -/
  cache : Collections
  deriving DecidableEq

/-- Firebase on a device the app has just been installed on: the keychain may still know
a user. -/
def Firebase.installed (currentUser : Option String) : Firebase := ⟨currentUser, [], ∅⟩

structure World where
  user : User
  defaults : UserDefaults
  /-- The frontmost controller first; each controller presents the one before it. -/
  screens : List Screen
  presentingViewController : Option Nat
  callbacks : List Callback
  /-- The upload tasks of the process, `none` for one that is done. -/
  uploads : List (Option Upload)
  firebase : Firebase
  aborted : Bool
  server : Server
  deriving DecidableEq

/-- Where the answer of a fetch comes from. -/
inductive Source where
  | server
  | cache
  /-- There is no answer but an error. -/
  | unavailable
  deriving DecidableEq

inductive Event where
  | goToNextStorybaord
  | googleSignIn
  /-- `sign(_:didSignInFor:withError:)`, `none` for an error. -/
  | didSignIn (account : Option String)
  | authSignIn (uid : String) (controller : Nat) (ok : Bool)
  /-- The fetch of `users/<uid>` is answered; the answer shows the oldest `seen`
  pending writes. -/
  | answer (uid : String) (source : Source) (seen : Nat)
  | documentSnapshot (uid : String) (result : FetchResult)
  | finishWritingProfile (form : ProfileForm)
  | backToSignIn
  | no
  /-- Sign-out; `ok` is whether `Auth.auth().signOut()` succeeds. -/
  | yes (ok : Bool)
  | getConnectionCode (randomNum : Nat)
  | backToProfile
  | presentAlert
  | dismissAlert
  | writeDone (ok : Bool)
  | uploadDone (task : Nat) (ok : Bool)
  | relaunch
  deriving DecidableEq

namespace World

/-- The process has just started. -/
def launch (defaults : UserDefaults) (firebase : Firebase) (server : Server) : World :=
  { user := User.init
    defaults := defaults
    screens := [.start]
    presentingViewController := none
    callbacks := []
    uploads := []
    firebase := firebase
    aborted := false
    server := server }

/-- The controller at place `controller` presents `screen`. -/
def present (w : World) (controller : Nat) (screen : Screen) : World :=
  if controller + 1 = w.screens.length then { w with screens := screen :: w.screens } else w

/-- The frontmost controller presents `screen`. -/
def presentOnTop (w : World) (screen : Screen) : World :=
  { w with screens := screen :: w.screens }

def goToNextStorybaord (w : World) : World :=
  let (status, user) := searchUserFromKeychain w.user w.defaults
  { w with user := user }.presentOnTop status.destination

def googleSignIn (w : World) : World :=
  { w with
    presentingViewController := some (w.screens.length - 1)
    callbacks := w.callbacks ++ [.googleSignIn] }

/-- The delegate hands the credential to the controller that asked last. -/
def didSignIn (w : World) (account : Option String) : World :=
  let w := { w with callbacks := w.callbacks.erase .googleSignIn }
  match w.presentingViewController, account with
  | some controller, some uid => { w with callbacks := w.callbacks ++ [.authSignIn uid controller] }
  | _, _ => w

def authSignIn (w : World) (uid : String) (controller : Nat) (ok : Bool) : World :=
  let w := { w with callbacks := w.callbacks.erase (.authSignIn uid controller) }
  if ok then
    let signedIn := firebaseSignInCompletion w.user w.defaults uid
    let w := { w with
      user := signedIn.user
      defaults := signedIn.defaults
      firebase.currentUser := some uid
      callbacks := w.callbacks ++ [signedIn.fetch] }
    match signedIn.presents with
    | some screen => w.present controller screen
    | none => w
  else w

/-- The writes issued as `account` that are still to be taken. -/
def queue (w : World) (account : Option String) : List Write :=
  Outbox.lane w.firebase.outbox account

/-- The writes that can be taken now. -/
abbrev pending (w : World) : List Write := w.queue w.firebase.currentUser

/-- No write and no upload is under way. -/
def Idle (w : World) : Prop := w.firebase.outbox = [] ∧ ∀ task ∈ w.uploads, task = none

instance (w : World) : Decidable w.Idle := inferInstanceAs (Decidable (_ ∧ _))

/-- The documents a fetch is answered from. -/
def known (w : World) : Source → Collections
  | .cache => w.firebase.cache
  | _ => w.server.documents

/-- The documents as a fetch may see them: with the oldest `seen` pending writes. -/
def view (w : World) (source : Source) (seen : Nat) : Collections :=
  (w.known source).settle (w.pending.take seen)

def fetchResult (w : World) (uid : String) (source : Source) (seen : Nat) : FetchResult :=
  match source, (w.view source seen).doc "users" uid with
  | .unavailable, _ => .error
  | _, some d => .data d
  | .server, none => .noDocument
  -- a document that is not there is not told from one that is not known
  | .cache, none => .error

/-- The cache after an answer of the server. -/
def refreshed (w : World) (uid : String) : Source → Collections
  | .server =>
    match w.server.doc "users" uid with
    | some d => w.firebase.cache.insert ("users", uid) d
    | none => w.firebase.cache.erase ("users", uid)
  | _ => w.firebase.cache

def answer (w : World) (uid : String) (source : Source) (seen : Nat) : World :=
  { w with
    firebase.cache := w.refreshed uid source
    callbacks := w.callbacks.erase (.getDocument uid) ++
      [.documentSnapshot uid (w.fetchResult uid source seen)] }

def documentSnapshot (w : World) (uid : String) (result : FetchResult) : World :=
  { w with
    callbacks := w.callbacks.erase (.documentSnapshot uid result)
    user := getDocumentCompletion w.user result }

/-- The writes are put in the queue of the user Firebase is signed in as. -/
def issue (w : World) (writes : List Write) : World :=
  { w with
    firebase.outbox := w.firebase.outbox ++ writes.map (Prod.mk w.firebase.currentUser) }

def finishWritingProfile (w : World) (form : ProfileForm) : World :=
  match ProjectSY.finishWritingProfile form w.user with
  | .saved uid jpeg data =>
    ({ w with
      user := w.user.setUserData data
      defaults := w.defaults.set (.dictionary data) "userData"
      uploads := w.uploads ++ [some (profileUpload uid jpeg)] }.issue
        (profileWrites uid data)).presentOnTop .makeNewConnect
  | .noSignInStatus => w
  | .jpegImageConvertingFailed => w
  | .alertNoPicture => w.presentOnTop .alert
  | .alertInput => w.presentOnTop .alert
  | .trap => { w with aborted := true }

/-- The alert is gone when its handler runs. -/
def yes (w : World) (ok : Bool) : World :=
  let (user, defaults) := w.user.signOut w.defaults
  { w with
    user := user
    defaults := defaults
    firebase.currentUser := if ok then none else w.firebase.currentUser
    screens := w.screens.tail }.presentOnTop .signIn

def getConnectionCode (w : World) (randomNum : Nat) : World :=
  match ProjectSY.getConnectionCode w.user randomNum with
  | (writes, some user) => { w with user := user }.issue writes
  | (writes, none) => { w with aborted := true }.issue writes

/-- A write that has been taken is in the cache as well. -/
def writeDone (w : World) (ok : Bool) : World :=
  match w.pending with
  | write :: _ =>
    { w with
      firebase.outbox := Outbox.dropOldest w.firebase.outbox w.firebase.currentUser
      firebase.cache := if ok then w.firebase.cache.apply write else w.firebase.cache
      server := if ok then w.server.apply write else w.server }
  | [] => w

def uploadDone (w : World) (task : Nat) (ok : Bool) : World :=
  match w.uploads[task]? with
  | some (some upload) =>
    { w with
      uploads := w.uploads.set task none
      server := if ok then w.server.store upload else w.server }
  | _ => w

/-- The frontmost controller is `screen`. -/
def shows (w : World) (screen : Screen) : Prop := w.screens.head? = some screen

instance (w : World) (screen : Screen) : Decidable (w.shows screen) :=
  inferInstanceAs (Decidable (_ = _))

end World

/-- The controllers that have something to present for a moment. -/
def Screen.presentsAlerts : Screen → Bool
  | .signIn | .newProfile | .makeNewConnect | .mainHome => true
  | _ => false

/-- When the event can happen. -/
def enabled (w : World) (e : Event) : Prop :=
  match e with
  | .relaunch => True
  | .goToNextStorybaord => w.aborted = false ∧ w.shows .start
  | .googleSignIn => w.aborted = false ∧ w.shows .signIn
  | .didSignIn _ => w.aborted = false ∧ .googleSignIn ∈ w.callbacks
  | .authSignIn uid controller _ => w.aborted = false ∧ .authSignIn uid controller ∈ w.callbacks
  | .answer uid _ _ => w.aborted = false ∧ .getDocument uid ∈ w.callbacks
  | .documentSnapshot uid result =>
    w.aborted = false ∧ .documentSnapshot uid result ∈ w.callbacks
  | .finishWritingProfile _ => w.aborted = false ∧ w.shows .newProfile
  | .backToSignIn => w.aborted = false ∧ w.shows .newProfile
  | .no => w.aborted = false ∧ w.shows .signOutAlert
  | .yes _ => w.aborted = false ∧ w.shows .signOutAlert
  | .getConnectionCode _ => w.aborted = false ∧ w.shows .makeNewConnect
  | .backToProfile => w.aborted = false ∧ w.shows .makeNewConnect
  | .presentAlert => w.aborted = false ∧ (w.screens.head?.map Screen.presentsAlerts) = some true
  | .dismissAlert => w.aborted = false ∧ w.shows .alert
  | .writeDone _ => w.aborted = false ∧ w.pending ≠ []
  | .uploadDone task _ => w.aborted = false ∧ (w.uploads[task]?.join).isSome = true

instance (w : World) (e : Event) : Decidable (enabled w e) :=
  match e with
  | .relaunch => inferInstanceAs (Decidable True)
  | .goToNextStorybaord | .googleSignIn | .didSignIn _ | .authSignIn _ _ _ | .answer _ _ _
  | .documentSnapshot _ _ | .finishWritingProfile _ | .backToSignIn | .no | .yes _
  | .getConnectionCode _ | .backToProfile | .presentAlert | .dismissAlert
  | .writeDone _ | .uploadDone _ _ => inferInstanceAs (Decidable (_ ∧ _))

def perform (w : World) (e : Event) : World :=
  match e with
  | .goToNextStorybaord => w.goToNextStorybaord
  | .googleSignIn => w.googleSignIn
  | .didSignIn account => w.didSignIn account
  | .authSignIn uid controller ok => w.authSignIn uid controller ok
  | .answer uid source seen => w.answer uid source seen
  | .documentSnapshot uid result => w.documentSnapshot uid result
  | .finishWritingProfile form => w.finishWritingProfile form
  | .backToSignIn => w.presentOnTop .signOutAlert
  | .no => { w with screens := w.screens.tail }
  | .yes ok => w.yes ok
  | .getConnectionCode randomNum => w.getConnectionCode randomNum
  | .backToProfile => w.presentOnTop .newProfile
  | .presentAlert => w.presentOnTop .alert
  | .dismissAlert => { w with screens := w.screens.tail }
  | .writeDone ok => w.writeDone ok
  | .uploadDone task ok => w.uploadDone task ok
  | .relaunch => World.launch w.defaults w.firebase w.server

def step (w : World) (e : Event) : Option World :=
  if enabled w e then some (perform w e) else none

theorem step_eq_some (w w' : World) (e : Event) :
    step w e = some w' ↔ enabled w e ∧ perform w e = w' := by
  unfold step
  split
  · next h => simp [h]
  · next h => simp [h]

/-- The app has just been installed: nothing is stored, nothing pending. -/
def FirstLaunch (w : World) : Prop :=
  ∃ defaults currentUser server, FreshInstall defaults ∧
    w = World.launch defaults (Firebase.installed currentUser) server

/-- The device as it comes out of the box. -/
def newDevice (server : Server) : World :=
  World.launch UserDefaults.empty (Firebase.installed none) server

theorem firstLaunch_newDevice (server : Server) : FirstLaunch (newDevice server) :=
  ⟨UserDefaults.empty, none, server, freshInstall_empty, rfl⟩

/-- Sign-in from the controller at `place`, up to the completion of `Auth.signIn`. -/
def signInAs (uid : String) (place : Nat) : List Event :=
  [.googleSignIn, .didSignIn (some uid), .authSignIn uid place true]

end ProjectSY
