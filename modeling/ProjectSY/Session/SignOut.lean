import ProjectSY.Controllers.TextFields
import ProjectSY.Store.Background

/-!
# What a sign-out leaves of the previous account

The app keeps the account in three places: `User.shared`, `UserDefaults` and the
Documents directory.  `User.signOut` empties the first, removes every key of the
second from the app's own domain, and leaves the third alone; the home screen reads
all three.

So the next user sees the same, whoever used the device before, exactly when the two
directories load the same background (`signOut_indistinguishable_iff`), and somebody's
picture is left behind otherwise (`signOut_leaves_background`).
-/

namespace ProjectSY

/-- What the app keeps on a device: in memory, in `UserDefaults` and in the Documents
directory. -/
structure Device where
  user : User
  defaults : UserDefaults
  documents : Documents
  deriving DecidableEq

namespace Device

def signOut (s : Device) : Device :=
  let (user, defaults) := s.user.signOut s.defaults
  { s with user := user, defaults := defaults }

end Device

/-- What the app keeps of `w` on a device with these documents. -/
def World.device (w : World) (documents : Documents) : Device := ⟨w.user, w.defaults, documents⟩

/-- The sign-out of `newProfile` is `User.signOut`. -/
theorem step_yes_device (w w' : World) (documents : Documents) (ok : Bool)
    (hs : step w (.yes ok) = some w') : w'.device documents = (w.device documents).signOut := by
  obtain ⟨-, rfl⟩ := (step_eq_some w w' _).1 hs
  rfl

variable {Image : Type*} (uiImage : Data → Option Image)

/-- The next user cannot tell the two devices apart. -/
structure Indistinguishable (s t : Device) : Prop where
  userIdToken : s.user.getUserIdToken = t.user.getUserIdToken
  userData : s.user.getUserData = t.user.getUserData
  connectionToken : s.user.getConnectionToken = t.user.getConnectionToken
  /-- The status, and the session that is loaded with it. -/
  search : searchUserFromKeychain s.user s.defaults = searchUserFromKeychain t.user t.defaults
  searchAfterLaunch : searchUserFromKeychain User.init s.defaults =
    searchUserFromKeychain User.init t.defaults
  prefilled : ProfileForm.viewDidLoad s.user = ProfileForm.viewDidLoad t.user
  background : Home.background uiImage s.documents = Home.background uiImage t.documents

/-- What is left of the defaults is what the other domains hold. -/
theorem removeAll_congr (d d' : UserDefaults) (h : d.others = d'.others) :
    d.removeAll = d'.removeAll := by
  have happ : d.removeAll.app = d'.removeAll.app := by
    rw [UserDefaults.removeAll_app, UserDefaults.removeAll_app]
  have hothers : d.removeAll.others = d'.removeAll.others := h
  exact congrArg₂ UserDefaults.mk happ hothers

/-- **When a sign-out erases the previous account.**  Whatever the session in memory,
the app's own domain and the Documents directory were on the two devices: after
`signOut` the next user cannot tell them apart exactly when the two directories load
the same background. -/
theorem signOut_indistinguishable_iff (s t : Device) (h : s.defaults.others = t.defaults.others) :
    Indistinguishable uiImage s.signOut t.signOut ↔
      Home.background uiImage s.documents = Home.background uiImage t.documents := by
  constructor
  · intro hind
    exact hind.background
  · intro hbackground
    have huser : s.signOut.user = t.signOut.user := rfl
    have hdefaults : s.signOut.defaults = t.signOut.defaults := removeAll_congr _ _ h
    exact
      { userIdToken := rfl
        userData := rfl
        connectionToken := rfl
        search := by rw [huser, hdefaults]
        searchAfterLaunch := by rw [hdefaults]
        prefilled := rfl
        background := hbackground }

/-- What `HomeViewController` can leave in an empty Documents directory. -/
def LeftByHome (documents : Documents) : Prop :=
  ∃ es s, Runs.run (Home.step jpegFile) noDocuments es = some s ∧ s.documents = documents

/-- A picture of the previous account is left behind. -/
theorem signOut_leaves_background :
    ¬ ∀ s t : Device, s.defaults.others = t.defaults.others → LeftByHome s.documents →
      LeftByHome t.documents → Indistinguishable ofJPEGFile s.signOut t.signOut := by
  intro h
  have hrun : (Runs.run (Home.step jpegFile) noDocuments [.imagePicked (some [1]) .none]).any
      (fun s => decide (Home.background ofJPEGFile s.documents = some [1])) = true := by
    decide +kernel
  obtain ⟨s, hs, hpicture⟩ := (Option.any_eq_true _ _).1 hrun
  have hind := h ⟨User.init, UserDefaults.empty, s.documents⟩ ⟨User.init, UserDefaults.empty, ∅⟩ rfl
    ⟨_, s, hs, rfl⟩ ⟨[], noDocuments, rfl, rfl⟩
  have hsame : Home.background ofJPEGFile s.documents = Home.background ofJPEGFile ∅ :=
    hind.background
  rw [of_decide_eq_true hpicture] at hsame
  revert hsame
  decide +kernel

/-- The device of an account with a profile and a picture behind the home screen. -/
def usedDevice (uid : String) (profile : Dict) (documents : Documents) : Device :=
  { user := ⟨some uid, none, some profile⟩
    defaults := (UserDefaults.empty.set (.string uid) "userIdToken").set (.dictionary profile)
      "userData"
    documents := documents.insert "HomeBG.jpeg" (.file (jpegFile [1])) }

/-- The devices of `A` and of `B`, who picked the same picture. -/
def devicesOfAB : Device × Device :=
  (usedDevice "A" (profileData "Ann" "1999.01.31" "010-1234-5678" "hello") ∅,
   usedDevice "B" (profileData "Bo" "2000.02.29" "011-123-4567" "hi")
     (Finmap.singleton "notes" .unreadable))

/-- `A` and `B` used devices with one picture; it is there for the next user of either. -/
theorem signOut_indistinguishable_iff_onePicture :
    Home.background ofJPEGFile devicesOfAB.1.signOut.documents = some [1] ∧
    Indistinguishable ofJPEGFile devicesOfAB.1.signOut devicesOfAB.2.signOut :=
  ⟨by decide +kernel,
    (signOut_indistinguishable_iff ofJPEGFile devicesOfAB.1 devicesOfAB.2 rfl).2
      (by decide +kernel)⟩

end ProjectSY
