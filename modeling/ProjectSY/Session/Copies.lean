import ProjectSY.App.Navigation

/-!
# The two copies of the session

The app keeps its session twice, in `User.shared` and in `UserDefaults`.  What
matters of a copy is a `Session`: a user id and the data that goes with it.  On
this level an action is

                    memory                 disk
    launched        empty                  -
    restored        what the disk holds    -
    signedIn uid    the user id            the user id
    fetched d       the data               -
    saved d         the data               the data
    requested n     the code as data       -
    signedOut       empty                  empty

`step_memory` and `step_disk` say that the device does this and nothing else; the
results about the session use them and do not look at the controllers again.
-/

namespace ProjectSY

/-- A user id and the data that goes with it. -/
structure Session where
  token : Option String
  data : Option Dict
  deriving DecidableEq

def Session.empty : Session := ⟨none, none⟩

/-- What a launch brings back of the session on the disk. -/
def Session.restored (disk : Session) : Session := if disk.token = none then empty else disk

theorem Session.restored_of_token (disk : Session) (h : disk.token ≠ none) :
    disk.restored = disk := if_neg h

/-- Data comes back only with the user id. -/
theorem Session.restored_data (disk : Session) (h : disk.restored.data ≠ none) :
    disk.restored.token = disk.token ∧ disk.data ≠ none := by
  by_cases ht : disk.token = none
  · have hempty : disk.restored = empty := if_pos ht
    rw [hempty] at h
    exact absurd rfl h
  · rw [disk.restored_of_token ht] at h ⊢
    exact ⟨rfl, h⟩

def World.memory (w : World) : Session := ⟨w.user.userIdToken, w.user.userData⟩

def World.disk (w : World) : Session :=
  ⟨w.defaults.string "userIdToken", w.defaults.dictionary "userData"⟩

namespace Action

/-- The session in memory after the action. -/
def memory (memory disk : Session) : Action → Session
  | .quiet => memory
  | .launched => .empty
  | .restored => disk.restored
  | .signedIn uid => { memory with token := some uid }
  | .fetched _ d => { memory with data := some d }
  | .saved _ _ data => { memory with data := some data }
  | .requested randomNum => { memory with data := some (codeData (connectionCode randomNum)) }
  | .signedOut => .empty

/-- The session on the disk after the action. -/
def disk (disk : Session) : Action → Session
  | .signedIn uid => { disk with token := some uid }
  | .saved _ _ data => { disk with data := some data }
  | .signedOut => .empty
  | _ => disk

end Action

/-- The app's keys are set in its own domain only. -/
def OwnKeys (d : UserDefaults) : Prop := ∀ key ∈ defaultsKeys, d.others.lookup key = none

theorem ownKeys_step (w w' : World) (e : Event) (h : OwnKeys w.defaults)
    (hs : step w e = some w') : OwnKeys w'.defaults := by
  obtain ⟨-, hd⟩ := step_session w w' e hs
  have hothers : ∀ a : Action, (a.defaults w.defaults).others = w.defaults.others := by
    intro a
    cases a <;> rfl
  unfold OwnKeys
  rw [hd, hothers]
  exact h

/-- What `searchUserFromKeychain` loads into an empty session. -/
theorem searchUserFromKeychain_restored (w : World) :
    (⟨(searchUserFromKeychain User.init w.defaults).2.userIdToken,
      (searchUserFromKeychain User.init w.defaults).2.userData⟩ : Session) = w.disk.restored := by
  obtain ⟨ht, hd⟩ := searchUserFromKeychain_init w.defaults
  rw [ht, hd]
  unfold Session.restored World.disk
  split
  · next hnone => rw [hnone]; rfl
  · rfl

/-- **The session in memory after a step.** -/
theorem step_memory (w w' : World) (e : Event) (hnav : NavInv w) (hs : step w e = some w') :
    w'.memory = (e.action w).memory w.memory w.disk := by
  obtain ⟨hu, -⟩ := step_session w w' e hs
  have hg := step_guard w w' e hs
  unfold World.memory
  rw [hu]
  cases ha : e.action w with
  | restored =>
    -- the button of Start is tapped while the session is empty
    rw [ha] at hg
    have hload := searchUserFromKeychain_restored w
    rw [← (hnav.start hg).1] at hload
    exact hload
  | requested n =>
    rw [ha] at hg
    obtain ⟨ht, hd⟩ := hnav.ready_of_shows hg
    rw [Action.user_requested w.user w.defaults n ht hd]
    rfl
  | _ => rfl

/-- **The session on the disk after a step.** -/
theorem step_disk (w w' : World) (e : Event) (hown : OwnKeys w.defaults)
    (hs : step w e = some w') : w'.disk = (e.action w).disk w.disk := by
  obtain ⟨-, hd⟩ := step_session w w' e hs
  unfold World.disk
  rw [hd]
  cases e.action w with
  | signedIn uid =>
    show Session.mk ((w.defaults.set (.string uid) "userIdToken").string "userIdToken")
      ((w.defaults.set (.string uid) "userIdToken").dictionary "userData") = _
    rw [UserDefaults.string_set_string, UserDefaults.dictionary_set_of_ne _ _ _ _ (by simp)]
    rfl
  | saved uid jpeg data =>
    show Session.mk ((w.defaults.set (.dictionary data) "userData").string "userIdToken")
      ((w.defaults.set (.dictionary data) "userData").dictionary "userData") = _
    rw [UserDefaults.dictionary_set_dictionary, UserDefaults.string_set_of_ne _ _ _ _ (by simp)]
    rfl
  | signedOut =>
    have hfresh := freshInstall_removeAll w.defaults hown
    show Session.mk (w.defaults.removeAll.string "userIdToken")
      (w.defaults.removeAll.dictionary "userData") = _
    rw [hfresh.string, hfresh.dictionary]
    rfl
  | _ => rfl

/-! ## What holds in every run from a fresh install -/

structure Stored (w : World) : Prop where
  nav : NavInv w
  own : OwnKeys w.defaults
  /-- The user id in memory is stored. -/
  token : ∀ uid, w.user.userIdToken = some uid → w.defaults.string "userIdToken" = some uid
  /-- The user id that is stored is the one Firebase is signed in as. -/
  current : ∀ uid, w.defaults.string "userIdToken" = some uid →
    w.firebase.currentUser = some uid

/-- Whoever is signed in to the app is signed in to Firebase. -/
theorem Stored.signedIn {w : World} (h : Stored w) (uid : String)
    (ht : w.user.userIdToken = some uid) : w.firebase.currentUser = some uid :=
  h.current uid (h.token uid ht)

theorem current_step (w : World) (e : Event) (w' : World) (hown : OwnKeys w.defaults)
    (h : ∀ uid, w.defaults.string "userIdToken" = some uid → w.firebase.currentUser = some uid)
    (hs : step w e = some w') (uid : String)
    (huid : w'.defaults.string "userIdToken" = some uid) : w'.firebase.currentUser = some uid := by
  have htoken : ((e.action w).disk w.disk).token = some uid := by
    rw [← step_disk w w' e hown hs]
    exact huid
  rw [step_currentUser w w' e hs]
  have hkept := currentUser_kept w e
  cases ha : e.action w with
  | signedIn uid' =>
    rw [ha] at htoken
    obtain ⟨controller, rfl⟩ := action_eq_signedIn w e uid' ha
    exact htoken
  | signedOut => rw [ha] at htoken; cases htoken
  | _ =>
    rw [ha] at htoken
    rw [hkept (by simp [ha]) (by simp [ha])]
    exact h uid htoken

theorem stored_step (w : World) (e : Event) (w' : World) (h : Stored w)
    (hs : step w e = some w') : Stored w' := by
  refine ⟨navInv_step w e w' h.nav hs, ownKeys_step w w' e h.own hs, fun uid huid => ?_,
    current_step w e w' h.own h.current hs⟩
  have hm : w'.memory.token = some uid := huid
  show w'.disk.token = some uid
  rw [step_memory w w' e h.nav hs] at hm
  rw [step_disk w w' e h.own hs]
  cases ha : e.action w with
  | restored =>
    rw [ha] at hm
    have hrestored : w.disk.restored.token = some uid := hm
    unfold Session.restored at hrestored
    split at hrestored
    · cases hrestored
    · exact hrestored
  | signedIn uid' => rw [ha] at hm; exact hm
  | launched => rw [ha] at hm; cases hm
  | signedOut => rw [ha] at hm; cases hm
  | quiet => rw [ha] at hm; exact h.token uid hm
  | fetched uid' d => rw [ha] at hm; exact h.token uid hm
  | saved uid' jpeg data => rw [ha] at hm; exact h.token uid hm
  | requested n => rw [ha] at hm; exact h.token uid hm

theorem FirstLaunch.stored {w : World} (h : FirstLaunch w) : Stored w := by
  have hnav := h.navInv
  obtain ⟨defaults, currentUser, server, hf, rfl⟩ := h
  refine ⟨hnav, hf.others, fun uid hc => (Option.some_ne_none uid hc.symm).elim, fun uid hc => ?_⟩
  have hnone : defaults.string "userIdToken" = some uid := hc
  rw [hf.string] at hnone
  cases hnone

theorem FirstLaunch.disk {w : World} (h : FirstLaunch w) : w.disk = Session.empty := by
  obtain ⟨defaults, currentUser, server, hf, rfl⟩ := h
  show Session.mk (defaults.string "userIdToken") (defaults.dictionary "userData") = _
  rw [hf.string, hf.dictionary]
  rfl

end ProjectSY
