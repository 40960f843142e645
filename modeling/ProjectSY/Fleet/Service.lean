import ProjectSY.Fleet.Devices
import ProjectSY.Session.Copies
import ProjectSY.Store.Directory

/-!
# What a fleet of devices is for

The abstract service (not translated from the source): one directory of users and codes,
and for each device who is signed in there, the code it remembers, and the changes it has
still to send.  `Event.label` says what an event of a device is for the service:

    launch           the device forgets its user and its code; uploads are lost
    restore          the stored user is signed in again
    signIn uid       `uid` is signed in, and stored; its changes are sent from now on
    signOut ok       nobody is signed in or stored
    remember code    the device has read its user's document, with this code
    save p jpeg      the user wants this profile and this picture
    takeCode code    the user wants this code, and gives back the one it remembers
    arrive ok        the directory takes the oldest change of the account, or loses it
    uploaded t ok    the directory takes the picture, or loses it

Everything else that happens on a device is nothing to the service.  The fleet does what
the service does and nothing else (`fleet_refines`): the events of a run, by their labels,
are a run of the service, and the devices and the server are where it ends.
-/

namespace ProjectSY

/-- A device as the service sees it. -/
structure Service.Device where
  /-- Who is signed in, and who will be after a launch. -/
  uid : Option String
  stored : Option String
  /-- The code the device remembers. -/
  code : Option String
  /-- The account whose changes are sent. -/
  account : Option String
  pending : Option String → List Directory.Change
  /-- The pictures on their way, with the user they are of; `none` for one that is done. -/
  pictures : List (Option (String × Data))

structure Service (ι : Type*) where
  directory : Directory
  device : ι → Service.Device

namespace Service

inductive Event where
  | launch
  | restore
  | signIn (uid : String)
  | signOut (ok : Bool)
  | remember (code : Option String)
  | save (p : Profile) (jpeg : Data)
  | takeCode (code : String)
  | arrive (ok : Bool)
  | uploaded (task : Nat) (ok : Bool)

end Service

namespace Service.Device

/-- The device has these changes to send as well, for its account. -/
def issue (d : Service.Device) (changes : List Directory.Change) : Service.Device :=
  { d with pending := Function.update d.pending d.account (d.pending d.account ++ changes) }

/-- What taking a code consists of: the remembered one is given back first. -/
def codeChanges (d : Service.Device) (uid code : String) : List Directory.Change :=
  (match d.code with
    | some last => [.release last]
    | none => []) ++ [.register code uid, .point uid code]

/-- What the event does to the directory and to the device. -/
def step (D : Directory) (d : Service.Device) : Service.Event → Option (Directory × Service.Device)
  | .launch => some (D, { d with uid := none, code := none, pictures := [] })
  | .restore => some (D, { d with uid := d.stored, code := none })
  | .signIn uid =>
    some (D, { d with uid := some uid, stored := some uid, account := some uid })
  | .signOut ok =>
    some (D, { d with
      uid := none
      stored := none
      code := none
      account := if ok then none else d.account })
  | .remember code => some (D, { d with code := code })
  | .save p jpeg =>
    match d.uid with
    | some uid =>
      some (D, { d.issue [.setProfile uid p] with
        code := none
        pictures := d.pictures ++ [some (uid, jpeg)] })
    | none => some (D, d)
  | .takeCode code =>
    match d.uid with
    | some uid => some (D, { d.issue (d.codeChanges uid code) with code := some code })
    | none => none
  | .arrive ok =>
    match d.pending d.account with
    | change :: rest =>
      some (if ok then D.apply change else D,
        { d with pending := Function.update d.pending d.account rest })
    | [] => none
  | .uploaded task ok =>
    match d.pictures[task]? with
    | some (some (uid, jpeg)) =>
      some (if ok then D.setPicture uid jpeg else D,
        { d with pictures := d.pictures.set task none })
    | _ => none

end Service.Device

namespace Service

variable {ι : Type*} [DecidableEq ι]

def step (S : Service ι) (a : ι × Event) : Option (Service ι) :=
  ((S.device a.1).step S.directory a.2).map fun (D, d) => ⟨D, Function.update S.device a.1 d⟩

theorem step_eq_some (S S' : Service ι) (i : ι) (e : Event) :
    step S (i, e) = some S' ↔ ∃ D d, (S.device i).step S.directory e = some (D, d) ∧
      S' = ⟨D, Function.update S.device i d⟩ := by
  unfold step
  rw [Option.map_eq_some_iff]
  constructor
  · rintro ⟨⟨D, d⟩, hd, rfl⟩
    exact ⟨D, d, hd, rfl⟩
  · rintro ⟨D, d, hd, rfl⟩
    exact ⟨(D, d), hd, rfl⟩

end Service

/-! ## What an event means -/

/-- The picture of a form that is accepted. -/
def ProfileForm.accepted (form : ProfileForm) : Option Data :=
  if form.isAllTextFieldValid then form.profileImage.bind UIImage.jpegData else none

/-- What the event is for the service. -/
def Event.label : Event → Option Service.Event
  | .goToNextStorybaord => some .restore
  | .authSignIn uid _ true => some (.signIn uid)
  | .documentSnapshot _ (.data d) => some (.remember (stringField d "connectionCode"))
  | .finishWritingProfile form => form.accepted.map fun jpeg => .save form.toProfile jpeg
  | .yes ok => some (.signOut ok)
  | .getConnectionCode randomNum => some (.takeCode (connectionCode randomNum))
  | .writeDone ok => some (.arrive ok)
  | .uploadDone task ok => some (.uploaded task ok)
  | .relaunch => some .launch
  | _ => none

/-- What the event of a device is for the service. -/
def Fleet.label {ι : Type*} (a : ι × Event) : Option (ι × Service.Event) :=
  a.2.label.map (Prod.mk a.1)

/-- A form is saved as it is accepted, by whoever is signed in. -/
theorem saved_iff_accepted (form : ProfileForm) (user : User) (uid : String) (jpeg : Data)
    (data : Dict) : finishWritingProfile form user = .saved uid jpeg data ↔
      form.accepted = some jpeg ∧ user.userIdToken = some uid ∧ form.profile = data := by
  rw [finishWritingProfile_saved_iff]
  unfold ProfileForm.accepted
  cases form.isAllTextFieldValid with
  | true => simp
  | false => simp

/-- A form that is not accepted changes nothing. -/
theorem action_of_not_saved (form : ProfileForm) (w : World)
    (h : ∀ uid jpeg data, finishWritingProfile form w.user ≠ .saved uid jpeg data) :
    (Event.finishWritingProfile form).action w = .quiet := by
  show (finishWritingProfile form w.user).action = .quiet
  cases hf : finishWritingProfile form w.user with
  | saved uid jpeg data => exact absurd hf (h uid jpeg data)
  | _ => rfl

/-- What means nothing to the service changes neither session nor backend. -/
theorem quiet_of_label (w : World) (e : Event) (h : e.label = none) :
    e.isDone = false ∧ e.action w = .quiet ∧ e.currentUser w = w.firebase.currentUser := by
  cases e with
  | authSignIn uid controller ok =>
    cases ok with
    | false => exact ⟨rfl, rfl, rfl⟩
    | true => cases h
  | documentSnapshot uid result =>
    cases result with
    | data d => cases h
    | noDocument => exact ⟨rfl, rfl, rfl⟩
    | error => exact ⟨rfl, rfl, rfl⟩
  | finishWritingProfile form =>
    refine ⟨rfl, action_of_not_saved form w fun uid jpeg data hf => ?_, rfl⟩
    have hlabel : form.accepted.map (fun jpeg => Service.Event.save form.toProfile jpeg) = none := h
    rw [((saved_iff_accepted form w.user uid jpeg data).1 hf).1] at hlabel
    cases hlabel
  | googleSignIn => exact ⟨rfl, rfl, rfl⟩
  | didSignIn account => exact ⟨rfl, rfl, rfl⟩
  | answer uid source seen => exact ⟨rfl, rfl, rfl⟩
  | backToSignIn => exact ⟨rfl, rfl, rfl⟩
  | no => exact ⟨rfl, rfl, rfl⟩
  | backToProfile => exact ⟨rfl, rfl, rfl⟩
  | presentAlert => exact ⟨rfl, rfl, rfl⟩
  | dismissAlert => exact ⟨rfl, rfl, rfl⟩
  | _ => cases h

/-! ## A device and its place in the service -/

/-- The code in the data of a session. -/
def Session.code (s : Session) : Option String :=
  s.data.bind fun d => stringField d "connectionCode"

/-- The device is the one the service has. -/
structure Shows (w : World) (d : Service.Device) : Prop where
  uid : w.user.userIdToken = d.uid
  stored : w.defaults.string "userIdToken" = d.stored
  code : lastConnectionCode w.user = d.code
  account : w.firebase.currentUser = d.account
  pending : ∀ account, w.queue account = (d.pending account).map Directory.Change.write
  pictures : w.uploads = d.pictures.map (Option.map fun p => profileUpload p.1 p.2)

/-- A profile has no code. -/
theorem code_of_profile (form : ProfileForm) :
    stringField form.profile "connectionCode" = none := by
  unfold stringField
  rw [form.profile_connectionCode]
  rfl

/-- What holds of the session besides: a stored profile has no code. -/
structure Kept (w : World) : Prop where
  stored : Stored w
  diskCode : w.disk.code = none

theorem kept_step (w w' : World) (e : Event) (h : Kept w) (hs : step w e = some w') : Kept w' := by
  refine ⟨stored_step w e w' h.stored hs, ?_⟩
  have hg := step_guard w w' e hs
  rw [step_disk w w' e h.stored.own hs]
  cases ha : e.action w with
  | saved uid jpeg data =>
    rw [ha] at hg
    obtain ⟨-, -, form, rfl⟩ := hg
    exact code_of_profile form
  | signedOut => rfl
  | _ => exact h.diskCode

theorem FirstLaunch.kept {w : World} (h : FirstLaunch w) : Kept w := by
  refine ⟨h.stored, ?_⟩
  rw [h.disk]
  rfl

/-- Where a device is after a step that completes nothing, by what the step's action does. -/
theorem shows_of_issue (w w' : World) (e : Event) (d d' : Service.Device) (h : Shows w d) (hk : Kept w)
    (hs : step w e = some w') (hd : e.isDone = false)
    (huid : ((e.action w).memory w.memory w.disk).token = d'.uid)
    (hstored : ((e.action w).disk w.disk).token = d'.stored)
    (hcode : ((e.action w).memory w.memory w.disk).code = d'.code)
    (haccount : e.currentUser w = d'.account) (changes : List Directory.Change)
    (hwrites : (e.action w).writes w.user = changes.map Directory.Change.write)
    (hpending : d'.pending =
      Function.update d.pending d.account (d.pending d.account ++ changes))
    (hpictures : (e.action w).uploads w.uploads =
      d'.pictures.map (Option.map fun p => profileUpload p.1 p.2)) : Shows w' d' := by
  have hmemory := step_memory w w' e hk.stored.nav hs
  have hdisk := step_disk w w' e hk.stored.own hs
  refine ⟨?_, ?_, ?_, ?_, fun account => ?_, ?_⟩
  · show w'.memory.token = d'.uid
    rw [hmemory, huid]
  · show w'.disk.token = d'.stored
    rw [hdisk, hstored]
  · show w'.memory.code = d'.code
    rw [hmemory, hcode]
  · rw [step_currentUser w w' e hs, haccount]
  · rw [step_queue w w' e hs hd, hwrites, hpending, Function.update_apply, h.account]
    by_cases ha : account = d.account
    · rw [if_pos ha.symm, if_pos ha, List.map_append, h.pending account, ha]
    · rw [if_neg fun e => ha e.symm, if_neg ha, h.pending account]
  · rw [(step_issue w w' e hs hd).uploads, hpictures]

/-- Nothing more to send. -/
theorem update_append_nil (d : Service.Device) :
    d.pending = Function.update d.pending d.account (d.pending d.account ++ []) := by
  rw [List.append_nil, Function.update_eq_self]

/-- The service follows a step of the device by the step the label of `e` is. -/
def Follows (w' : World) (e : Event) (d : Service.Device) (D : Directory) : Prop :=
  ∃ l D' d', e.label = some l ∧ d.step D l = some (D', d') ∧ Shows w' d' ∧
    Represents w'.server D'

theorem follows_finishWritingProfile (w w' : World) (form : ProfileForm) (d : Service.Device)
    (D : Directory) (uid : String) (jpeg : Data) (h : Shows w d) (hk : Kept w)
    (hD : Represents w'.server D) (hs : step w (.finishWritingProfile form) = some w')
    (haccepted : form.accepted = some jpeg) (ht : w.user.userIdToken = some uid) :
    Follows w' (.finishWritingProfile form) d D := by
  have ha : (Event.finishWritingProfile form).action w = .saved uid jpeg form.profile := by
    show (finishWritingProfile form w.user).action = _
    rw [(saved_iff_accepted form w.user uid jpeg form.profile).2 ⟨haccepted, ht, rfl⟩]
    rfl
  have hlabel : (Event.finishWritingProfile form).label = some (.save form.toProfile jpeg) := by
    show form.accepted.map _ = _
    rw [haccepted]
    rfl
  have hstep : d.step D (.save form.toProfile jpeg) =
      some (D, { d.issue [.setProfile uid form.toProfile] with
        code := none
        pictures := d.pictures ++ [some (uid, jpeg)] }) := by
    unfold Service.Device.step
    rw [← h.uid, ht]
  refine ⟨_, D, _, hlabel, hstep, shows_of_issue w w' _ d _ h hk hs rfl
    (by rw [ha]; exact h.uid) (by rw [ha]; exact h.stored) ?_ h.account
    [.setProfile uid form.toProfile] (by rw [ha]; rfl) rfl ?_, hD⟩
  · rw [ha]
    exact code_of_profile form
  · rw [ha, List.map_append, ← h.pictures]
    rfl

theorem follows_getConnectionCode (w w' : World) (n : Nat) (d : Service.Device) (D : Directory)
    (h : Shows w d) (hk : Kept w) (hD : Represents w'.server D)
    (hs : step w (.getConnectionCode n) = some w') : Follows w' (.getConnectionCode n) d D := by
  have hg := step_guard w w' _ hs
  obtain ⟨uid, ht⟩ := Option.ne_none_iff_exists'.1 (hk.stored.nav.ready_of_shows hg).1
  have hstep : d.step D (.takeCode (connectionCode n)) =
      some (D, { d.issue (d.codeChanges uid (connectionCode n)) with
        code := some (connectionCode n) }) := by
    unfold Service.Device.step
    rw [← h.uid, ht]
  refine ⟨_, D, _, rfl, hstep, shows_of_issue w w' _ d _ h hk hs rfl h.uid h.stored
    (stringField_codeData _) h.account _ ?_ rfl h.pictures, hD⟩
  show (getConnectionCode w.user n).1 = _
  rw [getConnectionCode_writes w.user n uid ht]
  unfold codeWrites removeLastCode Service.Device.codeChanges
  rw [h.code]
  cases d.code <;> rfl

theorem follows_writeDone (w w' : World) (ok : Bool) (d : Service.Device) (D : Directory)
    (h : Shows w d)
    (hD : Represents w.server D) (hs : step w (.writeDone ok) = some w') :
    Follows w' (.writeDone ok) d D := by
  have htakes := step_writeDone w w' ok hs
  obtain ⟨write, hpending, hserver⟩ := htakes.taken
  have hqueue := hpending.symm.trans (h.pending w.firebase.currentUser)
  obtain ⟨change, rest, hd, rfl, hrest⟩ := List.map_eq_cons_iff.1 hqueue.symm
  rw [h.account] at hd
  have hstep : d.step D (.arrive ok) = some (if ok then D.apply change else D,
      { d with pending := Function.update d.pending d.account rest }) := by
    unfold Service.Device.step
    simp only [hd]
  obtain ⟨huser, hdefaults⟩ := step_session w w' _ hs
  refine ⟨_, _, _, rfl, hstep, ⟨?_, ?_, ?_, htakes.currentUser.trans h.account,
    fun account => ?_, htakes.uploads.trans h.pictures⟩, ?_⟩
  · exact huser ▸ h.uid
  · exact hdefaults ▸ h.stored
  · exact huser ▸ h.code
  · show _ = (Function.update d.pending d.account rest account).map Directory.Change.write
    rw [Function.update_apply]
    split
    · next ha => rw [hrest, ha, ← h.account, ← htakes.currentUser]
    · next ha => rw [htakes.others account (by rw [h.account]; exact ha), h.pending account]
  · rw [hserver]
    cases ok with
    | false => exact hD
    | true => exact represents_apply w.server D hD change

theorem follows_uploadDone (w w' : World) (task : Nat) (ok : Bool) (d : Service.Device) (D : Directory)
    (h : Shows w d) (hD : Represents w.server D) (hs : step w (.uploadDone task ok) = some w') :
    Follows w' (.uploadDone task ok) d D := by
  have htakes := step_uploadDone w w' task ok hs
  obtain ⟨upload, htask, hserver⟩ := htakes.taken
  rw [h.pictures, List.getElem?_map, Option.map_eq_some_iff] at htask
  obtain ⟨picture, hpicture, hupload⟩ := htask
  obtain ⟨⟨uid, jpeg⟩, rfl, rfl⟩ := Option.map_eq_some_iff.1 hupload
  have hstep : d.step D (.uploaded task ok) =
      some (if ok then D.setPicture uid jpeg else D,
        { d with pictures := d.pictures.set task none }) := by
    unfold Service.Device.step
    simp only [hpicture]
  obtain ⟨huser, hdefaults⟩ := step_session w w' _ hs
  refine ⟨_, _, _, rfl, hstep, ⟨?_, ?_, ?_, ?_, fun account => ?_, ?_⟩, ?_⟩
  · exact huser ▸ h.uid
  · exact hdefaults ▸ h.stored
  · exact huser ▸ h.code
  · exact htakes.firebase ▸ h.account
  · rw [← h.pending account]
    unfold World.queue
    rw [htakes.firebase]
  · rw [htakes.uploads, h.pictures, List.map_set]
    rfl
  · rw [hserver]
    cases ok with
    | false => exact hD
    | true => exact represents_store w.server D hD uid jpeg

/-- **A step of a device** is its label's step in the service. -/
theorem device_refines (w w' : World) (e : Event) (d : Service.Device) (D : Directory) (h : Shows w d)
    (hk : Kept w) (hD : Represents w.server D) (hs : step w e = some w') :
    (e.label = none ∧ Shows w' d ∧ Represents w'.server D) ∨ Follows w' e d D := by
  have hserver : e.isDone = false → Represents w'.server D := by
    intro hd
    rw [(step_issue w w' e hs hd).server]
    exact hD
  have hstay : e.isDone = false ∧ e.action w = .quiet ∧
      e.currentUser w = w.firebase.currentUser → Shows w' d := by
    rintro ⟨hd, ha, hcurrent⟩
    exact shows_of_issue w w' e d d h hk hs hd (by rw [ha]; exact h.uid)
      (by rw [ha]; exact h.stored) (by rw [ha]; exact h.code) (hcurrent.trans h.account) []
      (by rw [ha]; rfl) (update_append_nil d) (by rw [ha]; exact h.pictures)
  by_cases hl : e.label = none
  · have hquiet := quiet_of_label w e hl
    exact Or.inl ⟨hl, hstay hquiet, hserver hquiet.1⟩
  · refine Or.inr ?_
    cases e with
    | goToNextStorybaord =>
      refine ⟨_, D, _, rfl, rfl, shows_of_issue w w' _ d _ h hk hs rfl ?_ h.stored ?_ h.account []
        rfl (update_append_nil d) h.pictures, hserver rfl⟩
      · show w.disk.restored.token = d.stored
        rw [← h.stored]
        unfold Session.restored
        split
        · next hnone => exact hnone.symm
        · rfl
      · show w.disk.restored.code = none
        unfold Session.restored
        split
        · rfl
        · exact hk.diskCode
    | authSignIn uid controller ok =>
      cases ok with
      | false => exact absurd rfl hl
      | true =>
        exact ⟨_, D, _, rfl, rfl, shows_of_issue w w' _ d _ h hk hs rfl rfl rfl h.code rfl [] rfl
          (update_append_nil d) h.pictures, hserver rfl⟩
    | documentSnapshot uid result =>
      cases result with
      | data doc =>
        exact ⟨_, D, _, rfl, rfl, shows_of_issue w w' _ d _ h hk hs rfl h.uid h.stored rfl h.account
          [] rfl (update_append_nil d) h.pictures, hserver rfl⟩
      | noDocument => exact absurd rfl hl
      | error => exact absurd rfl hl
    | finishWritingProfile form =>
      obtain ⟨l, hl⟩ := Option.ne_none_iff_exists'.1 hl
      obtain ⟨jpeg, haccepted, rfl⟩ := Option.map_eq_some_iff.1 hl
      cases ht : w.user.userIdToken with
      | none =>
        have hquiet := action_of_not_saved form w fun uid jpeg data hf => by
          rw [((saved_iff_accepted form w.user uid jpeg data).1 hf).2.1] at ht
          cases ht
        refine ⟨_, D, d, hl, ?_, hstay ⟨rfl, hquiet, rfl⟩, hserver rfl⟩
        unfold Service.Device.step
        rw [← h.uid, ht]
      | some uid =>
        exact follows_finishWritingProfile w w' form d D uid jpeg h hk (hserver rfl) hs haccepted ht
    | yes ok =>
      refine ⟨_, D, _, rfl, rfl, shows_of_issue w w' _ d _ h hk hs rfl rfl rfl rfl ?_ [] rfl
        (update_append_nil d) h.pictures, hserver rfl⟩
      cases ok with
      | false => exact h.account
      | true => rfl
    | getConnectionCode n => exact follows_getConnectionCode w w' n d D h hk (hserver rfl) hs
    | writeDone ok => exact follows_writeDone w w' ok d D h hD hs
    | uploadDone task ok => exact follows_uploadDone w w' task ok d D h hD hs
    | relaunch =>
      exact ⟨_, D, _, rfl, rfl, shows_of_issue w w' _ d _ h hk hs rfl rfl h.stored rfl h.account []
        rfl (update_append_nil d) rfl, hserver rfl⟩
    | _ => exact absurd rfl hl

/-! ## The fleet as the service -/

variable {ι : Type*}

/-- The fleet is in a state of the service. -/
structure Realizes (s : ι → World) (S : Service ι) : Prop where
  kept : ∀ i, Kept (s i)
  server : ∀ i, Represents (s i).server S.directory
  device : ∀ i, Shows (s i) (S.device i)

/-- The service as fresh installs find it, with the accounts the keychains know. -/
def Service.start (D : Directory) (account : ι → Option String) : Service ι :=
  ⟨D, fun i => ⟨none, none, none, account i, fun _ => [], []⟩⟩

theorem realizes_firstLaunch (server : Server) (D : Directory) (hD : Represents server D)
    (s : ι → World) (h : Fleet.FirstLaunch server s) :
    Realizes s (Service.start D fun i => (s i).firebase.currentUser) := by
  refine ⟨fun i => (h i).1.kept, fun i => ?_, fun i => ?_⟩
  · rw [(h i).2]
    exact hD
  · have hdisk := (h i).1.disk
    have hqueue := (h i).1.queue
    obtain ⟨⟨defaults, currentUser, server', -, hw⟩, -⟩ := h i
    refine ⟨by rw [hw]; rfl, congrArg Session.token hdisk, by rw [hw]; rfl, rfl,
      fun account => hqueue account, by rw [hw]; rfl⟩

theorem Kept.withServer {w : World} (h : Kept w) (server : Server) : Kept (w.withServer server) :=
  ⟨⟨⟨h.stored.nav.stacked, h.stored.nav.start, h.stored.nav.ready, h.stored.nav.running⟩,
    h.stored.own, h.stored.token, h.stored.current⟩, h.diskCode⟩

theorem Shows.withServer {w : World} {d : Service.Device} (h : Shows w d) (server : Server) :
    Shows (w.withServer server) d :=
  ⟨h.uid, h.stored, h.code, h.account, h.pending, h.pictures⟩

variable [DecidableEq ι]

/-- Only the device that takes the step changes, and the server behind the others. -/
theorem realizes_step (s s' : ι → World) (i : ι) (e : Event) (S : Service ι)
    (h : Realizes s S) (hs : Fleet.step s (i, e) = some s') :
    ∃ S', Runs.run Service.step S (Fleet.label (i, e)).toList = some S' ∧ Realizes s' S' := by
  have hself := Sharing.step_self _ _ _ s s' i e hs
  have hother : ∀ j, j ≠ i → s' j = (s j).withServer (s' i).server :=
    fun j hj => Sharing.step_other _ _ _ s s' i j e hj hs
  -- a step that leaves the other devices of the service alone
  have hreal : ∀ D d, Shows (s' i) d → Represents (s' i).server D →
      Realizes s' ⟨D, Function.update S.device i d⟩ := by
    intro D d hshows hD
    refine ⟨fun j => ?_, fun j => ?_, fun j => ?_⟩
    · by_cases hj : j = i
      · rw [hj]
        exact kept_step (s i) (s' i) e (h.kept i) hself
      · rw [hother j hj]
        exact (h.kept j).withServer _
    · by_cases hj : j = i
      · rw [hj]
        exact hD
      · rw [hother j hj]
        exact hD
    · show Shows (s' j) (Function.update S.device i d j)
      by_cases hj : j = i
      · rw [hj, Function.update_self]
        exact hshows
      · rw [Function.update_of_ne hj, hother j hj]
        exact (h.device j).withServer _
  rcases device_refines (s i) (s' i) e (S.device i) S.directory (h.device i) (h.kept i) (h.server i)
    hself with ⟨hl, hshows, hD⟩ | ⟨l, D, d, hl, hstep, hshows, hD⟩
  · have hlabel : Fleet.label (i, e) = none := by
      unfold Fleet.label
      rw [hl]
      rfl
    rw [hlabel]
    refine ⟨S, rfl, ?_⟩
    have hS := hreal S.directory (S.device i) hshows hD
    rw [Function.update_eq_self] at hS
    exact hS
  · have hlabel : Fleet.label (i, e) = some (i, l) := by
      unfold Fleet.label
      rw [hl]
      rfl
    rw [hlabel]
    refine ⟨⟨D, Function.update S.device i d⟩, ?_, hreal D d hshows hD⟩
    refine (Runs.run_cons_eq_some _ _ _ _ _).2 ⟨_, ?_, rfl⟩
    exact (Service.step_eq_some S _ i l).2 ⟨D, d, hstep, rfl⟩

theorem realizes_run (server : Server) (D : Directory) (hD : Represents server D)
    (s s' : ι → World) (es : List (ι × Event)) (h : Fleet.FirstLaunch server s)
    (hr : Runs.run Fleet.step s es = some s') :
    ∃ S', Runs.run Service.step (Service.start D fun i => (s i).firebase.currentUser)
      (es.filterMap Fleet.label) = some S' ∧ Realizes s' S' :=
  Runs.run_labelled Fleet.step Service.step Fleet.label Realizes
    (fun s a s' S hR hs => realizes_step s s' a.1 a.2 S hR hs) s s' _ es
    (realizes_firstLaunch server D hD s h) hr

/-- **A fleet is a directory service.**  Fresh installs around a server that holds a
directory, any number of them: whatever is tapped, whoever signs in, in whatever order
the completion handlers run and the writes and uploads of the devices arrive or fail, the
labels of the run are a run of the service.  At its end the server holds the directory of
the service, and every device has the user, the stored user, the code, the account, the
changes to send and the pictures on their way that it has there. -/
theorem fleet_refines (server : Server) (D : Directory) (hD : Represents server D)
    (s s' : ι → World) (es : List (ι × Event)) (h : Fleet.FirstLaunch server s)
    (hr : Runs.run Fleet.step s es = some s') :
    ∃ S', Runs.run Service.step (Service.start D fun i => (s i).firebase.currentUser)
      (es.filterMap Fleet.label) = some S' ∧
      ∀ i, (s' i).server.directory = S'.directory ∧ Represents (s' i).server S'.directory ∧
        Shows (s' i) (S'.device i) := by
  obtain ⟨S', hrun, hreal⟩ := realizes_run server D hD s s' es h hr
  exact ⟨S', hrun, fun i => ⟨directory_of_represents _ _ (hreal.server i), hreal.server i,
    hreal.device i⟩⟩

/-- `A` saves a profile and takes a code on one device, and takes another; `B` saves a
profile on the other device, and its picture is lost. -/
def twoAccounts : List (Bool × Event) :=
  savedByNewcomer.map (true, ·) ++ [(false, .goToNextStorybaord)] ++
  (signInAs "B" 1).map (false, ·) ++ [(false, .finishWritingProfile (formOfA "hi")),
    (true, .getConnectionCode 7), (true, .getConnectionCode 42), (false, .uploadDone 0 false),
    (false, .writeDone true)] ++ List.replicate 4 (true, .writeDone true)

theorem fleet_refines_twoAccounts :
    ∃ s' S', Runs.run Fleet.step (fun _ => newDevice ⟨∅, ∅⟩) twoAccounts = some s' ∧
      Runs.run Service.step (Service.start Directory.empty fun _ => none)
        (twoAccounts.filterMap Fleet.label) = some S' ∧
      (S'.device true).uid = some "A" ∧ (S'.device true).code = some "000042" ∧
      S'.directory.sender "000007" = none ∧
      S'.directory.profile "B" = some (formOfA "hi").toProfile := by
  have hrun : (Runs.run Fleet.step (fun _ : Bool => newDevice ⟨∅, ∅⟩) twoAccounts).any (fun s =>
      decide ((s true).user.userIdToken = some "A" ∧
        lastConnectionCode (s true).user = some "000042" ∧
        (s true).server.directory.sender "000007" = none ∧
        (s true).server.directory.profile "B" = some (formOfA "hi").toProfile)) = true := by
    decide +kernel
  obtain ⟨s', hs', hend⟩ := (Option.any_eq_true _ _).1 hrun
  obtain ⟨huid, hcode, hsender, hprofile⟩ := of_decide_eq_true hend
  obtain ⟨S', hfs, hS'⟩ := fleet_refines ⟨∅, ∅⟩ Directory.empty represents_empty _ s' twoAccounts
    (Fleet.firstLaunch_newDevices ⟨∅, ∅⟩) hs'
  obtain ⟨hdirectory, -, hshows⟩ := hS' true
  refine ⟨s', S', hs', hfs, ?_, ?_, ?_, ?_⟩
  · rw [← hshows.uid, huid]
  · rw [← hshows.code, hcode]
  · rw [← hdirectory, hsender]
  · rw [← hdirectory, hprofile]

end ProjectSY
