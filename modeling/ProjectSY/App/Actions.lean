import ProjectSY.App.World

/-!
# What an event does to the session and to the backend

Most events only move between controllers.  `Event.action` names what an event
means for the session: nothing (`quiet`), or one of seven actions.  The lemmas
below say once what a step changes in the session (`step_session`), which user
Firebase is signed in as then (`step_currentUser`), which writes it issues
(`step_issue`, `step_queue`, `step_settledAs`) and what had to be the case for the
action to happen (`step_guard`); the results about runs use only these.

`World.settledAs account` is what the documents become once the pending writes of the
account are taken: with nothing pending they are what they are on the server.
-/

namespace ProjectSY

inductive Action where
  | quiet
  | launched
  | restored
  | signedIn (uid : String)
  | fetched (uid : String) (d : Dict)
  | saved (uid : String) (jpeg : Data) (data : Dict)
  | requested (randomNum : Nat)
  | signedOut
  deriving DecidableEq

def FinishResult.action : FinishResult → Action
  | .saved uid jpeg data => .saved uid jpeg data
  | _ => .quiet

def Event.action (w : World) : Event → Action
  | .goToNextStorybaord => .restored
  | .authSignIn uid _ true => .signedIn uid
  | .documentSnapshot uid (.data d) => .fetched uid d
  | .finishWritingProfile form => (ProjectSY.finishWritingProfile form w.user).action
  | .getConnectionCode randomNum => .requested randomNum
  | .yes _ => .signedOut
  | .relaunch => .launched
  | _ => .quiet

/-- The event an action comes from. -/
def Action.From (e : Event) : Action → Prop
  | .launched => e = .relaunch
  | .signedIn uid => ∃ controller, e = .authSignIn uid controller true
  | .signedOut => ∃ ok, e = .yes ok
  | _ => True

theorem action_from (w : World) (e : Event) : (e.action w).From e := by
  cases e with
  | authSignIn uid controller ok =>
    cases ok with
    | false => trivial
    | true => exact ⟨controller, rfl⟩
  | documentSnapshot uid result => cases result <;> trivial
  | finishWritingProfile form =>
    show (finishWritingProfile form w.user).action.From _
    cases finishWritingProfile form w.user <;> trivial
  | yes ok => exact ⟨ok, rfl⟩
  | relaunch => exact rfl
  | _ => trivial

theorem action_eq_launched (w : World) (e : Event) (h : e.action w = .launched) :
    e = .relaunch := by
  have hfrom := action_from w e
  rw [h] at hfrom
  exact hfrom

theorem action_eq_signedIn (w : World) (e : Event) (uid : String) (h : e.action w = .signedIn uid) :
    ∃ controller, e = .authSignIn uid controller true := by
  have hfrom := action_from w e
  rw [h] at hfrom
  exact hfrom

theorem action_eq_signedOut (w : World) (e : Event) (h : e.action w = .signedOut) :
    ∃ ok, e = .yes ok := by
  have hfrom := action_from w e
  rw [h] at hfrom
  exact hfrom

namespace Action

/-- `User.shared` after the action. -/
def user (u : User) (d : UserDefaults) : Action → User
  | .quiet => u
  | .launched => User.init
  | .restored => (searchUserFromKeychain u d).2
  | .signedIn uid => u.setUserIdToken uid
  | .fetched _ doc => u.setUserData doc
  | .saved _ _ data => u.setUserData data
  | .requested randomNum => (getConnectionCode u randomNum).2.getD u
  | .signedOut => u.clean

/-- `UserDefaults.standard` after the action. -/
def defaults (d : UserDefaults) : Action → UserDefaults
  | .signedIn uid => d.set (.string uid) "userIdToken"
  | .saved _ _ data => d.set (.dictionary data) "userData"
  | .signedOut => d.removeAll
  | _ => d

/-- The writes the action issues. -/
def writes (u : User) : Action → List Write
  | .saved uid _ data => profileWrites uid data
  | .requested randomNum => (getConnectionCode u randomNum).1
  | _ => []

/-- The uploads under way after the action. -/
def uploads (tasks : List (Option Upload)) : Action → List (Option Upload)
  | .saved uid jpeg _ => tasks ++ [some (profileUpload uid jpeg)]
  | .launched => []
  | _ => tasks

/-- A code that is asked for with a user id and data takes the place of the data. -/
theorem user_requested (u : User) (d : UserDefaults) (n : Nat) (ht : u.userIdToken ≠ none)
    (hd : u.userData ≠ none) :
    (Action.requested n).user u d = { u with userData := some (codeData (connectionCode n)) } := by
  show (getConnectionCode u n).2.getD u = _
  rw [getConnectionCode_user u n ht hd]
  rfl

end Action

/-! ## The session -/

theorem present_fields (w : World) (controller : Nat) (screen : Screen) :
    ∃ screens, w.present controller screen = { w with screens := screens } := by
  unfold World.present
  split
  · exact ⟨_, rfl⟩
  · exact ⟨w.screens, rfl⟩

/-- Of the completion of `Auth.signIn` only the presented controller depends on
where it was asked for. -/
theorem authSignIn_fields (w : World) (uid : String) (controller : Nat) :
    ∃ screens, w.authSignIn uid controller true =
      { w with
        user := w.user.setUserIdToken uid
        defaults := w.defaults.set (.string uid) "userIdToken"
        firebase.currentUser := some uid
        callbacks := w.callbacks.erase (.authSignIn uid controller) ++ [.getDocument uid]
        screens := screens } := by
  unfold World.authSignIn
  simp only [if_true]
  split
  · next screen h =>
    obtain ⟨screens, hs⟩ := present_fields _ controller screen
    exact ⟨screens, hs⟩
  · exact ⟨w.screens, rfl⟩

theorem didSignIn_fields (w : World) (account : Option String) :
    ∃ callbacks, w.didSignIn account = { w with callbacks := callbacks } := by
  unfold World.didSignIn
  dsimp only
  split
  · exact ⟨_, rfl⟩
  · exact ⟨_, rfl⟩

theorem perform_session (w : World) (e : Event) :
    (perform w e).user = (e.action w).user w.user w.defaults ∧
    (perform w e).defaults = (e.action w).defaults w.defaults := by
  cases e with
  | authSignIn uid controller ok =>
    cases ok with
    | false => exact ⟨rfl, rfl⟩
    | true =>
      obtain ⟨screens, h⟩ := authSignIn_fields w uid controller
      show (w.authSignIn uid controller true).user = _ ∧
        (w.authSignIn uid controller true).defaults = _
      rw [h]
      exact ⟨rfl, rfl⟩
  | didSignIn account =>
    obtain ⟨callbacks, h⟩ := didSignIn_fields w account
    show (w.didSignIn account).user = _ ∧ (w.didSignIn account).defaults = _
    rw [h]
    exact ⟨rfl, rfl⟩
  | documentSnapshot uid result => cases result <;> exact ⟨rfl, rfl⟩
  | finishWritingProfile form =>
    show (w.finishWritingProfile form).user =
        (finishWritingProfile form w.user).action.user w.user w.defaults ∧
      (w.finishWritingProfile form).defaults =
        (finishWritingProfile form w.user).action.defaults w.defaults
    unfold World.finishWritingProfile
    cases finishWritingProfile form w.user <;> exact ⟨rfl, rfl⟩
  | getConnectionCode n =>
    show (w.getConnectionCode n).user = (getConnectionCode w.user n).2.getD w.user ∧
      (w.getConnectionCode n).defaults = w.defaults
    unfold World.getConnectionCode
    rcases getConnectionCode w.user n with ⟨writes, _ | user⟩
    · exact ⟨rfl, rfl⟩
    · exact ⟨rfl, rfl⟩
  | writeDone ok =>
    show (w.writeDone ok).user = _ ∧ (w.writeDone ok).defaults = _
    unfold World.writeDone
    split <;> exact ⟨rfl, rfl⟩
  | uploadDone task ok =>
    show (w.uploadDone task ok).user = _ ∧ (w.uploadDone task ok).defaults = _
    unfold World.uploadDone
    split <;> exact ⟨rfl, rfl⟩
  | goToNextStorybaord => exact ⟨rfl, rfl⟩
  | googleSignIn => exact ⟨rfl, rfl⟩
  | answer uid source seen => exact ⟨rfl, rfl⟩
  | backToSignIn => exact ⟨rfl, rfl⟩
  | no => exact ⟨rfl, rfl⟩
  | yes ok => exact ⟨rfl, rfl⟩
  | backToProfile => exact ⟨rfl, rfl⟩
  | presentAlert => exact ⟨rfl, rfl⟩
  | dismissAlert => exact ⟨rfl, rfl⟩
  | relaunch => exact ⟨rfl, rfl⟩

/-- **The session after a step** is the session after the step's action. -/
theorem step_session (w w' : World) (e : Event) (h : step w e = some w') :
    w'.user = (e.action w).user w.user w.defaults ∧
    w'.defaults = (e.action w).defaults w.defaults := by
  obtain ⟨-, rfl⟩ := (step_eq_some w w' e).1 h
  exact perform_session w e

/-! ## The backend -/

/-- The event is the server taking or refusing a write or an upload. -/
def Event.isDone : Event → Bool
  | .writeDone _ => true
  | .uploadDone _ _ => true
  | _ => false

/-- The user Firebase is signed in as after the event. -/
def Event.currentUser (w : World) : Event → Option String
  | .authSignIn uid _ true => some uid
  | .yes true => none
  | _ => w.firebase.currentUser

/-- What an event other than a completed write does outside the app. -/
structure Issues (w : World) (e : Event) (w' : World) : Prop where
  outbox : w'.firebase.outbox =
    w.firebase.outbox ++ ((e.action w).writes w.user).map (Prod.mk w.firebase.currentUser)
  uploads : w'.uploads = (e.action w).uploads w.uploads
  server : w'.server = w.server

theorem perform_issue (w : World) (e : Event) (he : e.isDone = false) :
    Issues w e (perform w e) := by
  have hnil : w.firebase.outbox = w.firebase.outbox ++ [] := (List.append_nil _).symm
  cases e with
  | writeDone ok => cases he
  | uploadDone task ok => cases he
  | authSignIn uid controller ok =>
    cases ok with
    | false => exact ⟨hnil, rfl, rfl⟩
    | true =>
      obtain ⟨screens, h⟩ := authSignIn_fields w uid controller
      show Issues w _ (w.authSignIn uid controller true)
      rw [h]
      exact ⟨hnil, rfl, rfl⟩
  | didSignIn account =>
    obtain ⟨callbacks, h⟩ := didSignIn_fields w account
    show Issues w _ (w.didSignIn account)
    rw [h]
    exact ⟨hnil, rfl, rfl⟩
  | documentSnapshot uid result => cases result <;> exact ⟨hnil, rfl, rfl⟩
  | finishWritingProfile form =>
    have hquiet : (finishWritingProfile form w.user).action = .quiet →
        ∀ w' : World, w'.firebase = w.firebase → w'.uploads = w.uploads → w'.server = w.server →
        Issues w (.finishWritingProfile form) w' := by
      intro ha w' hf hu hs
      have ha' : (Event.finishWritingProfile form).action w = .quiet := ha
      exact ⟨by rw [hf, ha']; exact hnil, by rw [hu, ha']; rfl, hs⟩
    show Issues w _ (w.finishWritingProfile form)
    unfold World.finishWritingProfile
    cases hf : finishWritingProfile form w.user with
    | saved uid jpeg data =>
      have ha : (Event.finishWritingProfile form).action w = .saved uid jpeg data := by
        show (finishWritingProfile form w.user).action = _
        rw [hf]
        rfl
      exact ⟨by rw [ha]; rfl, by rw [ha]; rfl, rfl⟩
    | noSignInStatus => exact hquiet (by rw [hf]; rfl) _ rfl rfl rfl
    | jpegImageConvertingFailed => exact hquiet (by rw [hf]; rfl) _ rfl rfl rfl
    | alertNoPicture => exact hquiet (by rw [hf]; rfl) _ rfl rfl rfl
    | alertInput => exact hquiet (by rw [hf]; rfl) _ rfl rfl rfl
    | trap => exact hquiet (by rw [hf]; rfl) _ rfl rfl rfl
  | getConnectionCode n =>
    have hwrites : ((Event.getConnectionCode n).action w).writes w.user =
        (getConnectionCode w.user n).1 := rfl
    show Issues w _ (w.getConnectionCode n)
    unfold World.getConnectionCode
    rcases hg : getConnectionCode w.user n with ⟨writes, _ | user⟩
    · exact ⟨by rw [hwrites, hg]; rfl, rfl, rfl⟩
    · exact ⟨by rw [hwrites, hg]; rfl, rfl, rfl⟩
  | goToNextStorybaord => exact ⟨hnil, rfl, rfl⟩
  | googleSignIn => exact ⟨hnil, rfl, rfl⟩
  | answer uid source seen => exact ⟨hnil, rfl, rfl⟩
  | backToSignIn => exact ⟨hnil, rfl, rfl⟩
  | no => exact ⟨hnil, rfl, rfl⟩
  | yes ok => exact ⟨hnil, rfl, rfl⟩
  | backToProfile => exact ⟨hnil, rfl, rfl⟩
  | presentAlert => exact ⟨hnil, rfl, rfl⟩
  | dismissAlert => exact ⟨hnil, rfl, rfl⟩
  | relaunch => exact ⟨hnil, rfl, rfl⟩

/-- A step that completes no write issues the writes of its action and leaves the
server alone. -/
theorem step_issue (w w' : World) (e : Event) (h : step w e = some w') (he : e.isDone = false) :
    Issues w e w' := by
  obtain ⟨-, rfl⟩ := (step_eq_some w w' e).1 h
  exact perform_issue w e he

/-- What a completed write does: it is the oldest of the current user's. -/
structure TakesWrite (w : World) (ok : Bool) (w' : World) : Prop where
  taken : ∃ write, w.pending = write :: w'.pending ∧
    w'.server = if ok then w.server.apply write else w.server
  others : ∀ account, account ≠ w.firebase.currentUser → w'.queue account = w.queue account
  currentUser : w'.firebase.currentUser = w.firebase.currentUser
  uploads : w'.uploads = w.uploads

theorem step_writeDone (w w' : World) (ok : Bool) (h : step w (.writeDone ok) = some w') :
    TakesWrite w ok w' := by
  obtain ⟨hen, rfl⟩ := (step_eq_some w w' _).1 h
  show TakesWrite w ok (w.writeDone ok)
  unfold World.writeDone
  cases ho : w.pending with
  | nil => exact absurd ho hen.2
  | cons write rest =>
    refine ⟨⟨write, ?_, rfl⟩, fun account hne => ?_, rfl, rfl⟩
    · show w.pending = write :: Outbox.lane (Outbox.dropOldest w.firebase.outbox _) _
      rw [Outbox.lane_dropOldest, if_pos rfl]
      have hlane : Outbox.lane w.firebase.outbox w.firebase.currentUser = write :: rest := ho
      rw [hlane]
      exact ho
    · show Outbox.lane (Outbox.dropOldest w.firebase.outbox _) _ = _
      rw [Outbox.lane_dropOldest, if_neg fun h => hne h.symm]
      rfl

/-- What a completed upload does. -/
structure TakesUpload (w : World) (task : Nat) (ok : Bool) (w' : World) : Prop where
  taken : ∃ upload, w.uploads[task]? = some (some upload) ∧
    w'.server = if ok then w.server.store upload else w.server
  uploads : w'.uploads = w.uploads.set task none
  firebase : w'.firebase = w.firebase

theorem step_uploadDone (w w' : World) (task : Nat) (ok : Bool)
    (h : step w (.uploadDone task ok) = some w') : TakesUpload w task ok w' := by
  obtain ⟨⟨-, hen⟩, rfl⟩ := (step_eq_some w w' _).1 h
  obtain ⟨upload, hjoin⟩ := Option.isSome_iff_exists.1 hen
  have htask : w.uploads[task]? = some (some upload) := Option.join_eq_some_iff.1 hjoin
  show TakesUpload w task ok (w.uploadDone task ok)
  unfold World.uploadDone
  rw [htask]
  exact ⟨⟨upload, htask, rfl⟩, rfl, rfl⟩

theorem step_currentUser (w w' : World) (e : Event) (h : step w e = some w') :
    w'.firebase.currentUser = e.currentUser w := by
  obtain ⟨-, hw⟩ := (step_eq_some w w' e).1 h
  cases e with
  | writeDone ok => exact (step_writeDone w w' ok h).currentUser
  | uploadDone task ok => rw [(step_uploadDone w w' task ok h).firebase]; rfl
  | authSignIn uid controller ok =>
    cases ok with
    | false => rw [← hw]; rfl
    | true =>
      obtain ⟨screens, hfields⟩ := authSignIn_fields w uid controller
      rw [← hw]
      show (w.authSignIn uid controller true).firebase.currentUser = some uid
      rw [hfields]
  | didSignIn account =>
    obtain ⟨callbacks, hfields⟩ := didSignIn_fields w account
    rw [← hw]
    show (w.didSignIn account).firebase.currentUser = w.firebase.currentUser
    rw [hfields]
  | finishWritingProfile form =>
    rw [← hw]
    show (w.finishWritingProfile form).firebase.currentUser = w.firebase.currentUser
    unfold World.finishWritingProfile
    cases finishWritingProfile form w.user <;> rfl
  | getConnectionCode n =>
    rw [← hw]
    show (w.getConnectionCode n).firebase.currentUser = w.firebase.currentUser
    unfold World.getConnectionCode
    rcases getConnectionCode w.user n with ⟨writes, _ | user⟩ <;> rfl
  | yes ok => rw [← hw]; cases ok <;> rfl
  | _ => rw [← hw]; rfl

/-- Only a sign-in and a sign-out change the user Firebase is signed in as. -/
theorem currentUser_kept (w : World) (e : Event) (hin : ∀ uid, e.action w ≠ .signedIn uid)
    (hout : e.action w ≠ .signedOut) : e.currentUser w = w.firebase.currentUser := by
  cases e with
  | authSignIn uid controller ok =>
    cases ok with
    | false => rfl
    | true => exact absurd rfl (hin uid)
  | yes ok => exact absurd rfl hout
  | _ => rfl

/-- The queues after a step that completes no write. -/
theorem step_queue (w w' : World) (e : Event) (h : step w e = some w') (he : e.isDone = false)
    (account : Option String) :
    w'.queue account = if w.firebase.currentUser = account
      then w.queue account ++ (e.action w).writes w.user else w.queue account := by
  unfold World.queue
  rw [(step_issue w w' e h he).outbox, Outbox.lane_issue]

/-- A write that is pending after a step was pending before, or is issued now. -/
theorem mem_queue_step (w w' : World) (e : Event) (h : step w e = some w')
    (account : Option String) (write : Write) (hm : write ∈ w'.queue account) :
    write ∈ w.queue account ∨
      (account = w.firebase.currentUser ∧ write ∈ (e.action w).writes w.user) := by
  cases hd : e.isDone with
  | false =>
    rw [step_queue w w' e h hd] at hm
    split at hm
    · next ha =>
      rcases List.mem_append.1 hm with hm | hm
      · exact Or.inl hm
      · exact Or.inr ⟨ha.symm, hm⟩
    · exact Or.inl hm
  | true =>
    refine Or.inl ?_
    cases e with
    | writeDone ok =>
      have htakes := step_writeDone w w' ok h
      by_cases ha : account = w.firebase.currentUser
      · obtain ⟨first, hpending, -⟩ := htakes.taken
        have hm' : write ∈ w'.pending := by
          unfold World.pending
          rw [htakes.currentUser, ← ha]
          exact hm
        rw [ha]
        show write ∈ w.pending
        rw [hpending]
        exact List.mem_cons_of_mem first hm'
      · exact htakes.others account ha ▸ hm
    | uploadDone task ok =>
      unfold World.queue at hm
      rw [(step_uploadDone w w' task ok h).firebase] at hm
      exact hm
    | _ => cases hd

/-- The documents once the pending writes of the account have been taken. -/
def World.settledAs (w : World) (account : Option String) : Collections :=
  w.server.documents.settle (w.queue account)

/-- The same for the user Firebase is signed in as. -/
abbrev World.settled (w : World) : Collections := w.settledAs w.firebase.currentUser

theorem settled_issue (w : World) (writes : List Write) :
    (w.issue writes).settled = w.settled.settle writes := by
  show w.server.documents.settle (Outbox.lane (w.firebase.outbox ++ _) w.firebase.currentUser) = _
  rw [Outbox.lane_issue, if_pos rfl]
  exact Outbox.settle_append Collections.apply _ _ _

/-- As long as no write fails, and none of another account is taken, what the documents
are to become changes by the writes a step issues and by nothing else. -/
theorem step_settledAs (w w' : World) (e : Event) (account : Option String)
    (h : step w e = some w') (he : e ≠ .writeDone false)
    (ha : w.firebase.currentUser = account ∨ e ≠ .writeDone true) :
    w'.settledAs account = (w.settledAs account).settle
      (if w.firebase.currentUser = account then (e.action w).writes w.user else []) := by
  unfold World.settledAs
  cases hd : e.isDone with
  | false =>
    rw [(step_issue w w' e h hd).server, step_queue w w' e h hd]
    split
    · exact Outbox.settle_append Collections.apply _ _ _
    · rfl
  | true =>
    cases e with
    | writeDone ok =>
      cases ok with
      | false => exact absurd rfl he
      | true =>
        rcases ha with rfl | hne
        · have htakes := step_writeDone w w' true h
          obtain ⟨write, hpending, hserver⟩ := htakes.taken
          have hqueue : w'.queue w.firebase.currentUser = w'.pending := by
            unfold World.pending
            rw [htakes.currentUser]
          rw [if_pos rfl, hserver, if_pos rfl, hqueue]
          show _ = w.server.documents.settle w.pending
          rw [hpending]
          rfl
        · exact absurd rfl hne
    | uploadDone task ok =>
      have htakes := step_uploadDone w w' task ok h
      obtain ⟨upload, -, hserver⟩ := htakes.taken
      have hdocs : w'.server.documents = w.server.documents := by
        rw [hserver]
        cases ok <;> rfl
      unfold World.queue
      rw [hdocs, htakes.firebase]
      split <;> rfl
    | _ => cases hd

/-! ## When an action happens -/

theorem step_enabled (w w' : World) (e : Event) (h : step w e = some w') : enabled w e :=
  ((step_eq_some w w' e).1 h).1

/-- What was the case when the action happened. -/
def Action.Guard (w : World) : Action → Prop
  | .restored => w.shows .start
  | .signedIn uid => ∃ controller, .authSignIn uid controller ∈ w.callbacks
  | .fetched uid d => .documentSnapshot uid (.data d) ∈ w.callbacks
  | .saved uid _ data => w.shows .newProfile ∧ w.user.userIdToken = some uid ∧
      ∃ form : ProfileForm, data = form.profile
  | .requested _ => w.shows .makeNewConnect
  | .signedOut => w.shows .signOutAlert
  | _ => True

theorem step_guard (w w' : World) (e : Event) (h : step w e = some w') :
    (e.action w).Guard w := by
  have hen := step_enabled w w' e h
  cases e with
  | goToNextStorybaord => exact hen.2
  | authSignIn uid controller ok =>
    cases ok with
    | false => trivial
    | true => exact ⟨controller, hen.2⟩
  | documentSnapshot uid result =>
    cases result with
    | data d => exact hen.2
    | noDocument => trivial
    | error => trivial
  | finishWritingProfile form =>
    show (finishWritingProfile form w.user).action.Guard w
    cases hf : finishWritingProfile form w.user with
    | saved uid jpeg data =>
      obtain ⟨-, -, ht, hd⟩ := (finishWritingProfile_saved_iff form w.user uid jpeg data).1 hf
      exact ⟨hen.2, ht, form, hd.symm⟩
    | noSignInStatus => trivial
    | jpegImageConvertingFailed => trivial
    | alertNoPicture => trivial
    | alertInput => trivial
    | trap => trivial
  | getConnectionCode n => exact hen.2
  | yes ok => exact hen.2
  | _ => trivial

end ProjectSY
