import ProjectSY.Session.Relaunch
import ProjectSY.Store.Writes
import ProjectSY.Lib.Registry

/-!
# One live code per user

`connection/<code>` names its sender and `users/<uid>` names the code: the
collection `connection` is a registry of codes, and the field `connectionCode` a
user's pointer into it.

    c.sender         the registry: who sent `connection/<code>`
    c.codeOf u       the pointer: the `connectionCode` of `users/<u>`
    OneLiveCode u c  `u` is the sender of exactly the code it points at

The pointer is lost when a profile replaces the document, and missed when the code
the session remembers is not the one the document names; then an earlier code stays
behind (`orphan_code`).  A run keeps one live code exactly when it does neither
(`oneLiveCode_iff`).
-/

namespace ProjectSY

/-- The `sender` of `connection/<code>`. -/
def Collections.sender (c : Collections) : Registry.Holders String String :=
  fun code => (c.doc "connection" code).bind fun d => stringField d "sender"

/-- The `connectionCode` of `users/<uid>`. -/
def Collections.codeOf (c : Collections) (uid : String) : Option String :=
  (c.doc "users" uid).bind fun d => stringField d "connectionCode"

def Server.sender (s : Server) : Registry.Holders String String := s.documents.sender

def Server.codeOf (s : Server) (uid : String) : Option String := s.documents.codeOf uid

/-- The codes sent by `u` are the one code `users/<u>` names, or none if it names
none. -/
def OneLiveCode (u : String) (c : Collections) : Prop := Registry.PointsAt c.sender u (c.codeOf u)

/-! ## What the writes do to the codes -/

theorem sender_settle_profileWrites (s : Collections) (uid : String) (data : Dict) :
    (s.settle (profileWrites uid data)).sender = s.sender := by
  funext code
  unfold Collections.sender
  rw [connection_settle_profileWrites]

/-- A saved profile drops the pointer. -/
theorem codeOf_settle_profileWrites (s : Collections) (uid : String) (form : ProfileForm) :
    (s.settle (profileWrites uid form.profile)).codeOf uid = none := by
  unfold Collections.codeOf stringField
  rw [users_settle_profileWrites, if_pos rfl, Option.bind_some, form.profile_connectionCode]
  rfl

/-- A requested code is claimed after the remembered one is released. -/
theorem sender_settle_codeWrites (s : Collections) (user : User) (uid code : String) :
    (s.settle (codeWrites user uid code)).sender =
      Registry.request s.sender uid (lastConnectionCode user) code := by
  funext c
  rw [Registry.request_apply]
  unfold Collections.sender
  rw [connection_settle_codeWrites]
  by_cases hc : c = code
  · rw [if_pos hc, if_pos hc]
    exact stringField_senderData uid
  · rw [if_neg hc, if_neg hc]
    split <;> rfl

theorem codeOf_settle_codeWrites (s : Collections) (user : User) (uid code : String) :
    (s.settle (codeWrites user uid code)).codeOf uid = some code := by
  unfold Collections.codeOf
  have hmem : "connectionCode" ∈ codeData code := (Finmap.mem_singleton _ _ _).2 rfl
  rw [users_settle_codeWrites, if_pos rfl, Option.bind_some, stringField_union _ _ _ hmem]
  exact stringField_codeData code

/-! ## One step -/

/-- What an action has to meet: a profile is saved only while the document names no
code, and a code is requested only while the document names none, or the one the
session remembers, or the very code that is drawn. -/
def KeepsCode (u : String) (w : World) : Action → Prop
  | .saved _ _ _ => (w.settledAs (some u)).codeOf u = none
  | .requested n => (w.settledAs (some u)).codeOf u = none ∨
      (w.settledAs (some u)).codeOf u = lastConnectionCode w.user ∨
      (w.settledAs (some u)).codeOf u = some (connectionCode n)
  | _ => True

instance (u : String) (w : World) (a : Action) : Decidable (KeepsCode u w a) :=
  match a with
  | .saved _ _ _ => inferInstanceAs (Decidable (_ = _))
  | .requested _ => inferInstanceAs (Decidable (_ ∨ _))
  | .quiet | .launched | .restored | .signedIn _ | .fetched _ _ | .signedOut =>
    inferInstanceAs (Decidable True)

/-- No account but `u` is stored, or has writes to be taken. -/
structure OnlyAccount (u : String) (w : World) : Prop where
  stored : ∀ v, w.defaults.string "userIdToken" = some v → v = u
  queue : ∀ account, account ≠ some u → w.queue account = []

/-- Whoever is signed in is `u`. -/
theorem OnlyAccount.signedIn {u : String} {w : World} (h : OnlyAccount u w) (hst : Stored w)
    (uid : String) (ht : w.user.userIdToken = some uid) :
    uid = u ∧ w.firebase.currentUser = some u := by
  have huid : uid = u := h.stored uid (hst.token uid ht)
  exact ⟨huid, huid ▸ hst.signedIn uid ht⟩

/-- Only somebody who is signed in issues writes. -/
theorem writes_signedIn (w w' : World) (e : Event) (hnav : NavInv w) (hs : step w e = some w')
    (write : Write) (hm : write ∈ (e.action w).writes w.user) :
    ∃ uid, w.user.userIdToken = some uid := by
  have hg := step_guard w w' e hs
  cases ha : e.action w with
  | saved uid jpeg data => rw [ha] at hg; exact ⟨uid, hg.2.1⟩
  | requested n =>
    rw [ha] at hg
    exact Option.ne_none_iff_exists'.1 (hnav.ready_of_shows hg).1
  | _ => rw [ha] at hm; cases hm

theorem onlyAccount_step (u : String) (w : World) (e : Event) (w' : World) (hst : Stored w)
    (h : OnlyAccount u w) (he : e.ofAccount u = true) (hs : step w e = some w') :
    OnlyAccount u w' := by
  refine ⟨fun v hv => ?_, fun account hne => ?_⟩
  · have htoken : ((e.action w).disk w.disk).token = some v := by
      rw [← step_disk w w' e hst.own hs]
      exact hv
    cases ha : e.action w with
    | signedIn uid =>
      rw [ha] at htoken
      obtain ⟨controller, rfl⟩ := action_eq_signedIn w e uid ha
      have huid : uid = u := of_decide_eq_true he
      have huv : uid = v := Option.some.inj htoken
      rw [← huv, huid]
    | signedOut => rw [ha] at htoken; cases htoken
    | _ => rw [ha] at htoken; exact h.stored v htoken
  · refine List.eq_nil_iff_forall_not_mem.2 fun write hm => ?_
    rcases mem_queue_step w w' e hs account write hm with hold | ⟨rfl, hnew⟩
    · rw [h.queue account hne] at hold
      cases hold
    · obtain ⟨uid, ht⟩ := writes_signedIn w w' e hst.nav hs write hnew
      exact hne (h.signedIn hst uid ht).2

/-- While no account but `u` has writes to be taken, what becomes of the documents changes
by the writes a step issues and by nothing else. -/
theorem OnlyAccount.settledAs_step {u : String} {w w' : World} {e : Event} (h : OnlyAccount u w)
    (hst : Stored w) (he : e ≠ .writeDone false) (hs : step w e = some w') :
    w'.settledAs (some u) =
      (w.settledAs (some u)).settle ((e.action w).writes w.user) := by
  by_cases ha : w.firebase.currentUser = some u
  · rw [step_settledAs w w' e (some u) hs he (Or.inl ha), if_pos ha]
  · have hnil : (e.action w).writes w.user = [] := by
      refine List.eq_nil_iff_forall_not_mem.2 fun write hm => ?_
      obtain ⟨uid, ht⟩ := writes_signedIn w w' e hst.nav hs write hm
      exact ha (h.signedIn hst uid ht).2
    have htrue : e ≠ .writeDone true := by
      rintro rfl
      exact (step_enabled w w' _ hs).2 (h.queue _ ha)
    rw [step_settledAs w w' e (some u) hs he (Or.inr htrue), if_neg ha, hnil]

/-- A step of `u`'s device keeps one live code exactly when it meets `KeepsCode`. -/
theorem oneLiveCode_step (u : String) (w : World) (e : Event) (w' : World) (hst : Stored w)
    (hu : OnlyAccount u w) (h : OneLiveCode u (w.settledAs (some u))) (he : e ≠ .writeDone false)
    (hs : step w e = some w') :
    OneLiveCode u (w'.settledAs (some u)) ↔ KeepsCode u w (e.action w) := by
  rw [hu.settledAs_step hst he hs]
  have hg := step_guard w w' e hs
  have hsame : OneLiveCode u ((w.settledAs (some u)).settle []) ↔ True :=
    ⟨fun _ => trivial, fun _ => h⟩
  cases ha : e.action w with
  | saved uid jpeg data =>
    rw [ha] at hg
    obtain ⟨-, ht, form, rfl⟩ := hg
    obtain ⟨rfl, -⟩ := hu.signedIn hst uid ht
    show Registry.PointsAt ((w.settledAs (some uid)).settle (profileWrites uid form.profile)).sender
      uid (((w.settledAs (some uid)).settle (profileWrites uid form.profile)).codeOf uid) ↔ _
    rw [sender_settle_profileWrites, codeOf_settle_profileWrites]
    exact Registry.pointsAt_none (w.settledAs (some uid)).sender uid _ h
  | requested n =>
    rw [ha] at hg
    obtain ⟨uid, ht⟩ := Option.ne_none_iff_exists'.1 (hst.nav.ready_of_shows hg).1
    obtain ⟨rfl, -⟩ := hu.signedIn hst uid ht
    show OneLiveCode uid ((w.settledAs (some uid)).settle (getConnectionCode w.user n).1) ↔ _
    rw [getConnectionCode_writes w.user n uid ht]
    unfold OneLiveCode
    rw [sender_settle_codeWrites, codeOf_settle_codeWrites]
    exact Registry.pointsAt_request (w.settledAs (some uid)).sender uid _ _ _ h
  | _ => exact hsame

/-! ## Whole runs -/

theorem FirstLaunch.onlyAccount {w : World} (h : FirstLaunch w) (u : String) :
    OnlyAccount u w := by
  have hnone : w.defaults.string "userIdToken" = none := congrArg Session.token h.disk
  refine ⟨fun v hv => ?_, fun account _ => h.queue account⟩
  cases hnone.symm.trans hv

/-- **When a user has one live code.**  Along a run of the account `u`, with any
number of saves, code requests, sign-outs, sign-ins as `u` and relaunches, in which
no write fails: once the writes issued so far are applied `u` is the sender of
exactly the code its document names, in every state, exactly when every save and
every request meets `KeepsCode`. -/
theorem oneLiveCode_iff (u : String) (w0 w : World) (es : List Event) (h0 : FirstLaunch w0)
    (hlive : OneLiveCode u w0.server.documents) (hr : Runs.run step w0 es = some w)
    (hes : ∀ e ∈ es, e.ofAccount u = true ∧ e ≠ .writeDone false) :
    Runs.Always step (fun w => OneLiveCode u (w.settledAs (some u))) w0 es ↔
      Runs.Meets step (fun w e => KeepsCode u w (e.action w)) w0 es := by
  refine Runs.always_iff_meets step (fun w => Stored w ∧ OnlyAccount u w) _
    (fun e => e.ofAccount u = true ∧ e ≠ .writeDone false) _ ?_ ?_ w0 w es
    ⟨h0.stored, h0.onlyAccount u⟩ (by rw [h0.settledAs]; exact hlive) hes hr
  · intro s e s' hI he hs
    exact ⟨stored_step s e s' hI.1 hs, onlyAccount_step u s e s' hI.1 hI.2 he.1 hs⟩
  · intro s e s' hI hP he hs
    exact oneLiveCode_step u s e s' hI.1 hI.2 hP he.2 hs

/-- A server that knows nothing of `u`. -/
theorem oneLiveCode_empty (u : String) : OneLiveCode u ∅ := by
  intro code
  constructor <;> intro h <;> cases h

/-- `A`, who has asked for a code, goes back and saves the profile again. -/
def profileSavedAgain : List Event :=
  savedByNewcomer ++ [.getConnectionCode 7, .backToProfile,
    .finishWritingProfile (formOfA "hi")] ++ List.replicate 4 (.writeDone true) ++
  [.uploadDone 0 true, .uploadDone 1 true]

/-- An earlier code can stay behind: after the second save `connection/000007` still
names `A`, whose document names no code. -/
theorem orphan_code :
    ¬ ∀ (u : String) (w0 w : World) (es : List Event), FirstLaunch w0 →
      OneLiveCode u w0.server.documents → Runs.run step w0 es = some w →
      (∀ e ∈ es, e.ofAccount u = true ∧ e ≠ .writeDone false) → w.Idle →
      OneLiveCode u w.server.documents := by
  intro h
  have hbad : (Runs.run step (newDevice ⟨∅, ∅⟩) profileSavedAgain).any (fun w =>
      decide (w.Idle ∧ w.server.documents.sender "000007" = some "A" ∧
        w.server.documents.codeOf "A" = none)) = true := by
    decide +kernel
  obtain ⟨w, hw, hbad⟩ := (Option.any_eq_true _ _).1 hbad
  obtain ⟨ho, hsender, hcode⟩ := of_decide_eq_true hbad
  have hlive := h "A" _ w profileSavedAgain (firstLaunch_newDevice ⟨∅, ∅⟩) (oneLiveCode_empty "A")
    hw (by decide) ho
  have hpoint := (hlive "000007").1 hsender
  rw [hcode] at hpoint
  cases hpoint

/-- `A`, who is new, saves a profile and asks for two codes. -/
def twoCodes : List Event := savedByNewcomer ++ [.getConnectionCode 7, .getConnectionCode 42]

theorem oneLiveCode_iff_twoCodes :
    Runs.Always step (fun w => OneLiveCode "A" (w.settledAs (some "A"))) (newDevice ⟨∅, ∅⟩)
      twoCodes := by
  have hrun : (Runs.run step (newDevice ⟨∅, ∅⟩) twoCodes).any (fun _ => true) = true := by
    decide +kernel
  obtain ⟨w, hw, -⟩ := (Option.any_eq_true _ _).1 hrun
  refine (oneLiveCode_iff "A" _ w _ (firstLaunch_newDevice ⟨∅, ∅⟩) (oneLiveCode_empty "A") hw
    (by decide)).2 ?_
  exact Runs.meets_of_meetsB _ _ _ _ (by decide +kernel)

end ProjectSY
