import ProjectSY.Store.LiveCode

/-!
# The codes of different users

Any number of clients ask for codes, each drawing its own numbers, and their writes
reach the server in any order that keeps each client's own.  The id of
`connection/<code>` is the code: it is set without a look at whose it is, and the
remembered one is deleted without a look as well.

    requestCodes      the writes of a client for its draws
    Interferes        the next write of a client deletes or overwrites a code of
                      another user
    CodesApart        nobody touches a code that another client draws or another
                      user holds

Two clients that draw the same number interfere (`codes_interfere`).  No order of
the writes interferes exactly when `CodesApart` holds, and then a code resolves to
its user until that user gives it up (`codesApart_iff`).
-/

namespace ProjectSY

/-! ## The writes of one client -/

/-- The writes of a client that asks for a code once for each draw. -/
def requestCodes : User → List Nat → List Write
  | _, [] => []
  | user, randomNum :: draws =>
    let (writes, user) := getConnectionCode user randomNum
    writes ++ match user with
      | some user => requestCodes user draws
      | none => []

/-- The client is signed in as `uid` and there is data, so nothing traps. -/
structure SignedInAs (user : User) (uid : String) : Prop where
  token : user.userIdToken = some uid
  data : user.userData ≠ none

/-- The session after a request. -/
def User.requested (user : User) (code : String) : User :=
  { user with userData := some (codeData code) }

theorem SignedInAs.requested {user : User} {uid : String} (h : SignedInAs user uid)
    (code : String) : SignedInAs (user.requested code) uid :=
  ⟨h.token, Option.some_ne_none _⟩

theorem requestCodes_cons (user : User) (uid : String) (n : Nat) (draws : List Nat)
    (h : SignedInAs user uid) :
    requestCodes user (n :: draws) = codeWrites user uid (connectionCode n) ++
      requestCodes (user.requested (connectionCode n)) draws := by
  have hwrites := getConnectionCode_writes user n uid h.token
  have huser := getConnectionCode_user user n (by simp [h.token]) h.data
  rw [requestCodes]
  rcases hg : getConnectionCode user n with ⟨writes, user'⟩
  rw [hg] at hwrites huser
  subst hwrites huser
  rfl

/-- On a device, tapping the button once for each draw issues these writes, as the user
Firebase is signed in as. -/
theorem run_getConnectionCode_pending (draws : List Nat) (w w' : World) (hnav : NavInv w)
    (hr : Runs.run step w (draws.map .getConnectionCode) = some w') :
    w'.pending = w.pending ++ requestCodes w.user draws := by
  induction draws generalizing w with
  | nil =>
    rw [List.map_nil, Runs.run_nil] at hr
    cases hr
    exact (List.append_nil _).symm
  | cons n draws ih =>
    rw [List.map_cons] at hr
    obtain ⟨m, hm, hr⟩ := (Runs.run_cons_eq_some step _ _ _ _).1 hr
    obtain ⟨ht, hd⟩ := hnav.ready_of_shows (step_enabled w m _ hm).2
    obtain ⟨uid, huid⟩ := Option.ne_none_iff_exists'.1 ht
    have huser : m.user = w.user.requested (connectionCode n) :=
      (step_session w m _ hm).1.trans (Action.user_requested w.user w.defaults n ht hd)
    have hout : m.pending = w.pending ++ (getConnectionCode w.user n).1 := by
      have hcurrent : m.firebase.currentUser = w.firebase.currentUser := step_currentUser w m _ hm
      unfold World.pending
      rw [hcurrent, step_queue w m _ hm rfl, if_pos rfl]
      rfl
    rw [ih m (navInv_step w _ m hnav hm) hr, huser, hout,
      getConnectionCode_writes w.user n uid huid, requestCodes_cons w.user uid n draws ⟨huid, hd⟩,
      List.append_assoc]

/-! ## What a write means for the registry of codes -/

def codeMove : Write → Registry.Move String
  | .setData collection id _ => if collection = "connection" then .claim id else .idle
  | .mergeData collection id _ => if collection = "connection" then .claim id else .idle
  | .delete collection id => if collection = "connection" then .release id else .idle

theorem codeMove_name (w : Write) (code : String) :
    (codeMove w).name = some code ↔ w.target = ("connection", code) := by
  have hif : ∀ (c i : String) (m : Registry.Move String), m.name = some i →
      ((if c = "connection" then m else .idle).name = some code ↔
        (c, i) = ("connection", code)) := by
    intro c i m hm
    by_cases hc : c = "connection"
    · rw [if_pos hc, hm]
      simp [hc]
    · rw [if_neg hc]
      simp [Registry.Move.name, hc]
  cases w with
  | setData c i data => exact hif c i _ rfl
  | mergeData c i data => exact hif c i _ rfl
  | delete c i => exact hif c i _ rfl

/-- The server does to the senders what the moves of a client say. -/
theorem sender_apply_of_mem (user : User) (uid : String) (draws : List Nat)
    (h : SignedInAs user uid) (w : Write) (hw : w ∈ requestCodes user draws) (s : Server) :
    (s.apply w).sender = (codeMove w).apply s.sender uid := by
  induction draws generalizing user with
  | nil => cases hw
  | cons n draws ih =>
    rw [requestCodes_cons user uid n draws h] at hw
    rcases List.mem_append.1 hw with hw | hw
    · rcases (mem_codeWrites user uid _ w).1 hw with ⟨last, -, rfl⟩ | rfl | rfl
      · funext c
        show ((s.apply (.delete "connection" last)).doc "connection" c).bind _ =
          (Registry.Move.release last).apply s.sender uid c
        rw [Server.doc_apply_delete, Registry.Move.apply_release]
        simp only [pair_eq_iff]
        split <;> rfl
      · funext c
        show ((s.apply (.setData "connection" (connectionCode n) (senderData uid))).doc
          "connection" c).bind _ = (Registry.Move.claim (connectionCode n)).apply s.sender uid c
        rw [Server.doc_apply_setData, Registry.Move.apply_claim]
        simp only [pair_eq_iff]
        split
        · exact stringField_senderData uid
        · rfl
      · funext c
        show ((s.apply (.mergeData "users" uid _)).doc "connection" c).bind _ = s.sender c
        rw [Server.doc_apply_mergeData, if_neg (users_ne_connection uid c).symm]
        rfl
    · exact ih _ (h.requested _) hw

/-- The codes the writes of a client touch: the ones it draws and, if it draws any,
the one it remembers. -/
def Touches (user : User) (draws : List Nat) (code : String) : Prop :=
  ∃ n ∈ draws, code = connectionCode n ∨ lastConnectionCode user = some code

theorem touches_cons (user : User) (n : Nat) (draws : List Nat) (code : String) :
    Touches user (n :: draws) code ↔ lastConnectionCode user = some code ∨
      code = connectionCode n ∨ Touches (user.requested (connectionCode n)) draws code := by
  have hlast : lastConnectionCode (user.requested (connectionCode n)) = some (connectionCode n) :=
    lastConnectionCode_of_codeData _ _ rfl
  unfold Touches
  rw [hlast]
  constructor
  · rintro ⟨m, hm, hc | hl⟩
    · rcases List.mem_cons.1 hm with rfl | hm
      · exact Or.inr (Or.inl hc)
      · exact Or.inr (Or.inr ⟨m, hm, Or.inl hc⟩)
    · exact Or.inl hl
  · rintro (hl | hc | ⟨m, hm, hc | hc⟩)
    · exact ⟨n, List.mem_cons_self, Or.inr hl⟩
    · exact ⟨n, List.mem_cons_self, Or.inl hc⟩
    · exact ⟨m, List.mem_cons_of_mem n hm, Or.inl hc⟩
    · exact ⟨n, List.mem_cons_self, Or.inl (Option.some.inj hc).symm⟩

theorem codeWrites_touch (user : User) (uid c code : String) :
    (∃ w ∈ codeWrites user uid c, (codeMove w).name = some code) ↔
      lastConnectionCode user = some code ∨ code = c := by
  constructor
  · rintro ⟨w, hw, hname⟩
    rcases (mem_codeWrites user uid c w).1 hw with ⟨last, hl, rfl⟩ | rfl | rfl
    · cases hname
      exact Or.inl hl
    · cases hname
      exact Or.inr rfl
    · cases hname
  · rintro (hl | rfl)
    · exact ⟨_, (mem_codeWrites user uid c _).2 (Or.inl ⟨code, hl, rfl⟩), rfl⟩
    · exact ⟨_, (mem_codeWrites user uid code _).2 (Or.inr (Or.inl rfl)), rfl⟩

theorem codeWrites_claim (user : User) (uid c code : String) :
    (∃ w ∈ codeWrites user uid c, codeMove w = .claim code) ↔ code = c := by
  constructor
  · rintro ⟨w, hw, hclaim⟩
    rcases (mem_codeWrites user uid c w).1 hw with ⟨last, -, rfl⟩ | rfl | rfl
    · cases hclaim
    · cases hclaim
      rfl
    · cases hclaim
  · rintro rfl
    exact ⟨_, (mem_codeWrites user uid code _).2 (Or.inr (Or.inl rfl)), rfl⟩

theorem touched_iff (user : User) (uid : String) (draws : List Nat) (code : String)
    (h : SignedInAs user uid) :
    (∃ w ∈ requestCodes user draws, (codeMove w).name = some code) ↔ Touches user draws code := by
  induction draws generalizing user with
  | nil =>
    constructor
    · rintro ⟨w, hw, -⟩
      cases hw
    · rintro ⟨n, hn, -⟩
      cases hn
  | cons n draws ih =>
    rw [requestCodes_cons user uid n draws h, touches_cons, ← or_assoc,
      ← codeWrites_touch user uid, ← ih _ (h.requested _)]
    simp only [List.mem_append, or_and_right, exists_or]

theorem claimed_iff (user : User) (uid : String) (draws : List Nat) (code : String)
    (h : SignedInAs user uid) :
    (∃ w ∈ requestCodes user draws, codeMove w = .claim code) ↔
      ∃ n ∈ draws, code = connectionCode n := by
  induction draws generalizing user with
  | nil =>
    constructor
    · rintro ⟨w, hw, -⟩
      cases hw
    · rintro ⟨n, hn, -⟩
      cases hn
  | cons n draws ih =>
    rw [requestCodes_cons user uid n draws h]
    simp only [List.mem_append, List.mem_cons, or_and_right, exists_or, exists_eq_left,
      ih _ (h.requested _), codeWrites_claim]

/-! ## Many clients -/

section Clients

variable {ι : Type*} (uid : ι → String)

/-- The server, and for each client the writes it issues for its draws. -/
def clients (server : Server) (user : ι → User) (draws : ι → List Nat) :
    Outbox.Shared Server Write ι :=
  ⟨server, fun i => requestCodes (user i) (draws i)⟩

/-- The next write of client `i` deletes or overwrites `connection/<code>` whose
sender is another user. -/
def Interferes (s : Outbox.Shared Server Write ι) (i : ι) : Prop :=
  ∃ w ws code v, s.outbox i = w :: ws ∧ w.target = ("connection", code) ∧
    s.store.sender code = some v ∧ v ≠ uid i

/-- The next write of client `i` is about the code. -/
def About (s : Outbox.Shared Server Write ι) (i : ι) (code : String) : Prop :=
  ∃ w ws, s.outbox i = w :: ws ∧ w.target = ("connection", code)

/-- What the draws have to meet. -/
structure CodesApart (server : Server) (user : ι → User) (draws : ι → List Nat) : Prop where
  drawn : ∀ i j, i ≠ j → ∀ code, Touches (user i) (draws i) code →
    ∀ n ∈ draws j, code ≠ connectionCode n
  held : ∀ i code v, Touches (user i) (draws i) code → server.sender code = some v → v = uid i

theorem interferes_iff_disturbed (s : Outbox.Shared Server Write ι) (i : ι) :
    Interferes uid s i ↔ Registry.Disturbed Server.sender uid codeMove s i := by
  constructor
  · rintro ⟨w, ws, code, v, hw, ht, hv, hne⟩
    exact ⟨w, ws, hw, code, v, (codeMove_name w code).2 ht, hv, hne⟩
  · rintro ⟨w, ws, hw, code, v, hk, hv, hne⟩
    exact ⟨w, ws, code, v, hw, (codeMove_name w code).1 hk, hv, hne⟩

theorem codesApart_iff_apart (server : Server) (user : ι → User) (draws : ι → List Nat)
    (hin : ∀ i, SignedInAs (user i) (uid i)) :
    CodesApart uid server user draws ↔
      Registry.Apart Server.sender uid codeMove (clients server user draws) := by
  have htouch := fun i code => touched_iff (user i) (uid i) (draws i) code (hin i)
  have hclaim := fun i code => claimed_iff (user i) (uid i) (draws i) code (hin i)
  constructor
  · intro h
    refine ⟨fun i j hij w hw w' hw' code hk hc => ?_, fun i w hw code v hk hv => ?_⟩
    · obtain ⟨n, hn, hcode⟩ := (hclaim j code).1 ⟨w', hw', hc⟩
      exact h.drawn i j hij code ((htouch i code).1 ⟨w, hw, hk⟩) n hn hcode
    · exact h.held i code v ((htouch i code).1 ⟨w, hw, hk⟩) hv
  · intro h
    refine ⟨fun i j hij code ht n hn hcode => ?_, fun i code v ht hv => ?_⟩
    · obtain ⟨w, hw, hk⟩ := (htouch i code).2 ht
      obtain ⟨w', hw', hc⟩ := (hclaim j code).2 ⟨n, hn, hcode⟩
      exact h.claimed i j hij w hw w' hw' code hk hc
    · obtain ⟨w, hw, hk⟩ := (htouch i code).2 ht
      exact h.held i w hw code v hk hv

/-- **When the codes of different users do not interfere.**  For any number of
clients signed in with different user ids, any draws and any server: no write of a
client deletes or overwrites a code of another user, in whatever order the writes
reach the server, exactly when no client touches a code that another one draws or
that another user holds; and then, along every order, a code resolves to its user
until that user's own client touches it again. -/
theorem codesApart_iff [DecidableEq ι] (server : Server) (user : ι → User) (draws : ι → List Nat)
    (hinj : Function.Injective uid) (hin : ∀ i, SignedInAs (user i) (uid i)) :
    ((∀ sched s, Runs.run (Outbox.deliver Server.apply) (clients server user draws) sched = some s →
        ∀ i, ¬ Interferes uid s i) ↔ CodesApart uid server user draws) ∧
    (CodesApart uid server user draws → ∀ sched sched' s s' code v,
      Runs.run (Outbox.deliver Server.apply) (clients server user draws) sched = some s →
      Runs.run (Outbox.deliver Server.apply) s sched' = some s' →
      Runs.Meets (Outbox.deliver Server.apply) (fun s i => uid i = v → ¬ About s i code) s sched' →
      s.store.sender code = some v → s'.store.sender code = some v) := by
  have himp : ∀ i, Registry.Implements Server.apply Server.sender uid codeMove i
      ((clients server user draws).outbox i) :=
    fun i w hw s => sender_apply_of_mem (user i) (uid i) (draws i) (hin i) w hw s
  constructor
  · rw [codesApart_iff_apart uid server user draws hin,
      ← Registry.undisturbed_iff_apart Server.apply Server.sender uid codeMove _ hinj himp]
    simp only [interferes_iff_disturbed]
  · intro h sched sched' s s' code v hrun hrun' hown hv
    have hapart := (codesApart_iff_apart uid server user draws hin).1 h
    have hinv := Runs.run_invariant (Outbox.deliver Server.apply)
      (fun s => (∀ i, Registry.Implements Server.apply Server.sender uid codeMove i (s.outbox i)) ∧
        Registry.Apart Server.sender uid codeMove s)
      (fun s i s' hI hs =>
        ⟨(Registry.apart_step Server.apply Server.sender uid codeMove s s' i hI.1 hI.2 hs).1,
          (Registry.apart_step Server.apply Server.sender uid codeMove s s' i hI.1 hI.2 hs).2.1⟩)
      _ s sched ⟨himp, hapart⟩ hrun
    refine Registry.kept_run Server.apply Server.sender uid codeMove s s' sched' code v
      hinv.1 hinv.2 hrun' (fun pre i hp t ht hi => ?_) hv
    rintro ⟨w, ws, hw, hk⟩
    exact hown pre i hp t ht hi ⟨w, ws, hw, (codeMove_name w code).1 hk⟩

end Clients

/-! ## Two clients -/

/-- `A` and `B`, each with a profile of its own and no code yet. -/
def twoUids : Bool → String
  | true => "A"
  | false => "B"

def twoUsers (i : Bool) : User := ⟨some (twoUids i), none, some profileOfA⟩

theorem twoUids_injective : Function.Injective twoUids := by decide

theorem twoUsers_signedIn (i : Bool) : SignedInAs (twoUsers i) (twoUids i) :=
  ⟨rfl, Option.some_ne_none _⟩

/-- Both draw 7: once `connection/000007` names `A`, the client of `B` overwrites it. -/
theorem codes_interfere :
    ¬ ∀ (ι : Type) (_ : DecidableEq ι) (uid : ι → String) (server : Server) (user : ι → User)
      (draws : ι → List Nat), Function.Injective uid → (∀ i, SignedInAs (user i) (uid i)) →
      (∀ i, ∀ n ∈ draws i, n < 1000000) → ∀ sched s,
      Runs.run (Outbox.deliver Server.apply) (clients server user draws) sched = some s →
      ∀ i, ¬ Interferes uid s i := by
  intro h
  have hbad : (Runs.run (Outbox.deliver Server.apply)
      (clients ⟨∅, ∅⟩ twoUsers fun _ => [7]) [true]).any (fun s =>
        decide (s.store.sender "000007" = some "A" ∧
          (s.outbox false).head? = some (.setData "connection" "000007" (senderData "B")))) =
      true := by
    decide +kernel
  obtain ⟨s, hs, hbad⟩ := (Option.any_eq_true _ _).1 hbad
  obtain ⟨hsender, hnext⟩ := of_decide_eq_true hbad
  obtain ⟨ws, hws⟩ := List.head?_eq_some_iff.1 hnext
  exact h Bool inferInstance twoUids ⟨∅, ∅⟩ twoUsers (fun _ => [7]) twoUids_injective
    twoUsers_signedIn (by decide) [true] s hs false
    ⟨_, ws, "000007", "A", hws, rfl, hsender, by decide⟩

/-- `A` draws 7 and 8, `B` draws 42. -/
def twoDraws (i : Bool) : List Nat := if i then [7, 8] else [42]

theorem twoDraws_apart : CodesApart twoUids ⟨∅, ∅⟩ twoUsers twoDraws := by
  refine ⟨?_, fun i code v _ hv => by cases hv⟩
  rintro i j hij code ⟨n, hn, hcode | hlast⟩ m hm rfl
  · have hnm := connectionCode_injective _ _ hcode
    revert i j n m
    decide
  · cases hlast

/-- Once `A` has its first code, the writes of `B` leave it alone. -/
theorem codesApart_iff_twoDraws :
    ∃ s s', Runs.run (Outbox.deliver Server.apply) (clients ⟨∅, ∅⟩ twoUsers twoDraws)
        [true] = some s ∧
      Runs.run (Outbox.deliver Server.apply) s [false, false] = some s' ∧
      (∀ i, ¬ Interferes twoUids s i) ∧ s'.store.sender "000007" = some "A" := by
  have hrun : (Runs.run (Outbox.deliver Server.apply) (clients ⟨∅, ∅⟩ twoUsers twoDraws)
      [true]).any (fun s => decide (s.store.sender "000007" = some "A") &&
        (Runs.run (Outbox.deliver Server.apply) s [false, false]).any fun _ => true) = true := by
    decide +kernel
  obtain ⟨s, hs, hrun⟩ := (Option.any_eq_true _ _).1 hrun
  rw [Bool.and_eq_true, decide_eq_true_eq] at hrun
  obtain ⟨hsender, hrun⟩ := hrun
  obtain ⟨s', hs', -⟩ := (Option.any_eq_true _ _).1 hrun
  obtain ⟨hiff, hkept⟩ :=
    codesApart_iff twoUids ⟨∅, ∅⟩ twoUsers twoDraws twoUids_injective twoUsers_signedIn
  refine ⟨s, s', hs, hs', hiff.2 twoDraws_apart _ s hs, ?_⟩
  refine hkept twoDraws_apart _ _ s s' "000007" "A" hs hs' (fun pre i hp t ht hi => ?_) hsender
  -- the two writes are those of `B`
  have hmem : i ∈ [false, false] :=
    hp.subset (List.mem_append_right pre (List.mem_singleton_self i))
  rw [show i = false by simpa using hmem] at hi
  exact absurd hi (by decide)

end ProjectSY
