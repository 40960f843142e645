import ProjectSY.Firestore.Network

/-!
# The client refines the ledger

Whatever the app, the network and the server do, no assertion of the write path
fails, unless the server ends a stream with `OK` that is still needed; and every
task of the client is one step of the ledger (`label`), or none.  The app's part
is that its writes can be stored (`CanStore`).
-/

namespace ProjectSY.Firestore

namespace Ledger

def advance (L : Ledger) : Option Event → Option Ledger
  | none => some L
  | some e => L.step e

end Ledger

namespace Client

/-- What the event is for the ledger. -/
def label (c : Client) : Event → Option Ledger.Event
  | .writeMutations mutations callback => some (.enter mutations callback)
  | .credentialChange user => some (.signIn user)
  | .streamRead => if c.stream.handshakeComplete then some (.settle none) else none
  | .streamFinish (some error) =>
    if error.isPermanentWriteError ∧ c.stream.handshakeComplete ∧ c.writePipeline ≠ [] then
      some (.settle (some error))
    else none
  | .relaunch user => some (.restart user)
  | _ => none

/-- What is on the wire after the event. -/
def wireAfter (c : Client) : Event → Wire
  | .serverAnswer results => { c.wire with
      responses := c.stream.responses ++ (c.stream.requests.take 1).map (⟨·, results⟩) }
  | .streamRead => ⟨c.abandoned, true, c.stream.responses.tail⟩
  | .credentialChange _ | .disableNetwork | .connectivityChange | .streamFinish _ | .idleTimeout
  | .relaunch _ => c.cut
  | .lateRequest => { c.wire with abandoned := c.abandoned.tail }
  | .lostRequests => { c.wire with abandoned := [] }
  | _ => c.wire

/-- The documents of the client. -/
abbrev Cache := Finmap fun _ : DocumentKey => MaybeDocument

def cache (c : Client) : Cache := c.store.db.remoteDocuments

/-- What becomes of the cache: it takes up the oldest batch when that is acknowledged, and what the
watch stream brings. -/
def cacheAfter (c : Client) : Event → Option Cache
  | .streamRead =>
    if c.stream.handshakeComplete then
      match c.stream.responses, c.writePipeline with
      | response :: _, b :: _ =>
        if h : response.results.length = b.mutations.length then
          b.keys.dedup.foldlM (LocalStore.applyResultTo ⟨b, response.results, h⟩) c.cache
        else none
      | _, _ => none
    else some c.cache
  | .remoteEvent documentUpdates =>
    some (documentUpdates.foldl (LocalStore.applyDocumentUpdate c.cache) (c.cache, [])).1
  | _ => some c.cache

def Event.isWrite : Event → Bool
  | .writeMutations _ _ => true
  | _ => false

/-- The next batch id after the event is not above this. -/
def idAfter (c : Client) (e : Event) : Int :=
  c.store.nextBatchId + (if e.isWrite then 1 else 0 : Nat)

/-- What the app writes can be read back, and there is a number for it. -/
def CanStore (c : Client) : Event → Prop
  | .writeMutations mutations _ =>
    (∀ m ∈ mutations, m.Readable) ∧ c.store.nextBatchId < maxBatchId
  | _ => True

/-- The task ends, with what became of the ledger, the wire and the cache, and a bound on the next
batch id. -/
def EndsAs (result : Option Client) (L : Option Ledger) (W : Wire) (D : Option Cache) (n : Int) :
    Prop :=
  ∃ c', result = some c' ∧ c'.Sound ∧ L = some c'.ledger ∧ c'.wire = W ∧ D = some c'.cache ∧
    c'.store.nextBatchId ≤ n

theorem fill_endsAs {c : Client} (h : c.Ready) :
    EndsAs c.fillWritePipeline (some c.ledger) c.wire (some c.cache) c.store.nextBatchId := by
  obtain ⟨pipeline, stream, heq, hs, hw⟩ := fill_sound h
  exact ⟨_, heq, hs, rfl, hw, rfl, le_refl _⟩

/-! ## The app and the platform -/

theorem writeMutations_endsAs {c : Client} (h : c.Sound) {mutations : List Mutation}
    (hne : mutations ≠ []) (callback : StatusCallback)
    (hstore : c.CanStore (.writeMutations mutations callback)) :
    EndsAs (c.writeMutations mutations callback) (c.ledger.step (.enter mutations callback))
      c.wire (some c.cache) (c.store.nextBatchId + 1) := by
  obtain ⟨store, changes, hw, hwrote⟩ := LocalStore.writeLocally_ok h.store hne hstore.1 hstore.2
  have hnone := get_callback_none h.kept h.store c.currentUser
  set c1 : Client := { c with
    store := store
    mutationCallbacks :=
      c.mutationCallbacks.put ⟨c.currentUser, c.store.nextBatchId⟩ callback } with hc1
  have hprefix : c.store.pending <+: store.pending := by
    obtain ⟨b, -, -, hp⟩ := hwrote.pending
    unfold LocalStore.pending
    rw [hwrote.userId, hp, if_pos rfl]
    exact List.prefix_append _ _
  have hready : c1.Ready :=
    ⟨hwrote.ok, hwrote.userId.trans h.user, kept_enter h.kept h.user callback hwrote, h.stream,
      h.pipeline.trans hprefix, h.limit, h.quiet⟩
  have hledger : c.ledger.step (.enter mutations callback) = some c1.ledger := by
    unfold Ledger.step ledger
    simp only [Option.some.injEq, Ledger.mk.injEq]
    refine ⟨?_, rfl, rfl⟩
    funext u
    rw [queue_enter h.store h.user callback hwrote u, Function.update_apply]
    by_cases hu : u = c.currentUser
    · rw [if_pos hu, if_pos hu, hu]
    · rw [if_neg hu, if_neg hu]
  have heq : c.writeMutations mutations callback = c1.fillWritePipeline := by
    unfold writeMutations
    simp only [hw, Option.bind_eq_bind, Option.bind_some, hnone, Option.isNone_none, if_true]
    rfl
  have hcache : c.cache = c1.cache := hwrote.remoteDocuments.symm
  rw [heq, hledger, hcache, ← hwrote.nextBatchId]
  exact fill_endsAs hready

theorem credentialChange_endsAs {c : Client} (h : c.Sound) (user : String) :
    EndsAs (c.handleCredentialChange user) (c.ledger.step (.signIn user)) c.cut (some c.cache)
      c.store.nextBatchId := by
  -- the client once its store is the store of the user
  have hswap : ∃ c1 : Client, c.handleCredentialChange user =
      (if c1.isNetworkEnabled then c1.restartNetwork else some c1) ∧ c1.store.Ok ∧
      c1.store.userId = user ∧ c1.store.nextBatchId ≤ c.store.nextBatchId ∧
      c1.currentUser = user ∧ c1.isNetworkEnabled = c.isNetworkEnabled ∧ c1.stream = c.stream ∧
      c1.abandoned = c.abandoned ∧ c1.writePipeline = c.writePipeline ∧
      c1.store.db = c.store.db ∧ c1.mutationCallbacks = c.mutationCallbacks ∧
      c1.notices = c.notices := by
    unfold handleCredentialChange
    by_cases hu : c.currentUser = user
    · subst hu
      simp only [ne_eq, not_true_eq_false, if_false, Option.bind_eq_bind, Option.bind_some]
      exact ⟨c, rfl, h.store, h.user, le_refl _, rfl, rfl, rfl, rfl, rfl, rfl, rfl, rfl⟩
    · obtain ⟨changes, hch⟩ := LocalStore.handleUserChange_ok h.store user
      obtain ⟨hok, hid⟩ := LocalStore.ok_start h.store user
      simp only [ne_eq, hu, not_false_eq_true, if_true, Option.bind_eq_bind,
        failOutstandingPendingWriteCallbacks, hch, Option.bind_some]
      exact ⟨{ c.failOutstandingPendingWriteCallbacks with
        currentUser := user, store := LocalStore.start c.store.db user },
        rfl, hok, rfl, hid, rfl, rfl, rfl, rfl, rfl, rfl, rfl, rfl⟩
  obtain ⟨c1, heq, hok, huid, hid, hcur, hnet, hstream, hab, hpipe, hdb, hcb, hnot⟩ := hswap
  have hkept : c1.Kept := by
    unfold Kept
    rw [hdb, hcb]
    exact h.kept
  have hledger : c.ledger.step (.signIn user) = some c1.ledger := by
    unfold Ledger.step ledger queue
    rw [hdb, hcb, hcur, hnot]
  have hcache : c.cache = c1.cache := congrArg Db.remoteDocuments hdb.symm
  have hcut : c.cut = c1.cut := by
    unfold cut
    rw [hab, hstream]
  rw [heq, hledger, hcache, hcut]
  have huser : c1.store.userId = c1.currentUser := huid.trans hcur.symm
  have hfits : c1.stream.Fits c.currentUser c.writePipeline := hstream ▸ h.stream
  by_cases hn : c1.isNetworkEnabled = true
  · rw [if_pos hn]
    obtain ⟨pipeline, stream, heq, hs, hw⟩ := restartNetwork_sound hok huser hkept hfits
    exact ⟨_, heq, hs, rfl, hw, rfl, hid⟩
  · rw [if_neg hn]
    have hoff : c.isNetworkEnabled = false := by
      rw [← hnet]
      simpa using hn
    obtain ⟨hempty, hst⟩ := h.quiet hoff
    have hempty1 : c1.writePipeline = [] := hpipe.trans hempty
    obtain ⟨hhand, hreq, hresp⟩ := hfits.not_started (hstream ▸ hst)
    refine ⟨c1, rfl, ⟨⟨hok, huser, hkept, ?_, ?_, ?_, fun _ => ⟨hempty1, hstream ▸ hst⟩⟩, ?_, ?_⟩,
      rfl, ?_, rfl, hid⟩
    · have hns : c1.stream.stopped = c1.stream := if_neg (by rw [hstream, hst]; simp)
      exact hns ▸ WriteStream.fits_stopped hfits _ _
    · rw [hempty1]
      exact List.nil_prefix
    · rw [hempty1]
      exact Nat.zero_le _
    · exact fun e => absurd e hn
    · exact fun e => absurd e hn
    · unfold wire cut
      rw [hhand, hreq, hresp, List.append_nil]

/-- A new process, with a store that is in order. -/
theorem launch_endsAs {s : LocalStore} (hs : s.Ok) (user : String) :
    EndsAs (launch s.db user)
      (some ⟨fun u => (s.db.pending u).map fun b => ⟨b.mutations, none⟩, user, []⟩)
      ⟨[], false, []⟩ (some s.db.remoteDocuments) s.nextBatchId := by
  obtain ⟨hok, hid⟩ := LocalStore.ok_start hs user
  have hready : (⟨LocalStore.start s.db user, user, Table.empty, Table.empty, false, [],
      WriteStream.new, [], [], []⟩ : Client).Ready :=
    ⟨hok, rfl, fun k hk => by simp at hk, WriteStream.fits_new _ [], List.nil_prefix,
      Nat.zero_le _, fun _ => ⟨rfl, rfl⟩⟩
  obtain ⟨pipeline, stream, heq, hs, hw⟩ := enableNetwork_sound hready
  refine ⟨_, heq, hs, ?_, hw, rfl, hid⟩
  unfold ledger
  simp only [Option.some.injEq, Ledger.mk.injEq, and_true]
  funext u
  simp [queue, LocalStore.start]

theorem relaunch_endsAs {c : Client} (h : c.Sound) (user : String) :
    EndsAs (c.perform (.relaunch user)) (c.ledger.step (.restart user)) c.cut (some c.cache)
      c.store.nextBatchId := by
  obtain ⟨c', heq, hs, hl, hw, hd, hid⟩ := launch_endsAs h.store user
  have habandoned : c'.abandoned = [] := congrArg Wire.abandoned hw
  have hhand : c'.stream.handshakeComplete = false := congrArg Wire.handshakeComplete hw
  have hresp : c'.stream.responses = [] := congrArg Wire.responses hw
  refine ⟨{ c' with abandoned := c.abandoned ++ c.stream.requests }, ?_, { hs with }, ?_, ?_, hd,
    hid⟩
  · unfold perform
    simp only [heq]
    rfl
  · unfold Ledger.step ledger
    refine Eq.trans ?_ hl
    simp only [Option.some.injEq, Ledger.mk.injEq, and_true]
    funext u
    simp [queue, Function.comp_def]
  · unfold wire cut
    simp only [hhand, hresp]

theorem remoteEvent_endsAs {c : Client} (h : c.Sound)
    (documentUpdates : List (DocumentKey × MaybeDocument)) :
    EndsAs (c.applyRemoteEvent documentUpdates) (some c.ledger) c.wire
      (c.cacheAfter (.remoteEvent documentUpdates)) c.store.nextBatchId := by
  obtain ⟨changes, heq⟩ := LocalStore.applyRemoteEvent_ok h.store documentUpdates
  unfold applyRemoteEvent
  simp only [heq, Option.bind_eq_bind, Option.bind_some]
  refine ⟨_, rfl, { h with store := h.store.with_cache _ }, rfl, rfl, rfl, le_refl _⟩

/-! ## What became of the head of the pipeline -/

theorem trigger_eq (c : Client) (batchId : Int) :
    ∃ t w, c.triggerPendingWriteCallbacks batchId =
      { c with pendingWritesCallbacks := t, waited := w } := by
  unfold triggerPendingWriteCallbacks
  cases c.pendingWritesCallbacks.get batchId with
  | none => exact ⟨c.pendingWritesCallbacks, c.waited, rfl⟩
  | some callbacks => exact ⟨_, _, rfl⟩

/-- The head of the queue is gone, and its callback was run. -/
def Settled (c : Client) (b : MutationBatch) (status : Option ErrorCode)
    (rest : List MutationBatch) (c' : Client) : Prop :=
  ∃ store t w, LocalStore.Dropped c.store rest store ∧
    c' = { c.notifyUser b.batchId status with
      store := store, pendingWritesCallbacks := t, waited := w }

theorem handleSuccessfulWrite_settled {c : Client} (hs : c.store.Ok) {r : MutationBatchResult}
    {rest : List MutationBatch} (hp : c.store.pending = r.batch :: rest) :
    ∃ c', c.handleSuccessfulWrite r = some c' ∧ c.Settled r.batch none rest c' ∧
      r.batch.keys.dedup.foldlM (LocalStore.applyResultTo r) c.cache = some c'.cache := by
  obtain ⟨store, changes, hack, hd, hcache⟩ := LocalStore.acknowledgeBatch_ok hs hp
  obtain ⟨t, w, htrig⟩ := (c.notifyUser r.batch.batchId none).trigger_eq r.batch.batchId
  refine ⟨_, ?_, ⟨store, t, w, hd, rfl⟩, hcache⟩
  unfold handleSuccessfulWrite
  simp only [htrig, Option.bind_eq_bind]
  rw [notifyUser_eq]
  simp only [hack, Option.bind_some]
  rfl

theorem handleRejectedWrite_settled {c : Client} (hs : c.store.Ok) {b : MutationBatch}
    {rest : List MutationBatch} (hp : c.store.pending = b :: rest) (error : ErrorCode) :
    ∃ c', c.handleRejectedWrite b.batchId error = some c' ∧
      c.Settled b (some error) rest c' ∧ c'.cache = c.cache := by
  obtain ⟨store, changes, hrej, hd, hcache⟩ := LocalStore.rejectBatch_ok hs hp
  obtain ⟨t, w, htrig⟩ :=
    (({ c with store := store } : Client).notifyUser b.batchId (some error)).trigger_eq b.batchId
  refine ⟨_, ?_, ⟨store, t, w, hd, rfl⟩, hcache⟩
  unfold handleRejectedWrite
  simp only [hrej, Option.bind_eq_bind, Option.bind_some, htrig]
  rw [notifyUser_eq, notifyUser_eq]
  rfl

section Settled

variable {c c' : Client} {b : MutationBatch} {status : Option ErrorCode}
  {rest : List MutationBatch}

theorem Settled.ledger_eq (h : c.Settled b status rest c') (hs : c.store.Ok)
    (hu : c.store.userId = c.currentUser) (hp : c.store.pending = b :: rest) :
    c.ledger.step (.settle status) = some c'.ledger := by
  obtain ⟨store, t, w, hd, rfl⟩ := h
  have hhead := queue_head hu hp
  unfold Ledger.step ledger
  simp only
  rw [hhead, notifyUser_eq]
  simp only [Option.some.injEq, Ledger.mk.injEq]
  refine ⟨?_, trivial, rfl⟩
  funext u
  have hq := queue_settle hs hu hp hd u
  rw [Function.update_apply]
  refine Eq.trans ?_ hq.symm
  by_cases hcu : u = c.currentUser
  · rw [if_pos hcu, if_pos hcu, hcu]
  · rw [if_neg hcu, if_neg hcu]

/-- The rest of the pipeline is again the front of the queue. -/
theorem Settled.ready (h : c.Settled b status rest c')
    (hu : c.store.userId = c.currentUser) (hk : c.Kept) (hp : c.store.pending = b :: rest)
    (hf : c.stream.Fits c.currentUser c.writePipeline) (hpre : c.writePipeline <+: rest)
    (hlimit : c.writePipeline.length ≤ maxPendingWrites) (hnet : c.isNetworkEnabled = true) :
    c'.Ready := by
  obtain ⟨store, t, w, hd, rfl⟩ := h
  have hkept := kept_settle hk hu hp hd
  rw [notifyUser_eq]
  refine ⟨hd.ok, hd.userId.trans hu, hkept, hf, ?_, hlimit, fun hn => ?_⟩
  · show c.writePipeline <+: store.db.pending store.userId
    rw [hd.pending, hd.userId, if_pos rfl]
    exact hpre
  · simp [hnet] at hn

end Settled

/-- A started stream has the network. -/
theorem Ready.network {c : Client} (h : c.Ready) (hst : c.stream.isStarted = true) :
    c.isNetworkEnabled = true := by
  cases hn : c.isNetworkEnabled with
  | true => rfl
  | false => rw [(h.quiet hn).2] at hst; cases hst

/-! ## The stream -/

theorem streamStart_endsAs {c : Client} (h : c.Sound) (he : c.stream.state = .starting) :
    EndsAs c.onWriteStreamOpen (some c.ledger) c.wire (some c.cache) c.store.nextBatchId := by
  have hst : c.stream.isStarted = true := by simp [WriteStream.isStarted, he]
  have hhand := h.stream.handshake_false (by simp [he])
  have hcl := h.stream.closed (by simp [he])
  have heq : c.onWriteStreamOpen =
      some { c with stream := ⟨.open, false, false, [.handshake], []⟩ } := by
    unfold onWriteStreamOpen
    rw [hcl]
    rfl
  refine ⟨_, heq, ?_, rfl, ?_, rfl, le_refl _⟩
  · have hnet := h.network hst
    exact { h with
      stream := ⟨rfl, by simp, by simp, fun _ _ => h.stream.needed hst hhand, by simp⟩
      quiet := fun hn => by
        rw [hnet] at hn
        cases hn
      busy := fun _ _ => rfl }
  · unfold wire
    rw [hcl]

theorem backoffElapsed_endsAs {c : Client} (h : c.Sound) (he : c.stream.state = .backoff) :
    EndsAs (c.perform .backoffElapsed) (some c.ledger) c.wire (some c.cache)
      c.store.nextBatchId := by
  have hst : c.stream.isStarted = true := by simp [WriteStream.isStarted, he]
  have hhand := h.stream.handshake_false (by simp [he])
  have hcl := h.stream.closed (by simp [he])
  have hne := h.stream.needed hst hhand
  have heq : c.perform .backoffElapsed =
      some { c with stream := ⟨.starting, false, false, [], []⟩ } := by
    unfold perform
    rw [hcl]
    rfl
  have hnet := h.network hst
  refine ⟨_, heq, ?_, rfl, ?_, rfl, le_refl _⟩
  · exact { h with
      stream := WriteStream.fits_closed (by simp) _ _ fun _ => hne
      quiet := fun hn => by
        rw [hnet] at hn
        cases hn
      busy := fun _ _ => rfl }
  · unfold wire
    rw [hcl]

/-- A stream that is not needed is closed without an error. -/
theorem gracefulClose_endsAs {c : Client} (h : c.Sound) (hst : c.stream.isStarted = true)
    (hempty : c.writePipeline = []) :
    EndsAs (c.closeStream none) (some c.ledger) c.cut (some c.cache) c.store.nextBatchId := by
  have heq : c.closeStream none = some { c with
      stream := WriteStream.new, abandoned := c.abandoned ++ c.stream.requests } := by
    simp [closeStream, hst, onWriteStreamClose, shouldStartWriteStream, hempty, WriteStream.new]
  refine ⟨_, heq, ?_, rfl, rfl, rfl, le_refl _⟩
  exact { h with
    stream := WriteStream.fits_new _ _
    quiet := fun hn => ⟨hempty, rfl⟩
    busy := fun _ hne => absurd hempty hne }

/-- The assertion of `OnWriteStreamClose`. -/
theorem gracefulClose_needed {c : Client} (h : c.Sound) (hst : c.stream.isStarted = true)
    (hne : c.writePipeline ≠ []) : c.closeStream none = none := by
  have hnet := h.network hst
  unfold closeStream
  rw [if_neg (by simp [hst]), if_pos hst]
  simp [onWriteStreamClose, shouldStartWriteStream, hnet, hne, WriteStream.isStarted,
    WriteStream.isOpen]

theorem serverAnswer_endsAs {c : Client} (h : c.Sound) {results : List SnapshotVersion}
    (he : c.enabled (.serverAnswer results)) :
    EndsAs (c.perform (.serverAnswer results)) (some c.ledger) (c.wireAfter (.serverAnswer results))
      (some c.cache) c.store.nextBatchId := by
  unfold enabled at he
  unfold perform wireAfter
  cases hr : c.stream.requests with
  | nil => rw [hr] at he; exact he.elim
  | cons request rest =>
    rw [hr] at he
    refine ⟨_, rfl, ?_, rfl, rfl, rfl, le_refl _⟩
    have hfits : ({ c.stream with
        requests := rest, responses := c.stream.responses ++ [⟨request, results⟩] } :
          WriteStream).Fits c.currentUser c.writePipeline := by
      refine ⟨?_, h.stream.handshake, h.stream.idle, h.stream.needed,
        fun r hr' user mutations hm => ?_⟩
      · have hcarries := h.stream.carries
        rw [hr] at hcarries
        simpa [WriteStream.owed, WriteStream.isOpen] using hcarries
      · rcases List.mem_append.1 hr' with hr' | hr'
        · exact h.stream.sized r hr' user mutations hm
        · rw [List.mem_singleton.1 hr'] at hm ⊢
          simp only at hm
          rw [hm] at he
          exact he
    exact { h with stream := hfits }

theorem sendPipeline_eq (user : String) (batches : List MutationBatch) :
    ∀ s : WriteStream, s.isOpen = true → s.handshakeComplete = true →
    batches.foldlM (fun stream batch => stream.writeMutations user batch.mutations) s =
      some (s.sendAll user batches) := by
  induction batches with
  | nil => intro s _ _; simp [WriteStream.sendAll]
  | cons batch batches ih =>
    intro s ho hh
    have hone : s.writeMutations user batch.mutations = some (s.sendAll user [batch]) := by
      simp [WriteStream.writeMutations, WriteStream.write, WriteStream.sendAll, ho, hh,
        WriteStream.request]
    have hopen : (s.sendAll user [batch]).isOpen = true ∧
        (s.sendAll user [batch]).handshakeComplete = true := by
      have hstate : s.state = .open := by simpa [WriteStream.isOpen] using ho
      simp [WriteStream.sendAll, WriteStream.isOpen, hstate, hh]
    rw [List.foldlM_cons, hone, WriteStream.sendAll_cons s user batch batches]
    exact ih _ hopen.1 hopen.2

/-- The handshake is answered: the whole pipeline is sent. -/
theorem handshakeRead_endsAs {c : Client} (h : c.Sound) {response : Response}
    {rest : List Response} (he : c.stream.responses = response :: rest)
    (hhand : c.stream.handshakeComplete = false) :
    EndsAs (c.perform .streamRead) (some c.ledger) (c.wireAfter .streamRead) (some c.cache)
      c.store.nextBatchId := by
  have hcarries := h.stream.carries
  have hopen : c.stream.isOpen = true := by
    by_contra hn
    unfold WriteStream.owed at hcarries
    rw [if_neg hn, he] at hcarries
    simp at hcarries
  have hstate : c.stream.state = .open := by simpa [WriteStream.isOpen] using hopen
  have hst : c.stream.isStarted = true := by simp [WriteStream.isStarted, hopen]
  have hne := h.stream.needed hst hhand
  unfold WriteStream.owed at hcarries
  rw [if_pos hopen, hhand, if_neg (by simp), he] at hcarries
  obtain ⟨hrest, hreq⟩ : rest = [] ∧ c.stream.requests = [] := by simpa using (List.cons.inj hcarries).2
  have heq : c.perform .streamRead = some { c with
      stream := ⟨.open, true, false, c.writePipeline.map (WriteStream.request c.currentUser),
        []⟩ } := by
    have hsend := sendPipeline_eq c.currentUser c.writePipeline
      { c.stream with responses := rest, handshakeComplete := true } hopen rfl
    have hempty : c.writePipeline.isEmpty = false := by simpa using hne
    unfold perform onStreamRead onWriteStreamHandshakeComplete
    rw [he]
    simp only [hhand, hsend]
    simp [WriteStream.sendAll, WriteStream.isStarted, WriteStream.isOpen, hempty, hrest, hreq, hstate]
  have hnet := h.network hst
  refine ⟨_, heq, ?_, rfl, ?_, rfl, le_refl _⟩
  · exact { h with
      stream := ⟨rfl, fun _ => rfl, by simp, fun _ hh => by simp at hh, by simp⟩
      quiet := fun hn => by
        rw [hnet] at hn
        cases hn
      busy := fun _ _ => rfl }
  · unfold wire wireAfter
    rw [he, List.tail_cons, hrest]

theorem onStreamRead_established {c : Client} (hst : c.stream.isStarted = true)
    (hhand : c.stream.handshakeComplete = true) (response : Response) :
    c.onStreamRead response = c.onWriteStreamMutationResult response.results := by
  simp [onStreamRead, hst, hhand]

theorem onWriteStreamMutationResult_cons {c : Client} {b : MutationBatch}
    {tail : List MutationBatch} (hp : c.writePipeline = b :: tail) {results : List SnapshotVersion}
    (hlen : results.length = b.mutations.length) :
    c.onWriteStreamMutationResult results =
      ({ c with writePipeline := tail }.handleSuccessfulWrite ⟨b, results, hlen⟩).bind
        fillWritePipeline := by
  unfold onWriteStreamMutationResult
  rw [hp]
  simp only [dif_pos hlen]
  rfl

/-- The oldest batch of the pipeline is answered, and by the answer to it. -/
theorem resultRead_endsAs {c : Client} (h : c.Sound) {response : Response}
    {rest : List Response} (he : c.stream.responses = response :: rest)
    (hhand : c.stream.handshakeComplete = true) :
    EndsAs (c.perform .streamRead) (c.ledger.step (.settle none)) (c.wireAfter .streamRead)
      (c.cacheAfter .streamRead) c.store.nextBatchId := by
  have hstate := h.stream.handshake hhand
  have hopen : c.stream.isOpen = true := by simp [WriteStream.isOpen, hstate]
  have hst : c.stream.isStarted = true := by simp [WriteStream.isStarted, hopen]
  have hcarries := h.stream.carries
  unfold WriteStream.owed at hcarries
  rw [if_pos hopen, if_pos hhand, he] at hcarries
  cases hp : c.writePipeline with
  | nil => rw [hp] at hcarries; simp at hcarries
  | cons b tail =>
    rw [hp] at hcarries
    obtain ⟨hanswers, htail⟩ := List.cons.inj hcarries
    have hlen : response.results.length = b.mutations.length :=
      h.stream.sized response (he ▸ List.mem_cons_self) _ _ hanswers
    obtain ⟨later, hpending⟩ := h.pipeline
    rw [hp] at hpending
    set c1 : Client := { c with
      writePipeline := tail, stream := { c.stream with responses := rest } } with hc1
    have hpend1 : c1.store.pending = b :: (tail ++ later) := hpending.symm
    obtain ⟨c', hsucc, hset, hcache⟩ := handleSuccessfulWrite_settled (c := c1)
      (r := ⟨b, response.results, hlen⟩) h.store hpend1
    have hfits : c1.stream.Fits c1.currentUser tail := by
      refine ⟨?_, fun _ => hstate, fun ht => ?_, fun _ hh => ?_, fun r hr => ?_⟩
      · unfold WriteStream.owed
        rw [if_pos (by exact hopen), if_pos (by exact hhand)]
        exact htail
      · have := (h.stream.idle ht).2
        rw [hp] at this
        simp at this
      · rw [show c1.stream.handshakeComplete = true from hhand] at hh
        cases hh
      · exact h.stream.sized r (he ▸ List.mem_cons_of_mem _ hr)
    have hlimit : tail.length ≤ maxPendingWrites := by
      have := h.limit
      rw [hp, List.length_cons] at this
      omega
    have hready := hset.ready h.user h.kept hpend1 hfits (List.prefix_append _ _) hlimit
      (h.network hst)
    have heq : c.perform .streamRead = c'.fillWritePipeline := by
      set c0 : Client := { c with stream := { c.stream with responses := rest } } with hc0
      have hread : c0.onStreamRead response = c'.fillWritePipeline := by
        rw [onStreamRead_established (by exact hst) (by exact hhand),
          onWriteStreamMutationResult_cons (by exact hp) hlen]
        exact congrArg (Option.bind · fillWritePipeline) hsucc
      unfold perform
      rw [he]
      exact hread
    rw [heq, show c.ledger = c1.ledger from rfl, hset.ledger_eq h.store h.user hpend1]
    have hwire : c'.wire = c.wireAfter .streamRead ∧
        c'.store.nextBatchId = c.store.nextBatchId := by
      obtain ⟨store, t, w, hd, rfl⟩ := hset
      refine ⟨?_, hd.nextBatchId⟩
      rw [notifyUser_eq]
      simp [wire, wireAfter, hhand, he, hc1]
    have hafter : c.cacheAfter .streamRead = some c'.cache := by
      unfold cacheAfter
      simp only [hhand, if_true, he, hp, dif_pos hlen]
      exact hcache
    rw [← hwire.1, ← hwire.2, hafter]
    exact fill_endsAs hready

theorem Settled.with_stream {c c' : Client} {b : MutationBatch} {status : Option ErrorCode}
    {rest : List MutationBatch} (h : c.Settled b status rest c') (s : WriteStream) :
    ({ c with stream := s } : Client).Settled b status rest { c' with stream := s } := by
  obtain ⟨store, t, w, hd, rfl⟩ := h
  refine ⟨store, t, w, hd, ?_⟩
  rw [notifyUser_eq, notifyUser_eq]

/-- The client whose stream has just broken. -/
def broken (c : Client) : Client :=
  { c with
    stream := ⟨.error, c.stream.handshakeComplete, false, [], []⟩
    abandoned := c.abandoned ++ c.stream.requests }

theorem closeStream_error {c : Client} (hst : c.stream.isStarted = true) (error : ErrorCode) :
    c.closeStream (some error) = (c.broken.onWriteStreamClose (some error)).map fun c =>
      { c with stream := { c.stream with handshakeComplete := false } } := by
  unfold closeStream broken
  simp only [hst, Option.isNone_some, Bool.false_and, if_true]
  exact (Option.map_eq_bind ..).symm

theorem onWriteStreamClose_kept {c : Client} {error : ErrorCode}
    (hkeep : ¬ (error.isPermanentWriteError = true ∧ c.stream.handshakeComplete = true ∧
      c.writePipeline ≠ [])) :
    c.onWriteStreamClose (some error) =
      if c.shouldStartWriteStream then c.startWriteStream else some c := by
  unfold onWriteStreamClose
  simp only
  split
  · next hif =>
    have hperm : error.isPermanentWriteError = false := by
      cases he : error.isPermanentWriteError with
      | false => rfl
      | true => exact absurd ⟨he, by simpa [and_comm] using hif⟩ hkeep
    simp [handleWriteError, hperm]
  · rfl

/-- The stream broke, and nothing was rejected. -/
theorem broken_endsAs {c : Client} (h : c.Sound) {error : ErrorCode}
    (hst : c.stream.isStarted = true)
    (hkeep : ¬ (error.isPermanentWriteError = true ∧ c.stream.handshakeComplete = true ∧
      c.writePipeline ≠ [])) :
    EndsAs (c.closeStream (some error)) (some c.ledger) c.cut (some c.cache)
      c.store.nextBatchId := by
  have hnet := h.network hst
  have hclose : c.closeStream (some error) =
      (if c.broken.shouldStartWriteStream then c.broken.startWriteStream else some c.broken).map
        fun c => { c with stream := { c.stream with handshakeComplete := false } } := by
    rw [closeStream_error hst, onWriteStreamClose_kept (c := c.broken) hkeep]
  by_cases hp : c.writePipeline = []
  · have heq : c.closeStream (some error) = some { c with
        stream := ⟨.error, false, false, [], []⟩
        abandoned := c.abandoned ++ c.stream.requests } := by
      rw [hclose]
      simp [shouldStartWriteStream, broken, hp]
    refine ⟨_, heq, ?_, rfl, rfl, rfl, le_refl _⟩
    exact { h with
      stream := WriteStream.fits_closed (by simp) _ _ (by simp)
      quiet := fun hn => by
        rw [hnet] at hn
        cases hn
      busy := fun _ hne => absurd hp hne }
  · have heq : c.closeStream (some error) = some { c with
        stream := ⟨.backoff, false, false, [], []⟩
        abandoned := c.abandoned ++ c.stream.requests } := by
      rw [hclose]
      simp [shouldStartWriteStream, startWriteStream, broken, hnet, hp, WriteStream.isStarted,
        WriteStream.isOpen, WriteStream.start]
    refine ⟨_, heq, ?_, rfl, rfl, rfl, le_refl _⟩
    exact { h with
      stream := WriteStream.fits_closed (by simp) _ _ fun _ => hp
      quiet := fun hn => by
        rw [hnet] at hn
        cases hn
      busy := fun _ _ => rfl }

/-- The pipeline is filled and the stream started again while the stream still has the flag of
its handshake, which is reset afterwards. -/
theorem fill_again {c : Client} (hready : ({ c with stream := WriteStream.new } : Client).Ready)
    (hnet : c.isNetworkEnabled = true) (hs : c.stream = ⟨.initial, true, false, [], []⟩) :
    ∃ c', c.fillWritePipeline = some c' ∧ c'.shouldStartWriteStream = false ∧
      EndsAs (some { c' with stream := { c'.stream with handshakeComplete := false } })
        (some c.ledger) ⟨c.abandoned, false, []⟩ (some c.cache) c.store.nextBatchId := by
  obtain ⟨rest, hp⟩ := hready.pipeline
  have hfill := fill_eq (c := c) hready.store hnet hready.limit hp.symm
  have hnew := fill_eq (c := { c with stream := WriteStream.new }) hready.store hnet hready.limit
    hp.symm
  obtain ⟨pipeline, stream, heq, hsound, hwire⟩ := fill_sound hready
  rw [hnew] at heq
  rw [← Option.some.inj heq] at hsound hwire
  have hreset : ∀ (user : String) (new pipeline : List MutationBatch),
      ({ WriteStream.afterFill ⟨.initial, true, false, [], []⟩ user new pipeline with
        handshakeComplete := false } : WriteStream) =
          WriteStream.new.afterFill user new pipeline := by
    intro user new pipeline
    by_cases he : pipeline = []
    · simp [WriteStream.afterFill, WriteStream.new, he]
    · simp [WriteStream.afterFill, WriteStream.new, he]
  refine ⟨_, hfill, ?_, ?_⟩
  · by_cases he : c.store.pending.take maxPendingWrites = []
    · simp [shouldStartWriteStream, he]
    · simp [shouldStartWriteStream, WriteStream.started_afterFill _ _ _ he]
  · rw [hs]
    simp only [hreset]
    exact ⟨_, rfl, hsound, rfl, hwire, rfl, le_refl _⟩

/-- The server rejected the oldest batch of the pipeline. -/
theorem rejected_endsAs {c : Client} (h : c.Sound) {error : ErrorCode}
    (hperm : error.isPermanentWriteError = true) (hhand : c.stream.handshakeComplete = true)
    (hne : c.writePipeline ≠ []) :
    EndsAs (c.closeStream (some error)) (c.ledger.step (.settle (some error))) c.cut
      (some c.cache) c.store.nextBatchId := by
  have hstate := h.stream.handshake hhand
  have hst : c.stream.isStarted = true := by
    simp [WriteStream.isStarted, WriteStream.isOpen, hstate]
  have hnet := h.network hst
  cases hp : c.writePipeline with
  | nil => exact absurd hp hne
  | cons b tail =>
    obtain ⟨later, hpending⟩ := h.pipeline
    rw [hp] at hpending
    -- the stream is started again while it still has the flag of the handshake
    set c1 : Client := { c with
      writePipeline := tail, stream := ⟨.initial, true, false, [], []⟩
      abandoned := c.abandoned ++ c.stream.requests } with hc1
    have hpend1 : c1.store.pending = b :: (tail ++ later) := hpending.symm
    obtain ⟨c2, hrej, hset, hcache⟩ := handleRejectedWrite_settled (c := c1) h.store hpend1 error
    have hlimit : tail.length ≤ maxPendingWrites := by
      have := h.limit
      rw [hp, List.length_cons] at this
      omega
    have hready := (hset.with_stream WriteStream.new).ready h.user h.kept hpend1
      (WriteStream.fits_new _ tail) (List.prefix_append _ _) hlimit hnet
    have hc2 : c2.stream = ⟨.initial, true, false, [], []⟩ ∧ c2.isNetworkEnabled = true ∧
        c2.abandoned = c.abandoned ++ c.stream.requests ∧
        c2.store.nextBatchId = c.store.nextBatchId := by
      obtain ⟨store, t, w, hd, rfl⟩ := hset
      rw [notifyUser_eq]
      exact ⟨rfl, hnet, rfl, hd.nextBatchId⟩
    obtain ⟨hstream, hnet2, hab, hid⟩ := hc2
    obtain ⟨c3, hfill, hstart, hends⟩ := fill_again hready hnet2 hstream
    have heq : c.closeStream (some error) =
        some { c3 with stream := { c3.stream with handshakeComplete := false } } := by
      have hreject : c.broken.handleWriteError error = some c3 := by
        unfold handleWriteError broken
        rw [if_pos hperm]
        simp only [hp, hhand]
        exact (congrArg (Option.bind · fillWritePipeline) hrej).trans hfill
      have hflag : (!c.broken.writePipeline.isEmpty && c.broken.stream.handshakeComplete) = true := by
        simp [broken, hp, hhand]
      rw [closeStream_error hst]
      unfold onWriteStreamClose
      simp only [hflag, if_true, hreject]
      simp [hstart]
    rw [heq, show c.ledger = c1.ledger from rfl, hset.ledger_eq h.store h.user hpend1]
    rw [hab, hcache, hid] at hends
    exact hends

/-! ## Every task -/

theorem perform_endsAs {c : Client} (h : c.Sound) {e : Event} (he : c.enabled e)
    (hstore : c.CanStore e) (hend : e = .streamFinish none → c.writePipeline = []) :
    EndsAs (c.perform e) (c.ledger.advance (c.label e)) (c.wireAfter e) (c.cacheAfter e)
      (c.idAfter e) := by
  have hid : e.isWrite = false → c.idAfter e = c.store.nextBatchId := by
    intro hw
    simp [idAfter, hw]
  cases e with
  | writeMutations mutations callback => exact writeMutations_endsAs h he callback hstore
  | waitForPendingWrites callback =>
    rw [hid rfl]
    unfold perform registerPendingWritesCallback
    simp only
    split
    · exact ⟨_, rfl, { h with }, rfl, rfl, rfl, le_refl _⟩
    · exact ⟨_, rfl, { h with }, rfl, rfl, rfl, le_refl _⟩
  | credentialChange user => exact hid rfl ▸ credentialChange_endsAs h user
  | enableNetwork =>
    obtain ⟨pipeline, stream, heq, hs, hw⟩ := enableNetwork_sound h.toReady
    exact ⟨_, heq, hs, rfl, hw, rfl, (hid rfl).ge⟩
  | disableNetwork =>
    refine ⟨_, disableNetwork_eq h.stream, disableNetwork_sound h.toReady, rfl, ?_, rfl,
      (hid rfl).ge⟩
    obtain ⟨hhand, -, hresp⟩ := (disableNetwork_sound h.toReady).stream.not_started
      c.stream.stopped_not_started
    unfold wire wireAfter cut
    rw [hhand, hresp]
  | connectivityChange =>
    obtain ⟨pipeline, stream, heq, hs, hw⟩ :=
      restartNetwork_sound h.store h.user h.kept h.stream
    exact ⟨_, heq, hs, rfl, hw, rfl, (hid rfl).ge⟩
  | streamStart => exact hid rfl ▸ streamStart_endsAs h he
  | serverAnswer results => exact hid rfl ▸ serverAnswer_endsAs h he
  | streamRead =>
    rw [hid rfl]
    cases hr : c.stream.responses with
    | nil => exact absurd hr he
    | cons response rest =>
      cases hhand : c.stream.handshakeComplete with
      | false =>
        obtain ⟨c', heq, hs, hl, hw, hd, hn⟩ := handshakeRead_endsAs h hr hhand
        unfold label cacheAfter
        simp only [hhand]
        exact ⟨c', heq, hs, hl, hw, hd, hn⟩
      | true =>
        unfold label
        simp only [hhand]
        exact resultRead_endsAs h hr hhand
  | streamFinish status =>
    rw [hid rfl]
    have hst : c.stream.isStarted = true := by
      rcases he with he | he
      · simp [WriteStream.isStarted, WriteStream.isOpen, he]
      · simp [WriteStream.isStarted, he.1]
    cases status with
    | none => exact gracefulClose_endsAs h hst (hend rfl)
    | some error =>
      unfold label
      simp only
      by_cases hreject : error.isPermanentWriteError = true ∧ c.stream.handshakeComplete = true ∧
          c.writePipeline ≠ []
      · rw [if_pos hreject]
        exact rejected_endsAs h hreject.1 hreject.2.1 hreject.2.2
      · rw [if_neg hreject]
        exact broken_endsAs h hst hreject
  | backoffElapsed => exact hid rfl ▸ backoffElapsed_endsAs h he
  | idleTimeout =>
    rw [hid rfl]
    obtain ⟨hhand, hempty⟩ := h.stream.idle he
    have hst : c.stream.isStarted = true := by
      simp [WriteStream.isStarted, WriteStream.isOpen, h.stream.handshake hhand]
    exact gracefulClose_endsAs h hst hempty
  | lateRequest => exact ⟨_, rfl, { h with }, rfl, rfl, rfl, (hid rfl).ge⟩
  | lostRequests => exact ⟨_, rfl, { h with }, rfl, rfl, rfl, (hid rfl).ge⟩
  | remoteEvent documentUpdates => exact hid rfl ▸ remoteEvent_endsAs h documentUpdates
  | relaunch user => exact hid rfl ▸ relaunch_endsAs h user

/-- Only the server can make an assertion fail, by ending a stream that is needed with `OK`. -/
theorem perform_isSome_iff {c : Client} (h : c.Sound) {e : Event} (he : c.enabled e)
    (hstore : c.CanStore e) :
    (c.perform e).isSome = true ↔ (e = .streamFinish none → c.writePipeline = []) := by
  constructor
  · rintro hsome rfl
    by_contra hne
    have hst : c.stream.isStarted = true := by
      rcases he with he | he
      · simp [WriteStream.isStarted, WriteStream.isOpen, he]
      · exact absurd rfl he.2
    have hnone : c.perform (.streamFinish none) = none := gracefulClose_needed h hst hne
    rw [hnone] at hsome
    cases hsome
  · intro hend
    obtain ⟨c', hc', -⟩ := perform_endsAs h he hstore hend
    rw [hc']
    rfl

theorem step_eq_some {c c' : Client} {e : Event} :
    c.step e = some c' ↔ c.enabled e ∧ c.perform e = some c' := by
  unfold step
  by_cases h : c.enabled e
  · simp [h]
  · simp [h]

theorem step_sound {c c' : Client} {e : Event} (h : c.Sound) (hstore : c.CanStore e)
    (hs : c.step e = some c') :
    c'.Sound ∧ c.ledger.advance (c.label e) = some c'.ledger ∧ c'.wire = c.wireAfter e ∧
      c.cacheAfter e = some c'.cache ∧ c'.store.nextBatchId ≤ c.idAfter e := by
  obtain ⟨he, hp⟩ := step_eq_some.1 hs
  have hend := (perform_isSome_iff h he hstore).1 (by rw [hp]; rfl)
  obtain ⟨c1, hc1, hsound, hl, hw, hd, hn⟩ := perform_endsAs h he hstore hend
  rw [hp] at hc1
  cases hc1
  exact ⟨hsound, hl, hw, hd, hn⟩

/-- On a new device. -/
theorem launch_sound (user : String) :
    ∃ c, launch Db.empty user = some c ∧ c.Sound ∧ c.ledger = ⟨fun _ => [], user, []⟩ ∧
      c.wire = ⟨[], false, []⟩ ∧ c.cache = ∅ ∧ c.store.nextBatchId ≤ 1 := by
  obtain ⟨c, heq, hs, hl, hw, hd, hn⟩ := launch_endsAs (LocalStore.ok_empty user) user
  exact ⟨c, heq, hs, (Option.some.inj hl).symm, hw, (Option.some.inj hd).symm, hn⟩

/-! ## Every run -/

/-- The app's writes in a run: each can be read back, and there is a number for each. -/
structure Storable (es : List Event) : Prop where
  readable : ∀ mutations callback, Event.writeMutations mutations callback ∈ es →
    ∀ m ∈ mutations, m.Readable
  few : (es.countP Event.isWrite : Int) < maxBatchId

theorem Storable.shorter {pre es : List Event} (h : Storable es) (hp : pre <+: es) :
    Storable pre := by
  refine ⟨fun mutations callback hmem => h.readable mutations callback (hp.subset hmem), ?_⟩
  have hle : pre.countP Event.isWrite ≤ es.countP Event.isWrite := hp.sublist.countP_le
  have hfew := h.few
  omega

/-- The numbers do not run out in a run with few writes. -/
theorem run_sound {c c' : Client} {es : List Event} {n : Nat} (h : c.Sound)
    (hn : c.store.nextBatchId ≤ n + 1) (hes : Storable es)
    (hfew : ((n + es.countP Event.isWrite : Nat) : Int) < maxBatchId)
    (hr : Runs.run step c es = some c') : Runs.Meets step CanStore c es ∧ c'.Sound ∧
      c'.store.nextBatchId ≤ (n + es.countP Event.isWrite : Nat) + 1 := by
  induction es generalizing c n with
  | nil =>
    rw [Runs.run_nil] at hr
    cases hr
    refine ⟨fun pre e hp => ?_, h, by simpa using hn⟩
    simp at hp
  | cons e es ih =>
    obtain ⟨m, hm, hr⟩ := (Runs.run_cons_eq_some step c c' e es).1 hr
    have hcount : (e :: es).countP Event.isWrite =
        (if e.isWrite then 1 else 0) + es.countP Event.isWrite := by
      rw [List.countP_cons]
      omega
    have hstore : c.CanStore e := by
      cases e with
      | writeMutations mutations callback =>
        refine ⟨hes.readable mutations callback List.mem_cons_self, ?_⟩
        simp only [hcount, Event.isWrite, if_true] at hfew
        omega
      | _ => trivial
    obtain ⟨hs, -, -, -, hid⟩ := step_sound h hstore hm
    have hes' : Storable es :=
      ⟨fun mutations callback hmem => hes.readable mutations callback (List.mem_cons_of_mem e hmem),
        by have := hes.few; rw [hcount] at this; omega⟩
    have hn' : m.store.nextBatchId ≤ ((n + if e.isWrite then 1 else 0 : Nat) : Int) + 1 := by
      unfold idAfter at hid
      omega
    have hsum : n + (e :: es).countP Event.isWrite =
        (n + if e.isWrite then 1 else 0) + es.countP Event.isWrite := by
      rw [hcount, Nat.add_assoc]
    rw [hsum] at hfew ⊢
    obtain ⟨hmeets, hs', hn''⟩ := ih hs hn' hes' hfew hr
    exact ⟨(Runs.meets_cons step CanStore c m e es hm).2 ⟨hstore, hmeets⟩, hs', hn''⟩

/-- From a first launch. -/
theorem run_launch {user : String} {c0 c : Client} {es : List Event} (hes : Storable es)
    (h0 : launch Db.empty user = some c0) (hr : Runs.run step c0 es = some c) :
    c0.Sound ∧ Runs.Meets step CanStore c0 es ∧ c.Sound ∧
      c.store.nextBatchId ≤ es.countP Event.isWrite + 1 := by
  obtain ⟨c1, h1, hs, -, -, -, hn⟩ := launch_sound user
  rw [h1] at h0
  cases h0
  have hfew := hes.few
  obtain ⟨hmeets, hs', hn'⟩ := run_sound (n := 0) hs (by simpa using hn) hes (by simpa using hfew) hr
  exact ⟨hs, hmeets, hs', by simpa using hn'⟩

end Client

end ProjectSY.Firestore
