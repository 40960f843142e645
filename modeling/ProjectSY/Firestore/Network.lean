import ProjectSY.Firestore.Ledger

/-!
# What holds between two tasks of the client

`Sound`: the pipeline is the front of the queue of the signed-in user, and on an
established stream the answers that are still to be read and the requests that
are still to be answered are the batches of the pipeline, in order.  `Ready` is
what is left of it while a task runs; filling the pipeline restores the rest.
-/

namespace ProjectSY.Firestore

namespace WriteStream

/-- What is still to be answered or read on the stream. -/
def owed (s : WriteStream) (user : String) (pipeline : List MutationBatch) : List Request :=
  if s.isOpen then if s.handshakeComplete then pipeline.map (request user) else [.handshake] else []

/-- The stream and the pipeline of the user fit. -/
structure Fits (s : WriteStream) (user : String) (pipeline : List MutationBatch) : Prop where
  carries : s.responses.map Response.answers ++ s.requests = s.owed user pipeline
  handshake : s.handshakeComplete = true → s.state = .open
  idle : s.idlenessTimer = true → s.handshakeComplete = true ∧ pipeline = []
  /-- Without something to send no stream is started. -/
  needed : s.isStarted = true → s.handshakeComplete = false → pipeline ≠ []
  sized : ∀ r ∈ s.responses, ∀ user mutations, r.answers = .mutations user mutations →
    r.results.length = mutations.length

theorem fits_new (user : String) (pipeline : List MutationBatch) : new.Fits user pipeline := by
  refine ⟨rfl, ?_, ?_, ?_, ?_⟩
  · simp [new]
  · simp [new]
  · simp [new, isStarted, isOpen]
  · simp [new]

section Closed

variable {s : WriteStream} {user : String} {pipeline : List MutationBatch}
  (h : s.Fits user pipeline)

include h in
theorem Fits.handshake_false (ho : s.state ≠ .open) : s.handshakeComplete = false := by
  cases hh : s.handshakeComplete with
  | false => rfl
  | true => exact absurd (h.handshake hh) ho

include h in
/-- Nothing is left of a stream that is not open. -/
theorem Fits.closed (ho : s.state ≠ .open) : s = ⟨s.state, false, false, [], []⟩ := by
  have hhand := h.handshake_false ho
  have htimer : s.idlenessTimer = false := by
    cases ht : s.idlenessTimer with
    | false => rfl
    | true => rw [(h.idle ht).1] at hhand; cases hhand
  have hcarries := h.carries
  have hopen : s.isOpen = false := by simpa [isOpen] using ho
  unfold owed at hcarries
  rw [hopen, if_neg (by simp), List.append_eq_nil_iff, List.map_eq_nil_iff] at hcarries
  obtain ⟨state, handshake, timer, requests, responses⟩ := s
  simp only at hhand htimer hcarries
  rw [hhand, htimer, hcarries.1, hcarries.2]

/-- A stream that is not open fits when it is started for a reason. -/
theorem fits_closed {state : StreamState} (ho : state ≠ .open) (user : String)
    (pipeline : List MutationBatch)
    (hneeded : state = .starting ∨ state = .backoff → pipeline ≠ []) :
    (⟨state, false, false, [], []⟩ : WriteStream).Fits user pipeline := by
  refine ⟨?_, by simp, by simp, fun hst _ => hneeded ?_, by simp⟩
  · simp [owed, isOpen, ho]
  · simpa [isStarted, isOpen, ho] using hst

end Closed

/-- Filling the pipeline only sends requests. -/
theorem received_afterFill (s : WriteStream) (user : String) (new pipeline : List MutationBatch) :
    (s.afterFill user new pipeline).handshakeComplete = s.handshakeComplete ∧
      (s.afterFill user new pipeline).responses = s.responses := by
  unfold afterFill
  split
  · split
    · exact ⟨rfl, rfl⟩
    · split
      · exact ⟨rfl, rfl⟩
      · exact ⟨rfl, rfl⟩
  · split <;> exact ⟨rfl, rfl⟩
  · split <;> exact ⟨rfl, rfl⟩
  · exact ⟨rfl, rfl⟩
  · exact ⟨rfl, rfl⟩

/-- Nothing is on its way on a stream that is not started. -/
theorem Fits.not_started {s : WriteStream} {user : String} {pipeline : List MutationBatch}
    (h : s.Fits user pipeline) (hst : s.isStarted = false) :
    s.handshakeComplete = false ∧ s.requests = [] ∧ s.responses = [] := by
  have hno : s.state ≠ .open := by
    intro e
    simp [isStarted, isOpen, e] at hst
  rw [h.closed hno]
  exact ⟨rfl, rfl, rfl⟩

theorem afterFill_open {s : WriteStream} (ho : s.state = .open) (user : String)
    (new pipeline : List MutationBatch) :
    s.afterFill user new pipeline =
      if pipeline = [] then { s with idlenessTimer := true }
      else if s.handshakeComplete ∧ new ≠ [] then
        { s with idlenessTimer := false, requests := s.requests ++ new.map (request user) }
      else s := by
  unfold afterFill
  cases s
  cases ho
  rfl

theorem fits_afterFill {s : WriteStream} {user : String} {pipeline : List MutationBatch}
    (h : s.Fits user pipeline) (new : List MutationBatch) :
    (s.afterFill user new (pipeline ++ new)).Fits user (pipeline ++ new) := by
  by_cases ho : s.state = .open
  · have hopen : s.isOpen = true := by simp [isOpen, ho]
    have hstarted : s.isStarted = true := by simp [isStarted, hopen]
    have hcarries := h.carries
    unfold owed at hcarries
    rw [if_pos hopen] at hcarries
    rw [afterFill_open ho]
    by_cases hp : pipeline ++ new = []
    · -- the stream is idle now
      obtain ⟨rfl, rfl⟩ := List.append_eq_nil_iff.1 hp
      have hhand : s.handshakeComplete = true := by
        cases hh : s.handshakeComplete with
        | true => rfl
        | false => exact absurd rfl (h.needed hstarted hh)
      rw [if_pos hp]
      exact ⟨h.carries, h.handshake, fun _ => ⟨hhand, rfl⟩, h.needed, h.sized⟩
    · rw [if_neg hp]
      by_cases hsend : s.handshakeComplete = true ∧ new ≠ []
      · rw [if_pos hsend]
        refine ⟨?_, h.handshake, by simp, fun _ hh => ?_, h.sized⟩
        · rw [if_pos hsend.1] at hcarries
          unfold owed
          rw [if_pos (by exact hopen), if_pos hsend.1, List.map_append, ← hcarries,
            List.append_assoc]
        · rw [hsend.1] at hh
          cases hh
      · rw [if_neg hsend]
        refine ⟨?_, h.handshake, fun ht => ?_, fun _ _ => hp, h.sized⟩
        · unfold owed
          rw [if_pos hopen, hcarries]
          by_cases hh : s.handshakeComplete = true
          · have hnew : new = [] := by
              by_contra hn
              exact hsend ⟨hh, hn⟩
            rw [hnew, List.append_nil]
          · rw [if_neg hh, if_neg hh]
        · obtain ⟨hh, he⟩ := h.idle ht
          have hnew : new = [] := by
            by_contra hn
            exact hsend ⟨hh, hn⟩
          exact absurd (by rw [he, hnew]; rfl) hp
  · rw [h.closed ho]
    unfold afterFill
    cases hs : s.state with
    | «open» => exact absurd hs ho
    | initial =>
      by_cases hp : pipeline ++ new = []
      · simpa [hp] using @fits_closed .initial (by simp) user [] (by simp)
      · simpa [hp] using @fits_closed .starting (by simp) user (pipeline ++ new) fun _ => hp
    | error =>
      by_cases hp : pipeline ++ new = []
      · simpa [hp] using @fits_closed .error (by simp) user [] (by simp)
      · simpa [hp] using @fits_closed .backoff (by simp) user (pipeline ++ new) fun _ => hp
    | starting =>
      have hne := h.needed (by simp [isStarted, hs]) (h.handshake_false ho)
      exact fits_closed (by simp) _ _ fun _ e => hne (List.append_eq_nil_iff.1 e).1
    | backoff =>
      have hne := h.needed (by simp [isStarted, hs]) (h.handshake_false ho)
      exact fits_closed (by simp) _ _ fun _ e => hne (List.append_eq_nil_iff.1 e).1

theorem started_afterFill (s : WriteStream) (user : String) (new : List MutationBatch)
    {pipeline : List MutationBatch} (hp : pipeline ≠ []) :
    (s.afterFill user new pipeline).isStarted = true := by
  unfold afterFill
  cases hs : s.state with
  | «open» =>
    simp only [hp, if_false]
    split
    · simp [isStarted, isOpen]
    · simp [isStarted, isOpen, hs]
  | initial => simp [hp, isStarted]
  | error => simp [hp, isStarted]
  | starting => simp [isStarted, hs]
  | backoff => simp [isStarted, hs]

/-- The stream once it was closed without an error. -/
def stopped (s : WriteStream) : WriteStream := if s.isStarted then new else s

theorem stopped_not_started (s : WriteStream) : s.stopped.isStarted = false := by
  unfold stopped
  by_cases h : s.isStarted = true
  · rw [if_pos h]
    rfl
  · rw [if_neg h]
    simpa using h

theorem fits_stopped {s : WriteStream} {user : String} {pipeline : List MutationBatch}
    (h : s.Fits user pipeline) (user' : String) (pipeline' : List MutationBatch) :
    s.stopped.Fits user' pipeline' := by
  by_cases hst : s.isStarted = true
  · unfold stopped
    rw [if_pos hst]
    exact fits_new user' pipeline'
  · have hns : s.state ≠ .open ∧ ¬ (s.state = .starting ∨ s.state = .backoff) := by
      cases hs : s.state <;> simp [isStarted, isOpen, hs] at hst ⊢
    unfold stopped
    rw [if_neg hst, h.closed hns.1]
    exact fits_closed hns.1 user' pipeline' fun e => absurd e hns.2

theorem inhibitBackoff_stopped {s : WriteStream} {user : String} {pipeline : List MutationBatch}
    (h : s.Fits user pipeline) : s.stopped.inhibitBackoff = some new := by
  have hst := s.stopped_not_started
  have hno : s.stopped.state ≠ .open := by
    intro e
    simp [isStarted, isOpen, e] at hst
  have hcl := (fits_stopped h user []).closed hno
  unfold inhibitBackoff
  rw [if_neg (by simp [hst]), hcl]
  rfl

end WriteStream

/-- What is on its way between the client and the server, but for the requests of the stream. -/
structure Wire where
  abandoned : List Request
  handshakeComplete : Bool
  responses : List Response
  deriving DecidableEq

namespace Client

def wire (c : Client) : Wire := ⟨c.abandoned, c.stream.handshakeComplete, c.stream.responses⟩

/-- The wire once the stream was closed. -/
def cut (c : Client) : Wire := ⟨c.abandoned ++ c.stream.requests, false, []⟩

/-- What holds before the pipeline is filled. -/
structure Ready (c : Client) : Prop where
  store : c.store.Ok
  user : c.store.userId = c.currentUser
  kept : c.Kept
  stream : c.stream.Fits c.currentUser c.writePipeline
  pipeline : c.writePipeline <+: c.store.pending
  limit : c.writePipeline.length ≤ maxPendingWrites
  quiet : c.isNetworkEnabled = false → c.writePipeline = [] ∧ c.stream.isStarted = false

/-- What holds between two tasks. -/
structure Sound (c : Client) : Prop extends Ready c where
  full : c.isNetworkEnabled = true → c.writePipeline = c.store.pending.take maxPendingWrites
  busy : c.isNetworkEnabled = true → c.writePipeline ≠ [] → c.stream.isStarted = true

theorem fill_sound {c : Client} (h : c.Ready) :
    ∃ pipeline stream,
      c.fillWritePipeline = some { c with writePipeline := pipeline, stream := stream } ∧
      Sound { c with writePipeline := pipeline, stream := stream } ∧
      wire { c with writePipeline := pipeline, stream := stream } = c.wire := by
  rcases Bool.eq_false_or_eq_true c.isNetworkEnabled with hnet | hnet
  · obtain ⟨rest, hp⟩ := h.pipeline
    have htake : c.store.pending.take maxPendingWrites =
        c.writePipeline ++ rest.take (maxPendingWrites - c.writePipeline.length) := by
      rw [← hp, List.take_append, List.take_of_length_le h.limit]
    refine ⟨_, _, fill_eq h.store hnet h.limit hp.symm, { h with
      stream := ?_, pipeline := ?_, limit := ?_, quiet := ?_, full := ?_, busy := ?_ }, ?_⟩
    · rw [htake]
      exact WriteStream.fits_afterFill h.stream _
    · exact List.take_prefix _ _
    · exact List.length_take_le _ _
    · intro hn
      rw [hnet] at hn
      cases hn
    · exact fun _ => rfl
    · exact fun _ hne => WriteStream.started_afterFill _ _ _ hne
    · obtain ⟨hhand, hresp⟩ := WriteStream.received_afterFill c.stream c.currentUser
        (rest.take (maxPendingWrites - c.writePipeline.length))
        (c.store.pending.take maxPendingWrites)
      unfold wire
      rw [hhand, hresp]
  · refine ⟨c.writePipeline, c.stream, fill_disabled hnet, { h with full := ?_, busy := ?_ }, rfl⟩
    · intro hn
      rw [hnet] at hn
      cases hn
    · intro hn
      rw [hnet] at hn
      cases hn

/-! ## The network is turned off and on -/

theorem closeStream_disabled {c : Client} (hnet : c.isNetworkEnabled = false) {user : String}
    {pipeline : List MutationBatch} (hf : c.stream.Fits user pipeline) :
    c.closeStream none = some { c with
      stream := c.stream.stopped, abandoned := c.abandoned ++ c.stream.requests } := by
  unfold closeStream
  cases hst : c.stream.isStarted with
  | false => simp [WriteStream.stopped, hst, (hf.not_started hst).2.1]
  | true => simp [WriteStream.stopped, hst, onWriteStreamClose, shouldStartWriteStream, hnet,
      WriteStream.new]

theorem disableNetwork_eq {c : Client} {user : String} {pipeline : List MutationBatch}
    (hf : c.stream.Fits user pipeline) :
    c.disableNetwork = some { c with
      isNetworkEnabled := false, writePipeline := [], stream := c.stream.stopped,
      abandoned := c.abandoned ++ c.stream.requests } := by
  unfold disableNetwork disableNetworkInternal
  rw [closeStream_disabled (c := { c with isNetworkEnabled := false }) rfl hf]
  rfl

theorem disableNetwork_sound {c : Client} (h : c.Ready) :
    Sound { c with
      isNetworkEnabled := false, writePipeline := [], stream := c.stream.stopped,
      abandoned := c.abandoned ++ c.stream.requests } where
  store := h.store
  user := h.user
  kept := h.kept
  stream := WriteStream.fits_stopped h.stream _ []
  pipeline := List.nil_prefix
  limit := Nat.zero_le _
  quiet := fun _ => ⟨rfl, WriteStream.stopped_not_started _⟩
  full := by simp
  busy := by simp

theorem enableNetwork_sound {c : Client} (h : c.Ready) :
    ∃ pipeline stream,
      c.enableNetwork = some { c with
        isNetworkEnabled := true, writePipeline := pipeline, stream := stream } ∧
      Sound { c with isNetworkEnabled := true, writePipeline := pipeline, stream := stream } ∧
      wire { c with isNetworkEnabled := true, writePipeline := pipeline, stream := stream } =
        c.wire :=
  fill_sound (c := { c with isNetworkEnabled := true })
    ⟨h.store, h.user, h.kept, h.stream, h.pipeline, h.limit, by simp⟩

/-- The pipeline is forgotten, so it does not matter what it was, or whose. -/
theorem restartNetwork_sound {c : Client} (hs : c.store.Ok) (hu : c.store.userId = c.currentUser)
    (hk : c.Kept) {user : String} {pipeline : List MutationBatch}
    (hf : c.stream.Fits user pipeline) :
    ∃ pipeline stream,
      c.restartNetwork = some { c with
        isNetworkEnabled := true, writePipeline := pipeline, stream := stream,
        abandoned := c.abandoned ++ c.stream.requests } ∧
      Sound { c with
        isNetworkEnabled := true, writePipeline := pipeline, stream := stream,
        abandoned := c.abandoned ++ c.stream.requests } ∧
      wire { c with
        isNetworkEnabled := true, writePipeline := pipeline, stream := stream,
        abandoned := c.abandoned ++ c.stream.requests } = c.cut := by
  have hnew : ({ c with
      isNetworkEnabled := false, writePipeline := [], stream := WriteStream.new,
      abandoned := c.abandoned ++ c.stream.requests } : Client).Ready :=
    ⟨hs, hu, hk, WriteStream.fits_new _ [], List.nil_prefix, Nat.zero_le _, fun _ => ⟨rfl, rfl⟩⟩
  obtain ⟨pipeline', stream, heq, hsound, hwire⟩ := enableNetwork_sound hnew
  refine ⟨pipeline', stream, ?_, hsound, hwire⟩
  unfold restartNetwork
  have hdis := disableNetwork_eq hf
  unfold disableNetwork at hdis
  rw [hdis]
  simp only [Option.bind_eq_bind, Option.bind_some, WriteStream.inhibitBackoff_stopped hf]
  exact heq

end Client

end ProjectSY.Firestore
