import ProjectSY.Firestore.Client

/-!
# Filling the write pipeline

`FillWritePipeline` puts the next batches of the queue into the pipeline, as far
as there is room, sends them when the stream is established, and starts the
stream when there is something to send.  `fill_eq` says all of this at once: the
pipeline becomes the first batches of the queue, and the stream what `afterFill`
says.
-/

namespace ProjectSY.Firestore

namespace WriteStream

def request (user : String) (batch : MutationBatch) : Request := .mutations user batch.mutations

/-- The stream once `new` was added to the pipeline, which is then `pipeline`. -/
def afterFill (s : WriteStream) (user : String) (new pipeline : List MutationBatch) : WriteStream :=
  match s.state with
  | .open =>
    if pipeline = [] then { s with idlenessTimer := true }
    else if s.handshakeComplete ∧ new ≠ [] then
      { s with idlenessTimer := false, requests := s.requests ++ new.map (request user) }
    else s
  | .initial => if pipeline = [] then s else { s with state := .starting }
  | .error => if pipeline = [] then s else { s with state := .backoff }
  | .starting => s
  | .backoff => s

/-- The stream once `new` was added to the pipeline, before it is started. -/
def sendAll (s : WriteStream) (user : String) (new : List MutationBatch) : WriteStream :=
  if s.isOpen && s.handshakeComplete && !new.isEmpty then
    { s with idlenessTimer := false, requests := s.requests ++ new.map (request user) }
  else s

theorem sendAll_cons (s : WriteStream) (user : String) (batch : MutationBatch)
    (new : List MutationBatch) :
    s.sendAll user (batch :: new) = (s.sendAll user [batch]).sendAll user new := by
  unfold sendAll isOpen
  by_cases h : s.state = .open ∧ s.handshakeComplete = true
  · cases new with
    | nil => simp [h]
    | cons b new => simp [h]
  · have hb : (decide (s.state = .open) && s.handshakeComplete) = false := by
      simpa using h
    simp [hb]

/-- Adding to the pipeline, then starting if there is something to send. -/
theorem afterFill_eq (s : WriteStream) (user : String) (new pipeline : List MutationBatch)
    (hnew : pipeline = [] → new = []) :
    (if !(if pipeline = [] then s.markIdle else s.sendAll user new).isStarted && !pipeline.isEmpty
      then (if pipeline = [] then s.markIdle else s.sendAll user new).start
      else some (if pipeline = [] then s.markIdle else s.sendAll user new)) =
      some (s.afterFill user new pipeline) := by
  obtain ⟨state, handshake, timer, requests, responses⟩ := s
  by_cases hp : pipeline = []
  · subst hp
    cases state with
    | «open» => cases timer <;> simp [markIdle, isOpen, afterFill]
    | _ => simp [markIdle, isOpen, afterFill]
  · have hp' : pipeline.isEmpty = false := by simpa using hp
    simp only [hp, hp', if_false, Bool.not_false, Bool.and_true]
    cases state with
    | «open» =>
      cases handshake with
      | false => simp [sendAll, isOpen, isStarted, afterFill, hp]
      | true =>
        by_cases hn : new = []
        · simp [sendAll, isOpen, isStarted, afterFill, hp, hn]
        · have hn' : new.isEmpty = false := by simpa using hn
          simp [sendAll, isOpen, isStarted, afterFill, hp, hn]
    | _ => simp [sendAll, isOpen, isStarted, afterFill, start, hp]

end WriteStream

namespace Client

/-- The id from which `FillWritePipeline` goes on. -/
def lastRetrieved (pipeline : List MutationBatch) : Int :=
  match pipeline.getLast? with
  | none => batchIdUnknown
  | some batch => batch.batchId

theorem next_of_prefix {s : LocalStore} (hs : s.Ok) {pipeline rest : List MutationBatch}
    (hp : s.pending = pipeline ++ rest) :
    s.getNextMutationBatch (lastRetrieved pipeline) = some rest.head? := by
  unfold lastRetrieved
  cases pipeline using List.reverseRecOn with
  | nil =>
    rw [List.nil_append] at hp
    rw [← hp]
    exact LocalStore.next_of_none hs
  | append_singleton before last =>
    rw [List.getLast?_append]
    exact LocalStore.next_of_last hs (by simpa using hp)

theorem addToWritePipeline_eq {c : Client} (h : c.canAddToWritePipeline = true)
    (batch : MutationBatch) :
    c.addToWritePipeline batch =
      some { c with
        writePipeline := c.writePipeline ++ [batch]
        stream := c.stream.sendAll c.currentUser [batch] } := by
  unfold addToWritePipeline
  rw [if_pos h]
  by_cases ho : (c.stream.isOpen && c.stream.handshakeComplete) = true
  · obtain ⟨hopen, hhand⟩ := Bool.and_eq_true_iff.1 ho
    simp [hopen, hhand, WriteStream.writeMutations, WriteStream.write, WriteStream.sendAll,
      WriteStream.request]
  · rw [Bool.not_eq_true] at ho
    simp [ho, WriteStream.sendAll]

/-- What the loop does when `left` places are left and `rest` is behind the pipeline. -/
theorem fillLoop_eq (left : Nat) : ∀ (c : Client) (rest : List MutationBatch), c.store.Ok →
    c.isNetworkEnabled = true → c.store.pending = c.writePipeline ++ rest →
    c.writePipeline.length + left = maxPendingWrites →
    fillLoop left (lastRetrieved c.writePipeline) c =
      some { c with
        writePipeline := c.writePipeline ++ rest.take left
        stream := if c.writePipeline = [] ∧ rest = [] then c.stream.markIdle
          else c.stream.sendAll c.currentUser (rest.take left) } := by
  induction left with
  | zero =>
    intro c rest hs hnet hp hlen
    have hne : c.writePipeline ≠ [] := by
      intro e
      rw [e] at hlen
      simp [maxPendingWrites] at hlen
    simp [fillLoop, hne, WriteStream.sendAll]
  | succ left ih =>
    intro c rest hs hnet hp hlen
    have hcan : c.canAddToWritePipeline = true := by
      unfold canAddToWritePipeline
      simp only [hnet, Bool.true_and, decide_eq_true_eq]
      omega
    unfold fillLoop
    rw [if_pos hcan, next_of_prefix hs hp]
    cases rest with
    | nil =>
      by_cases he : c.writePipeline = []
      · simp [he]
      · simp [he, WriteStream.sendAll]
    | cons batch rest =>
      simp only [List.head?_cons, addToWritePipeline_eq hcan, Option.bind_eq_bind, Option.bind_some]
      have hlast : lastRetrieved (c.writePipeline ++ [batch]) = batch.batchId := by
        simp [lastRetrieved]
      have hloop := ih { c with
        writePipeline := c.writePipeline ++ [batch]
        stream := c.stream.sendAll c.currentUser [batch] } rest hs hnet (by simpa using hp)
        (by simp only [List.length_append, List.length_singleton]; omega)
      simp only [hlast, List.append_eq_nil_iff, List.cons_ne_nil, and_false, false_and,
        if_false] at hloop
      rw [hloop, if_neg (by simp), List.take_succ_cons,
        WriteStream.sendAll_cons c.stream c.currentUser batch (rest.take left)]
      simp

theorem fill_disabled {c : Client} (h : c.isNetworkEnabled = false) :
    c.fillWritePipeline = some c := by
  have hcan : c.canAddToWritePipeline = false := by simp [canAddToWritePipeline, h]
  have hstart : c.shouldStartWriteStream = false := by simp [shouldStartWriteStream, h]
  have hloop : ∀ n last, fillLoop n last c = some c := by
    intro n last
    cases n with
    | zero => rfl
    | succ n => simp [fillLoop, hcan]
  unfold fillWritePipeline
  simp [hloop, hstart]

/-- The stream is started when there is something to send. -/
theorem start_if_needed (c : Client) (hnet : c.isNetworkEnabled = true) :
    (if c.shouldStartWriteStream then c.startWriteStream else some c) =
      (if !c.stream.isStarted && !c.writePipeline.isEmpty then c.stream.start
        else some c.stream).map fun s => { c with stream := s } := by
  have h : c.shouldStartWriteStream = (!c.stream.isStarted && !c.writePipeline.isEmpty) := by
    simp [shouldStartWriteStream, hnet]
  unfold startWriteStream
  rw [h]
  cases !c.stream.isStarted && !c.writePipeline.isEmpty with
  | false => rfl
  | true =>
    simp only [if_true]
    cases c.stream.start <;> rfl

/-- **Filling the pipeline.** -/
theorem fill_eq {c : Client} (hs : c.store.Ok) (hnet : c.isNetworkEnabled = true)
    (hle : c.writePipeline.length ≤ maxPendingWrites) {rest : List MutationBatch}
    (hp : c.store.pending = c.writePipeline ++ rest) :
    c.fillWritePipeline =
      some { c with
        writePipeline := c.store.pending.take maxPendingWrites
        stream := c.stream.afterFill c.currentUser
          (rest.take (maxPendingWrites - c.writePipeline.length))
          (c.store.pending.take maxPendingWrites) } := by
  set left := maxPendingWrites - c.writePipeline.length with hleft
  have htake : c.store.pending.take maxPendingWrites = c.writePipeline ++ rest.take left := by
    rw [hp, List.take_append, List.take_of_length_le hle]
  have hloop := fillLoop_eq left c rest hs hnet hp (by omega)
  unfold fillWritePipeline
  simp only
  show (fillLoop left (lastRetrieved c.writePipeline) c).bind _ = _
  rw [hloop, Option.bind_some, ← htake]
  have hempty : (c.writePipeline = [] ∧ rest = []) ↔ c.store.pending.take maxPendingWrites = [] := by
    rw [htake, List.append_eq_nil_iff]
    constructor
    · rintro ⟨h1, h2⟩
      exact ⟨h1, by rw [h2, List.take_nil]⟩
    · rintro ⟨h1, h2⟩
      refine ⟨h1, ?_⟩
      rcases List.take_eq_nil_iff.1 h2 with h | h
      · rw [hleft, h1] at h
        simp [maxPendingWrites] at h
      · exact h
  simp only [hempty]
  have hstart := WriteStream.afterFill_eq c.stream c.currentUser (rest.take left)
    (c.store.pending.take maxPendingWrites) fun h => by
      rw [htake] at h
      exact (List.append_eq_nil_iff.1 h).2
  exact (start_if_needed { c with
      writePipeline := c.store.pending.take maxPendingWrites
      stream := if c.store.pending.take maxPendingWrites = [] then c.stream.markIdle
        else c.stream.sendAll c.currentUser (rest.take left) } hnet).trans
    (by simp only [hstart, Option.map_some])

end Client

end ProjectSY.Firestore
