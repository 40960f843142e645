import ProjectSY.Firestore.LocalStore
import ProjectSY.Lib.Runs

/-!
# The write path of the client

    core/sync_engine.cc, core/firestore_client.cc    writes, their callbacks, the signed-in user
    remote/remote_store.cc                           the write pipeline
    remote/stream.cc, remote/write_stream.cc         the write stream

The functions run on the worker queue, one after the other, and return `none`
where an assertion of the source fails.  A gRPC stream is the requests that the
server has not read yet and the answers that the client has not read yet, each
oldest first.  Closing it cancels the call: no answer is read any more, but what
was sent may still reach the server (`abandoned`).

Left out are the targets of the watch stream and the views, the stream tokens
(the client only echoes them), and the empty request that a graceful stop sends.
-/

namespace ProjectSY.Firestore

inductive StreamState where
  | initial
  | starting
  | open
  | error
  | backoff
  deriving DecidableEq

/-- What the client sends; the first response of a stream answers the handshake.  A batch is sent
as the user whose token the call has. -/
inductive Request where
  | handshake
  | mutations (user : String) (mutations : List Mutation)
  deriving DecidableEq

/-- An answer of the server.  The client reads the results only; `answers` says which request
the server has answered. -/
structure Response where
  answers : Request
  results : List SnapshotVersion
  deriving DecidableEq

structure WriteStream where
  state : StreamState
  handshakeComplete : Bool
  /-- The idleness timer is set. -/
  idlenessTimer : Bool
  requests : List Request
  responses : List Response
  deriving DecidableEq

namespace WriteStream

def new : WriteStream := ⟨.initial, false, false, [], []⟩

def isOpen (s : WriteStream) : Bool := s.state = .open

def isStarted (s : WriteStream) : Bool := s.state = .starting || s.state = .backoff || s.isOpen

/-- After an error the stream waits before it starts again. -/
def start (s : WriteStream) : Option WriteStream :=
  match s.state with
  | .error => some { s with state := .backoff }
  | .initial => some { s with state := .starting }
  | _ => none

def inhibitBackoff (s : WriteStream) : Option WriteStream :=
  if s.isStarted then none else some { s with state := .initial }

def markIdle (s : WriteStream) : WriteStream :=
  if s.isOpen && !s.idlenessTimer then { s with idlenessTimer := true } else s

def write (s : WriteStream) (request : Request) : Option WriteStream :=
  if s.isOpen then some { s with idlenessTimer := false, requests := s.requests ++ [request] }
  else none

def writeHandshake (s : WriteStream) : Option WriteStream :=
  if s.isOpen && !s.handshakeComplete then s.write .handshake else none

def writeMutations (s : WriteStream) (user : String) (mutations : List Mutation) :
    Option WriteStream :=
  if s.isOpen && s.handshakeComplete then s.write (.mutations user mutations) else none

end WriteStream

/-- Every error code but `kErrorOk`. -/
inductive ErrorCode where
  | cancelled | unknown | invalidArgument | deadlineExceeded | notFound | alreadyExists
  | permissionDenied | resourceExhausted | failedPrecondition | aborted | outOfRange
  | unimplemented | internal | unavailable | dataLoss | unauthenticated
  deriving DecidableEq

namespace ErrorCode

def isPermanentError : ErrorCode → Bool
  | .cancelled | .unknown | .deadlineExceeded | .resourceExhausted | .internal | .unavailable
  | .unauthenticated => false
  | .invalidArgument | .notFound | .alreadyExists | .permissionDenied | .failedPrecondition
  | .aborted | .outOfRange | .unimplemented | .dataLoss => true

def isPermanentWriteError (error : ErrorCode) : Bool :=
  error.isPermanentError && !(error = .aborted)

end ErrorCode

/-- `StatusCallback`, by what tells one from another. -/
abbrev StatusCallback := Nat

/-- A callback that was run: of which user's write, and `none` for `Status::OK()`. -/
structure Notice where
  user : String
  callback : StatusCallback
  status : Option ErrorCode
  deriving DecidableEq

/-- `kMaxPendingWrites`. -/
def maxPendingWrites : Nat := 10

structure Client where
  store : LocalStore
  currentUser : String
  mutationCallbacks : Table MutationKey StatusCallback
  pendingWritesCallbacks : Table Int (List StatusCallback)
  isNetworkEnabled : Bool
  writePipeline : List MutationBatch
  stream : WriteStream
  /-- The requests of closed streams that the server has not read yet, oldest first. -/
  abandoned : List Request
  /-- The callbacks of writes that were run, oldest first. -/
  notices : List Notice
  /-- The callbacks of `waitForPendingWrites` that were run, oldest first. -/
  waited : List (StatusCallback × Option ErrorCode)
  deriving DecidableEq

namespace Client

/-! ## The write pipeline -/

def canAddToWritePipeline (c : Client) : Bool :=
  c.isNetworkEnabled && c.writePipeline.length < maxPendingWrites

def addToWritePipeline (c : Client) (batch : MutationBatch) : Option Client :=
  if c.canAddToWritePipeline then
    let c := { c with writePipeline := c.writePipeline ++ [batch] }
    if c.stream.isOpen && c.stream.handshakeComplete then do
      let stream ← c.stream.writeMutations c.currentUser batch.mutations
      return { c with stream := stream }
    else some c
  else none

def shouldStartWriteStream (c : Client) : Bool :=
  c.isNetworkEnabled && !c.stream.isStarted && !c.writePipeline.isEmpty

def startWriteStream (c : Client) : Option Client :=
  if c.shouldStartWriteStream then do
    let stream ← c.stream.start
    return { c with stream := stream }
  else none

/-- The loop of `FillWritePipeline`; every round fills one of the places that are left. -/
def fillLoop : Nat → Int → Client → Option Client
  | 0, _, c => some c
  | left + 1, lastBatchIdRetrieved, c =>
    if c.canAddToWritePipeline then
      match c.store.getNextMutationBatch lastBatchIdRetrieved with
      | none => none
      | some none =>
        if c.writePipeline.isEmpty then some { c with stream := c.stream.markIdle } else some c
      | some (some batch) => do
        let c ← c.addToWritePipeline batch
        fillLoop left batch.batchId c
    else some c

def fillWritePipeline (c : Client) : Option Client := do
  let lastBatchIdRetrieved := match c.writePipeline.getLast? with
    | none => batchIdUnknown
    | some batch => batch.batchId
  let c ← fillLoop (maxPendingWrites - c.writePipeline.length) lastBatchIdRetrieved c
  if c.shouldStartWriteStream then c.startWriteStream else return c

/-! ## What became of a write -/

def notifyUser (c : Client) (batchId : Int) (status : Option ErrorCode) : Client :=
  match c.mutationCallbacks.get ⟨c.currentUser, batchId⟩ with
  | none => c
  | some callback =>
    { c with
      mutationCallbacks := c.mutationCallbacks.delete ⟨c.currentUser, batchId⟩
      notices := c.notices ++ [⟨c.currentUser, callback, status⟩] }

def triggerPendingWriteCallbacks (c : Client) (batchId : Int) : Client :=
  match c.pendingWritesCallbacks.get batchId with
  | none => c
  | some callbacks =>
    { c with
      pendingWritesCallbacks := c.pendingWritesCallbacks.delete batchId
      waited := c.waited ++ callbacks.map fun callback => (callback, none) }

def failOutstandingPendingWriteCallbacks (c : Client) : Client :=
  { c with
    pendingWritesCallbacks := Table.empty
    waited := c.waited ++ (c.pendingWritesCallbacks.rows.flatMap Prod.snd).map
      fun callback => (callback, some .cancelled) }

def handleSuccessfulWrite (c : Client) (r : MutationBatchResult) : Option Client := do
  let c := c.notifyUser r.batch.batchId none
  let c := c.triggerPendingWriteCallbacks r.batch.batchId
  let (store, _) ← c.store.acknowledgeBatch r
  return { c with store := store }

def handleRejectedWrite (c : Client) (batchId : Int) (error : ErrorCode) : Option Client := do
  let (store, _) ← c.store.rejectBatch batchId
  let c := { c with store := store }
  let c := c.notifyUser batchId (some error)
  return c.triggerPendingWriteCallbacks batchId

/-! ## The write stream -/

def handleWriteError (c : Client) (error : ErrorCode) : Option Client :=
  if error.isPermanentWriteError then
    match c.writePipeline with
    | [] => none
    | batch :: rest => do
      let c := { c with writePipeline := rest }
      let stream ← c.stream.inhibitBackoff
      let c := { c with stream := stream }
      let c ← c.handleRejectedWrite batch.batchId error
      c.fillWritePipeline
  else some c

/-- A handshake error only resets the stream token. -/
def onWriteStreamClose (c : Client) (status : Option ErrorCode) : Option Client := do
  let c ← match status with
    | none => if c.shouldStartWriteStream then none else some c
    | some error =>
      if !c.writePipeline.isEmpty && c.stream.handshakeComplete then c.handleWriteError error
      else some c
  if c.shouldStartWriteStream then c.startWriteStream else return c

/-- `Stream::Close`, `none` for `Status::OK()`. -/
def closeStream (c : Client) (status : Option ErrorCode) : Option Client :=
  if status.isNone && !c.stream.isStarted then some c
  else if c.stream.isStarted then do
    let state := if status.isNone then StreamState.initial else .error
    let stream : WriteStream := ⟨state, c.stream.handshakeComplete, false, [], []⟩
    let abandoned := c.abandoned ++ c.stream.requests
    let c ← { c with stream := stream, abandoned := abandoned }.onWriteStreamClose status
    return { c with stream := { c.stream with handshakeComplete := false } }
  else none

def disableNetworkInternal (c : Client) : Option Client := do
  let c ← c.closeStream none
  return { c with writePipeline := [] }

def enableNetwork (c : Client) : Option Client :=
  { c with isNetworkEnabled := true }.fillWritePipeline

def disableNetwork (c : Client) : Option Client :=
  { c with isNetworkEnabled := false }.disableNetworkInternal

def restartNetwork (c : Client) : Option Client := do
  let c ← { c with isNetworkEnabled := false }.disableNetworkInternal
  let stream ← c.stream.inhibitBackoff
  { c with stream := stream }.enableNetwork

def onWriteStreamOpen (c : Client) : Option Client := do
  let stream ← { c.stream with state := .open }.writeHandshake
  return { c with stream := stream }

def onWriteStreamHandshakeComplete (c : Client) : Option Client := do
  let stream ← c.writePipeline.foldlM
    (fun stream batch => stream.writeMutations c.currentUser batch.mutations) c.stream
  return { c with stream := stream }

def onWriteStreamMutationResult (c : Client) (results : List SnapshotVersion) : Option Client :=
  match c.writePipeline with
  | [] => none
  | batch :: rest =>
    if h : results.length = batch.mutations.length then do
      let c ← { c with writePipeline := rest }.handleSuccessfulWrite ⟨batch, results, h⟩
      c.fillWritePipeline
    else none

/-- `NotifyStreamResponse`: the first response of a stream is the handshake response. -/
def onStreamRead (c : Client) (response : Response) : Option Client :=
  if !c.stream.isStarted then none
  else if !c.stream.handshakeComplete then
    { c with stream := { c.stream with handshakeComplete := true } }.onWriteStreamHandshakeComplete
  else c.onWriteStreamMutationResult response.results

/-! ## What the app and the platform do -/

def writeMutations (c : Client) (mutations : List Mutation) (callback : StatusCallback) :
    Option Client := do
  let (store, batchId, _) ← c.store.writeLocally mutations
  let c := { c with store := store }
  let c := if (c.mutationCallbacks.get ⟨c.currentUser, batchId⟩).isNone then
      { c with mutationCallbacks := c.mutationCallbacks.put ⟨c.currentUser, batchId⟩ callback }
    else c
  c.fillWritePipeline

def registerPendingWritesCallback (c : Client) (callback : StatusCallback) : Client :=
  let largestPendingBatchId := c.store.getHighestUnacknowledgedBatchId
  if largestPendingBatchId = batchIdUnknown then
    { c with waited := c.waited ++ [(callback, none)] }
  else
    let callbacks := (c.pendingWritesCallbacks.get largestPendingBatchId).getD []
    { c with
      pendingWritesCallbacks :=
        c.pendingWritesCallbacks.put largestPendingBatchId (callbacks ++ [callback]) }

def handleCredentialChange (c : Client) (user : String) : Option Client := do
  let userChanged := c.currentUser ≠ user
  let c := { c with currentUser := user }
  let c ← if userChanged then do
      let c := c.failOutstandingPendingWriteCallbacks
      let (store, _) ← c.store.handleUserChange user
      pure { c with store := store }
    else some c
  if c.isNetworkEnabled then c.restartNetwork else return c

/-- `ApplyRemoteEvent`, as far as it concerns the cache. -/
def applyRemoteEvent (c : Client) (documentUpdates : List (DocumentKey × MaybeDocument)) :
    Option Client := do
  let (store, _) ← c.store.applyRemoteEvent documentUpdates
  return { c with store := store }

/-- The process starts: the database is what is left of the client before it. -/
def launch (db : Db) (user : String) : Option Client :=
  let c : Client := ⟨LocalStore.start db user, user, Table.empty, Table.empty, false, [],
    WriteStream.new, [], [], []⟩
  c.enableNetwork

inductive Event where
  /-- The app writes; an empty list never comes this far. -/
  | writeMutations (mutations : List Mutation) (callback : StatusCallback)
  | waitForPendingWrites (callback : StatusCallback)
  | credentialChange (user : String)
  | enableNetwork
  | disableNetwork
  /-- The network is there again. -/
  | connectivityChange
  | streamStart
  /-- The server reads the oldest request of the stream and answers it. -/
  | serverAnswer (results : List SnapshotVersion)
  | streamRead
  /-- The stream is over, `none` for `Status::OK()`. -/
  | streamFinish (status : Option ErrorCode)
  | backoffElapsed
  | idleTimeout
  /-- The server reads the oldest abandoned request; its answer goes nowhere. -/
  | lateRequest
  /-- The abandoned requests are lost. -/
  | lostRequests
  /-- The watch stream brings documents. -/
  | remoteEvent (documentUpdates : List (DocumentKey × MaybeDocument))
  | relaunch (user : String)
  deriving DecidableEq

/-- When the event can happen.  The server sends one result for every mutation.  A stream that is
not open yet ends when there is no token, which is an error. -/
def enabled (c : Client) : Event → Prop
  | .writeMutations mutations _ => mutations ≠ []
  | .waitForPendingWrites _ => True
  | .credentialChange _ => True
  | .enableNetwork => True
  | .disableNetwork => True
  | .connectivityChange => c.isNetworkEnabled = true
  | .streamStart => c.stream.state = .starting
  | .serverAnswer results => match c.stream.requests with
    | [] => False
    | .handshake :: _ => results = []
    | .mutations _ mutations :: _ => results.length = mutations.length
  | .streamRead => c.stream.responses ≠ []
  | .streamFinish status => c.stream.state = .open ∨ c.stream.state = .starting ∧ status ≠ none
  | .backoffElapsed => c.stream.state = .backoff
  | .idleTimeout => c.stream.idlenessTimer = true
  | .lateRequest => c.abandoned ≠ []
  | .lostRequests => True
  | .remoteEvent _ => c.isNetworkEnabled = true
  | .relaunch _ => True

instance (c : Client) (e : Event) : Decidable (c.enabled e) := by
  cases e with
  | serverAnswer results =>
    unfold enabled
    cases c.stream.requests with
    | nil => exact inferInstanceAs (Decidable False)
    | cons r rest => cases r <;> exact inferInstanceAs (Decidable (_ = _))
  | _ => unfold enabled; infer_instance

def perform (c : Client) : Event → Option Client
  | .writeMutations mutations callback => c.writeMutations mutations callback
  | .waitForPendingWrites callback => some (c.registerPendingWritesCallback callback)
  | .credentialChange user => c.handleCredentialChange user
  | .enableNetwork => c.enableNetwork
  | .disableNetwork => c.disableNetwork
  | .connectivityChange => c.restartNetwork
  | .streamStart => c.onWriteStreamOpen
  | .serverAnswer results => match c.stream.requests with
    | [] => none
    | request :: rest =>
      some { c with stream := { c.stream with
        requests := rest, responses := c.stream.responses ++ [⟨request, results⟩] } }
  | .streamRead => match c.stream.responses with
    | [] => none
    | response :: rest =>
      { c with stream := { c.stream with responses := rest } }.onStreamRead response
  | .streamFinish status => c.closeStream status
  | .backoffElapsed => do
    let stream ← { c.stream with state := .initial }.start
    return { c with stream := stream }
  | .idleTimeout => c.closeStream none
  | .lateRequest => some { c with abandoned := c.abandoned.tail }
  | .lostRequests => some { c with abandoned := [] }
  | .remoteEvent documentUpdates => c.applyRemoteEvent documentUpdates
  | .relaunch user => do
    let c' ← launch c.store.db user
    return { c' with abandoned := c.abandoned ++ c.stream.requests }

/-- One task of the worker queue, or one step of the server. -/
def step (c : Client) (e : Event) : Option Client := if c.enabled e then c.perform e else none

end Client

end ProjectSY.Firestore
