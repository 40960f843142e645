import ProjectSY.Firestore.Pipeline

/-!
# What the write path is for

Every user has a queue of writes, and only the queue of the signed-in user
moves.  A write is entered at the end of the queue; the write at its head is
settled, with what became of it, and the callback it was entered with is run.
A restart of the process forgets the callbacks, never a write.

`Client.ledger` is what the client knows, in these terms.
-/

namespace ProjectSY.Firestore

/-- A write in a queue, with its callback if it was entered since the process started. -/
structure Entry where
  mutations : List Mutation
  callback : Option StatusCallback
  deriving DecidableEq

/-- The callback is run when it is there. -/
def Entry.notices (e : Entry) (user : String) (status : Option ErrorCode) : List Notice :=
  match e.callback with
  | some callback => [⟨user, callback, status⟩]
  | none => []

structure Ledger where
  queues : String → List Entry
  user : String
  /-- The callbacks that were run, oldest first. -/
  notices : List Notice

namespace Ledger

inductive Event where
  | enter (mutations : List Mutation) (callback : StatusCallback)
  /-- The head of the queue of the signed-in user, `none` when it was accepted. -/
  | settle (status : Option ErrorCode)
  | signIn (user : String)
  | restart (user : String)
  deriving DecidableEq

def step (L : Ledger) : Event → Option Ledger
  | .enter mutations callback =>
    some { L with
      queues := Function.update L.queues L.user
        (L.queues L.user ++ [⟨mutations, some callback⟩]) }
  | .settle status => match L.queues L.user with
    | [] => none
    | e :: rest =>
      some { L with
        queues := Function.update L.queues L.user rest
        notices := L.notices ++ e.notices L.user status }
  | .signIn user => some { L with user := user }
  | .restart user =>
    some ⟨fun u => (L.queues u).map fun e => { e with callback := none }, user, []⟩

end Ledger

namespace Client

/-- The queue of a user: a batch has the callback that is kept under its number. -/
def queue (c : Client) (u : String) : List Entry :=
  (c.store.db.pending u).map fun b => ⟨b.mutations, c.mutationCallbacks.get ⟨u, b.batchId⟩⟩

def ledger (c : Client) : Ledger := ⟨c.queue, c.currentUser, c.notices⟩

/-- The callbacks that are kept belong to batches that are still in the queues. -/
def Kept (c : Client) : Prop :=
  ∀ k, (c.mutationCallbacks.get k).isSome = true →
    ∃ b ∈ c.store.db.pending k.userId, b.batchId = k.batchId

/-! ## A write is entered -/

theorem get_callback_none {c : Client} (hk : c.Kept) (hs : c.store.Ok) (u : String) :
    c.mutationCallbacks.get ⟨u, c.store.nextBatchId⟩ = none := by
  cases h : c.mutationCallbacks.get ⟨u, c.store.nextBatchId⟩ with
  | none => rfl
  | some cb =>
    obtain ⟨b, hb, hid⟩ := hk ⟨u, c.store.nextBatchId⟩ (by rw [h]; rfl)
    have hlt := (hs.bounds hb).2
    simp only at hid
    omega

theorem queue_enter {c : Client} (hs : c.store.Ok)
    (hu : c.store.userId = c.currentUser) {mutations : List Mutation} (callback : StatusCallback)
    {store : LocalStore} (hw : LocalStore.Wrote c.store mutations store) (u : String) :
    ({ c with
      store := store
      mutationCallbacks :=
        c.mutationCallbacks.put ⟨c.currentUser, c.store.nextBatchId⟩ callback } : Client).queue u =
      if u = c.currentUser then c.queue u ++ [⟨mutations, some callback⟩] else c.queue u := by
  obtain ⟨b, hid, hms, hp⟩ := hw.pending
  -- the callbacks of the batches that were there are under other numbers
  have hold : ∀ b' ∈ c.store.db.pending u,
      (c.mutationCallbacks.put ⟨c.currentUser, c.store.nextBatchId⟩ callback).get ⟨u, b'.batchId⟩ =
        c.mutationCallbacks.get ⟨u, b'.batchId⟩ := by
    intro b' hb'
    have hlt := (hs.bounds hb').2
    rw [Table.get_put, if_neg]
    intro e
    have := (MutationKey.mk.inj e).2
    omega
  have hmap : (c.store.db.pending u).map (fun b' : MutationBatch => (⟨b'.mutations,
      (c.mutationCallbacks.put ⟨c.currentUser, c.store.nextBatchId⟩ callback).get
        ⟨u, b'.batchId⟩⟩ : Entry)) = c.queue u := by
    unfold queue
    exact List.map_congr_left fun b' hb' => by rw [hold b' hb']
  show (store.db.pending u).map _ = _
  rw [hp, hu]
  by_cases h : u = c.currentUser
  · rw [if_pos h, if_pos h, List.map_append, hmap]
    simp [hid, hms, h]
  · rw [if_neg h, if_neg h, hmap]

theorem kept_enter {c : Client} (hk : c.Kept) (hu : c.store.userId = c.currentUser)
    {mutations : List Mutation} (callback : StatusCallback) {store : LocalStore}
    (hw : LocalStore.Wrote c.store mutations store) :
    ({ c with
      store := store
      mutationCallbacks :=
        c.mutationCallbacks.put ⟨c.currentUser, c.store.nextBatchId⟩ callback } : Client).Kept := by
  obtain ⟨b, hid, -, hp⟩ := hw.pending
  intro k hsome
  simp only [Table.get_put] at hsome ⊢
  rw [hp, hu]
  by_cases h : k = ⟨c.currentUser, c.store.nextBatchId⟩
  · rw [h]
    exact ⟨b, by simp, hid⟩
  · rw [if_neg h] at hsome
    obtain ⟨b', hb', hid'⟩ := hk k hsome
    refine ⟨b', ?_, hid'⟩
    split
    · exact List.mem_append_left _ hb'
    · exact hb'

/-! ## The head of the queue is settled -/

theorem notifyUser_eq (c : Client) (batchId : Int) (status : Option ErrorCode) :
    c.notifyUser batchId status =
      { c with
        mutationCallbacks := c.mutationCallbacks.delete ⟨c.currentUser, batchId⟩
        notices := c.notices ++ match c.mutationCallbacks.get ⟨c.currentUser, batchId⟩ with
          | some callback => [⟨c.currentUser, callback, status⟩]
          | none => [] } := by
  unfold notifyUser
  cases h : c.mutationCallbacks.get ⟨c.currentUser, batchId⟩ with
  | none =>
    have hdel : c.mutationCallbacks.delete ⟨c.currentUser, batchId⟩ = c.mutationCallbacks := by
      refine Table.ext fun k => ?_
      rw [Table.get_delete]
      split
      · next e => rw [e, h]
      · rfl
    simp [hdel]
  | some callback => rfl

theorem queue_settle {c : Client} (hs : c.store.Ok) (hu : c.store.userId = c.currentUser)
    {b : MutationBatch} {rest : List MutationBatch} (hp : c.store.pending = b :: rest)
    {store : LocalStore} (hd : LocalStore.Dropped c.store rest store) (u : String) :
    ({ c with
      store := store
      mutationCallbacks := c.mutationCallbacks.delete ⟨c.currentUser, b.batchId⟩ } :
        Client).queue u = if u = c.currentUser then (c.queue u).tail else c.queue u := by
  have hold : ∀ b' ∈ c.store.db.pending u, ¬ (u = c.currentUser ∧ b'.batchId = b.batchId) →
      (c.mutationCallbacks.delete ⟨c.currentUser, b.batchId⟩).get ⟨u, b'.batchId⟩ =
        c.mutationCallbacks.get ⟨u, b'.batchId⟩ := by
    intro b' _ hne
    rw [Table.get_delete, if_neg]
    intro e
    exact hne ⟨(MutationKey.mk.inj e).1, (MutationKey.mk.inj e).2⟩
  show (store.db.pending u).map _ = _
  rw [hd.pending, hu]
  have hp' : c.store.db.pending c.currentUser = b :: rest := by
    rw [← hu]
    exact hp
  by_cases h : u = c.currentUser
  · subst h
    rw [if_pos rfl, if_pos rfl]
    unfold queue
    rw [hp', List.map_cons, List.tail_cons]
    have hinc := Db.pending_increasing hs.consistent c.currentUser
    rw [hp'] at hinc
    refine List.map_congr_left fun b' hb' => ?_
    have hlt := (List.pairwise_cons.1 hinc).1 b' hb'
    rw [hold b' (hp' ▸ List.mem_cons_of_mem b hb') fun e => by omega]
  · rw [if_neg h, if_neg h]
    unfold queue
    exact List.map_congr_left fun b' hb' => by rw [hold b' hb' fun e => h e.1]

theorem kept_settle {c : Client} (hk : c.Kept) (hu : c.store.userId = c.currentUser)
    {b : MutationBatch} {rest : List MutationBatch} (hp : c.store.pending = b :: rest)
    {store : LocalStore} (hd : LocalStore.Dropped c.store rest store) :
    ({ c with
      store := store
      mutationCallbacks := c.mutationCallbacks.delete ⟨c.currentUser, b.batchId⟩ } :
        Client).Kept := by
  have hp' : c.store.db.pending c.currentUser = b :: rest := by
    rw [← hu]
    exact hp
  intro k hsome
  simp only [Table.get_delete] at hsome ⊢
  split at hsome
  · simp at hsome
  · next hne =>
    obtain ⟨b', hb', hid⟩ := hk k hsome
    refine ⟨b', ?_, hid⟩
    rw [hd.pending, hu]
    split
    · next h =>
      rw [h, hp'] at hb'
      rcases List.mem_cons.1 hb' with rfl | hb'
      · exact absurd (by rw [← h, hid]) hne
      · exact hb'
    · exact hb'

theorem queue_head {c : Client} (hu : c.store.userId = c.currentUser) {b : MutationBatch}
    {rest : List MutationBatch} (hp : c.store.pending = b :: rest) :
    c.queue c.currentUser =
      ⟨b.mutations, c.mutationCallbacks.get ⟨c.currentUser, b.batchId⟩⟩ ::
        (c.queue c.currentUser).tail := by
  have hp' : c.store.db.pending c.currentUser = b :: rest := by
    rw [← hu]
    exact hp
  unfold queue
  rw [hp']
  rfl

end Client

end ProjectSY.Firestore
