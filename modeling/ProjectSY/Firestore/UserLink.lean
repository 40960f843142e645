import ProjectSY.Firestore.Histories
import ProjectSY.Firestore.Overwrites
import ProjectSY.Lib.Links

/-!
# The link of a user

The batches that a user of the device still has to send, and what of them is on
its way, are a link from the device to the server.  Every task of the client is
one step of it (`Followed.link_step`).

Of the server two things are relied on: it answers on a new connection when
nothing of an old one can arrive any more (`Client.Fenced`), and it ends a
connection with a permanent error over the batch that it would answer next
(`Client.Refused`).
-/

namespace ProjectSY.Firestore

open Resend

/-! ## The queues of the ledger, as batches -/

namespace Client

/-- The writes of each user so far. -/
def entered (H : String → List (List Mutation)) (c : Client) :
    Event → String → List (List Mutation)
  | .writeMutations mutations _ =>
    Function.update H c.currentUser (H c.currentUser ++ [mutations])
  | _ => H

theorem entered_eq (H : String → List (List Mutation)) (c : Client) (e : Event) :
    c.entered H e = match c.label e with
      | some (.enter mutations _) =>
        Function.update H c.currentUser (H c.currentUser ++ [mutations])
      | _ => H := by
  cases e with
  | streamRead => unfold label; cases c.stream.handshakeComplete <;> rfl
  | streamFinish status =>
    cases status with
    | none => rfl
    | some error =>
      unfold label
      by_cases h : error.isPermanentWriteError = true ∧ c.stream.handshakeComplete = true ∧
          c.writePipeline ≠ []
      · simp only [if_pos h, entered]
      · simp only [if_neg h, entered]
  | _ => rfl

/-- The batches that the user still has to send. -/
def unsent (c : Client) (u : String) : List (List Mutation) :=
  (c.store.db.pending u).map MutationBatch.mutations

def unsentOf (L : Ledger) (u : String) : List (List Mutation) := (L.queues u).map Entry.mutations

theorem unsentOf_ledger (c : Client) (u : String) : unsentOf c.ledger u = c.unsent u := by
  simp [unsentOf, ledger, queue, unsent, Function.comp_def]

theorem unsentOf_step {L L' : Ledger} {e : Ledger.Event} (h : L.step e = some L') (u : String) :
    match e with
    | .enter mutations _ =>
      unsentOf L' u = if u = L.user then unsentOf L u ++ [mutations] else unsentOf L u
    | .settle _ => if u = L.user then ∃ mutations, unsentOf L u = mutations :: unsentOf L' u
      else unsentOf L' u = unsentOf L u
    | _ => unsentOf L' u = unsentOf L u := by
  cases e with
  | enter mutations callback =>
    cases h
    unfold unsentOf
    simp only [Function.update_apply]
    by_cases hu : u = L.user
    · simp [hu]
    · simp [hu]
  | settle status =>
    unfold Ledger.step at h
    cases hq : L.queues L.user with
    | nil => simp [hq] at h
    | cons entry rest =>
      simp only [hq, Option.some.injEq] at h
      subst h
      unfold unsentOf
      by_cases hu : u = L.user
      · subst hu
        simp [hq]
      · simp [hu]
  | signIn user =>
    cases h
    rfl
  | restart user =>
    cases h
    simp [unsentOf, Function.comp_def]

section Step

variable {c c' : Client} {e : Event} (h : c.Sound) (hstore : c.CanStore e)
  (hs : c.step e = some c')

include h hstore hs

theorem unsent_step (u : String) :
    match c.label e with
    | some (.enter mutations _) =>
      c'.unsent u = if u = c.currentUser then c.unsent u ++ [mutations] else c.unsent u
    | some (.settle _) => if u = c.currentUser then ∃ mutations, c.unsent u = mutations :: c'.unsent u
      else c'.unsent u = c.unsent u
    | _ => c'.unsent u = c.unsent u := by
  have hl := (step_sound h hstore hs).2.1
  simp only [← unsentOf_ledger]
  cases hlabel : c.label e with
  | none =>
    rw [hlabel] at hl
    rw [← Option.some.inj hl]
  | some l =>
    rw [hlabel] at hl
    have hstep := unsentOf_step hl u
    cases l with
    | enter mutations callback => exact hstep
    | settle status => exact hstep
    | signIn user => exact hstep
    | restart user => exact hstep

theorem currentUser_step :
    c'.currentUser = match c.label e with
      | some (.signIn user) => user
      | some (.restart user) => user
      | _ => c.currentUser := by
  have hl := (step_sound h hstore hs).2.1
  show c'.ledger.user = _
  cases hlabel : c.label e with
  | none =>
    rw [hlabel] at hl
    rw [← Option.some.inj hl]
    rfl
  | some l =>
    rw [hlabel] at hl
    cases l with
    | settle status =>
      unfold Ledger.advance Ledger.step at hl
      simp only at hl
      split at hl
      · simp at hl
      · rw [← Option.some.inj hl]
        rfl
    | _ => exact (congrArg Ledger.user (Option.some.inj hl)).symm

end Step

end Client

/-! ## What is on its way -/

namespace Request

/-- The batch, when it is sent as the user. -/
def batchOf (u : String) : Request → Option (List Mutation)
  | .mutations user batch => if user = u then some batch else none
  | .handshake => none

theorem batchOf_mutations (u user : String) (batch : List Mutation) :
    (Request.mutations user batch).batchOf u = if user = u then some batch else none := rfl

/-- A batch that the server does not accept. -/
def refused (allowed : String → List Mutation → Bool) : Request → Bool
  | .mutations user batch => !allowed user batch
  | .handshake => false

end Request

def sentBy (u : String) (requests : List Request) : List (List Mutation) :=
  requests.filterMap (Request.batchOf u)

theorem sentBy_pipeline (u : String) (pipeline : List MutationBatch) :
    sentBy u (pipeline.map (WriteStream.request u)) = pipeline.map MutationBatch.mutations := by
  simp [sentBy, List.filterMap_map, Function.comp_def, WriteStream.request, Request.batchOf]

theorem sentBy_others {u user : String} (h : user ≠ u) (pipeline : List MutationBatch) :
    sentBy u (pipeline.map (WriteStream.request user)) = [] := by
  simp [sentBy, List.filterMap_map, Function.comp_def, WriteStream.request, Request.batchOf, h]

/-- The link of the user, from what is on the wire. -/
def Wire.link (W : Wire) (currentUser u : String) (issued unsettled : List (List Mutation)) :
    Link (List Mutation) :=
  ⟨issued, unsettled, sentBy u W.abandoned,
    if currentUser = u ∧ W.handshakeComplete = true then some W.responses.length else none⟩

theorem Wire.link_established {W : Wire} {currentUser u : String}
    (h : currentUser = u ∧ W.handshakeComplete = true) (ha : W.abandoned = [])
    (issued unsettled : List (List Mutation)) :
    W.link currentUser u issued unsettled = ⟨issued, unsettled, [], some W.responses.length⟩ := by
  unfold Wire.link
  rw [if_pos h, ha]
  rfl

theorem Wire.link_none {W : Wire} {currentUser u : String}
    (h : ¬ (currentUser = u ∧ W.handshakeComplete = true))
    (issued unsettled : List (List Mutation)) :
    W.link currentUser u issued unsettled = ⟨issued, unsettled, sentBy u W.abandoned, none⟩ := by
  unfold Wire.link
  rw [if_neg h]

namespace Client

/-- The request that the server reads in the event. -/
def received (c : Client) : Event → Option Request
  | .serverAnswer _ => c.stream.requests.head?
  | .lateRequest => c.abandoned.head?
  | _ => none

def link (c : Client) (u : String) (issued : List (List Mutation)) : Link (List Mutation) :=
  c.wire.link c.currentUser u issued (c.unsent u)

section Stream

variable {c : Client} (h : c.Sound)

include h

theorem pipeline_unsent : c.writePipeline.map MutationBatch.mutations <+: c.unsent c.currentUser := by
  unfold unsent
  rw [← h.user]
  exact h.pipeline.map _

/-- The pipeline on an established stream: the answered batches, then the ones that are sent. -/
theorem established (hhand : c.stream.handshakeComplete = true) :
    c.stream.responses.map Response.answers ++ c.stream.requests =
      c.writePipeline.map (WriteStream.request c.currentUser) := by
  have hopen : c.stream.isOpen = true := by simp [WriteStream.isOpen, h.stream.handshake hhand]
  have hcarries := h.stream.carries
  unfold WriteStream.owed at hcarries
  rwa [if_pos hopen, if_pos hhand] at hcarries

theorem requests_eq (hhand : c.stream.handshakeComplete = true) :
    c.stream.requests =
      (c.writePipeline.drop c.stream.responses.length).map (WriteStream.request c.currentUser) := by
  rw [List.map_drop, ← established h hhand, List.drop_left' (by rw [List.length_map])]

/-- Before the handshake is answered it is all that is sent. -/
theorem handshaking (hhand : c.stream.handshakeComplete = false) :
    c.stream.responses.map Response.answers ++ c.stream.requests <+: [.handshake] := by
  have hcarries := h.stream.carries
  unfold WriteStream.owed at hcarries
  rw [hhand] at hcarries
  rw [hcarries]
  split
  · exact List.prefix_refl _
  · exact List.nil_prefix

theorem sentBy_carried {u : String}
    (hu : c.currentUser = u ∧ c.stream.handshakeComplete = true) :
    sentBy u c.stream.requests <+: (c.unsent u).drop c.stream.responses.length := by
  obtain ⟨rfl, hhand⟩ := hu
  rw [requests_eq h hhand, sentBy_pipeline, List.map_drop]
  exact (pipeline_unsent h).drop _

theorem sentBy_idle {u : String}
    (hu : ¬ (c.currentUser = u ∧ c.stream.handshakeComplete = true)) :
    sentBy u c.stream.requests = [] := by
  cases hhand : c.stream.handshakeComplete with
  | true =>
    rw [requests_eq h hhand]
    exact sentBy_others (fun e => hu ⟨e, hhand⟩) _
  | false =>
    refine List.filterMap_eq_nil_iff.2 fun r hr => ?_
    have hmem := (handshaking h hhand).subset (List.mem_append_right _ hr)
    rw [List.mem_singleton.1 hmem]
    rfl

theorem requests_known {user : String} {batch : List Mutation}
    (hr : Request.mutations user batch ∈ c.stream.requests) :
    user = c.currentUser ∧ batch ∈ c.unsent user := by
  cases hhand : c.stream.handshakeComplete with
  | true =>
    rw [requests_eq h hhand] at hr
    obtain ⟨b, hb, heq⟩ := List.mem_map.1 hr
    obtain ⟨rfl, rfl⟩ := Request.mutations.inj heq
    exact ⟨rfl, (pipeline_unsent h).subset (List.mem_map_of_mem (List.mem_of_mem_drop hb))⟩
  | false =>
    have hmem := (handshaking h hhand).subset (List.mem_append_right _ hr)
    simp at hmem

/-- What the server reads next on an established stream. -/
theorem sent_next {user : String} {batch : List Mutation}
    (hr : c.stream.requests.head? = some (.mutations user batch)) :
    user = c.currentUser ∧ c.stream.handshakeComplete = true ∧
      (c.unsent user)[c.stream.responses.length]? = some batch := by
  cases hhand : c.stream.handshakeComplete with
  | true =>
    rw [requests_eq h hhand, List.head?_map, List.head?_drop, Option.map_eq_some_iff] at hr
    obtain ⟨b, hb, heq⟩ := hr
    obtain ⟨rfl, rfl⟩ := Request.mutations.inj heq
    obtain ⟨later, hpre⟩ := pipeline_unsent h
    refine ⟨rfl, rfl, ?_⟩
    have hmap : (c.writePipeline.map MutationBatch.mutations)[c.stream.responses.length]? =
        some b.mutations := by
      rw [List.getElem?_map, hb]
      rfl
    rw [← hpre, List.getElem?_append_left (List.getElem?_eq_some_iff.1 hmap).1, hmap]
  | false =>
    have hmem := (handshaking h hhand).subset
      (List.mem_append_right _ (List.mem_of_mem_head? (Option.mem_def.2 hr)))
    simp at hmem

/-- When all answers were read, the batch that the server refuses is the head of the queue. -/
theorem refused_head {allowed : String → List Mutation → Bool} {u : String}
    {mutations : List Mutation} {later : List (List Mutation)} (hcur : c.currentUser = u)
    (hq : c.unsent u = mutations :: later)
    (hrefused : c.stream.requests.head?.any (Request.refused allowed) = true)
    (hread : c.stream.responses = []) : allowed u mutations = false := by
  obtain ⟨request, hreq, href⟩ := (Option.any_eq_true _ _).1 hrefused
  cases request with
  | handshake => cases href
  | mutations user batch =>
    obtain ⟨hv, -, hget⟩ := sent_next h hreq
    rw [hv.trans hcur, hread, hq, List.length_nil, List.getElem?_cons_zero] at hget
    rw [← Option.some.inj hget] at href
    simpa [Request.refused, hv.trans hcur] using href

theorem handshake_next (hr : c.stream.requests.head? = some .handshake) :
    c.stream.handshakeComplete = false := by
  cases hhand : c.stream.handshakeComplete with
  | false => rfl
  | true =>
    rw [requests_eq h hhand, List.head?_map, Option.map_eq_some_iff] at hr
    obtain ⟨b, -, hb⟩ := hr
    cases hb

end Stream

/-! ## A document that one user writes -/

/-- What the app writes in the event. -/
def written : Event → List Mutation
  | .writeMutations mutations _ => mutations
  | _ => []

/-- Whoever is signed in, a write of the document is one of the user and has no preconditions. -/
def OwnWrites (u : String) (key : DocumentKey) (c : Client) (e : Event) : Prop :=
  if c.currentUser = u then Mutation.Unconditional key (written e)
  else ∀ m ∈ written e, m.key ≠ key

instance (u : String) (key : DocumentKey) (c : Client) (e : Event) :
    Decidable (OwnWrites u key c e) :=
  inferInstanceAs (Decidable (if c.currentUser = u then Mutation.Unconditional key (written e)
    else ∀ m ∈ written e, m.key ≠ key))

/-- The server answers when nothing of an old connection can arrive any more. -/
def Fenced (c : Client) : Event → Prop
  | .serverAnswer _ => c.abandoned = []
  | _ => True

instance (c : Client) (e : Event) : Decidable (c.Fenced e) :=
  match e with
  | .serverAnswer _ => inferInstanceAs (Decidable (_ = _))
  | .writeMutations _ _ | .waitForPendingWrites _ | .credentialChange _ | .enableNetwork
  | .disableNetwork | .connectivityChange | .streamStart | .streamRead | .streamFinish _
  | .backoffElapsed | .idleTimeout | .lateRequest | .lostRequests | .remoteEvent _
  | .relaunch _ => inferInstanceAs (Decidable True)

/-- The server ends a stream with a permanent error over the batch that it would answer next. -/
def Refused (allowed : String → List Mutation → Bool) (c : Client) : Event → Prop
  | .streamFinish (some error) =>
    error.isPermanentWriteError = true ∧ c.stream.handshakeComplete = true ∧
        c.writePipeline ≠ [] →
      c.stream.requests.head?.any (Request.refused allowed) = true
  | _ => True

instance (allowed : String → List Mutation → Bool) (c : Client) (e : Event) :
    Decidable (c.Refused allowed e) :=
  match e with
  | .streamFinish (some _) => inferInstanceAs (Decidable (_ → _))
  | .streamFinish none | .writeMutations _ _ | .waitForPendingWrites _
  | .credentialChange _ | .enableNetwork | .disableNetwork | .connectivityChange
  | .streamStart | .serverAnswer _ | .streamRead | .backoffElapsed | .idleTimeout
  | .lateRequest | .lostRequests | .remoteEvent _ | .relaunch _ => inferInstanceAs (Decidable True)

end Client

/-- Only the user writes the document, and without preconditions. -/
structure Owned (u : String) (key : DocumentKey) (H : String → List (List Mutation)) : Prop where
  others : ∀ v, v ≠ u → ∀ ms ∈ H v, ∀ m ∈ ms, m.key ≠ key
  unconditional : ∀ ms ∈ H u, Mutation.Unconditional key ms

theorem Owned.entered {u : String} {key : DocumentKey} {H : String → List (List Mutation)}
    {c : Client} {e : Client.Event} (h : Owned u key H) (he : c.OwnWrites u key e) :
    Owned u key (c.entered H e) := by
  cases e with
  | writeMutations mutations callback =>
    unfold Client.OwnWrites Client.written at he
    simp only at he
    unfold Client.entered
    refine ⟨fun v hv ms hms => ?_, fun ms hms => ?_⟩
    · simp only [Function.update_apply] at hms
      split at hms
      · next hcur =>
        rcases List.mem_append.1 hms with hms | hms
        · exact h.others v hv ms (hcur ▸ hms)
        · rw [List.mem_singleton.1 hms]
          rwa [if_neg fun e => hv (hcur.trans e)] at he
      · exact h.others v hv ms hms
    · simp only [Function.update_apply] at hms
      split at hms
      · next hcur =>
        rcases List.mem_append.1 hms with hms | hms
        · exact h.unconditional ms (hcur ▸ hms)
        · rw [List.mem_singleton.1 hms]
          rwa [if_pos hcur.symm] at he
      · exact h.unconditional ms hms
  | _ => exact h

/-- Of the writes of every user the last ones are unsent, only the user writes the document, and
what may arrive late are writes of a connection before this one. -/
structure Followed (u : String) (key : DocumentKey) (c : Client)
    (H : String → List (List Mutation)) : Prop where
  sound : c.Sound
  unsent : ∀ v, c.unsent v <:+ H v
  owned : Owned u key H
  abandoned : ∀ v batch, Request.mutations v batch ∈ c.wire.abandoned → batch ∈ H v
  fenced : c.wire.handshakeComplete = true ∨ c.wire.responses ≠ [] → c.wire.abandoned = []

namespace Client

theorem mem_entered {H : String → List (List Mutation)} {v : String} {batch : List Mutation}
    (h : batch ∈ H v) (c : Client) (e : Event) : batch ∈ c.entered H e v := by
  cases e with
  | writeMutations mutations callback =>
    simp only [entered, Function.update_apply]
    split
    · next hv => exact List.mem_append_left _ (hv ▸ h)
    · exact h
  | _ => exact h

theorem abandoned_subset (c : Client) (e : Event) :
    (c.wireAfter e).abandoned ⊆ c.abandoned ++ c.stream.requests := by
  cases e with
  | credentialChange user => exact List.Subset.refl _
  | disableNetwork => exact List.Subset.refl _
  | connectivityChange => exact List.Subset.refl _
  | streamFinish status => exact List.Subset.refl _
  | idleTimeout => exact List.Subset.refl _
  | relaunch user => exact List.Subset.refl _
  | lateRequest => exact fun r hr => List.mem_append_left _ (List.mem_of_mem_tail hr)
  | lostRequests => exact List.nil_subset _
  | _ => exact List.subset_append_left _ _

theorem fenced_step {c c' : Client} {e : Event} (hs : c.step e = some c') (he : c.Fenced e)
    (h : c.wire.handshakeComplete = true ∨ c.wire.responses ≠ [] → c.wire.abandoned = [])
    (hbusy : (c.wireAfter e).handshakeComplete = true ∨ (c.wireAfter e).responses ≠ []) :
    (c.wireAfter e).abandoned = [] := by
  have hcut : ¬ (c.cut.handshakeComplete = true ∨ c.cut.responses ≠ []) := by simp [cut]
  cases e with
  | serverAnswer results => exact he
  | streamRead => exact h (Or.inr (step_eq_some.1 hs).1)
  | credentialChange user => exact absurd hbusy hcut
  | disableNetwork => exact absurd hbusy hcut
  | connectivityChange => exact absurd hbusy hcut
  | streamFinish status => exact absurd hbusy hcut
  | idleTimeout => exact absurd hbusy hcut
  | relaunch user => exact absurd hbusy hcut
  | lateRequest => exact congrArg List.tail (h hbusy)
  | lostRequests => rfl
  | _ => exact h hbusy

theorem unsent_suffix {c c' : Client} {e : Event} {H : String → List (List Mutation)}
    (hs : c.Sound) (hstore : c.CanStore e) (hstep : c.step e = some c')
    (h : ∀ v, c.unsent v <:+ H v) (v : String) : c'.unsent v <:+ c.entered H e v := by
  have hu := unsent_step hs hstore hstep v
  rw [entered_eq]
  cases hlabel : c.label e with
  | none =>
    rw [hlabel] at hu
    exact hu.symm ▸ h v
  | some l =>
    rw [hlabel] at hu
    cases l with
    | enter mutations callback =>
      simp only [Function.update_apply] at hu ⊢
      by_cases hv : v = c.currentUser
      · rw [if_pos hv] at hu ⊢
        obtain ⟨t, ht⟩ := h v
        rw [hu, ← hv, ← ht]
        exact ⟨t, (List.append_assoc ..).symm⟩
      · rw [if_neg hv] at hu ⊢
        rw [hu]
        exact h v
    | settle status =>
      simp only at hu
      by_cases hv : v = c.currentUser
      · rw [if_pos hv] at hu
        obtain ⟨mutations, hms⟩ := hu
        exact (hms ▸ List.suffix_cons mutations _).trans (h v)
      · rw [if_neg hv] at hu
        rw [hu]
        exact h v
    | signIn user => exact hu.symm ▸ h v
    | restart user => exact hu.symm ▸ h v

end Client

/-- What one task keeps. -/
theorem Followed.step {u : String} {key : DocumentKey} {c c' : Client} {e : Client.Event}
    {H : String → List (List Mutation)} (h : Followed u key c H) (hstore : c.CanStore e)
    (hown : c.OwnWrites u key e) (hfence : c.Fenced e) (hs : c.step e = some c') :
    Followed u key c' (c.entered H e) := by
  obtain ⟨hsound, -, hwire, -⟩ := Client.step_sound h.sound hstore hs
  refine ⟨hsound, Client.unsent_suffix h.sound hstore hs h.unsent, h.owned.entered hown,
    fun v batch hb => ?_, ?_⟩
  · rw [hwire] at hb
    have hold : batch ∈ H v := by
      rcases List.mem_append.1 (c.abandoned_subset e hb) with hb | hb
      · exact h.abandoned v batch hb
      · exact (h.unsent v).subset (Client.requests_known h.sound hb).2
    exact Client.mem_entered hold c e
  · rw [hwire]
    exact Client.fenced_step hs hfence h.fenced

/-! ## The link of the user -/

section Links

variable {allowed : String → List Mutation → Bool} {u : String} {key : DocumentKey}
  {c c' : Client} {H : String → List (List Mutation)} (h : Followed u key c H)

include h

/-- The stream is gone, and no batch is. -/
theorem Followed.link_cut (user : String) :
    Link.Step (allowed u) (c.link u (H u)) none (c.cut.link user u (H u) (c.unsent u)) := by
  rw [Wire.link_none (W := c.cut) (by simp [Client.cut])]
  unfold Client.link
  by_cases hest : c.currentUser = u ∧ c.wire.handshakeComplete = true
  · have hnone := h.fenced (Or.inl hest.2)
    rw [Wire.link_established hest hnone]
    have hsent : sentBy u c.cut.abandoned <+: (c.unsent u).drop c.wire.responses.length := by
      show sentBy u (c.wire.abandoned ++ c.stream.requests) <+: _
      rw [hnone]
      exact Client.sentBy_carried h.sound hest
    exact .hangUp hsent
  · rw [Wire.link_none hest]
    have hsent : sentBy u c.cut.abandoned = sentBy u c.wire.abandoned := by
      show sentBy u (c.abandoned ++ c.stream.requests) = sentBy u c.abandoned
      have hidle := Client.sentBy_idle h.sound hest
      unfold sentBy at hidle ⊢
      rw [List.filterMap_append, hidle, List.append_nil]
    rw [hsent]
    exact .idle _

/-- The stream is gone, and with it the head of the queue, which was rejected. -/
theorem Followed.link_reject {mutations : List Mutation} {later : List (List Mutation)}
    (hest : c.currentUser = u ∧ c.stream.handshakeComplete = true)
    (hq : c.unsent u = mutations :: later)
    (hrefused : c.stream.requests.head?.any (Request.refused allowed) = true) (user : String) :
    Link.Step (allowed u) (c.link u (H u)) none (c.cut.link user u (H u) later) := by
  have hnone := h.fenced (Or.inl hest.2)
  rw [Wire.link_none (W := c.cut) (by simp [Client.cut])]
  unfold Client.link
  rw [Wire.link_established hest hnone, hq]
  refine .reject (fun hzero => ?_) ?_
  · exact Client.refused_head h.sound hest.1 hq hrefused (List.eq_nil_of_length_eq_zero hzero)
  · show sentBy u (c.wire.abandoned ++ c.stream.requests) <+: _
    rw [hnone, ← hq]
    exact Client.sentBy_carried h.sound hest

theorem Followed.link_answer {results : List SnapshotVersion}
    (hs : c.step (.serverAnswer results) = some c')
    (hacc : ∀ user batch, c.stream.requests.head? = some (.mutations user batch) →
      allowed user batch = true) :
    Link.Step (allowed u) (c.link u (H u))
      ((c.stream.requests.head?.bind (Request.batchOf u)).filter (allowed u))
      ((c.wireAfter (.serverAnswer results)).link c.currentUser u (H u) (c.unsent u)) := by
  unfold Client.link
  cases hreq : c.stream.requests with
  | nil =>
    have henabled := (Client.step_eq_some.1 hs).1
    unfold Client.enabled at henabled
    rw [hreq] at henabled
    exact henabled.elim
  | cons request rest =>
    have hhead : c.stream.requests.head? = some request := by rw [hreq]; rfl
    cases request with
    | handshake =>
      have hhand := Client.handshake_next h.sound hhead
      have hno : ¬ (c.currentUser = u ∧ c.wire.handshakeComplete = true) := fun e => by
        have : c.stream.handshakeComplete = true := e.2
        rw [hhand] at this
        cases this
      rw [Wire.link_none hno, Wire.link_none (W := c.wireAfter _) hno]
      exact .idle _
    | mutations user batch =>
      obtain ⟨rfl, hhand, hget⟩ := Client.sent_next h.sound hhead
      by_cases hcur : c.currentUser = u
      · subst hcur
        have hnone := h.fenced (Or.inl hhand)
        rw [Wire.link_established ⟨rfl, hhand⟩ hnone,
          Wire.link_established (W := c.wireAfter (.serverAnswer results)) ⟨rfl, hhand⟩ hnone]
        have hlen : (c.wireAfter (.serverAnswer results)).responses.length =
            c.wire.responses.length + 1 := by
          unfold Client.wireAfter
          simp [hreq, Client.wire]
        have hallowed := hacc _ _ hhead
        rw [hlen, List.head?_cons, Option.bind_some, Request.batchOf_mutations, if_pos rfl,
          Option.filter_some_pos hallowed]
        exact .arrive hget hallowed
      · have hno : ¬ (c.currentUser = u ∧ c.wire.handshakeComplete = true) := fun e => hcur e.1
        rw [Wire.link_none hno, Wire.link_none (W := c.wireAfter _) hno, List.head?_cons,
          Option.bind_some, Request.batchOf_mutations, if_neg hcur]
        exact .idle _

/-- The handshake is answered. -/
theorem Followed.link_handshake (hs : c.step .streamRead = some c')
    (hhand : c.stream.handshakeComplete = false) :
    Link.Step (allowed u) (c.link u (H u)) none
      ((c.wireAfter .streamRead).link c.currentUser u (H u) (c.unsent u)) := by
  have hne : c.stream.responses ≠ [] := (Client.step_eq_some.1 hs).1
  have hno : ¬ (c.currentUser = u ∧ c.wire.handshakeComplete = true) := fun e => by
    have : c.stream.handshakeComplete = true := e.2
    rw [hhand] at this
    cases this
  have hnone := h.fenced (Or.inr hne)
  unfold Client.link
  rw [Wire.link_none hno, hnone]
  by_cases hcur : c.currentUser = u
  · rw [Wire.link_established (W := c.wireAfter .streamRead) ⟨hcur, rfl⟩ hnone]
    have hlen : (c.wireAfter .streamRead).responses.length = 0 := by
      have hle := (Client.handshaking h.sound hhand).length_le
      simp only [List.length_append, List.length_map, List.length_singleton] at hle
      show c.stream.responses.tail.length = 0
      rw [List.length_tail]
      omega
    rw [hlen]
    exact .connect _ _
  · rw [Wire.link_none (W := c.wireAfter .streamRead) fun e => hcur e.1,
      show (c.wireAfter .streamRead).abandoned = [] from hnone]
    exact .idle _

/-- The head of the queue is acknowledged. -/
theorem Followed.link_accept (hs : c.step .streamRead = some c')
    (hhand : c.stream.handshakeComplete = true) {unsettled : List (List Mutation)}
    (hq : if u = c.currentUser then ∃ mutations, c.unsent u = mutations :: unsettled
      else unsettled = c.unsent u) :
    Link.Step (allowed u) (c.link u (H u)) none
      ((c.wireAfter .streamRead).link c.currentUser u (H u) unsettled) := by
  have hne : c.stream.responses ≠ [] := (Client.step_eq_some.1 hs).1
  have hnone := h.fenced (Or.inl hhand)
  unfold Client.link
  by_cases hcur : c.currentUser = u
  · rw [if_pos hcur.symm] at hq
    obtain ⟨mutations, hq⟩ := hq
    have hlen : c.wire.responses.length = (c.wireAfter .streamRead).responses.length + 1 := by
      have hpos := List.length_pos_of_ne_nil hne
      show c.stream.responses.length = c.stream.responses.tail.length + 1
      rw [List.length_tail]
      omega
    rw [Wire.link_established ⟨hcur, hhand⟩ hnone,
      Wire.link_established (W := c.wireAfter .streamRead) ⟨hcur, rfl⟩ hnone, hq, hlen]
    exact .accept _ _ _ _
  · rw [if_neg (Ne.symm hcur)] at hq
    rw [Wire.link_none fun e => hcur e.1,
      Wire.link_none (W := c.wireAfter .streamRead) fun e => hcur e.1, hq]
    exact .idle _

theorem Followed.link_late (hs : c.step .lateRequest = some c') :
    Link.Step (allowed u) (c.link u (H u))
      ((c.abandoned.head?.bind (Request.batchOf u)).filter (allowed u))
      ((c.wireAfter .lateRequest).link c.currentUser u (H u) (c.unsent u)) := by
  have hne : c.abandoned ≠ [] := (Client.step_eq_some.1 hs).1
  have hno : ¬ (c.currentUser = u ∧ c.wire.handshakeComplete = true) :=
    fun e => hne (h.fenced (Or.inl e.2))
  unfold Client.link
  rw [Wire.link_none hno, Wire.link_none (W := c.wireAfter .lateRequest) hno]
  show Link.Step _ ⟨_, _, sentBy u c.abandoned, _⟩ _ ⟨_, _, sentBy u c.abandoned.tail, _⟩
  cases hab : c.abandoned with
  | nil => exact absurd hab hne
  | cons request rest =>
    rw [List.head?_cons, Option.bind_some, List.tail_cons]
    unfold sentBy
    cases hbatch : request.batchOf u with
    | none =>
      rw [List.filterMap_cons_none hbatch]
      exact .idle _
    | some batch =>
      rw [List.filterMap_cons_some hbatch, Option.filter_some]
      exact .arriveLate _ _ _ _

/-- Every task is one step of the link. -/
theorem Followed.link_step {e : Client.Event} (hstore : c.CanStore e)
    (hs : c.step e = some c') (hrefused : c.Refused allowed e)
    (hacc : ∀ results, e = .serverAnswer results → ∀ user batch,
      c.received e = some (.mutations user batch) → allowed user batch = true) :
    Link.Step (allowed u) (c.link u (H u))
      (((c.received e).bind (Request.batchOf u)).filter (allowed u))
      (c'.link u (c.entered H e u)) := by
  have hwire := (Client.step_sound h.sound hstore hs).2.2.1
  have hcur := Client.currentUser_step h.sound hstore hs
  have hun := Client.unsent_step h.sound hstore hs u
  have hlink : c'.link u (c.entered H e u) =
      (c.wireAfter e).link c'.currentUser u (c.entered H e u) (c'.unsent u) := by
    unfold Client.link
    rw [hwire]
  rw [hlink]
  cases e with
  | writeMutations mutations callback =>
    simp only [Client.label] at hcur hun
    simp only [Client.entered, Function.update_apply]
    rw [hcur]
    by_cases hu : u = c.currentUser
    · subst hu
      rw [if_pos rfl] at hun ⊢
      rw [hun]
      exact .issue (c.link c.currentUser (H c.currentUser)) mutations
    · rw [if_neg hu] at hun ⊢
      rw [hun]
      exact .idle _
  | credentialChange user => exact hun ▸ h.link_cut c'.currentUser
  | disableNetwork => exact hun ▸ h.link_cut c'.currentUser
  | connectivityChange => exact hun ▸ h.link_cut c'.currentUser
  | idleTimeout => exact hun ▸ h.link_cut c'.currentUser
  | relaunch user => exact hun ▸ h.link_cut c'.currentUser
  | streamFinish status =>
    cases status with
    | none => exact hun ▸ h.link_cut c'.currentUser
    | some error =>
      by_cases hreject : error.isPermanentWriteError = true ∧
          c.stream.handshakeComplete = true ∧ c.writePipeline ≠ []
      · simp only [Client.label, if_pos hreject] at hun
        by_cases hu : u = c.currentUser
        · rw [if_pos hu] at hun
          obtain ⟨mutations, hq⟩ := hun
          exact h.link_reject ⟨hu.symm, hreject.2.1⟩ hq (hrefused hreject) c'.currentUser
        · rw [if_neg hu] at hun
          exact hun ▸ h.link_cut c'.currentUser
      · simp only [Client.label, if_neg hreject] at hun
        exact hun ▸ h.link_cut c'.currentUser
  | serverAnswer results =>
    rw [show c'.currentUser = c.currentUser from hcur, show c'.unsent u = c.unsent u from hun]
    exact h.link_answer hs (hacc results rfl)
  | streamRead =>
    cases hhand : c.stream.handshakeComplete with
    | false =>
      simp only [Client.label, hhand] at hcur hun
      rw [show c'.currentUser = c.currentUser from hcur, show c'.unsent u = c.unsent u from hun]
      exact h.link_handshake hs hhand
    | true =>
      simp only [Client.label, hhand, if_true] at hcur hun
      rw [hcur]
      exact h.link_accept hs hhand hun
  | lateRequest =>
    rw [show c'.currentUser = c.currentUser from hcur, show c'.unsent u = c.unsent u from hun]
    exact h.link_late hs
  | lostRequests =>
    rw [show c'.currentUser = c.currentUser from hcur, show c'.unsent u = c.unsent u from hun]
    exact .lose (c.link u (H u))
  | _ =>
    rw [show c'.currentUser = c.currentUser from hcur, show c'.unsent u = c.unsent u from hun]
    exact .idle _

end Links

end ProjectSY.Firestore
