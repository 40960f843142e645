import ProjectSY.Firestore.UserLink

/-!
# The client and its server

The server is a parameter (`Backend`): it has documents, and reads batches.  What
is relied on are named rules (`Backend.Rules`): it decides on a batch by its user
and its content, and commits it or leaves the document alone.

A batch whose answer is lost with its connection is sent and committed again, and
a batch that is late is committed behind the back of the client.
`server_holds_what_was_written`: this does no harm to a document that one user of
the device writes.
-/

namespace ProjectSY.Firestore

open Resend

/-- A server, with the states `σ`: the documents, and what becomes of a batch that it reads, with
a result for every mutation or (`none`) no answer. -/
structure Backend (σ : Type*) where
  documents : σ → DocumentKey → Option ObjectValue
  handle : σ → String → List Mutation → σ × Option (List SnapshotVersion)

/-- What is relied on for the document: `allowed` are the batches that the server accepts. -/
structure Backend.Rules {σ : Type*} (B : Backend σ) (allowed : String → List Mutation → Bool)
    (key : DocumentKey) : Prop where
  decides : ∀ server user mutations,
    (B.handle server user mutations).2.isSome = allowed user mutations
  commits : ∀ server user mutations, Mutation.Unconditional key mutations →
    B.documents (B.handle server user mutations).1 key =
      if allowed user mutations then Mutation.commitAt key (B.documents server key) mutations
      else B.documents server key

structure System (σ : Type*) where
  client : Client
  server : σ

namespace System

variable {σ : Type*} (B : Backend σ)

def serverAfter (s : System σ) (e : Client.Event) : σ :=
  match s.client.received e with
  | some (.mutations user mutations) => (B.handle s.server user mutations).1
  | some .handshake => s.server
  | none => s.server

/-- A batch is answered with what the server makes of it. -/
def answers (s : System σ) : Client.Event → Prop
  | .serverAnswer results => match s.client.stream.requests with
    | .mutations user mutations :: _ => (B.handle s.server user mutations).2 = some results
    | _ => True
  | _ => True

instance (s : System σ) (e : Client.Event) : Decidable (s.answers B e) :=
  match e with
  | .serverAnswer results => by
    unfold answers
    exact match s.client.stream.requests with
      | [] | .handshake :: _ => inferInstanceAs (Decidable True)
      | .mutations _ _ :: _ => inferInstanceAs (Decidable (_ = some results))
  | .writeMutations _ _ | .waitForPendingWrites _ | .credentialChange _ | .enableNetwork
  | .disableNetwork | .connectivityChange | .streamStart | .streamRead | .streamFinish _
  | .backoffElapsed | .idleTimeout | .lateRequest | .lostRequests | .remoteEvent _
  | .relaunch _ => inferInstanceAs (Decidable True)

def step (s : System σ) (e : Client.Event) : Option (System σ) :=
  if s.answers B e then (s.client.step e).map fun c => ⟨c, s.serverAfter B e⟩ else none

theorem step_eq_some {s s' : System σ} {e : Client.Event} :
    s.step B e = some s' ↔ s.answers B e ∧ s.client.step e = some s'.client ∧
      s'.server = s.serverAfter B e := by
  unfold step
  by_cases h : s.answers B e
  · rw [if_pos h, Option.map_eq_some_iff]
    constructor
    · rintro ⟨c, hc, rfl⟩
      exact ⟨h, hc, rfl⟩
    · rintro ⟨-, hc, hd⟩
      exact ⟨s'.client, hc, by rw [← hd]⟩
  · rw [if_neg h]
    constructor
    · intro hn
      cases hn
    · rintro ⟨hp, -⟩
      exact absurd hp h

def entered (H : String → List (List Mutation)) (s : System σ) (e : Client.Event) :
    String → List (List Mutation) :=
  s.client.entered H e

/-- The document is the user's, and the server goes by its rules for connections. -/
def Regular (allowed : String → List Mutation → Bool) (u : String) (key : DocumentKey)
    (s : System σ) (e : Client.Event) : Prop :=
  s.client.OwnWrites u key e ∧ s.client.Fenced e ∧ s.client.Refused allowed e

instance (allowed : String → List Mutation → Bool) (u : String) (key : DocumentKey)
    (s : System σ) (e : Client.Event) : Decidable (s.Regular allowed u key e) :=
  inferInstanceAs (Decidable (_ ∧ _ ∧ _))

end System

section Server

variable {σ : Type*} {B : Backend σ} {allowed : String → List Mutation → Bool} {u : String}
  {key : DocumentKey} {server0 : σ}

/-- What the server makes of the document when it reads a batch that was written. -/
theorem Backend.Rules.handle_reached (hB : B.Rules allowed key)
    {H : String → List (List Mutation)} (hown : Owned u key H) (server : σ) {user : String}
    {batch : List Mutation} (hb : batch ∈ H user) :
    B.documents (B.handle server user batch).1 key =
      Link.reached (Mutation.commitAt key) (B.documents server key)
        (((Request.mutations user batch).batchOf u).filter (allowed u)) := by
  rw [Request.batchOf_mutations]
  by_cases hu : user = u
  · subst hu
    rw [hB.commits server user batch (hown.unconditional batch hb), if_pos rfl,
      Option.filter_some]
    split <;> rfl
  · have hother := hown.others user hu batch hb
    rw [hB.commits server user batch fun m hm e => absurd e (hother m hm),
      Mutation.commitAt_other hother, ite_self, if_neg hu]
    rfl

theorem serverAfter_reached (hB : B.Rules allowed key) {s : System σ}
    {H : String → List (List Mutation)} (h : Followed u key s.client H) (e : Client.Event) :
    B.documents (s.serverAfter B e) key =
      Link.reached (Mutation.commitAt key) (B.documents s.server key)
        (((s.client.received e).bind (Request.batchOf u)).filter (allowed u)) := by
  unfold System.serverAfter
  cases hr : s.client.received e with
  | none => rfl
  | some request =>
    cases request with
    | handshake => rfl
    | mutations user batch =>
      have hb : batch ∈ H user := by
        cases e with
        | serverAnswer results =>
          have hmem := List.mem_of_mem_head? (Option.mem_def.2 hr)
          exact (h.unsent user).subset (Client.requests_known h.sound hmem).2
        | lateRequest => exact h.abandoned user batch (List.mem_of_mem_head? (Option.mem_def.2 hr))
        | _ => cases hr
      exact hB.handle_reached h.owned s.server hb

theorem accepted_of_answers (hB : B.Rules allowed key) {s : System σ} {e : Client.Event}
    (ha : s.answers B e) (results : List SnapshotVersion) (he : e = .serverAnswer results)
    (user : String) (batch : List Mutation)
    (hr : s.client.received e = some (.mutations user batch)) : allowed user batch = true := by
  subst he
  unfold System.answers at ha
  unfold Client.received at hr
  cases hreq : s.client.stream.requests with
  | nil =>
    rw [hreq] at hr
    cases hr
  | cons request rest =>
    rw [hreq] at ha hr
    cases hr
    have hhandle : (B.handle s.server user batch).2 = some results := ha
    rw [← hB.decides s.server user batch, hhandle]
    rfl

/-- What holds in every run. -/
structure Delivers (B : Backend σ) (allowed : String → List Mutation → Bool) (u : String)
    (key : DocumentKey) (server0 : σ) (s : System σ × (String → List (List Mutation))) : Prop where
  followed : Followed u key s.1.client s.2
  delivered : Link.Delivered (Mutation.commitAt key) (allowed u) (B.documents server0 key)
    (B.documents s.1.server key) (s.1.client.link u (s.2 u))

theorem delivers_step (hB : B.Rules allowed key)
    {s s' : System σ × (String → List (List Mutation))} {e : Client.Event}
    (h : Delivers B allowed u key server0 s) (hstore : s.1.client.CanStore e)
    (hC : s.1.Regular allowed u key e)
    (he : Runs.recorded (System.step B) System.entered s e = some s') :
    Delivers B allowed u key server0 s' := by
  obtain ⟨hstep, hrec⟩ := (Runs.recorded_eq_some (System.step B) System.entered s s' e).1 he
  obtain ⟨hanswers, hc, hserver⟩ := (System.step_eq_some B).1 hstep
  obtain ⟨hown, hfence, hrefused⟩ := hC
  have hlink := h.followed.link_step hstore hc hrefused (accepted_of_answers hB hanswers)
  refine ⟨?_, ?_⟩
  · rw [hrec]
    exact h.followed.step hstore hown hfence hc
  · rw [hrec, hserver, serverAfter_reached hB h.followed e]
    refine h.delivered.step hlink fun w ws hws => ?_
    exact absorbed_of_overwrites _ docCell (fun s t hst => doc_ext hst) fun ms hms path =>
      Mutation.overwrites_commitAt (h.followed.owned.unconditional ms (hws hms)) path

theorem delivers_launch (B : Backend σ) (allowed : String → List Mutation → Bool) (u : String)
    (key : DocumentKey) (server0 : σ) {user : String} {c0 : Client}
    (h0 : Client.launch Db.empty user = some c0) :
    Delivers B allowed u key server0 (⟨c0, server0⟩, fun _ => []) := by
  obtain ⟨c1, h1, hs, hl, hwire, -⟩ := Client.launch_sound user
  rw [h1] at h0
  cases h0
  have hnone : ∀ v, c0.unsent v = [] := by
    intro v
    rw [← Client.unsentOf_ledger, hl]
    rfl
  refine ⟨⟨hs, fun v => ?_, ⟨fun _ _ _ hms => ?_, fun _ hms => ?_⟩, fun v batch hb => ?_,
    fun _ => ?_⟩, ?_⟩
  · rw [hnone]
  · cases hms
  · cases hms
  · rw [hwire] at hb
    cases hb
  · rw [hwire]
  · have hlink : c0.link u [] = ⟨[], [], [], none⟩ := by
      unfold Client.link
      rw [hwire, hnone, Wire.link_none (by simp)]
      rfl
    rw [hlink]
    exact Link.delivered_start _ _ _

theorem canStore_run {user : String} {es : List Client.Event} {c0 : Client} {server0 : σ}
    {s : System σ × (String → List (List Mutation))} (hes : Client.Storable es)
    (h0 : Client.launch Db.empty user = some c0)
    (hr : Runs.run (Runs.recorded (System.step B) System.entered)
      (⟨c0, server0⟩, fun _ => []) es = some s) :
    Runs.Meets (Runs.recorded (System.step B) System.entered)
      (fun s e => s.1.client.CanStore e) (⟨c0, server0⟩, fun _ => []) es := by
  have hproj : ∀ (s : System σ × (String → List (List Mutation))) e s',
      Runs.recorded (System.step B) System.entered s e = some s' →
        s.1.client.step e = some s'.1.client := fun s e s' he =>
    ((System.step_eq_some B).1 (Runs.recorded_fst (System.step B) System.entered s e s' he)).2.1
  have hclient := Runs.run_projected _ Client.step _ hproj _ _ es hr
  exact Runs.meets_projected _ Client.step _ hproj Client.CanStore _ es
    (Client.run_launch hes h0 hclient).2.1

theorem run_delivers (hB : B.Rules allowed key) {user : String} {es : List Client.Event}
    {c0 : Client} {s : System σ × (String → List (List Mutation))} (hes : Client.Storable es)
    (h0 : Client.launch Db.empty user = some c0)
    (hr : Runs.run (Runs.recorded (System.step B) System.entered)
      (⟨c0, server0⟩, fun _ => []) es = some s)
    (hC : Runs.Meets (Runs.recorded (System.step B) System.entered)
      (fun s e => s.1.Regular allowed u key e) (⟨c0, server0⟩, fun _ => []) es) :
    Delivers B allowed u key server0 s :=
  Runs.run_of_meets _ (Delivers B allowed u key server0) _
    (fun _ _ _ h hC he => delivers_step hB h hC.1 hC.2 he) _ _ es
    (delivers_launch B allowed u key server0 h0)
    (Runs.meets_and _ _ _ _ es (canStore_run hes h0 hr) hC) hr

theorem Delivers.holds {s : System σ × (String → List (List Mutation))}
    (h : Delivers B allowed u key server0 s) :
    ((s.1.client.unsent u).filter (allowed u)).foldl (Mutation.commitAt key)
        (B.documents s.1.server key) =
      ((s.2 u).filter (allowed u)).foldl (Mutation.commitAt key) (B.documents server0 key) :=
  h.delivered.settle_rest

/-- **Sending again does no harm.**  Take a document that only one user of the device writes,
without preconditions.  In every run what the server has of it, with the unsent batches of the user
that it accepts on top, is what it would have had every accepted write been applied once, in the
order of the writes. -/
theorem server_holds_what_was_written (hB : B.Rules allowed key) (user : String)
    (es : List Client.Event) (c0 : Client) (s : System σ) (H : String → List (List Mutation))
    (hes : Client.Storable es) (h0 : Client.launch Db.empty user = some c0)
    (hr : Runs.run (Runs.recorded (System.step B) System.entered)
      (⟨c0, server0⟩, fun _ => []) es = some (s, H))
    (hC : Runs.Meets (Runs.recorded (System.step B) System.entered)
      (fun s e => s.1.Regular allowed u key e) (⟨c0, server0⟩, fun _ => []) es) :
    ((s.client.unsent u).filter (allowed u)).foldl (Mutation.commitAt key)
        (B.documents s.server key) =
      ((H u).filter (allowed u)).foldl (Mutation.commitAt key) (B.documents server0 key) :=
  (run_delivers hB hes h0 hr hC).holds

end Server

/-! ## A server -/

/-- It commits what it accepts, at versions that grow. -/
def Backend.committing (allowed : String → List Mutation → Bool) :
    Backend (SnapshotVersion × (DocumentKey → Option ObjectValue)) where
  documents server := server.2
  handle server user mutations :=
    if allowed user mutations then
      ((server.1 + 1, fun key => Mutation.commitAt key (server.2 key) mutations),
        some (mutations.map fun _ => server.1 + 1))
    else (server, none)

theorem Backend.committing_rules (allowed : String → List Mutation → Bool) (key : DocumentKey) :
    (committing allowed).Rules allowed key := by
  refine ⟨fun server user mutations => ?_, fun server user mutations _ => ?_⟩
  · cases h : allowed user mutations <;> simp [committing, h]
  · cases h : allowed user mutations <;> simp [committing, h]

/-- The server accepts the notes that say something. -/
def onlyNotes (_ : String) (mutations : List Mutation) : Bool :=
  mutations ≠ [Mutation.noteIn "A" ""]

/-- The first note is committed twice, since the connection is lost before its answer is read; the
third one is committed late and then again; the second one is rejected. -/
def appliedTwice : List Client.Event :=
  [.writeMutations [Mutation.noteIn "A" "one"] 1, .writeMutations [Mutation.noteIn "A" ""] 2,
    .writeMutations [Mutation.noteIn "A" "two"] 3, .streamStart, .serverAnswer [], .streamRead,
    .serverAnswer [1], .streamFinish (some .unavailable), .lateRequest, .lateRequest,
    .backoffElapsed, .streamStart, .serverAnswer [], .streamRead, .serverAnswer [3], .streamRead,
    .streamFinish (some .permissionDenied), .lostRequests, .streamStart, .serverAnswer [],
    .streamRead, .serverAnswer [4], .streamRead]

theorem storable_appliedTwice : Client.Storable appliedTwice := by
  refine ⟨fun mutations callback h m hm => ?_, by decide⟩
  simp only [appliedTwice, List.mem_cons, Client.Event.writeMutations.injEq, reduceCtorEq,
    List.not_mem_nil, or_false] at h
  rcases h with ⟨rfl, -⟩ | ⟨rfl, -⟩ | ⟨rfl, -⟩ <;>
  · rw [List.mem_singleton.1 hm]
    decide

theorem server_holds_what_was_written_appliedTwice :
    ∃ c0 s H, Client.launch Db.empty "A" = some c0 ∧
      Runs.run (Runs.recorded (System.step (Backend.committing onlyNotes)) System.entered)
        (⟨c0, 0, fun _ => none⟩, fun _ => []) appliedTwice = some (s, H) ∧
      s.server.2 ["users", "A"] =
        ((H "A").filter (onlyNotes "A")).foldl (Mutation.commitAt ["users", "A"]) none := by
  obtain ⟨c0, ⟨s, H⟩, h0, hs, hmeets, hempty⟩ := Runs.exists_of_checked
    (Runs.recorded (System.step (Backend.committing onlyNotes)) System.entered)
    (fun s e => s.1.Regular onlyNotes "A" ["users", "A"] e) (fun s => s.1.client.unsent "A" = [])
    (Client.launch Db.empty "A") (fun c0 => (⟨c0, 0, fun _ => none⟩, fun _ => [])) appliedTwice
    (by decide +kernel)
  refine ⟨c0, s, H, h0, hs, ?_⟩
  have h := server_holds_what_was_written (u := "A")
    (Backend.committing_rules onlyNotes ["users", "A"]) "A" appliedTwice c0 s H
    storable_appliedTwice h0 hs hmeets
  rwa [hempty] at h

end ProjectSY.Firestore
