import ProjectSY.Firestore.Server
import ProjectSY.Firestore.LocalView

/-!
# What the app reads, and what the server has

The cache holds what was acknowledged, the queue what is unsent, and a read shows
both.  So the app always sees its own writes, in order and without the rejected
ones (`reads_what_was_written`), and when nothing is unsent it sees what the
server has (`reads_what_the_server_has`).

This is about a document that reaches the cache by the answers to its writes
alone (`Client.Undisturbed`).
-/

namespace ProjectSY.Firestore

open Resend

namespace Client

/-- The answer that is read is newer than the cached document. -/
def AnswersNewer (key : DocumentKey) (c : Client) (e : Event) : Prop :=
  e = .streamRead → ∀ response ∈ c.stream.responses.head?, ∀ doc ∈ c.cache.lookup key,
    ∀ version ∈ response.results, doc.version < version

instance (key : DocumentKey) (c : Client) (e : Event) : Decidable (AnswersNewer key c e) :=
  inferInstanceAs (Decidable (_ → _))

/-- The answers before it are read before a permanent error is. -/
def AnsweredFirst (c : Client) : Event → Prop
  | .streamFinish (some error) => error.isPermanentWriteError = true → c.stream.responses = []
  | _ => True

instance (c : Client) (e : Event) : Decidable (c.AnsweredFirst e) :=
  match e with
  | .streamFinish (some _) => inferInstanceAs (Decidable (_ → _))
  | .streamFinish none | .writeMutations _ _ | .waitForPendingWrites _
  | .credentialChange _ | .enableNetwork | .disableNetwork | .connectivityChange
  | .streamStart | .serverAnswer _ | .streamRead | .backoffElapsed | .idleTimeout
  | .lateRequest | .lostRequests | .remoteEvent _ | .relaunch _ => inferInstanceAs (Decidable True)

/-- The watch stream does not bring the document. -/
def Unwatched (key : DocumentKey) : Event → Prop
  | .remoteEvent documentUpdates => ∀ update ∈ documentUpdates, update.1 ≠ key
  | _ => True

instance (key : DocumentKey) (e : Event) : Decidable (Unwatched key e) :=
  match e with
  | .remoteEvent _ => inferInstanceAs (Decidable (∀ update ∈ _, _))
  | .writeMutations _ _ | .waitForPendingWrites _ | .credentialChange _ | .enableNetwork
  | .disableNetwork | .connectivityChange | .streamStart | .serverAnswer _ | .streamRead
  | .streamFinish _ | .backoffElapsed | .idleTimeout | .lateRequest | .lostRequests
  | .relaunch _ => inferInstanceAs (Decidable True)

/-- The cache takes up the document from the answers to its writes, and from nothing else. -/
def Undisturbed (key : DocumentKey) (c : Client) (e : Event) : Prop :=
  c.AnswersNewer key e ∧ c.AnsweredFirst e ∧ Unwatched key e

instance (key : DocumentKey) (c : Client) (e : Event) : Decidable (c.Undisturbed key e) :=
  inferInstanceAs (Decidable (_ ∧ _ ∧ _))

end Client

theorem LocalStore.applyDocumentUpdate_other {existing : Client.Cache} {key : DocumentKey}
    {update : DocumentKey × MaybeDocument} (h : update.1 ≠ key)
    (docs : Client.Cache × List (DocumentKey × Option MaybeDocument)) :
    (applyDocumentUpdate existing docs update).1.lookup key = docs.1.lookup key := by
  unfold applyDocumentUpdate
  split
  · exact Finmap.lookup_erase_ne h.symm
  · split
    · exact Finmap.lookup_insert_of_ne _ h.symm
    · rfl

theorem LocalStore.applyDocumentUpdates_other {existing : Client.Cache} {key : DocumentKey}
    {updates : List (DocumentKey × MaybeDocument)} (h : ∀ update ∈ updates, update.1 ≠ key)
    (docs : Client.Cache × List (DocumentKey × Option MaybeDocument)) :
    (updates.foldl (applyDocumentUpdate existing) docs).1.lookup key = docs.1.lookup key := by
  induction updates generalizing docs with
  | nil => rfl
  | cons update updates ih =>
    rw [List.foldl_cons, ih fun u hu => h u (List.mem_cons_of_mem update hu),
      applyDocumentUpdate_other (h update List.mem_cons_self)]

namespace Client

/-- Only an acknowledgement changes the cached document. -/
theorem cacheAfter_other {c : Client} {e : Event} {cache : Cache} {key : DocumentKey}
    (hc : c.cacheAfter e = some cache) (h : c.label e ≠ some (.settle none))
    (hw : Unwatched key e) : cache.lookup key = c.cache.lookup key := by
  cases e with
  | streamRead =>
    unfold cacheAfter at hc
    cases hhand : c.stream.handshakeComplete with
    | false => simp only [hhand] at hc; rw [← Option.some.inj hc]
    | true => exact absurd (if_pos hhand) h
  | remoteEvent documentUpdates =>
    rw [← Option.some.inj hc]
    exact LocalStore.applyDocumentUpdates_other hw _
  | _ => rw [← Option.some.inj hc]

theorem label_accepted {c : Client} {e : Event} (h : c.label e = some (.settle none)) :
    e = .streamRead ∧ c.stream.handshakeComplete = true := by
  cases e with
  | streamRead =>
    unfold label at h
    cases hhand : c.stream.handshakeComplete with
    | true => exact ⟨rfl, rfl⟩
    | false => simp [hhand] at h
  | streamFinish status =>
    cases status with
    | none => cases h
    | some error =>
      unfold label at h
      simp only at h
      split at h
      · cases h
      · cases h
  | _ => cases h

theorem label_rejected {c : Client} {e : Event} {error : ErrorCode}
    (h : c.label e = some (.settle (some error))) :
    e = .streamFinish (some error) ∧ error.isPermanentWriteError = true ∧
      c.stream.handshakeComplete = true ∧ c.writePipeline ≠ [] := by
  cases e with
  | streamRead =>
    unfold label at h
    cases hhand : c.stream.handshakeComplete <;> simp [hhand] at h
  | streamFinish status =>
    cases status with
    | none => cases h
    | some error' =>
      unfold label at h
      simp only at h
      split at h
      · next hreject =>
        cases h
        exact ⟨rfl, hreject⟩
      · cases h
  | _ => cases h

/-- The cache takes up the head of the queue when that is acknowledged. -/
theorem cache_accepted {c c' : Client} (h : c.Sound) (hs : c.step .streamRead = some c')
    (hhand : c.stream.handshakeComplete = true) {key : DocumentKey}
    (hnew : AnswersNewer key c .streamRead) {mutations : List Mutation}
    {rest : List (List Mutation)} (hq : c.unsent c.currentUser = mutations :: rest)
    (hun : Mutation.Unconditional key mutations) :
    dataOf (c'.cache.lookup key) = Mutation.commitAt key (dataOf (c.cache.lookup key)) mutations := by
  have hcache := (step_sound (e := .streamRead) h trivial hs).2.2.2.1
  unfold cacheAfter at hcache
  simp only [hhand, if_true] at hcache
  cases hr : c.stream.responses with
  | nil => simp [hr] at hcache
  | cons response responses =>
    cases hp : c.writePipeline with
    | nil => simp [hr, hp] at hcache
    | cons b pipeline =>
      have hb : b.mutations = mutations := by
        have hpre := pipeline_unsent h
        rw [hp, hq, List.map_cons] at hpre
        exact (List.cons_prefix_cons.1 hpre).1
      have hnew := hnew rfl response (by rw [hr]; rfl)
      simp only [hr, hp] at hcache
      split at hcache
      · next hlen =>
        have hun' : Mutation.Unconditional key b.mutations := hb ▸ hun
        rw [LocalStore.applyResult_data (r := ⟨b, response.results, hlen⟩) hun' _
          (List.nodup_dedup _) hcache fun doc hdoc => hnew doc hdoc, hb]
        split
        · rfl
        · next hk =>
          rw [Mutation.commitAt_other]
          intro m hm e
          exact hk (List.mem_dedup.2 (List.mem_map.2 ⟨m, hb ▸ hm, e⟩))
      · cases hcache

end Client

section Reads

variable {σ : Type*} {B : Backend σ} {allowed : String → List Mutation → Bool} {u : String}
  {key : DocumentKey} {server0 : σ}

/-- The cache holds what was accepted of the writes that are settled. -/
def Shown (allowed : String → List Mutation → Bool) (u : String) (key : DocumentKey) (c : Client)
    (writes : List (List Mutation)) : Prop :=
  ∃ settled, writes = settled ++ c.unsent u ∧
    dataOf (c.cache.lookup key) = (settled.filter (allowed u)).foldl (Mutation.commitAt key) none

theorem Shown.kept {c c' : Client} {writes : List (List Mutation)}
    (h : Shown allowed u key c writes)
    (hcache : dataOf (c'.cache.lookup key) = dataOf (c.cache.lookup key))
    (hu : c'.unsent u = c.unsent u) : Shown allowed u key c' writes := by
  obtain ⟨settled, hw, hd⟩ := h
  exact ⟨settled, by rw [hu]; exact hw, hcache.trans hd⟩

/-- The head of the queue is settled, and the cache shows it if it was accepted. -/
theorem Shown.settled {c c' : Client} {writes : List (List Mutation)}
    (h : Shown allowed u key c writes) {mutations : List Mutation}
    (hu : c.unsent u = mutations :: c'.unsent u)
    (hcache : dataOf (c'.cache.lookup key) =
      if allowed u mutations then Mutation.commitAt key (dataOf (c.cache.lookup key)) mutations
      else dataOf (c.cache.lookup key)) : Shown allowed u key c' writes := by
  obtain ⟨settled, hw, hd⟩ := h
  refine ⟨settled ++ [mutations], by rw [hw, hu, List.append_assoc]; rfl, ?_⟩
  rw [hcache, hd, List.filter_append, List.foldl_append]
  cases hallowed : allowed u mutations with
  | true => rw [List.filter_cons_of_pos hallowed]; rfl
  | false => rw [List.filter_cons_of_neg (by simp [hallowed])]; rfl

/-- The batch that was answered first is accepted. -/
theorem Followed.head_allowed {c : Client} {H : String → List (List Mutation)}
    {doc0 doc : Option ObjectValue} (hf : Followed u key c H)
    (hd : Link.Delivered (Mutation.commitAt key) (allowed u) doc0 doc (c.link u (H u)))
    (hcur : c.currentUser = u) (hhand : c.stream.handshakeComplete = true)
    (hne : c.stream.responses ≠ []) {mutations : List Mutation} {later : List (List Mutation)}
    (hq : c.unsent u = mutations :: later) : allowed u mutations = true := by
  unfold Client.link at hd
  rw [Wire.link_established ⟨hcur, hhand⟩ (hf.fenced (Or.inl hhand)), hq] at hd
  refine hd.accepted rfl mutations ?_
  obtain ⟨n, hn⟩ := Nat.exists_eq_succ_of_ne_zero (List.length_pos_of_ne_nil hne).ne'
  rw [show c.wire.responses.length = n + 1 from hn, List.take_succ_cons]
  exact List.mem_cons_self

theorem Shown.step {c c' : Client} {H : String → List (List Mutation)} {e : Client.Event}
    {doc0 doc : Option ObjectValue} (h : Shown allowed u key c (H u)) (hf : Followed u key c H)
    (hd : Link.Delivered (Mutation.commitAt key) (allowed u) doc0 doc (c.link u (H u)))
    (hstore : c.CanStore e) (hs : c.step e = some c') (hrefused : c.Refused allowed e)
    (hcache : c.Undisturbed key e) : Shown allowed u key c' (c.entered H e u) := by
  obtain ⟨hnew, hfirst, hunwatched⟩ := hcache
  have hafter := (Client.step_sound hf.sound hstore hs).2.2.2.1
  have hun := fun v => Client.unsent_step hf.sound hstore hs v
  rw [Client.entered_eq]
  cases hlabel : c.label e with
  | none =>
    simp only [hlabel] at hun
    exact h.kept (by rw [Client.cacheAfter_other hafter (by simp [hlabel]) hunwatched]) (hun u)
  | some l =>
    simp only [hlabel] at hun
    cases l with
    | enter mutations callback =>
      have hsame := Client.cacheAfter_other hafter (by simp [hlabel]) hunwatched
      have hu := hun u
      simp only [Function.update_apply] at hu ⊢
      by_cases hcur : u = c.currentUser
      · rw [if_pos hcur] at hu ⊢
        obtain ⟨settled, hw, hdata⟩ := h
        exact ⟨settled, by rw [hu, ← List.append_assoc, ← hw, hcur], by rw [hsame]; exact hdata⟩
      · rw [if_neg hcur] at hu ⊢
        exact h.kept (by rw [hsame]) hu
    | settle status =>
      have hhead := hun c.currentUser
      simp only [if_true] at hhead
      obtain ⟨mutations, hms⟩ := hhead
      have hmem : mutations ∈ H c.currentUser :=
        (hf.unsent c.currentUser).subset (hms ▸ List.mem_cons_self)
      cases status with
      | none =>
        obtain ⟨rfl, hhand⟩ := Client.label_accepted hlabel
        by_cases hcur : c.currentUser = u
        · subst hcur
          have hdata := Client.cache_accepted hf.sound hs hhand hnew hms
            (hf.owned.unconditional mutations hmem)
          have hallowed := hf.head_allowed hd rfl hhand (Client.step_eq_some.1 hs).1 hms
          exact h.settled hms (by rw [hdata, if_pos hallowed])
        · have hother := hf.owned.others c.currentUser hcur mutations hmem
          have hdata := Client.cache_accepted hf.sound hs hhand hnew hms
            fun m hm e => absurd e (hother m hm)
          rw [Mutation.commitAt_other hother] at hdata
          have hu := hun u
          rw [if_neg (Ne.symm hcur)] at hu
          exact h.kept hdata hu
      | some error =>
        obtain ⟨rfl, hreject⟩ := Client.label_rejected hlabel
        have hsame := Client.cacheAfter_other hafter (by simp [hlabel]) hunwatched
        by_cases hcur : c.currentUser = u
        · subst hcur
          have hnot := Client.refused_head hf.sound rfl hms (hrefused hreject) (hfirst hreject.1)
          exact h.settled hms (by rw [hsame, hnot]; rfl)
        · have hu := hun u
          rw [if_neg (Ne.symm hcur)] at hu
          exact h.kept (by rw [hsame]) hu
    | signIn user =>
      exact h.kept (by rw [Client.cacheAfter_other hafter (by simp [hlabel]) hunwatched]) (hun u)
    | restart user =>
      exact h.kept (by rw [Client.cacheAfter_other hafter (by simp [hlabel]) hunwatched]) (hun u)

/-- What holds in every run of reads. -/
structure Reads (B : Backend σ) (allowed : String → List Mutation → Bool) (u : String)
    (key : DocumentKey) (server0 : σ) (s : System σ × (String → List (List Mutation))) : Prop where
  delivers : Delivers B allowed u key server0 s
  shown : Shown allowed u key s.1.client (s.2 u)

theorem reads_step (hB : B.Rules allowed key)
    {s s' : System σ × (String → List (List Mutation))} {e : Client.Event}
    (h : Reads B allowed u key server0 s) (hstore : s.1.client.CanStore e)
    (hC : s.1.Regular allowed u key e ∧ s.1.client.Undisturbed key e)
    (he : Runs.recorded (System.step B) System.entered s e = some s') :
    Reads B allowed u key server0 s' := by
  obtain ⟨hstep, hrec⟩ := (Runs.recorded_eq_some (System.step B) System.entered s s' e).1 he
  obtain ⟨-, hc, -⟩ := (System.step_eq_some B).1 hstep
  refine ⟨delivers_step hB h.delivers hstore hC.1 he, ?_⟩
  rw [hrec]
  exact h.shown.step h.delivers.followed h.delivers.delivered hstore hc hC.1.2.2 hC.2

theorem run_reads (hB : B.Rules allowed key) {user : String} {es : List Client.Event}
    {c0 : Client} {s : System σ × (String → List (List Mutation))} (hes : Client.Storable es)
    (h0 : Client.launch Db.empty user = some c0)
    (hr : Runs.run (Runs.recorded (System.step B) System.entered)
      (⟨c0, server0⟩, fun _ => []) es = some s)
    (hC : Runs.Meets (Runs.recorded (System.step B) System.entered)
      (fun s e => s.1.Regular allowed u key e ∧ s.1.client.Undisturbed key e)
      (⟨c0, server0⟩, fun _ => []) es) : Reads B allowed u key server0 s := by
  have hstart : Shown allowed u key c0 [] := by
    obtain ⟨c1, h1, -, hl, -, hcache, -⟩ := Client.launch_sound user
    rw [h1] at h0
    cases h0
    have hnone : c0.unsent u = [] := by
      rw [← Client.unsentOf_ledger, hl]
      rfl
    exact ⟨[], by rw [hnone]; rfl, by rw [hcache]; rfl⟩
  exact Runs.run_of_meets _ (Reads B allowed u key server0) _
    (fun _ _ _ h hC he => reads_step hB h hC.1 hC.2 he) _ _ es
    ⟨delivers_launch B allowed u key server0 h0, hstart⟩
    (Runs.meets_and _ _ _ _ es (canStore_run hes h0 hr) hC) hr

/-- The data that a read shows. -/
theorem Reads.getDocument {s : System σ × (String → List (List Mutation))}
    (h : Reads B allowed u key server0 s) (hcur : s.1.client.currentUser = u) :
    ∃ settled, s.2 u = settled ++ s.1.client.unsent u ∧
      (s.1.client.store.getDocument key).map dataOf =
        some ((settled.filter (allowed u) ++ s.1.client.unsent u).foldl
          (Mutation.commitAt key) none) := by
  obtain ⟨settled, hw, hd⟩ := h.shown
  have hf := h.delivers.followed
  have hpending : s.1.client.store.pending.map MutationBatch.mutations = s.1.client.unsent u := by
    unfold LocalStore.pending Client.unsent
    rw [hf.sound.user, hcur]
  refine ⟨settled, hw, ?_⟩
  rw [LocalStore.getDocument_data hf.sound.store.consistent fun b hb => ?_, hpending,
    List.foldl_append, ← hd]
  · rfl
  · have hmem : b.mutations ∈ s.1.client.unsent u := hpending ▸ List.mem_map_of_mem hb
    exact hf.owned.unconditional _ ((hf.unsent u).subset hmem)

/-- **The user reads what the user wrote.**  Of a document that only the signed-in user writes on
the device, a read shows all the writes in order, but those that the server rejected. -/
theorem reads_what_was_written (hB : B.Rules allowed key) (user : String)
    (es : List Client.Event) (c0 : Client) (s : System σ) (H : String → List (List Mutation))
    (hes : Client.Storable es) (h0 : Client.launch Db.empty user = some c0)
    (hr : Runs.run (Runs.recorded (System.step B) System.entered)
      (⟨c0, server0⟩, fun _ => []) es = some (s, H))
    (hC : Runs.Meets (Runs.recorded (System.step B) System.entered)
      (fun s e => s.1.Regular allowed u key e ∧ s.1.client.Undisturbed key e)
      (⟨c0, server0⟩, fun _ => []) es)
    (hcur : s.client.currentUser = u) :
    ∃ settled, H u = settled ++ s.client.unsent u ∧
      (s.client.store.getDocument key).map dataOf =
        some ((settled.filter (allowed u) ++ s.client.unsent u).foldl
          (Mutation.commitAt key) none) :=
  (run_reads hB hes h0 hr hC).getDocument hcur

/-- The run ends with a read before the answer to the last note is read. -/
theorem reads_what_was_written_appliedTwice :
    ∃ c0 s H, Client.launch Db.empty "A" = some c0 ∧
      Runs.run (Runs.recorded (System.step (Backend.committing onlyNotes)) System.entered)
        (⟨c0, 0, fun _ => none⟩, fun _ => []) appliedTwice.dropLast = some (s, H) ∧
      (s.client.unsent "A").length = 1 ∧
      ∃ settled, H "A" = settled ++ s.client.unsent "A" ∧
        (s.client.store.getDocument ["users", "A"]).map dataOf =
          some ((settled.filter (onlyNotes "A") ++ s.client.unsent "A").foldl
            (Mutation.commitAt ["users", "A"]) none) := by
  obtain ⟨c0, ⟨s, H⟩, h0, hs, hmeets, hone, hcur⟩ := Runs.exists_of_checked
    (Runs.recorded (System.step (Backend.committing onlyNotes)) System.entered)
    (fun s e => s.1.Regular onlyNotes "A" ["users", "A"] e ∧
      s.1.client.Undisturbed ["users", "A"] e)
    (fun s => (s.1.client.unsent "A").length = 1 ∧ s.1.client.currentUser = "A")
    (Client.launch Db.empty "A") (fun c0 => (⟨c0, 0, fun _ => none⟩, fun _ => []))
    appliedTwice.dropLast (by decide +kernel)
  exact ⟨c0, s, H, h0, hs, hone, reads_what_was_written
    (Backend.committing_rules onlyNotes ["users", "A"]) "A" _ c0 s H
    (storable_appliedTwice.shorter (List.dropLast_prefix _)) h0 hs hmeets hcur⟩

/-- **When nothing is unsent the client and the server agree** on a document that is only written
here. -/
theorem reads_what_the_server_has (hB : B.Rules allowed key) (user : String)
    (es : List Client.Event) (c0 : Client) (s : System σ) (H : String → List (List Mutation))
    (hes : Client.Storable es) (h0 : Client.launch Db.empty user = some c0)
    (hkey : B.documents server0 key = none)
    (hr : Runs.run (Runs.recorded (System.step B) System.entered)
      (⟨c0, server0⟩, fun _ => []) es = some (s, H))
    (hC : Runs.Meets (Runs.recorded (System.step B) System.entered)
      (fun s e => s.1.Regular allowed u key e ∧ s.1.client.Undisturbed key e)
      (⟨c0, server0⟩, fun _ => []) es)
    (hcur : s.client.currentUser = u) (hsent : s.client.unsent u = []) :
    (s.client.store.getDocument key).map dataOf = some (B.documents s.server key) := by
  have h := run_reads hB hes h0 hr hC
  obtain ⟨settled, hw, hread⟩ := h.getDocument hcur
  have hserver := h.delivers.holds
  simp only [hsent, List.append_nil] at hw hread hserver
  rw [hw, hkey] at hserver
  rw [hread, ← hserver]
  rfl

theorem reads_what_the_server_has_appliedTwice :
    ∃ c0 s H, Client.launch Db.empty "A" = some c0 ∧
      Runs.run (Runs.recorded (System.step (Backend.committing onlyNotes)) System.entered)
        (⟨c0, 0, fun _ => none⟩, fun _ => []) appliedTwice = some (s, H) ∧
      (s.client.store.getDocument ["users", "A"]).map dataOf =
        some (s.server.2 ["users", "A"]) := by
  obtain ⟨c0, ⟨s, H⟩, h0, hs, hmeets, hempty, hcur⟩ := Runs.exists_of_checked
    (Runs.recorded (System.step (Backend.committing onlyNotes)) System.entered)
    (fun s e => s.1.Regular onlyNotes "A" ["users", "A"] e ∧
      s.1.client.Undisturbed ["users", "A"] e)
    (fun s => s.1.client.unsent "A" = [] ∧ s.1.client.currentUser = "A")
    (Client.launch Db.empty "A") (fun c0 => (⟨c0, 0, fun _ => none⟩, fun _ => [])) appliedTwice
    (by decide +kernel)
  exact ⟨c0, s, H, h0, hs, reads_what_the_server_has
    (Backend.committing_rules onlyNotes ["users", "A"]) "A" _ c0 s H storable_appliedTwice h0
    rfl hs hmeets hcur hempty⟩

end Reads

end ProjectSY.Firestore
