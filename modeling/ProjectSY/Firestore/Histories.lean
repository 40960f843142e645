import ProjectSY.Firestore.Refinement

/-!
# Runs of the client

What holds in every run from the first launch on a new device whose writes can be
stored, over relaunches, sign-ins and lost connections:

* no assertion fails, but the one on a stream that the server ends with `OK`
  (`no_assertion_fails`);
* what is in flight on an established stream is the front of the queue of the
  signed-in user (`in_flight`);
* the client is the ledger (`refines_ledger`);
* the callbacks of a user's writes run once each, in the order of the writes
  (`callbacks_in_order`).
-/

namespace ProjectSY.Firestore

namespace Client

/-- The client after the events, on a new device. -/
def after (user : String) (es : List Event) : Option Client :=
  (launch Db.empty user).bind fun c => Runs.run step c es

theorem after_sound {user : String} {es : List Event} {c : Client} (hes : Storable es)
    (h : after user es = some c) :
    c.Sound ∧ c.store.nextBatchId ≤ es.countP Event.isWrite + 1 := by
  obtain ⟨c0, h0, hr⟩ := Option.bind_eq_some_iff.1 h
  obtain ⟨-, -, hs, hn⟩ := run_launch hes h0 hr
  exact ⟨hs, hn⟩

/-- There is room for one more write. -/
theorem canStore_next {c : Client} {es : List Event} {e : Event} (hes : Storable (es ++ [e]))
    (hn : c.store.nextBatchId ≤ es.countP Event.isWrite + 1) : c.CanStore e := by
  cases e with
  | writeMutations mutations callback =>
    refine ⟨hes.readable mutations callback (by simp), ?_⟩
    have hfew := hes.few
    rw [List.countP_append] at hfew
    simp only [List.countP_singleton, Event.isWrite, if_true] at hfew
    omega
  | _ => trivial

/-- Two writes; the second is on its way when the connection is lost. -/
def cutOff : List Event :=
  [.writeMutations [Mutation.noteIn "A" "one"] 1, .streamStart, .serverAnswer [], .streamRead,
    .serverAnswer [7], .streamRead, .writeMutations [Mutation.noteIn "A" "two"] 2, .serverAnswer [8]]

theorem after_cutOff : (after "A" cutOff).isSome = true := by decide +kernel

theorem storable_cutOff : Storable cutOff := by
  refine ⟨fun mutations callback h m hm => ?_, by decide⟩
  simp only [cutOff, List.mem_cons, Event.writeMutations.injEq, reduceCtorEq, List.not_mem_nil,
    or_false, false_or] at h
  rcases h with ⟨rfl, -⟩ | ⟨rfl, -⟩ <;>
  · rw [List.mem_singleton.1 hm]
    decide

/-- **No assertion fails**, whatever the app, the network and the server do, unless the server
ends a stream with `OK` while there is something to send. -/
theorem no_assertion_fails (user : String) (es : List Event) (c : Client) (e : Event)
    (hes : Storable (es ++ [e])) (h : after user es = some c) (he : c.enabled e) :
    (c.perform e).isSome = true ↔ (e = .streamFinish none → c.writePipeline = []) := by
  obtain ⟨hs, hn⟩ := after_sound (hes.shorter (List.prefix_append es [e])) h
  exact perform_isSome_iff hs he (canStore_next hes hn)

/-- The connection is lost, which is fine, or the server ends the stream, which is not. -/
theorem no_assertion_fails_cutOff :
    (((after "A" cutOff).get after_cutOff).perform (.streamFinish (some .unavailable))).isSome ∧
      ¬ (((after "A" cutOff).get after_cutOff).perform (.streamFinish none)).isSome := by
  have hes : ∀ status, Storable (cutOff ++ [.streamFinish status]) := by
    intro status
    obtain ⟨hread, hfew⟩ := storable_cutOff
    refine ⟨fun mutations callback h => ?_, ?_⟩
    · rw [List.mem_append] at h
      exact hread mutations callback (h.resolve_right (by simp))
    · rw [List.countP_append]
      exact hfew
  have hopen : ((after "A" cutOff).get after_cutOff).enabled (.streamFinish none) := by
    decide +kernel
  have hopen' : ((after "A" cutOff).get after_cutOff).enabled (.streamFinish (some .unavailable)) := by
    decide +kernel
  have hne : ((after "A" cutOff).get after_cutOff).writePipeline ≠ [] := by decide +kernel
  constructor
  · exact (no_assertion_fails "A" cutOff _ _ (hes _) (Option.some_get _).symm hopen').2 (by simp)
  · intro hsome
    exact hne ((no_assertion_fails "A" cutOff _ _ (hes _) (Option.some_get _).symm hopen).1 hsome rfl)

/-- A write to a field whose name has a null character. -/
def nullField : Event :=
  .writeMutations [.patch ["users", "A"] ObjectValue.empty
    (FieldMask.of [[String.singleton FieldPath.null]]) .none] 1

-- its batch is not read back
example : after "A" [nullField] = none := by decide +kernel

/-- **What is in flight.**  On an established stream the answers that the client has not read
and the requests that the server has not answered are the first batches of the queue, in
order; so the answer that is read next belongs to the oldest batch. -/
theorem in_flight (user : String) (es : List Event) (c : Client) (hes : Storable es)
    (h : after user es = some c) (hhand : c.stream.handshakeComplete = true) :
    c.stream.responses.map Response.answers ++ c.stream.requests =
        (c.store.pending.take maxPendingWrites).map
          (fun b => .mutations c.currentUser b.mutations) ∧
      ∀ r ∈ c.stream.responses, ∀ sender mutations, r.answers = .mutations sender mutations →
        r.results.length = mutations.length := by
  obtain ⟨hs, -⟩ := after_sound hes h
  have hopen : c.stream.isOpen = true := by
    simp [WriteStream.isOpen, hs.stream.handshake hhand]
  have hnet := hs.network (by simp [WriteStream.isStarted, hopen])
  refine ⟨?_, hs.stream.sized⟩
  rw [hs.stream.carries, WriteStream.owed, if_pos hopen, if_pos hhand, hs.full hnet]
  rfl

theorem in_flight_cutOff :
    ∃ c, after "A" cutOff = some c ∧ c.stream.requests = [] ∧
      c.stream.responses.map Response.answers ++ c.stream.requests =
        (c.store.pending.take maxPendingWrites).map
          (fun b => .mutations c.currentUser b.mutations) := by
  refine ⟨(after "A" cutOff).get after_cutOff, (Option.some_get _).symm, by decide +kernel, ?_⟩
  exact (in_flight "A" cutOff _ storable_cutOff (Option.some_get _).symm (by decide +kernel)).1

/-! ## The ledger -/

/-- The run, as the ledger sees it. -/
def labels : Client → List Event → List Ledger.Event
  | _, [] => []
  | c, e :: es => (c.label e).toList ++ match c.step e with
    | some c' => labels c' es
    | none => []

theorem run_ledger {c c' : Client} {es : List Event} (h : c.Sound)
    (hm : Runs.Meets step CanStore c es) (hr : Runs.run step c es = some c') :
    Runs.run Ledger.step c.ledger (labels c es) = some c'.ledger := by
  induction es generalizing c with
  | nil =>
    rw [Runs.run_nil] at hr
    cases hr
    rfl
  | cons e es ih =>
    obtain ⟨m, hstep, hr⟩ := (Runs.run_cons_eq_some step c c' e es).1 hr
    obtain ⟨hstore, hrest⟩ := (Runs.meets_cons step CanStore c m e es hstep).1 hm
    obtain ⟨hsound, hl, -⟩ := step_sound h hstore hstep
    have hone : Runs.run Ledger.step c.ledger (c.label e).toList = some m.ledger := by
      cases hlabel : c.label e with
      | none => rw [hlabel] at hl; exact hl
      | some l =>
        rw [hlabel] at hl
        exact (Runs.run_cons_eq_some Ledger.step _ _ l []).2 ⟨_, hl, rfl⟩
    unfold labels
    rw [hstep]
    exact (Runs.run_append_eq_some Ledger.step _ _ _ _).2 ⟨_, hone, ih hsound hrest hr⟩

/-- **The client refines the ledger**: what it does with the queues, the callbacks and the
signed-in user is what the ledger does. -/
theorem refines_ledger (user : String) (es : List Event) (c0 c : Client) (hes : Storable es)
    (h0 : launch Db.empty user = some c0) (hr : Runs.run step c0 es = some c) :
    Runs.run Ledger.step ⟨fun _ => [], user, []⟩ (labels c0 es) = some c.ledger := by
  obtain ⟨c1, h1, -, hl, -⟩ := launch_sound user
  obtain ⟨hs, hmeets, -, -⟩ := run_launch hes h0 hr
  rw [h1] at h0
  cases h0
  rw [← hl]
  exact run_ledger hs hmeets hr

theorem refines_ledger_cutOff :
    ∃ c0 c, launch Db.empty "A" = some c0 ∧ Runs.run step c0 cutOff = some c ∧
      Runs.run Ledger.step ⟨fun _ => [], "A", []⟩ (labels c0 cutOff) = some c.ledger := by
  obtain ⟨c, hc⟩ := Option.isSome_iff_exists.1 after_cutOff
  obtain ⟨c0, h0, hr⟩ := Option.bind_eq_some_iff.1 hc
  exact ⟨c0, c, h0, hr, refines_ledger "A" cutOff c0 c storable_cutOff h0 hr⟩

/-! ## The callbacks -/

/-- The callbacks of the writes since the process started, by user. -/
def issued (I : String → List StatusCallback) (c : Client) : Event → String → List StatusCallback
  | .writeMutations _ callback =>
    Function.update I c.currentUser (I c.currentUser ++ [callback])
  | .relaunch _ => fun _ => []
  | _ => I

theorem issued_eq (I : String → List StatusCallback) (c : Client) (e : Event) :
    issued I c e = match c.label e with
      | some (.enter _ callback) =>
        Function.update I c.currentUser (I c.currentUser ++ [callback])
      | some (.restart _) => fun _ => []
      | _ => I := by
  cases e with
  | streamRead => unfold label; cases c.stream.handshakeComplete <;> rfl
  | streamFinish status =>
    cases status with
    | none => rfl
    | some error =>
      unfold label
      by_cases h : error.isPermanentWriteError = true ∧ c.stream.handshakeComplete = true ∧
          c.writePipeline ≠ []
      · simp only [if_pos h, issued]
      · simp only [if_neg h, issued]
  | _ => rfl

/-- The callbacks of the user that were run, and those that are still waited for. -/
def callbacksOf (L : Ledger) (u : String) : List StatusCallback :=
  (L.notices.filter fun n => n.user = u).map Notice.callback ++
    (L.queues u).filterMap Entry.callback

theorem callbacksOf_step {L L' : Ledger} {e : Ledger.Event} (h : L.step e = some L') (u : String) :
    callbacksOf L' u = match e with
      | .enter _ callback => if u = L.user then callbacksOf L u ++ [callback] else callbacksOf L u
      | .restart _ => []
      | _ => callbacksOf L u := by
  cases e with
  | enter mutations callback =>
    cases h
    unfold callbacksOf
    simp only [Function.update_apply]
    by_cases hu : u = L.user
    · simp [hu]
    · simp [hu]
  | settle status =>
    unfold Ledger.step at h
    cases hq : L.queues L.user with
    | nil => simp [hq] at h
    | cons entry rest =>
      simp only [hq, Option.some.injEq] at h
      subst h
      unfold callbacksOf
      by_cases hu : u = L.user
      · -- the callback of the head is run now
        subst hu
        cases hcb : entry.callback with
        | none => simp [hq, Entry.notices, hcb]
        | some callback => simp [hq, Entry.notices, hcb]
      · have hne : (entry.notices L.user status).filter (fun n => n.user = u) = [] := by
          unfold Entry.notices
          cases entry.callback with
          | none => rfl
          | some callback => simp [Ne.symm hu]
        simp [hu, hne]
  | signIn user =>
    cases h
    rfl
  | restart user =>
    cases h
    simp [callbacksOf, List.filterMap_map]

theorem callbacksOf_advance {c c' : Client} {e : Event} {I : String → List StatusCallback}
    (h : c.ledger.advance (c.label e) = some c'.ledger)
    (hI : ∀ u, I u = callbacksOf c.ledger u) (u : String) :
    issued I c e u = callbacksOf c'.ledger u := by
  rw [issued_eq]
  cases hlabel : c.label e with
  | none =>
    rw [hlabel] at h
    rw [← Option.some.inj h]
    exact hI u
  | some l =>
    rw [hlabel] at h
    rw [callbacksOf_step h u]
    cases l with
    | enter mutations callback =>
      simp only [Function.update_apply, hI]
      by_cases hu : u = c.currentUser
      · rw [if_pos hu, if_pos (by exact hu), hu]
      · rw [if_neg hu, if_neg (by exact hu)]
    | settle status => exact hI u
    | signIn user => exact hI u
    | restart user => rfl

/-- **The callbacks of a user's writes run once each and in the order of the writes**: those
that were run, with those that the batches in the queue still wait for, are the callbacks of
the writes since the process started. -/
theorem callbacks_in_order (user : String) (es : List Event) (c0 c : Client)
    (I : String → List StatusCallback) (hes : Storable es) (h0 : launch Db.empty user = some c0)
    (hr : Runs.run (Runs.recorded step issued) (c0, fun _ => []) es = some (c, I)) (u : String) :
    I u = (c.notices.filter fun n => n.user = u).map Notice.callback ++
      (c.queue u).filterMap Entry.callback := by
  obtain ⟨c1, h1, -, hl, -⟩ := launch_sound user
  obtain ⟨hs, hmeets, -, -⟩ := run_launch hes h0 (Runs.run_of_recorded step issued _ _ es hr)
  rw [h1] at h0
  cases h0
  have hinv := Runs.run_of_meets (Runs.recorded step issued)
    (fun s => s.1.Sound ∧ ∀ u, s.2 u = callbacksOf s.1.ledger u) (fun s e => s.1.CanStore e)
    (fun s e s' hs hstore he => ?_) _ _ es ⟨hs, fun u => by rw [hl]; rfl⟩
    (Runs.meets_recorded step issued _ _ _ es hmeets) hr
  · exact hinv.2 u
  · obtain ⟨hstep, hrec⟩ := (Runs.recorded_eq_some step issued s s' e).1 he
    obtain ⟨hsound, hledger, -⟩ := step_sound hs.1 hstore hstep
    exact ⟨hsound, fun u => hrec ▸ callbacksOf_advance hledger hs.2 u⟩

theorem callbacks_in_order_cutOff :
    ∃ c0 c I, launch Db.empty "A" = some c0 ∧
      Runs.run (Runs.recorded step issued) (c0, fun _ => []) cutOff = some (c, I) ∧
      I "A" = (c.notices.filter fun n => n.user = "A").map Notice.callback ++
        (c.queue "A").filterMap Entry.callback := by
  obtain ⟨c, hc⟩ := Option.isSome_iff_exists.1 after_cutOff
  obtain ⟨c0, h0, hr⟩ := Option.bind_eq_some_iff.1 hc
  obtain ⟨I, hI⟩ := Runs.recorded_of_run step issued c0 c (fun _ => []) cutOff hr
  exact ⟨c0, c, I, h0, hI, callbacks_in_order "A" cutOff c0 c I storable_cutOff h0 hI "A"⟩

end Client

end ProjectSY.Firestore
