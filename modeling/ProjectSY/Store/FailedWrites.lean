import ProjectSY.Store.Commute

/-!
# Writes that fail

Every write of `AppDB` and `AppStorage` has a completion handler that prints.  None
undoes a write, repeats one or looks at the session, and the session was changed
when the writes were issued.  So, whatever fails:

    session      holds the new values
    documents    hold the writes that succeeded, in the order they were issued
    objects      hold the uploads that succeeded, in the order they were completed

A call is all or nothing when everything it issued took effect and the session holds
the new values, or nothing did and the session is what it was; `failedWrites_end` says
exactly when that is.
-/

namespace ProjectSY

/-- The two calls that write: an accepted profile and a requested code. -/
def Action.isCall : Action → Bool
  | .saved _ _ _ => true
  | .requested _ => true
  | _ => false

/-- The local session holds the new values of the call. -/
def Action.NewValues (w : World) : Action → Prop
  | .saved _ _ data =>
    w.user.userData = some data ∧ w.defaults.dictionary "userData" = some data
  | .requested n => w.user.userData = some (codeData (connectionCode n))
  | _ => True

/-! ## Completions -/

/-- The outcome of a write. -/
def Event.writeOk : Event → Option Bool
  | .writeDone ok => some ok
  | _ => none

/-- The upload that is over, with its outcome. -/
def Event.uploadOk (tasks : List (Option Upload)) : Event → Option (Upload × Bool)
  | .uploadDone task ok => (tasks[task]?.join).map fun upload => (upload, ok)
  | _ => none

/-- The write or the upload succeeded. -/
def Event.succeeds : Event → Bool
  | .writeDone ok => ok
  | .uploadDone _ ok => ok
  | _ => false

/-- The server once the write or the upload is on it. -/
def Event.applied (s : World) : Event → Server
  | .writeDone _ => s.server.settle (s.pending.take 1)
  | .uploadDone task _ => Outbox.settle Server.store s.server (s.uploads[task]?.join).toList
  | _ => s.server

/-- The event completes a write or an upload that the call `a` issued in `w`: the writes
of the call are the last of the queue, its upload the last of the tasks. -/
def Completes (w : World) (a : Action) (s : World) : Event → Prop
  | .writeDone _ => s.pending.length ≤ (a.writes w.user).length
  | .uploadDone task _ => w.uploads.length ≤ task
  | _ => False

instance (w : World) (a : Action) (s : World) (e : Event) : Decidable (Completes w a s e) :=
  match e with
  | .writeDone _ => inferInstanceAs (Decidable (_ ≤ _))
  | .uploadDone _ _ => inferInstanceAs (Decidable (_ ≤ _))
  | .goToNextStorybaord | .googleSignIn | .didSignIn _ | .authSignIn _ _ _ | .answer _ _ _
  | .documentSnapshot _ _ | .finishWritingProfile _ | .backToSignIn | .no | .yes _
  | .getConnectionCode _ | .backToProfile | .presentAlert | .dismissAlert
  | .relaunch => inferInstanceAs (Decidable False)

/-- The server holds what is completed. -/
def TookEffect (s : World) (e : Event) : Prop := (perform s e).server = e.applied s

/-- The server is what it was. -/
def NoEffect (s : World) (e : Event) : Prop := (perform s e).server = s.server

/-- The call `a` of `w` led to `w1`, and the completions `es` from there to `w2`: all that
the call issued took effect and the session holds the new values, or nothing did and it
holds the old ones. -/
def AllOrNothing (w w1 w2 : World) (a : Action) (es : List Event) : Prop :=
  (Runs.Meets step (fun s e => Completes w a s e → TookEffect s e) w1 es ∧ a.NewValues w2) ∨
    (Runs.Meets step (fun s e => Completes w a s e → NoEffect s e) w1 es ∧
      w2.user = w.user ∧ w2.defaults = w.defaults)

theorem perform_done (s : World) (e : Event) (he : e.isDone = true) :
    (perform s e).server = if e.succeeds then e.applied s else s.server := by
  cases e with
  | writeDone ok =>
    show (s.writeDone ok).server = if ok then s.server.settle (s.pending.take 1) else _
    unfold World.writeDone
    cases s.pending with
    | nil => cases ok <;> rfl
    | cons write rest => rfl
  | uploadDone task ok =>
    show (s.uploadDone task ok).server =
      if ok then Outbox.settle Server.store s.server (s.uploads[task]?.join).toList else _
    unfold World.uploadDone
    rcases s.uploads[task]? with _ | _ | upload
    · cases ok <;> rfl
    · cases ok <;> rfl
    · rfl
  | _ => cases he

theorem completes_isDone (w s : World) (a : Action) (e : Event) (h : Completes w a s e) :
    e.isDone = true := by
  cases e with
  | writeDone ok => rfl
  | uploadDone task ok => rfl
  | _ => cases h

/-- What took effect has succeeded, or it changes nothing. -/
theorem tookEffect_iff (s : World) (e : Event) (he : e.isDone = true) :
    TookEffect s e ↔ e.succeeds = true ∨ e.applied s = s.server := by
  unfold TookEffect
  rw [perform_done s e he]
  cases e.succeeds with
  | true => simp
  | false => simp [eq_comm]

theorem noEffect_iff (s : World) (e : Event) (he : e.isDone = true) :
    NoEffect s e ↔ e.succeeds = false ∨ e.applied s = s.server := by
  unfold NoEffect
  rw [perform_done s e he]
  cases e.succeeds with
  | true => simp
  | false => simp

theorem isDone_session (s s' : World) (e : Event) (he : e.isDone = true)
    (h : step s e = some s') : s'.user = s.user ∧ s'.defaults = s.defaults := by
  have hs := step_session s s' e h
  cases e with
  | writeDone ok => exact hs
  | uploadDone task ok => exact hs
  | _ => cases he

/-! ## The server after the completions -/

theorem settle_store (s : Server) (u : Upload) (ws : List Write) :
    (s.store u).settle ws = (s.settle ws).store u := by
  rw [Server.settle_eq, Server.settle_eq]
  rfl

/-- What is left after the completions `es`, and what they have done to the server. -/
structure Completed (s : World) (es : List Event) (s' : World) : Prop where
  session : s'.user = s.user ∧ s'.defaults = s.defaults
  done : ∃ done, s.pending = done ++ s'.pending ∧
    done.length = (es.filterMap Event.writeOk).length ∧
    s'.server = Outbox.settle Server.store
      (s.server.settle (Outbox.succeeded (done.zip (es.filterMap Event.writeOk))))
      (Outbox.succeeded (es.filterMap (Event.uploadOk s.uploads)))
  uploads : s.uploads.reduceOption.Perm
    ((es.filterMap (Event.uploadOk s.uploads)).map Prod.fst ++ s'.uploads.reduceOption)

/-- An upload that is completed was under way. -/
theorem uploadDone_underWay (s s' : World) (es : List Event) (hes : ∀ e ∈ es, e.isDone = true)
    (hr : Runs.run step s es = some s') (task : Nat) (ok : Bool)
    (hm : .uploadDone task ok ∈ es) : s.uploads[task]?.join ≠ none := by
  induction es generalizing s with
  | nil => cases hm
  | cons e es ih =>
    obtain ⟨m, he, hr⟩ := (Runs.run_cons_eq_some step s s' e es).1 hr
    rcases List.mem_cons.1 hm with rfl | hm
    · obtain ⟨upload, htask, -⟩ := (step_uploadDone s m task ok he).taken
      rw [htask]
      exact Option.some_ne_none upload
    · have hlater := ih m (fun f hf => hes f (List.mem_cons_of_mem e hf)) hr hm
      cases e with
      | writeDone ok' => exact (step_writeDone s m ok' he).uploads ▸ hlater
      | uploadDone task' ok' =>
        rw [(step_uploadDone s m task' ok' he).uploads, List.getElem?_set] at hlater
        by_cases ht : task' = task
        · rw [if_pos ht] at hlater
          split at hlater <;> exact absurd rfl hlater
        · rw [if_neg ht] at hlater
          exact hlater
      | _ => cases hes _ List.mem_cons_self

/-- Where other tasks are completed, it does not matter that one is. -/
theorem uploadOk_set (tasks : List (Option Upload)) (task : Nat) (es : List Event)
    (hes : ∀ t ok, Event.uploadDone t ok ∈ es → (tasks.set task none)[t]?.join ≠ none) :
    es.filterMap (Event.uploadOk (tasks.set task none)) = es.filterMap (Event.uploadOk tasks) := by
  refine List.filterMap_congr fun e he => ?_
  cases e with
  | uploadDone t ok =>
    have hne : task ≠ t := by
      rintro rfl
      refine hes task ok he ?_
      rw [List.getElem?_set_self']
      cases tasks[task]? <;> rfl
    show ((tasks.set task none)[t]?.join).map _ = (tasks[t]?.join).map _
    rw [List.getElem?_set_ne hne]
  | _ => rfl

theorem completed_writeDone (s m s' : World) (ok : Bool) (es : List Event)
    (he : step s (.writeDone ok) = some m) (h : Completed m es s') :
    Completed s (.writeDone ok :: es) s' := by
  obtain ⟨⟨hu, hd⟩, ⟨done, hpending, hlen, hserver⟩, huploads⟩ := h
  obtain ⟨hu', hd'⟩ := isDone_session s m _ rfl he
  have htakes := step_writeDone s m ok he
  obtain ⟨write, hfirst, happly⟩ := htakes.taken
  refine ⟨⟨hu.trans hu', hd.trans hd'⟩, ⟨write :: done, ?_, congrArg (· + 1) hlen, ?_⟩, ?_⟩
  · rw [hfirst, hpending]
    rfl
  · rw [hserver, happly, htakes.uploads]
    cases ok <;> rfl
  · exact htakes.uploads ▸ huploads

theorem completed_uploadDone (s m s' : World) (task : Nat) (ok : Bool) (es : List Event)
    (he : step s (.uploadDone task ok) = some m) (h : Completed m es s')
    (hes : ∀ t ok, .uploadDone t ok ∈ es → m.uploads[t]?.join ≠ none) :
    Completed s (.uploadDone task ok :: es) s' := by
  obtain ⟨⟨hu, hd⟩, ⟨done, hpending, hlen, hserver⟩, huploads⟩ := h
  obtain ⟨hu', hd'⟩ := isDone_session s m _ rfl he
  have htakes := step_uploadDone s m task ok he
  obtain ⟨upload, htask, hstore⟩ := htakes.taken
  have hhead : (Event.uploadDone task ok).uploadOk s.uploads = some (upload, ok) := by
    show (s.uploads[task]?.join).map _ = _
    rw [htask]
    rfl
  have hothers := uploadOk_set s.uploads task es fun t ok' hm => htakes.uploads ▸ hes t ok' hm
  rw [htakes.uploads, hothers] at hserver huploads
  refine ⟨⟨hu.trans hu', hd.trans hd'⟩, ⟨done, ?_, hlen, ?_⟩, ?_⟩
  · rw [← hpending]
    unfold World.pending World.queue
    rw [htakes.firebase]
  · rw [hserver, hstore, List.filterMap_cons_some hhead]
    cases ok with
    | false => rfl
    | true =>
      rw [if_pos rfl, settle_store]
      rfl
  · rw [List.filterMap_cons_some hhead]
    exact (Outbox.reduceOption_set s.uploads task upload htask).trans (huploads.cons upload)

theorem run_completed (s s' : World) (es : List Event) (hes : ∀ e ∈ es, e.isDone = true)
    (hr : Runs.run step s es = some s') : Completed s es s' := by
  induction es generalizing s with
  | nil =>
    rw [Runs.run_nil] at hr
    cases hr
    exact ⟨⟨rfl, rfl⟩, ⟨[], rfl, rfl, rfl⟩, List.Perm.refl _⟩
  | cons e es ih =>
    obtain ⟨m, he, hrest⟩ := (Runs.run_cons_eq_some step s s' e es).1 hr
    have hes' : ∀ f ∈ es, f.isDone = true := fun f hf => hes f (List.mem_cons_of_mem e hf)
    cases e with
    | writeDone ok => exact completed_writeDone s m s' ok es he (ih m hes' hrest)
    | uploadDone task ok =>
      exact completed_uploadDone s m s' task ok es he (ih m hes' hrest)
        (uploadDone_underWay m s' es hes' hrest)
    | _ => cases hes _ List.mem_cons_self

/-! ## A call and its outcomes -/

/-- The session holds the new values as soon as the call returns. -/
theorem newValues_after_call (w w' : World) (e : Event) (hnav : NavInv w)
    (hs : step w e = some w') : (e.action w).NewValues w' := by
  obtain ⟨hu, hd⟩ := step_session w w' e hs
  have hg := step_guard w w' e hs
  cases ha : e.action w with
  | saved uid jpeg data =>
    rw [ha] at hu hd
    show w'.user.userData = some data ∧ w'.defaults.dictionary "userData" = some data
    rw [hu, hd]
    exact ⟨rfl, UserDefaults.dictionary_set_dictionary _ _ _⟩
  | requested n =>
    rw [ha] at hu hg
    obtain ⟨ht, hdata⟩ := hnav.ready_of_shows hg
    rw [Action.user_requested w.user w.defaults n ht hdata] at hu
    show w'.user.userData = _
    rw [hu]
  | _ => trivial

theorem call_not_done (w : World) (e : Event) (hc : (e.action w).isCall = true) :
    e.isDone = false := by
  cases e with
  | writeDone ok => cases hc
  | uploadDone task ok => cases hc
  | _ => rfl

theorem call_currentUser (w : World) (e : Event) (hc : (e.action w).isCall = true) :
    e.currentUser w = w.firebase.currentUser := by
  refine currentUser_kept w e (fun uid ha => ?_) fun ha => ?_
  · rw [ha] at hc
    cases hc
  · rw [ha] at hc
    cases hc

/-- New values are also the values of any state with the same session. -/
theorem newValues_congr (a : Action) (w w' : World) (h : a.NewValues w)
    (hu : w'.user = w.user) (hd : w'.defaults = w.defaults) : a.NewValues w' := by
  cases a with
  | saved uid jpeg data =>
    show w'.user.userData = _ ∧ w'.defaults.dictionary "userData" = _
    rw [hu, hd]
    exact h
  | requested n =>
    show w'.user.userData = _
    rw [hu]
    exact h
  | _ => trivial

/-- **What failed writes leave behind.**  In every reachable state, for every code
request and every accepted profile and every combination of outcomes, once all the
completion handlers have run: the session holds the new values; the documents hold the
writes that succeeded, in the order they were issued; the objects hold the uploads that
succeeded, in the order they were completed; and the call was all or nothing exactly
when each of its completions succeeded or changes nothing, or each failed or changes
nothing and the new session is the old one. -/
theorem failedWrites_end (w w1 w2 : World) (e : Event) (es : List Event)
    (hw : Runs.Reachable step Launched w) (hs : step w e = some w1)
    (hcall : (e.action w).isCall = true) (hes : ∀ e ∈ es, e.isDone = true)
    (hr : Runs.run step w1 es = some w2) (hwrites : w2.pending = [])
    (huploads : ∀ task ∈ w2.uploads, task = none) :
    (e.action w).NewValues w2 ∧
    ((w.pending ++ (e.action w).writes w.user).length = (es.filterMap Event.writeOk).length ∧
      ((e.action w).uploads w.uploads).reduceOption.Perm
        ((es.filterMap (Event.uploadOk ((e.action w).uploads w.uploads))).map Prod.fst) ∧
      w2.server = Outbox.settle Server.store
        (w.server.settle (Outbox.succeeded
          ((w.pending ++ (e.action w).writes w.user).zip (es.filterMap Event.writeOk))))
        (Outbox.succeeded (es.filterMap (Event.uploadOk ((e.action w).uploads w.uploads))))) ∧
    (AllOrNothing w w1 w2 (e.action w) es ↔
      Runs.Meets step (fun s f => Completes w (e.action w) s f →
        f.succeeds = true ∨ f.applied s = s.server) w1 es ∨
      (Runs.Meets step (fun s f => Completes w (e.action w) s f →
        f.succeeds = false ∨ f.applied s = s.server) w1 es ∧
        w1.user = w.user ∧ w1.defaults = w.defaults)) := by
  have hdone := call_not_done w e hcall
  have hissue := step_issue w w1 e hs hdone
  obtain ⟨⟨hu, hd⟩, ⟨done, hpending, hlen, hserver⟩, hperm⟩ := run_completed w1 w2 es hes hr
  have hqueue : w1.pending = w.pending ++ (e.action w).writes w.user := by
    unfold World.pending
    rw [step_currentUser w w1 e hs, call_currentUser w e hcall, step_queue w w1 e hs hdone,
      if_pos rfl]
  rw [hwrites, List.append_nil, hqueue] at hpending
  rw [← hpending] at hlen hserver
  rw [hissue.uploads] at hserver hperm
  rw [(List.reduceOption_eq_nil_iff _).2 ⟨_, List.eq_replicate_of_mem huploads⟩,
    List.append_nil] at hperm
  rw [hissue.server] at hserver
  have hnew : (e.action w).NewValues w2 :=
    newValues_congr _ w1 w2 (newValues_after_call w w1 e (navInv_reachable hw) hs) hu hd
  refine ⟨hnew, ⟨hlen, hperm, hserver⟩, ?_⟩
  have htook := Runs.meets_congr step (fun _ => True)
    (fun s f => Completes w (e.action w) s f → TookEffect s f)
    (fun s f => Completes w (e.action w) s f → f.succeeds = true ∨ f.applied s = s.server)
    (fun _ _ _ _ _ => trivial)
    (fun s f _ => forall_congr' fun hc =>
      tookEffect_iff s f (completes_isDone w s (e.action w) f hc)) w1 es trivial
  have hnone := Runs.meets_congr step (fun _ => True)
    (fun s f => Completes w (e.action w) s f → NoEffect s f)
    (fun s f => Completes w (e.action w) s f → f.succeeds = false ∨ f.applied s = s.server)
    (fun _ _ _ _ _ => trivial)
    (fun s f _ => forall_congr' fun hc =>
      noEffect_iff s f (completes_isDone w s (e.action w) f hc)) w1 es trivial
  unfold AllOrNothing
  rw [hu, hd, htook, hnone]
  constructor
  · rintro (⟨hall, -⟩ | hold)
    · exact Or.inl hall
    · exact Or.inr hold
  · rintro (hall | hold)
    · exact Or.inl ⟨hall, hnew⟩
    · exact Or.inr hold

/-- `A`, who is new, has saved a profile. -/
theorem reachable_savedByNewcomer (w : World)
    (h : Runs.run step (newDevice ⟨∅, ∅⟩) savedByNewcomer = some w) :
    Runs.Reachable step Launched w :=
  ⟨_, _, launched_newDevice ⟨∅, ∅⟩, h⟩

/-- The writes of the profile succeed, the picture last; of the request,
`connection/000007` is set and the merge into `users/A` fails. -/
def mergeFails : List Event :=
  [.writeDone true, .writeDone true, .uploadDone 0 true, .writeDone false]

/-- A call can leave the server half changed. -/
theorem call_half_done :
    ¬ ∀ (w w1 w2 : World) (e : Event) (es : List Event), Runs.Reachable step Launched w →
      step w e = some w1 → (e.action w).isCall = true → (∀ e ∈ es, e.isDone = true) →
      Runs.run step w1 es = some w2 → w2.pending = [] → (∀ task ∈ w2.uploads, task = none) →
      AllOrNothing w w1 w2 (e.action w) es := by
  intro h
  have hbad : (Runs.run step (newDevice ⟨∅, ∅⟩) savedByNewcomer).any (fun w =>
      (step w (.getConnectionCode 7)).any fun w1 =>
        (Runs.run step w1 [.writeDone true]).any (fun s =>
          decide (Completes w (.requested 7) s (.writeDone true) ∧
            (perform s (.writeDone true)).server ≠ s.server)) &&
        (Runs.run step w1 [.writeDone true, .writeDone true, .uploadDone 0 true]).any (fun s =>
          decide (Completes w (.requested 7) s (.writeDone false) ∧
            (perform s (.writeDone false)).server ≠ (Event.writeDone false).applied s)) &&
        (Runs.run step w1 mergeFails).any fun w2 =>
          decide (w2.pending = [] ∧ ∀ task ∈ w2.uploads, task = none)) = true := by
    decide +kernel
  obtain ⟨w, hw, hbad⟩ := (Option.any_eq_true _ _).1 hbad
  obtain ⟨w1, hw1, hbad⟩ := (Option.any_eq_true _ _).1 hbad
  rw [Bool.and_eq_true, Bool.and_eq_true] at hbad
  obtain ⟨⟨hset, hmerge⟩, hend⟩ := hbad
  obtain ⟨s, hs, hset⟩ := (Option.any_eq_true _ _).1 hset
  obtain ⟨hown, hset⟩ := of_decide_eq_true hset
  obtain ⟨s', hs', hmerge⟩ := (Option.any_eq_true _ _).1 hmerge
  obtain ⟨hown', hmerge⟩ := of_decide_eq_true hmerge
  obtain ⟨w2, hw2, hend⟩ := (Option.any_eq_true _ _).1 hend
  obtain ⟨hwrites, huploads⟩ := of_decide_eq_true hend
  rcases h w w1 w2 (.getConnectionCode 7) mergeFails (reachable_savedByNewcomer w hw) hw1 rfl
    (by decide) hw2 hwrites huploads with ⟨hall, -⟩ | ⟨hnone, -⟩
  · exact hmerge (hall [.writeDone true, .writeDone true, .uploadDone 0 true] (.writeDone false)
      (List.prefix_refl mergeFails) s' hs' hown')
  · exact hset (hnone [.writeDone true] (.writeDone true) ⟨_, rfl⟩ s hs hown)

theorem failedWrites_end_mergeFails :
    ∃ w w1 w2, Runs.run step (newDevice ⟨∅, ∅⟩) savedByNewcomer = some w ∧
      step w (.getConnectionCode 7) = some w1 ∧ Runs.run step w1 mergeFails = some w2 ∧
      w2.user.userData = some (codeData (connectionCode 7)) ∧
      w2.server = Outbox.settle Server.store
        (w.server.settle (Outbox.succeeded
          ((w.pending ++ (getConnectionCode w.user 7).1).zip [true, true, false])))
        (Outbox.succeeded (mergeFails.filterMap (Event.uploadOk w.uploads))) := by
  have hrun : (Runs.run step (newDevice ⟨∅, ∅⟩) savedByNewcomer).any (fun w =>
      (step w (.getConnectionCode 7)).any fun w1 =>
        (Runs.run step w1 mergeFails).any fun w2 =>
          decide (w2.pending = [] ∧ ∀ task ∈ w2.uploads, task = none)) = true := by
    decide +kernel
  obtain ⟨w, hw, hrun⟩ := (Option.any_eq_true _ _).1 hrun
  obtain ⟨w1, hw1, hrun⟩ := (Option.any_eq_true _ _).1 hrun
  obtain ⟨w2, hw2, hrun⟩ := (Option.any_eq_true _ _).1 hrun
  obtain ⟨hwrites, huploads⟩ := of_decide_eq_true hrun
  obtain ⟨hnew, ⟨-, -, hserver⟩, -⟩ := failedWrites_end w w1 w2 (.getConnectionCode 7) mergeFails
    (reachable_savedByNewcomer w hw) hw1 rfl (by decide) hw2 hwrites huploads
  exact ⟨w, w1, w2, hw, hw1, hw2, hnew, hserver⟩

end ProjectSY
