import ProjectSY.Lib.Schedules
import ProjectSY.Session.Copies

/-!
# What an action leaves on the server

The documents once the writes of a saved profile, or of a requested code, have
been applied:

    saved profile     users/<uid> is the profile; nothing else changes
    requested code    users/<uid> has the new code merged in, connection/<code> is
                      the sender, connection/<last code> is gone

What becomes of a document depends on the writes about it only
(`Collections.doc_settle_congr`), and those about `users/<uid>` are issued as `uid`
(`OwnWrites`).  So the document is what the queue of `uid` makes of it, whatever is taken
from the other queues in between (`users_settledAs_step`).

An `Arrival` is an order in which all queues may be worked off.  A document that only one
of them is about is in every order what that queue makes of it (`arrived_doc`).
-/

namespace ProjectSY

theorem users_ne_connection (i j : String) : ("users", i) ≠ ("connection", j) := by
  intro h
  have : "users" = "connection" := congrArg Prod.fst h
  exact absurd this (by decide)

theorem pair_eq_iff (c i j : String) : (c, i) = (c, j) ↔ i = j := by
  simp only [Prod.mk.injEq, true_and]

/-- A document is a place of the store. -/
theorem local_doc (c i : String) :
    Outbox.Local Collections.apply (fun s => s.doc c i) (fun w => w.target = (c, i)) where
  frame s w h := s.doc_apply_of_ne w c i h
  same s t w h := s.doc_apply_congr t w c i h

theorem Collections.doc_settle_congr (s t : Collections) (ws : List Write) (c i : String)
    (h : s.doc c i = t.doc c i) : (s.settle ws).doc c i = (t.settle ws).doc c i :=
  Outbox.view_settle_congr (local_doc c i) s t ws h

/-! ## A saved profile -/

theorem users_settle_profileWrites (s : Collections) (uid x : String) (data : Dict) :
    (s.settle (profileWrites uid data)).doc "users" x =
      if x = uid then some data else s.doc "users" x := by
  show (s.apply (.setData "users" uid data)).doc "users" x = _
  rw [Collections.doc_setData]
  simp only [pair_eq_iff]

theorem connection_settle_profileWrites (s : Collections) (uid c : String) (data : Dict) :
    (s.settle (profileWrites uid data)).doc "connection" c = s.doc "connection" c := by
  show (s.apply (.setData "users" uid data)).doc "connection" c = _
  rw [Collections.doc_setData, if_neg (users_ne_connection uid c).symm]

/-! ## A requested code -/

theorem users_settle_removeLastCode (s : Collections) (user : User) (x : String) :
    (s.settle (removeLastCode user)).doc "users" x = s.doc "users" x := by
  unfold removeLastCode
  cases lastConnectionCode user with
  | none => rfl
  | some last =>
    show (s.apply (.delete "connection" last)).doc "users" x = _
    rw [Collections.doc_delete, if_neg (users_ne_connection x last)]

theorem connection_settle_removeLastCode (s : Collections) (user : User) (c : String) :
    (s.settle (removeLastCode user)).doc "connection" c =
      if lastConnectionCode user = some c then none else s.doc "connection" c := by
  unfold removeLastCode
  cases lastConnectionCode user with
  | none => rfl
  | some last =>
    show (s.apply (.delete "connection" last)).doc "connection" c = _
    rw [Collections.doc_delete]
    simp only [pair_eq_iff, Option.some.injEq, eq_comm]

theorem settle_codeWrites (s : Collections) (user : User) (uid code : String) :
    s.settle (codeWrites user uid code) =
      ((s.settle (removeLastCode user)).apply (.setData "connection" code (senderData uid))).apply
        (.mergeData "users" uid (codeData code)) :=
  Outbox.settle_append Collections.apply s (removeLastCode user) _

theorem users_settle_codeWrites (s : Collections) (user : User) (uid code x : String) :
    (s.settle (codeWrites user uid code)).doc "users" x =
      if x = uid then some (codeData code ∪ (s.doc "users" uid).getD ∅) else s.doc "users" x := by
  rw [settle_codeWrites, Collections.doc_mergeData, Collections.doc_setData,
    Collections.doc_setData, if_neg (users_ne_connection uid code),
    if_neg (users_ne_connection x code), users_settle_removeLastCode, users_settle_removeLastCode]
  simp only [pair_eq_iff]

theorem connection_settle_codeWrites (s : Collections) (user : User) (uid code c : String) :
    (s.settle (codeWrites user uid code)).doc "connection" c =
      if c = code then some (senderData uid)
      else if lastConnectionCode user = some c then none else s.doc "connection" c := by
  rw [settle_codeWrites, Collections.doc_mergeData, if_neg (users_ne_connection uid c).symm,
    Collections.doc_setData, connection_settle_removeLastCode]
  simp only [pair_eq_iff]

/-! ## Any action -/

/-- No action deletes a document of `users`. -/
theorem Action.users_kept (a : Action) (user : User) (s : Collections) (x : String)
    (h : s.doc "users" x ≠ none) : (s.settle (a.writes user)).doc "users" x ≠ none := by
  cases a with
  | saved uid jpeg data =>
    show (s.settle (profileWrites uid data)).doc "users" x ≠ none
    rw [users_settle_profileWrites]
    split
    · exact Option.some_ne_none data
    · exact h
  | requested n =>
    show (s.settle (getConnectionCode user n).1).doc "users" x ≠ none
    cases ht : user.userIdToken with
    | none =>
      unfold getConnectionCode User.getUserIdToken
      rw [ht]
      exact fun hn => h ((users_settle_removeLastCode s user x).symm.trans hn)
    | some uid =>
      rw [getConnectionCode_writes user n uid ht, users_settle_codeWrites]
      split
      · exact Option.some_ne_none _
      · exact h
  | quiet => exact h
  | launched => exact h
  | restored => exact h
  | signedIn uid => exact h
  | fetched uid d => exact h
  | signedOut => exact h

/-- The documents of `users` that an action writes are those of the user who is signed
in. -/
theorem target_of_writes (w w' : World) (e : Event) (hnav : NavInv w) (hs : step w e = some w')
    (write : Write) (hm : write ∈ (e.action w).writes w.user) (u : String)
    (ht : write.target = ("users", u)) : w.user.userIdToken = some u := by
  have hg := step_guard w w' e hs
  cases ha : e.action w with
  | saved uid jpeg data =>
    rw [ha] at hm hg
    rw [List.mem_singleton.1 hm] at ht
    cases ht
    exact hg.2.1
  | requested n =>
    rw [ha] at hm hg
    obtain ⟨uid, huid⟩ := Option.ne_none_iff_exists'.1 (hnav.ready_of_shows hg).1
    have hm' : write ∈ codeWrites w.user uid (connectionCode n) := by
      rw [← getConnectionCode_writes w.user n uid huid]
      exact hm
    rcases (mem_codeWrites w.user uid _ write).1 hm' with ⟨last, -, rfl⟩ | rfl | rfl
    · exact absurd ht (users_ne_connection u last).symm
    · exact absurd ht (users_ne_connection u _).symm
    · cases ht
      exact huid
  | _ => rw [ha] at hm; cases hm

/-! ## The queues of the accounts -/

/-- The pending writes about `users/<u>` were issued as `u`. -/
def OwnWrites (w : World) : Prop :=
  ∀ account, ∀ write ∈ w.queue account, ∀ u, write.target = ("users", u) → account = some u

theorem ownWrites_step (w : World) (e : Event) (w' : World) (hst : Stored w) (h : OwnWrites w)
    (hs : step w e = some w') : OwnWrites w' := by
  intro account write hm u ht
  rcases mem_queue_step w w' e hs account write hm with hold | ⟨rfl, hnew⟩
  · exact h account write hold u ht
  · exact hst.signedIn u (target_of_writes w w' e hst.nav hs write hnew u ht)

theorem FirstLaunch.queue {w : World} (h : FirstLaunch w) (account : Option String) :
    w.queue account = [] := by
  obtain ⟨defaults, currentUser, server, -, rfl⟩ := h
  rfl

theorem FirstLaunch.settledAs {w : World} (h : FirstLaunch w) (account : Option String) :
    w.settledAs account = w.server.documents := by
  unfold World.settledAs
  rw [h.queue account]
  rfl

theorem FirstLaunch.ownWrites {w : World} (h : FirstLaunch w) : OwnWrites w := by
  intro account write hm
  rw [h.queue account] at hm
  cases hm

/-- What `users/<u>` is to become changes by the writes a step issues, if `u` is signed
in, and by nothing else. -/
theorem users_settledAs_step (w w' : World) (e : Event) (hst : Stored w) (hown : OwnWrites w)
    (h : step w e = some w') (he : e ≠ .writeDone false) (u : String) :
    (w'.settledAs (some u)).doc "users" u =
      ((w.settledAs (some u)).settle ((e.action w).writes w.user)).doc "users" u := by
  by_cases ha : w.firebase.currentUser = some u
  · rw [step_settledAs w w' e (some u) h he (Or.inl ha), if_pos ha]
  · -- the writes that are issued, or taken, are not about `users/<u>`
    have hother : ((w.settledAs (some u)).settle ((e.action w).writes w.user)).doc "users" u =
        (w.settledAs (some u)).doc "users" u := by
      refine Outbox.view_of_untouched (local_doc "users" u) _ _ fun write hm ht => ?_
      exact ha (hst.signedIn u (target_of_writes w w' e hst.nav h write hm u ht))
    rw [hother]
    by_cases htrue : e = .writeDone true
    · subst htrue
      have htakes := step_writeDone w w' true h
      obtain ⟨write, hpending, hserver⟩ := htakes.taken
      have hwrite : write ∈ w.pending := by
        rw [hpending]
        exact List.mem_cons_self
      unfold World.settledAs
      rw [htakes.others (some u) fun h => ha h.symm, hserver, if_pos rfl]
      refine Collections.doc_settle_congr _ _ _ _ _ ?_
      exact w.server.documents.doc_apply_of_ne write "users" u fun ht =>
        ha (hown w.firebase.currentUser write hwrite u ht)
    · rw [step_settledAs w w' e (some u) h he (Or.inr htrue), if_neg ha]
      rfl

/-- A property of `users/<u>` now and after each pending write of `u` stays one, if it
stays one through the writes that are issued as `u`. -/
theorem step_throughout (P : Option Dict → Prop) (w w' : World) (e : Event) (hown : OwnWrites w)
    (h : step w e = some w') (he : e ≠ .writeDone false) (u : String)
    (hP : Outbox.Throughout Collections.apply (fun c => P (c.doc "users" u)) w.server.documents
      (w.queue (some u)))
    (hw : w.firebase.currentUser = some u →
      Outbox.Throughout Collections.apply (fun c => P (c.doc "users" u)) (w.settledAs (some u))
        ((e.action w).writes w.user)) :
    Outbox.Throughout Collections.apply (fun c => P (c.doc "users" u)) w'.server.documents
      (w'.queue (some u)) := by
  cases hd : e.isDone with
  | false =>
    rw [(step_issue w w' e h hd).server, step_queue w w' e h hd]
    split
    · next ha => exact hP.append Collections.apply (hw ha)
    · exact hP
  | true =>
    cases e with
    | writeDone ok =>
      cases ok with
      | false => exact absurd rfl he
      | true =>
        have htakes := step_writeDone w w' true h
        obtain ⟨write, hpending, hserver⟩ := htakes.taken
        rw [hserver, if_pos rfl]
        show Outbox.Throughout _ _ (w.server.documents.apply write) _
        by_cases ha : w.firebase.currentUser = some u
        · have hqueue : w.queue (some u) = write :: w'.queue (some u) := by
            rw [← ha]
            show w.pending = _
            rw [hpending]
            unfold World.pending
            rw [htakes.currentUser]
          rw [hqueue] at hP
          exact hP.tail
        · rw [htakes.others (some u) fun h => ha h.symm]
          refine Outbox.throughout_congr (local_doc "users" u) P _ _ _ ?_ hP
          refine (w.server.documents.doc_apply_of_ne write "users" u fun ht => ?_).symm
          refine ha (hown w.firebase.currentUser write ?_ u ht)
          show write ∈ w.pending
          rw [hpending]
          exact List.mem_cons_self
    | uploadDone task ok =>
      have htakes := step_uploadDone w w' task ok h
      obtain ⟨upload, -, hserver⟩ := htakes.taken
      have hdocs : w'.server.documents = w.server.documents := by
        rw [hserver]
        cases ok <;> rfl
      unfold World.queue
      rw [hdocs, htakes.firebase]
      exact hP
    | _ => cases hd

/-! ## Any order of arrival -/

/-- An order in which the pending writes of all accounts may be taken. -/
def World.Arrival (w : World) (log : List (Option String × Write)) : Prop :=
  Outbox.Shuffle w.queue log

/-- The documents once the pending writes have been taken in this order. -/
def World.arrived (w : World) (log : List (Option String × Write)) : Collections :=
  w.server.documents.settle (log.map Prod.snd)

theorem arrived_doc (w : World) (log : List (Option String × Write)) (h : w.Arrival log)
    (c i : String) (account : Option String)
    (honly : ∀ a, a ≠ account → ∀ write ∈ w.queue a, write.target ≠ (c, i)) :
    (w.arrived log).doc c i = (w.settledAs account).doc c i := by
  have hfilter := Outbox.filter_of_only (fun write : Write => write.target = (c, i)) h account honly
  have harrived := Outbox.view_of_filter (local_doc c i) w.server.documents (log.map Prod.snd)
  rw [hfilter] at harrived
  exact harrived.trans (Outbox.view_of_filter (local_doc c i) w.server.documents _).symm

/-- A step that issues nothing leaves the outcomes that were possible before. -/
theorem arrival_step (w w' : World) (e : Event) (log : List (Option String × Write))
    (h : step w e = some w') (he : e ≠ .writeDone false)
    (hnil : (e.action w).writes w.user = []) (hlog : w'.Arrival log) :
    ∃ log', w.Arrival log' ∧ w'.arrived log = w.arrived log' := by
  have hsame : w'.queue = w.queue → w'.server.documents = w.server.documents →
      ∃ log', w.Arrival log' ∧ w'.arrived log = w.arrived log' := by
    intro hqueue hdocs
    refine ⟨log, fun account => (hlog account).trans (by rw [hqueue]), ?_⟩
    unfold World.arrived
    rw [hdocs]
  cases hd : e.isDone with
  | false =>
    refine hsame (funext fun account => ?_) (by rw [(step_issue w w' e h hd).server])
    rw [step_queue w w' e h hd, hnil, List.append_nil, ite_self]
  | true =>
    cases e with
    | writeDone ok =>
      cases ok with
      | false => exact absurd rfl he
      | true =>
        have htakes := step_writeDone w w' true h
        obtain ⟨write, hpending, hserver⟩ := htakes.taken
        have hqueue : w'.queue = Function.update w.queue w.firebase.currentUser w'.pending := by
          funext account
          rw [Function.update_apply]
          split
          · next ha =>
            unfold World.pending
            rw [ha, htakes.currentUser]
          · next ha => exact htakes.others account ha
        refine ⟨(w.firebase.currentUser, write) :: log, ?_, ?_⟩
        · refine (Outbox.shuffle_cons _ _ _ _).2 ⟨w'.pending, hpending, ?_⟩
          rw [← hqueue]
          exact hlog
        · unfold World.arrived
          rw [hserver]
          rfl
    | uploadDone task ok =>
      have htakes := step_uploadDone w w' task ok h
      obtain ⟨upload, -, hserver⟩ := htakes.taken
      refine hsame (funext fun account => ?_) ?_
      · unfold World.queue
        rw [htakes.firebase]
      · rw [hserver]
        cases ok <;> rfl
    | _ => cases hd

end ProjectSY
