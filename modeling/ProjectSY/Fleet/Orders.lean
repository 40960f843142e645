import ProjectSY.Fleet.Format
import ProjectSY.Store.Orders
import Mathlib.Data.Fintype.Basic

/-!
# The order in which pending writes arrive

Every account has a queue of its own on every device.  What is pending in a state of a
fleet is a store with one client for each queue (`Fleet.pending`), and a write that
arrives is one that is delivered there (`deliver_of_arrival`).  So for queues with changes
about different users, what the documents end in depends on the order in which the writes
arrive exactly when some queue touches a code that another one leaves
(`arrivals_agree_iff`).
-/

namespace ProjectSY

open Directory (Change)

variable {ι : Type*}

/-- The documents, and what is pending for each account on each device. -/
def Fleet.pending (s : ι → World) (i : ι) : Outbox.Shared Collections Write (ι × Option String) :=
  ⟨(s i).server.documents, fun q => (s q.1).queue q.2⟩

section

variable [DecidableEq ι]

/-- A write that arrives is the oldest of the queue Firebase works off on its device. -/
theorem deliver_of_arrival (s s' : ι → World) (i j : ι)
    (h : Fleet.step s (i, .writeDone true) = some s') :
    Outbox.deliver Collections.apply (Fleet.pending s i) (i, (s i).firebase.currentUser) =
      some (Fleet.pending s' j) := by
  have hself := Sharing.step_self _ _ _ s s' i _ h
  have htakes := step_writeDone (s i) (s' i) true hself
  obtain ⟨write, hpending, hserver⟩ := htakes.taken
  have hother : ∀ k, k ≠ i → s' k = (s k).withServer (s' i).server :=
    fun k hk => Sharing.step_other _ _ _ s s' i k _ hk h
  refine (Outbox.deliver_eq_some _ _ _ _).2 ⟨write, (s' i).pending, hpending, ?_⟩
  unfold Fleet.pending
  rw [Outbox.Shared.mk.injEq]
  constructor
  · have hj : (s' j).server = (s' i).server := by
      by_cases hji : j = i
      · rw [hji]
      · rw [hother j hji]
        rfl
    rw [hj, hserver]
    rfl
  · funext ⟨k, account⟩
    rw [Function.update_apply]
    by_cases hk : k = i
    · subst hk
      by_cases ha : account = (s k).firebase.currentUser
      · rw [if_pos (by rw [ha])]
        show (s' k).queue account = (s' k).queue (s' k).firebase.currentUser
        rw [ha, htakes.currentUser]
      · rw [if_neg (fun e => ha (congrArg Prod.snd e))]
        exact htakes.others account ha
    · rw [if_neg (fun e => hk (congrArg Prod.fst e))]
      show (s' k).queue account = (s k).queue account
      rw [hother k hk]
      rfl

end

/-! ## The documents and the directory -/

theorem documents_settle (c : Collections) (D : Directory) (h : DocumentsOf c D)
    (changes : List Change) :
    DocumentsOf (c.settle (changes.map Change.write)) (Outbox.settle Directory.apply D changes) := by
  induction changes generalizing c D with
  | nil => exact h
  | cons change changes ih => exact ih _ _ (documents_apply c D h change)

/-- Documents that are those of a directory say all of it but the pictures. -/
theorem directory_of_documents (c : Collections) (D E : Directory) (hD : DocumentsOf c D)
    (hE : DocumentsOf c E) (hpicture : D.picture = E.picture) : D = E := by
  have hread : ∀ F, DocumentsOf c F → ∀ u, F.profile u = (c.doc "users" u).bind readProfile ∧
      F.code u = c.codeOf u := by
    intro F hF u
    unfold Collections.codeOf
    rw [hF.users u]
    exact ⟨(read_recordData _ _).1.symm, (read_recordData _ _).2.symm⟩
  refine Directory.eq_of_places D E (fun u => ?_) (fun code => ?_) hpicture
  · rw [(hread D hD u).1, (hread D hD u).2, (hread E hE u).1, (hread E hE u).2]
  · rw [← sender_of_documents c D hD, sender_of_documents c E hE]

variable [DecidableEq ι]

/-- The documents agree in all orders when the directories do. -/
theorem delivered_agree_iff {κ : Type*} [DecidableEq κ] (c : Collections) (D : Directory)
    (h : DocumentsOf c D) (queue : κ → List Write) (changes : κ → List Change)
    (hqueue : queue = fun q => (changes q).map Change.write) :
    (∀ sched sched' t t', Runs.run (Outbox.deliver Collections.apply) ⟨c, queue⟩ sched = some t →
      Outbox.Drained t → Runs.run (Outbox.deliver Collections.apply) ⟨c, queue⟩ sched' = some t' →
      Outbox.Drained t' → t.store = t'.store) ↔
    (∀ log log', Outbox.Shuffle changes log → Outbox.Shuffle changes log' →
      Outbox.settle Directory.apply D (log.map Prod.snd) =
        Outbox.settle Directory.apply D (log'.map Prod.snd)) := by
  have hwrites : ∀ log : List (κ × Change),
      ((log.map fun e => (e.1, e.2.write)).map Prod.snd) = (log.map Prod.snd).map Change.write := by
    intro log
    rw [List.map_map, List.map_map]
    rfl
  subst hqueue
  constructor
  · intro hagree log log' hlog hlog'
    obtain ⟨t, hr, hd, hstore⟩ := Outbox.run_of_shuffle Collections.apply ⟨c, _⟩ _
      ((Outbox.shuffle_map Change.write changes _).2 ⟨log, hlog, rfl⟩)
    obtain ⟨t', hr', hd', hstore'⟩ := Outbox.run_of_shuffle Collections.apply ⟨c, _⟩ _
      ((Outbox.shuffle_map Change.write changes _).2 ⟨log', hlog', rfl⟩)
    have hsame := hagree _ _ t t' hr hd hr' hd'
    rw [hstore, hstore', hwrites, hwrites] at hsame
    refine directory_of_documents _ _ _ (documents_settle c D h _) ?_ ?_
    · show DocumentsOf (c.settle ((log.map Prod.snd).map Change.write)) _
      rw [show c.settle _ = c.settle _ from hsame]
      exact documents_settle c D h _
    · rw [Directory.picture_settle, Directory.picture_settle]
  · intro hagree sched sched' t t' hr hd hr' hd'
    obtain ⟨log, -, hlog, hstore⟩ := Outbox.run_deliver_shuffle Collections.apply _ t sched hr hd
    obtain ⟨log', -, hlog', hstore'⟩ := Outbox.run_deliver_shuffle Collections.apply _ t' sched' hr' hd'
    obtain ⟨given, hgiven, rfl⟩ := (Outbox.shuffle_map Change.write changes _).1 hlog
    obtain ⟨given', hgiven', rfl⟩ := (Outbox.shuffle_map Change.write changes _).1 hlog'
    rw [hwrites] at hstore hstore'
    rw [hstore, hstore']
    refine documents_unique _ _ _ (documents_settle c D h _) ?_
    rw [hagree given given' hgiven hgiven']
    exact documents_settle c D h _

/-- **When the order of arrival matters.**  Finitely many fresh installs around a server in
the app's format, any run, and in the state it leads to the pending changes of different
queues are about different users.  However the pending writes then arrive, each queue's
own in their order and until none is left, all orders lead to the same documents, exactly
when no queue touches a code that another one leaves. -/
theorem arrivals_agree_iff [Fintype ι] (server : Server) (hD : IsDirectory server)
    (s0 s : ι → World) (es : List (ι × Event)) (h : Fleet.FirstLaunch server s0)
    (hr : Runs.run Fleet.step s0 es = some s) (i : ι)
    (changes : ι × Option String → List Change)
    (hqueues : ∀ q, (s q.1).queue q.2 = (changes q).map Change.write)
    (hapart : Directory.UsersApart changes) :
    (∀ sched sched' t t',
      Runs.run (Outbox.deliver Collections.apply) (Fleet.pending s i) sched = some t →
      Outbox.Drained t →
      Runs.run (Outbox.deliver Collections.apply) (Fleet.pending s i) sched' = some t' →
      Outbox.Drained t' → t.store = t'.store) ↔
    ∀ p q, p ≠ q → ∀ c, Directory.Touches (changes p) c → ¬ Directory.Leaves (changes q) c := by
  obtain ⟨D, hD⟩ := (formatted_run server hD s0 s es h hr i).2
  -- the queues with something in them
  let clients : List (ι × Option String) :=
    (Finset.univ.toList : List ι).flatMap fun j => (s j).firebase.outbox.map fun p => (j, p.1)
  have hall : ∀ q, changes q ≠ [] → q ∈ clients := by
    rintro ⟨j, account⟩ hne
    have hqueue : (s j).queue account ≠ [] := by
      rw [hqueues (j, account)]
      exact fun hnil => hne (List.map_eq_nil_iff.1 hnil)
    obtain ⟨write, hwrite⟩ := List.exists_mem_of_ne_nil _ hqueue
    refine List.mem_flatMap.2 ⟨j, Finset.mem_toList.2 (Finset.mem_univ j), ?_⟩
    exact List.mem_map.2 ⟨(account, write), (Outbox.mem_lane _ _ _).1 hwrite, rfl⟩
  have hiff := delivered_agree_iff (s i).server.documents D hD.documents
    (fun q => (s q.1).queue q.2) changes (funext hqueues)
  exact hiff.trans (Directory.settled_agree_iff D changes clients hall hapart)

/-- `A` and `B` have saved their profiles and draw the same code. -/
def sevenTwice : List (Bool × Event) :=
  savedByNewcomer.map (true, ·) ++ [(true, .writeDone true), (false, .goToNextStorybaord)] ++
  (signInAs "B" 1).map (false, ·) ++
  [(false, .finishWritingProfile (formOfA "hi")), (false, .writeDone true),
    (true, .getConnectionCode 7), (false, .getConnectionCode 7)]

/-- What is pending for a user who draws 7 for the first time. -/
def sevenOf (uid : String) : List Change := [.register "000007" uid, .point uid "000007"]

def sevenPending (q : Bool × Option String) : List Change :=
  if q = (true, some "A") then sevenOf "A" else if q = (false, some "B") then sevenOf "B" else []

theorem usersApart_sevenPending : Directory.UsersApart sevenPending := by
  have hcases : ∀ q, ∀ a ∈ sevenPending q, (q = (true, some "A") ∧ a ∈ sevenOf "A") ∨
      (q = (false, some "B") ∧ a ∈ sevenOf "B") := by
    intro q a ha
    unfold sevenPending at ha
    split at ha
    · next hq => exact Or.inl ⟨hq, ha⟩
    · split at ha
      · next hq => exact Or.inr ⟨hq, ha⟩
      · cases ha
  have huser : ∀ a ∈ sevenOf "A", ∀ b ∈ sevenOf "B", a.user ≠ b.user := by decide
  intro p q hpq a ha b hb
  refine Or.inr ?_
  rcases hcases p a ha with ⟨rfl, ha⟩ | ⟨rfl, ha⟩
  · rcases hcases q b hb with ⟨rfl, -⟩ | ⟨rfl, hb⟩
    · exact absurd rfl hpq
    · exact huser a ha b hb
  · rcases hcases q b hb with ⟨rfl, hb⟩ | ⟨rfl, -⟩
    · exact (huser b hb a ha).symm
    · exact absurd rfl hpq

theorem arrivals_agree_iff_sevenTwice :
    ∃ s, Runs.run Fleet.step (fun _ => newDevice ⟨∅, ∅⟩) sevenTwice = some s ∧
      ¬ ∀ sched sched' t t',
        Runs.run (Outbox.deliver Collections.apply) (Fleet.pending s true) sched = some t →
        Outbox.Drained t →
        Runs.run (Outbox.deliver Collections.apply) (Fleet.pending s true) sched' = some t' →
        Outbox.Drained t' → t.store = t'.store := by
  have hrun : (Runs.run Fleet.step (fun _ : Bool => newDevice ⟨∅, ∅⟩) sevenTwice).any (fun s =>
      decide ((s true).firebase.outbox =
          ((sevenOf "A").map Change.write).map (Prod.mk (some "A")) ∧
        (s false).firebase.outbox =
          ((sevenOf "B").map Change.write).map (Prod.mk (some "B")))) = true := by
    decide +kernel
  obtain ⟨s, hs, hout⟩ := (Option.any_eq_true _ _).1 hrun
  obtain ⟨hA, hB⟩ := of_decide_eq_true hout
  have hqueues : ∀ q : Bool × Option String,
      (s q.1).queue q.2 = (sevenPending q).map Change.write := by
    have hone : ∀ (w : World) (uid : String) (account : Option String),
        w.firebase.outbox = ((sevenOf uid).map Change.write).map (Prod.mk (some uid)) →
        w.queue account = if some uid = account then (sevenOf uid).map Change.write else [] := by
      intro w uid account hw
      unfold World.queue
      rw [hw]
      exact Outbox.lane_issue [] (some uid) account ((sevenOf uid).map Change.write)
    rintro ⟨j, account⟩
    cases j with
    | true =>
      rw [hone (s true) "A" account hA]
      by_cases ha : account = some "A"
      · subst ha
        rfl
      · rw [if_neg (Ne.symm ha)]
        simp [sevenPending, ha]
    | false =>
      rw [hone (s false) "B" account hB]
      by_cases ha : account = some "B"
      · subst ha
        rfl
      · rw [if_neg (Ne.symm ha)]
        simp [sevenPending, ha]
  refine ⟨s, hs, fun hagree => ?_⟩
  have hiff := arrivals_agree_iff ⟨∅, ∅⟩ ⟨_, represents_empty⟩ _ s sevenTwice
    (Fleet.firstLaunch_newDevices ⟨∅, ∅⟩) hs true sevenPending hqueues usersApart_sevenPending
  exact hiff.1 hagree (true, some "A") (false, some "B") (by simp) "000007"
    ⟨.register "000007" "A", by decide, rfl⟩ ⟨"B", rfl⟩

end ProjectSY
