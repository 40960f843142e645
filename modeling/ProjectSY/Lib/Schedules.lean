import ProjectSY.Lib.Outbox
import Mathlib.Data.List.Dedup

/-!
# Complete schedules

The writes of many clients in the order they reach the store, each client's own in the
order it issued them and none missing: a shuffle of the outboxes.

    Shuffle outbox log       `log` is such an order, every write with its client
    run_deliver_shuffle      a run of `deliver` that empties all outboxes is one
    run_of_shuffle           and every shuffle is a run

What a store holds at one place is read by `view`; a write touches the place, or it
leaves it alone.

    view_of_filter           the place is what the writes that touch it make of it
    filter_of_only           if one client touches it, these are that client's
    getLast?_of_shuffle      the last of them is the last of some client
-/

namespace Outbox

variable {σ ω ι : Type*}

/-! ## One place of the store -/

section View

variable {β : Type*} (apply : σ → ω → σ) (view : σ → β) (touches : ω → Prop)

/-- A write that does not touch the place leaves it alone, and one that does makes of it
what it makes of the same elsewhere. -/
structure Local : Prop where
  frame : ∀ s w, ¬ touches w → view (apply s w) = view s
  same : ∀ s t w, view s = view t → view (apply s w) = view (apply t w)

variable {apply view touches}

theorem view_settle_congr (h : Local apply view touches) (s t : σ) (ws : List ω)
    (hst : view s = view t) : view (settle apply s ws) = view (settle apply t ws) := by
  induction ws generalizing s t with
  | nil => exact hst
  | cons w ws ih => exact ih _ _ (h.same s t w hst)

/-- What holds of the place while the outbox empties depends on the place only. -/
theorem throughout_congr (h : Local apply view touches) (P : β → Prop) (s t : σ) (ws : List ω)
    (hst : view s = view t) (hP : Throughout apply (fun s => P (view s)) s ws) :
    Throughout apply (fun s => P (view s)) t ws := by
  intro vs hvs
  show P (view (settle apply t vs))
  rw [← view_settle_congr h s t vs hst]
  exact hP vs hvs

/-- Writes that do not touch the place leave it alone. -/
theorem view_of_untouched (h : Local apply view touches) (s : σ) (ws : List ω)
    (hws : ∀ w ∈ ws, ¬ touches w) : view (settle apply s ws) = view s := by
  induction ws generalizing s with
  | nil => rfl
  | cons w ws ih =>
    have hw := h.frame s w (hws w List.mem_cons_self)
    exact (ih (apply s w) fun v hv => hws v (List.mem_cons_of_mem w hv)).trans hw

variable [DecidablePred touches]

theorem view_of_filter (h : Local apply view touches) (s : σ) (ws : List ω) :
    view (settle apply s ws) = view (settle apply s (ws.filter touches)) := by
  induction ws generalizing s with
  | nil => rfl
  | cons w ws ih =>
    by_cases hw : touches w
    · rw [List.filter_cons_of_pos (by simpa using hw)]
      exact ih (apply s w)
    · rw [List.filter_cons_of_neg (by simpa using hw)]
      exact (view_settle_congr h _ _ ws (h.frame s w hw)).trans (ih s)

/-- If the place does not depend on what was there before, the last write decides. -/
theorem view_of_last (h : Local apply view touches)
    (hblind : ∀ s t w, touches w → view (apply s w) = view (apply t w)) (s : σ) (ws : List ω)
    (w : ω) (hw : (ws.filter touches).getLast? = some w) :
    view (settle apply s ws) = view (apply s w) := by
  obtain ⟨pre, hpre⟩ := List.getLast?_eq_some_iff.1 hw
  have hmem : w ∈ ws.filter touches := by
    rw [hpre]
    exact List.mem_append_right pre List.mem_cons_self
  have htouch : touches w := by simpa using (List.mem_filter.1 hmem).2
  rw [view_of_filter h, hpre, settle_append]
  exact hblind _ s w htouch

theorem map_filter_snd (log : List (ι × ω)) :
    (log.map Prod.snd).filter touches = (log.filter fun e => touches e.2).map Prod.snd := by
  rw [List.filter_map]
  rfl

end View

/-! ## Shuffles -/

variable [DecidableEq ι] (apply : σ → ω → σ)

/-- The writes of each client are those of its outbox, in their order. -/
def Shuffle (outbox : ι → List ω) (log : List (ι × ω)) : Prop :=
  ∀ i, (log.filter fun e => e.1 = i).map Prod.snd = outbox i

def Drained (s : Shared σ ω ι) : Prop := ∀ i, s.outbox i = []

theorem shuffle_cons (outbox : ι → List ω) (i : ι) (w : ω) (log : List (ι × ω)) :
    Shuffle outbox ((i, w) :: log) ↔
      ∃ ws, outbox i = w :: ws ∧ Shuffle (Function.update outbox i ws) log := by
  have hself : (((i, w) :: log).filter fun e => e.1 = i).map Prod.snd =
      w :: (log.filter fun e => e.1 = i).map Prod.snd := by
    rw [List.filter_cons_of_pos (by simp)]
    rfl
  have hother : ∀ j, j ≠ i → (((i, w) :: log).filter fun e => e.1 = j).map Prod.snd =
      (log.filter fun e => e.1 = j).map Prod.snd := by
    intro j hj
    rw [List.filter_cons_of_neg (by simpa using hj.symm)]
  constructor
  · intro h
    refine ⟨(log.filter fun e => e.1 = i).map Prod.snd, ?_, fun j => ?_⟩
    · rw [← h i, hself]
    · by_cases hj : j = i
      · rw [hj, Function.update_self]
      · rw [Function.update_of_ne hj, ← h j, hother j hj]
  · rintro ⟨ws, hi, h⟩ j
    have hlog := h j
    by_cases hj : j = i
    · subst hj
      rw [Function.update_self] at hlog
      rw [hself, hlog, hi]
    · rw [Function.update_of_ne hj] at hlog
      rw [hother j hj, hlog]

theorem run_deliver_shuffle (s s' : Shared σ ω ι) (sched : List ι)
    (hr : Runs.run (deliver apply) s sched = some s') (hd : Drained s') :
    ∃ log, log.map Prod.fst = sched ∧ Shuffle s.outbox log ∧
      s'.store = settle apply s.store (log.map Prod.snd) := by
  induction sched generalizing s with
  | nil =>
    rw [Runs.run_nil] at hr
    cases hr
    exact ⟨[], rfl, fun i => (hd i).symm, rfl⟩
  | cons i sched ih =>
    obtain ⟨m, hm, hr⟩ := (Runs.run_cons_eq_some _ _ _ _ _).1 hr
    obtain ⟨w, ws, hi, rfl⟩ := (deliver_eq_some apply s m i).1 hm
    obtain ⟨log, hlog, hshuffle, hstore⟩ := ih _ hr
    exact ⟨(i, w) :: log, congrArg (i :: ·) hlog,
      (shuffle_cons s.outbox i w log).2 ⟨ws, hi, hshuffle⟩, hstore⟩

theorem run_of_shuffle (s : Shared σ ω ι) (log : List (ι × ω)) (h : Shuffle s.outbox log) :
    ∃ s', Runs.run (deliver apply) s (log.map Prod.fst) = some s' ∧ Drained s' ∧
      s'.store = settle apply s.store (log.map Prod.snd) := by
  induction log generalizing s with
  | nil => exact ⟨s, rfl, fun i => (h i).symm, rfl⟩
  | cons e log ih =>
    obtain ⟨i, w⟩ := e
    obtain ⟨ws, hi, hlog⟩ := (shuffle_cons s.outbox i w log).1 h
    obtain ⟨s', hr, hd, hstore⟩ := ih ⟨apply s.store w, Function.update s.outbox i ws⟩ hlog
    refine ⟨s', ?_, hd, hstore⟩
    exact (Runs.run_cons_eq_some _ _ _ _ _).2 ⟨_, (deliver_eq_some apply s _ i).2 ⟨w, ws, hi, rfl⟩, hr⟩

/-- The clients one after another. -/
def serial (outbox : ι → List ω) (order : List ι) : List (ι × ω) :=
  order.flatMap fun i => (outbox i).map fun w => (i, w)

theorem filter_serial (outbox : ι → List ω) (order : List ι) (hnodup : order.Nodup) (i : ι) :
    ((serial outbox order).filter fun e => e.1 = i).map Prod.snd =
      if i ∈ order then outbox i else [] := by
  have hblock : ∀ j, (((outbox j).map fun w => (j, w)).filter fun e => e.1 = i).map Prod.snd =
      if j = i then outbox i else [] := by
    intro j
    split
    · next h =>
      subst h
      rw [List.filter_eq_self.2 (by simp), List.map_map]
      exact List.map_id _
    · next h =>
      rw [List.filter_eq_nil_iff.2 (by simpa using fun _ _ => h)]
      rfl
  induction order with
  | nil => rfl
  | cons j order ih =>
    obtain ⟨hj, hnodup⟩ := List.nodup_cons.1 hnodup
    unfold serial at ih ⊢
    rw [List.flatMap_cons, List.filter_append, List.map_append, hblock, ih hnodup]
    by_cases hji : j = i
    · subst hji
      rw [if_pos rfl, if_neg hj, if_pos List.mem_cons_self, List.append_nil]
    · rw [if_neg hji, List.nil_append]
      simp only [List.mem_cons, Ne.symm hji, false_or]

theorem shuffle_serial (outbox : ι → List ω) (order : List ι) (hnodup : order.Nodup)
    (hall : ∀ i, outbox i ≠ [] → i ∈ order) : Shuffle outbox (serial outbox order) := by
  intro i
  rw [filter_serial outbox order hnodup i]
  split
  · rfl
  · next hi =>
    by_contra hne
    exact hi (hall i fun h => hne h.symm)

/-- Any client can be the last, if finitely many have something to send. -/
theorem shuffle_behind (outbox : ι → List ω) (clients : List ι)
    (hall : ∀ i, outbox i ≠ [] → i ∈ clients) (i : ι) :
    ∃ order, Shuffle outbox (serial outbox (order ++ [i])) := by
  refine ⟨clients.dedup.filter fun j => j ≠ i, shuffle_serial outbox _ ?_ ?_⟩
  · refine List.nodup_append.2 ⟨(List.nodup_dedup _).filter _, List.nodup_singleton i, ?_⟩
    intro j hj k hk
    rw [List.mem_singleton.1 hk]
    simpa using (List.mem_filter.1 hj).2
  · intro j hne
    by_cases hj : j = i
    · rw [hj]
      exact List.mem_append_right _ (List.mem_singleton_self i)
    · exact List.mem_append_left _ (List.mem_filter.2 ⟨List.mem_dedup.2 (hall j hne),
        by simpa using hj⟩)

/-- Writes that are made of others are shuffled as those are. -/
theorem shuffle_map {ω' : Type*} (f : ω → ω') (outbox : ι → List ω) (log : List (ι × ω')) :
    Shuffle (fun i => (outbox i).map f) log ↔
      ∃ log', Shuffle outbox log' ∧ log = log'.map fun e => (e.1, f e.2) := by
  constructor
  · intro h
    induction log generalizing outbox with
    | nil => exact ⟨[], fun i => (List.map_eq_nil_iff.1 (h i).symm).symm, rfl⟩
    | cons e log ih =>
      obtain ⟨i, w⟩ := e
      obtain ⟨ws, hi, hlog⟩ := (shuffle_cons _ i w log).1 h
      obtain ⟨v, vs, hv, rfl, rfl⟩ := List.map_eq_cons_iff.1 hi
      have hrest : Shuffle (fun j => (Function.update outbox i vs j).map f) log := by
        intro j
        show _ = (Function.update outbox i vs j).map f
        rw [hlog j, Function.update_apply, Function.update_apply]
        split <;> rfl
      obtain ⟨log', hlog', rfl⟩ := ih (Function.update outbox i vs) hrest
      exact ⟨(i, v) :: log', (shuffle_cons outbox i v log').2 ⟨vs, hv, hlog'⟩, rfl⟩
  · rintro ⟨log', h, rfl⟩ i
    show _ = (outbox i).map f
    rw [← h i, List.filter_map, List.map_map, List.map_map]
    rfl

theorem mem_of_shuffle {outbox : ι → List ω} {log : List (ι × ω)} (h : Shuffle outbox log) (i : ι)
    (w : ω) (hm : (i, w) ∈ log) : w ∈ outbox i := by
  rw [← h i]
  exact List.mem_map.2 ⟨(i, w), List.mem_filter.2 ⟨hm, by simp⟩, rfl⟩

/-! ## The writes that touch a place -/

variable (touches : ω → Prop) [DecidablePred touches]

/-- The writes of a client that touch the place, in the order of the log. -/
theorem filter_shuffle {outbox : ι → List ω} {log : List (ι × ω)} (h : Shuffle outbox log) (i : ι) :
    ((log.filter fun e => touches e.2).filter fun e => e.1 = i).map Prod.snd =
      (outbox i).filter touches := by
  rw [← h i, List.filter_map, List.filter_filter, List.filter_filter]
  congr 1
  refine List.filter_congr fun e _ => ?_
  exact Bool.and_comm _ _

/-- If one client only touches the place, what touches it are that client's writes. -/
theorem filter_of_only {outbox : ι → List ω} {log : List (ι × ω)} (h : Shuffle outbox log) (i : ι)
    (honly : ∀ j, j ≠ i → ∀ w ∈ outbox j, ¬ touches w) :
    (log.map Prod.snd).filter touches = (outbox i).filter touches := by
  rw [map_filter_snd, ← filter_shuffle touches h i]
  congr 1
  refine (List.filter_eq_self.2 fun e he => ?_).symm
  obtain ⟨hlog, htouch⟩ := List.mem_filter.1 he
  obtain ⟨j, w⟩ := e
  by_contra hj
  exact honly j (by simpa using hj) w (mem_of_shuffle h j w hlog) (by simpa using htouch)

/-- If no two clients touch the place, all shuffles have the same writes there. -/
theorem filter_agree {outbox : ι → List ω} {log log' : List (ι × ω)} (h : Shuffle outbox log)
    (h' : Shuffle outbox log')
    (hone : ∀ i j, (∃ w ∈ outbox i, touches w) → (∃ w ∈ outbox j, touches w) → i = j) :
    (log.map Prod.snd).filter touches = (log'.map Prod.snd).filter touches := by
  by_cases hsome : ∃ i, ∃ w ∈ outbox i, touches w
  · obtain ⟨i, hi⟩ := hsome
    have honly : ∀ j, j ≠ i → ∀ w ∈ outbox j, ¬ touches w :=
      fun j hj w hw ht => hj (hone j i ⟨w, hw, ht⟩ hi)
    rw [filter_of_only touches h i honly, filter_of_only touches h' i honly]
  · have hnil : ∀ log : List (ι × ω), Shuffle outbox log →
        (log.map Prod.snd).filter touches = [] := by
      intro log hlog
      rw [List.filter_eq_nil_iff]
      intro w hw
      obtain ⟨⟨i, w⟩, he, rfl⟩ := List.mem_map.1 hw
      have hnot : ¬ touches w := fun ht => hsome ⟨i, w, mem_of_shuffle hlog i w he, ht⟩
      simpa using hnot
    rw [hnil log h, hnil log' h']

/-- The last write that touches the place is the last one of some client. -/
theorem getLast?_of_shuffle {outbox : ι → List ω} {log : List (ι × ω)} (h : Shuffle outbox log)
    (w : ω) (hw : ((log.map Prod.snd).filter touches).getLast? = some w) :
    ∃ i, ((outbox i).filter touches).getLast? = some w := by
  rw [map_filter_snd, List.getLast?_map, Option.map_eq_some_iff] at hw
  obtain ⟨⟨i, w'⟩, hlast, rfl⟩ := hw
  obtain ⟨pre, hpre⟩ := List.getLast?_eq_some_iff.1 hlast
  refine ⟨i, ?_⟩
  rw [← filter_shuffle touches h i, hpre, List.filter_append, List.map_append,
    List.filter_cons_of_pos (by simp)]
  exact List.getLast?_append_of_ne_nil _ (by simp) |>.trans rfl

end Outbox
