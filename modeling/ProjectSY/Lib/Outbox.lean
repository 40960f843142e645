import ProjectSY.Lib.Runs
import Mathlib.Logic.Function.Basic
import Mathlib.Data.List.ReduceOption

/-!
# Writes that are issued now and take effect later

A client hands its writes to a first-in first-out outbox; the store applies
them one by one, and each may fail.

    settle s ws      the store once all of `ws` have been applied
    succeeded rs     the writes that succeeded, of those that are completed
    lane ws k        the writes of one outbox among those of several, kept in one list
    deliver s i      client `i`'s oldest write reaches a store many clients share
-/

namespace Outbox

variable {σ ω : Type*} (apply : σ → ω → σ)

/-- The store after every write has been applied. -/
def settle (s : σ) (ws : List ω) : σ := ws.foldl apply s

theorem settle_append (s : σ) (ws vs : List ω) :
    settle apply s (ws ++ vs) = settle apply (settle apply s ws) vs :=
  List.foldl_append

/-- The writes that succeeded, in the order they were issued. -/
def succeeded (rs : List (ω × Bool)) : List ω := (rs.filter (·.2)).map (·.1)

/-- A property that every write keeps is kept by all of them together. -/
theorem settle_invariant (I : σ → Prop) (s : σ) (ws : List ω)
    (hI : ∀ w ∈ ws, ∀ s, I s → I (apply s w)) (h : I s) : I (settle apply s ws) := by
  induction ws generalizing s with
  | nil => exact h
  | cons w ws ih =>
    have hw : I (apply s w) := hI w List.mem_cons_self s h
    exact ih (apply s w) (fun v hv => hI v (List.mem_cons_of_mem w hv)) hw

/-! ## What holds while the outbox empties -/

/-- `P` in the store now and after each of the writes. -/
def Throughout (P : σ → Prop) (s : σ) (ws : List ω) : Prop :=
  ∀ vs, vs <+: ws → P (settle apply s vs)

theorem Throughout.now {P : σ → Prop} {s : σ} {ws : List ω} (h : Throughout apply P s ws) : P s :=
  h [] (List.nil_prefix)

theorem Throughout.tail {P : σ → Prop} {s : σ} {w : ω} {ws : List ω}
    (h : Throughout apply P s (w :: ws)) : Throughout apply P (apply s w) ws := by
  intro vs hvs
  obtain ⟨post, rfl⟩ := hvs
  exact h (w :: vs) ⟨post, rfl⟩

theorem throughout_nil (P : σ → Prop) (s : σ) (h : P s) : Throughout apply P s [] := by
  intro vs hvs
  rw [List.prefix_nil.1 hvs]
  exact h

/-- Writes that are issued behind others meet the store those lead to. -/
theorem Throughout.append {P : σ → Prop} {s : σ} {ws vs : List ω} (h : Throughout apply P s ws)
    (hv : Throughout apply P (settle apply s ws) vs) : Throughout apply P s (ws ++ vs) := by
  intro us hus
  rcases List.prefix_or_prefix_of_prefix hus (List.prefix_append ws vs) with hle | ⟨rest, rfl⟩
  · exact h us hle
  · rw [settle_append]
    exact hv rest ((List.prefix_append_right_inj ws).1 hus)

theorem Throughout.mono {P Q : σ → Prop} {s : σ} {ws : List ω} (h : Throughout apply P s ws)
    (hPQ : ∀ s, P s → Q s) : Throughout apply Q s ws :=
  fun vs hvs => hPQ _ (h vs hvs)

theorem throughout_of_keeps (P : σ → Prop) (s : σ) (ws : List ω)
    (hP : ∀ w ∈ ws, ∀ s, P s → P (apply s w)) (h : P s) : Throughout apply P s ws := by
  intro vs hvs
  exact settle_invariant apply P s vs (fun w hw => hP w (hvs.subset hw)) h

/-! ## Several outboxes in one list -/

section Lanes

variable {κ : Type*} [DecidableEq κ]

/-- The writes of the outbox `k`, oldest first. -/
def lane (ws : List (κ × ω)) (k : κ) : List ω := (ws.filter fun w => w.1 = k).map Prod.snd

/-- The list without the oldest write of the outbox `k`. -/
def dropOldest (ws : List (κ × ω)) (k : κ) : List (κ × ω) := ws.eraseP fun w => w.1 = k

theorem mem_lane (ws : List (κ × ω)) (k : κ) (w : ω) : w ∈ lane ws k ↔ (k, w) ∈ ws := by
  unfold lane
  rw [List.mem_map]
  constructor
  · rintro ⟨⟨k', w'⟩, hm, rfl⟩
    obtain ⟨hm, hk⟩ := List.mem_filter.1 hm
    rw [← of_decide_eq_true hk]
    exact hm
  · intro hm
    exact ⟨(k, w), List.mem_filter.2 ⟨hm, decide_eq_true rfl⟩, rfl⟩

theorem lane_cons (ws : List (κ × ω)) (i k : κ) (w : ω) :
    lane ((i, w) :: ws) k = if i = k then w :: lane ws k else lane ws k := by
  unfold lane
  by_cases hi : i = k
  · rw [if_pos hi, List.filter_cons_of_pos (by simpa using hi)]
    rfl
  · rw [if_neg hi, List.filter_cons_of_neg (by simpa using hi)]

/-- Writes are issued to one outbox. -/
theorem lane_issue (ws : List (κ × ω)) (i k : κ) (vs : List ω) :
    lane (ws ++ vs.map (Prod.mk i)) k = if i = k then lane ws k ++ vs else lane ws k := by
  induction ws with
  | nil =>
    induction vs with
    | nil => split <;> rfl
    | cons v vs ih =>
      rw [List.nil_append] at ih ⊢
      rw [List.map_cons, lane_cons, ih]
      split <;> rfl
  | cons w ws ih =>
    obtain ⟨j, w⟩ := w
    rw [List.cons_append, lane_cons, lane_cons, ih]
    split <;> split <;> rfl

theorem lane_dropOldest (ws : List (κ × ω)) (i k : κ) :
    lane (dropOldest ws i) k = if i = k then (lane ws k).tail else lane ws k := by
  induction ws with
  | nil => split <;> rfl
  | cons w ws ih =>
    obtain ⟨j, w⟩ := w
    unfold dropOldest at ih ⊢
    by_cases hj : j = i
    · rw [List.eraseP_cons_of_pos (by simpa using hj), lane_cons, hj]
      split <;> rfl
    · rw [List.eraseP_cons_of_neg (by simpa using hj), lane_cons, lane_cons, ih]
      by_cases hi : i = k
      · rw [if_pos hi, if_pos hi, if_neg (fun h => hj (h.trans hi.symm)),
          if_neg (fun h => hj (h.trans hi.symm))]
      · rw [if_neg hi, if_neg hi]

end Lanes

/-! ## Tasks in any order -/

/-- The tasks under way, once one of them is done. -/
theorem reduceOption_set (tasks : List (Option ω)) (task : Nat) (w : ω)
    (h : tasks[task]? = some (some w)) :
    tasks.reduceOption.Perm (w :: (tasks.set task none).reduceOption) := by
  induction tasks generalizing task with
  | nil => cases h
  | cons t tasks ih =>
    cases task with
    | zero =>
      rw [List.getElem?_cons_zero] at h
      cases h
      exact List.Perm.refl _
    | succ task =>
      rw [List.getElem?_cons_succ] at h
      rw [List.set_cons_succ]
      cases t with
      | none => exact ih task h
      | some v =>
        rw [List.reduceOption_cons_of_some, List.reduceOption_cons_of_some]
        exact ((ih task h).cons v).trans (List.Perm.swap w v _)

/-! ## Several clients of one store -/

/-- A store, and the writes of each client that are still under way. -/
structure Shared (σ ω ι : Type*) where
  store : σ
  outbox : ι → List ω

variable {ι : Type*} [DecidableEq ι]

/-- The oldest write of client `i` reaches the store. -/
def deliver (s : Shared σ ω ι) (i : ι) : Option (Shared σ ω ι) :=
  match s.outbox i with
  | [] => none
  | w :: ws => some ⟨apply s.store w, Function.update s.outbox i ws⟩

theorem deliver_eq_some (s s' : Shared σ ω ι) (i : ι) :
    deliver apply s i = some s' ↔ ∃ w ws, s.outbox i = w :: ws ∧
      s' = ⟨apply s.store w, Function.update s.outbox i ws⟩ := by
  unfold deliver
  cases s.outbox i with
  | nil => simp
  | cons w ws =>
    constructor
    · intro h
      exact ⟨w, ws, rfl, (Option.some.inj h).symm⟩
    · rintro ⟨w', ws', hw, rfl⟩
      cases hw
      rfl

/-- Client `i` alone, until only `post` is left of its writes. -/
theorem run_deliver_one (s : Shared σ ω ι) (i : ι) (pre post : List ω)
    (h : s.outbox i = pre ++ post) :
    Runs.run (deliver apply) s (List.replicate pre.length i) =
      some ⟨settle apply s.store pre, Function.update s.outbox i post⟩ := by
  induction pre generalizing s with
  | nil =>
    rw [List.nil_append] at h
    rw [← h, Function.update_eq_self]
    rfl
  | cons w pre ih =>
    rw [List.length_cons, List.replicate_succ, Runs.run_cons_eq_some]
    refine ⟨⟨apply s.store w, Function.update s.outbox i (pre ++ post)⟩, ?_, ?_⟩
    · exact (deliver_eq_some apply s _ i).2 ⟨w, pre ++ post, h, rfl⟩
    · rw [ih _ (Function.update_self _ _ _), Function.update_idem]
      rfl

end Outbox
