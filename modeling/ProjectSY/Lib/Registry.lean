import ProjectSY.Lib.Outbox

/-!
# Names that users claim and release

A registry maps a name to the user who holds it.  A claim is not checked: it takes
the name from whoever holds it; nor is a release.

One user, who keeps a pointer to the name it holds:

    PointsAt h u p     `u` holds exactly the name `p` points at
    pointsAt_request   after releasing `last` and claiming `new` the pointer `new`
                       is right exactly when the old name was released or claimed

Many users, whose moves reach the registry in any order that keeps each one's own:

    Disturbs h u m     the move `m` of `u` takes a name from another user
    Apart              no name is claimed by one client and touched by another
    undisturbed_iff_apart   no order disturbs anybody exactly when they are apart
-/

namespace Registry

variable {κ υ : Type*} [DecidableEq κ]

/-- The user who holds a name. -/
abbrev Holders (κ υ : Type*) := κ → Option υ

inductive Move (κ : Type*) where
  | claim (k : κ)
  | release (k : κ)
  | idle

/-- The name a move touches. -/
def Move.name : Move κ → Option κ
  | .claim k => some k
  | .release k => some k
  | .idle => none

def Move.apply (h : Holders κ υ) (u : υ) : Move κ → Holders κ υ
  | .claim k => Function.update h k (some u)
  | .release k => Function.update h k none
  | .idle => h

theorem Move.apply_claim (h : Holders κ υ) (u : υ) (k k' : κ) :
    (Move.claim k).apply h u k' = if k' = k then some u else h k' :=
  Function.update_apply h k (some u) k'

theorem Move.apply_release (h : Holders κ υ) (u : υ) (k k' : κ) :
    (Move.release k).apply h u k' = if k' = k then none else h k' :=
  Function.update_apply h k none k'

theorem Move.apply_of_ne (h : Holders κ υ) (u : υ) (m : Move κ) (k : κ) (hk : m.name ≠ some k) :
    m.apply h u k = h k := by
  cases m with
  | claim k' => exact Function.update_of_ne (fun e => hk (congrArg some e.symm)) _ _
  | release k' => exact Function.update_of_ne (fun e => hk (congrArg some e.symm)) _ _
  | idle => rfl

/-! ## One user and its pointer -/

/-- `u` holds the name the pointer points at, and no other. -/
def PointsAt (h : Holders κ υ) (u : υ) (pointer : Option κ) : Prop :=
  ∀ k, h k = some u ↔ pointer = some k

/-- The holders after `u` released `last`, if there is one, and claimed `new`. -/
def request (h : Holders κ υ) (u : υ) (last : Option κ) (new : κ) : Holders κ υ :=
  (Move.claim new).apply (match last with
    | some k => (Move.release k).apply h u
    | none => h) u

theorem request_apply (h : Holders κ υ) (u : υ) (last : Option κ) (new k : κ) :
    request h u last new k = if k = new then some u else if last = some k then none else h k := by
  unfold request
  rw [Move.apply_claim]
  by_cases hk : k = new
  · rw [if_pos hk, if_pos hk]
  · rw [if_neg hk, if_neg hk]
    cases last with
    | none => simp
    | some l =>
      show (Move.release l).apply h u k = _
      rw [Move.apply_release]
      simp only [Option.some.injEq, eq_comm]

/-- The new pointer is right exactly when the old name is not left behind. -/
theorem pointsAt_request (h : Holders κ υ) (u : υ) (pointer last : Option κ) (new : κ)
    (hp : PointsAt h u pointer) :
    PointsAt (request h u last new) u (some new) ↔
      pointer = none ∨ pointer = last ∨ pointer = some new := by
  constructor
  · intro hn
    cases hc : pointer with
    | none => exact Or.inl rfl
    | some k =>
      right
      by_cases hkn : k = new
      · exact Or.inr (congrArg some hkn)
      · left
        by_contra hlast
        have hheld : request h u last new k = some u := by
          rw [request_apply, if_neg hkn, if_neg (fun e => hlast e.symm)]
          exact (hp k).2 hc
        exact hkn (Option.some.inj ((hn k).1 hheld)).symm
  · intro hor k
    rw [request_apply]
    by_cases hkn : k = new
    · simp [hkn]
    · rw [if_neg hkn]
      have hne : ¬ some new = some k := fun e => hkn (Option.some.inj e).symm
      refine ⟨fun hheld => absurd hheld ?_, fun e => absurd e hne⟩
      split
      · exact fun e => by cases e
      · next hlast =>
        intro hold
        have hpk := (hp k).1 hold
        rcases hor with h1 | h2 | h3
        · rw [h1] at hpk; cases hpk
        · exact hlast (h2.symm.trans hpk)
        · exact hne (h3.symm.trans hpk)

omit [DecidableEq κ] in
/-- Dropping the pointer is right exactly when nothing was held. -/
theorem pointsAt_none (h : Holders κ υ) (u : υ) (pointer : Option κ) (hp : PointsAt h u pointer) :
    PointsAt h u none ↔ pointer = none := by
  constructor
  · intro hn
    cases hc : pointer with
    | none => rfl
    | some k => cases (hn k).1 ((hp k).2 hc)
  · rintro rfl
    exact hp

/-! ## Many users -/

/-- The move takes a name from another user. -/
def Disturbs (h : Holders κ υ) (u : υ) (m : Move κ) : Prop :=
  ∃ k v, m.name = some k ∧ h k = some v ∧ v ≠ u

/-- Somebody else keeps the name unless the move disturbs them. -/
theorem kept_of_not_disturbs (h : Holders κ υ) (u v : υ) (m : Move κ) (k : κ) (hv : h k = some v)
    (hne : v ≠ u) (hd : ¬ Disturbs h u m) : m.apply h u k = some v := by
  rw [Move.apply_of_ne h u m k fun hk => hd ⟨k, v, hk, hv, hne⟩]
  exact hv

section Implementation

/-! A store implements the registry: `holders` reads it off a store, `move` says
what a write of client `i` means. -/

variable {σ ω ι : Type*} [DecidableEq ι] (apply : σ → ω → σ) (holders : σ → Holders κ υ)
  (user : ι → υ) (move : ω → Move κ)

/-- The client's writes do to the holders what their moves say. -/
def Implements (i : ι) (ws : List ω) : Prop :=
  ∀ w ∈ ws, ∀ s, holders (apply s w) = (move w).apply (holders s) (user i)

/-- The next write of client `i` touches the name. -/
def Touching (s : Outbox.Shared σ ω ι) (i : ι) (k : κ) : Prop :=
  ∃ w ws, s.outbox i = w :: ws ∧ (move w).name = some k

/-- The next write of client `i` takes a name from another user. -/
def Disturbed (s : Outbox.Shared σ ω ι) (i : ι) : Prop :=
  ∃ w ws, s.outbox i = w :: ws ∧ Disturbs (holders s.store) (user i) (move w)

/-- No client touches a name that another one claims, or that another user holds
at the start. -/
structure Apart (s : Outbox.Shared σ ω ι) : Prop where
  claimed : ∀ i j, i ≠ j → ∀ w ∈ s.outbox i, ∀ w' ∈ s.outbox j, ∀ k,
    (move w).name = some k → move w' ≠ .claim k
  held : ∀ i, ∀ w ∈ s.outbox i, ∀ k v, (move w).name = some k → holders s.store k = some v →
    v = user i

theorem apart_step (s s' : Outbox.Shared σ ω ι) (i : ι)
    (himp : ∀ i, Implements apply holders user move i (s.outbox i))
    (h : Apart holders user move s) (hs : Outbox.deliver apply s i = some s') :
    (∀ i, Implements apply holders user move i (s'.outbox i)) ∧ Apart holders user move s' ∧
      ¬ Disturbed holders user move s i := by
  obtain ⟨w, ws, hw, rfl⟩ := (Outbox.deliver_eq_some apply s s' i).1 hs
  have hmem : w ∈ s.outbox i := by rw [hw]; exact List.mem_cons_self
  have hsub : ∀ j, ∀ v ∈ Function.update s.outbox i ws j, v ∈ s.outbox j := by
    intro j v hv
    by_cases hj : j = i
    · subst hj
      rw [Function.update_self] at hv
      rw [hw]
      exact List.mem_cons_of_mem w hv
    · rw [Function.update_of_ne hj] at hv
      exact hv
  refine ⟨fun j v hv => himp j v (hsub j v hv), ⟨?_, ?_⟩, ?_⟩
  · intro j l hjl v hv v' hv' k hk
    exact h.claimed j l hjl v (hsub j v hv) v' (hsub l v' hv') k hk
  · intro j v hv k u hk hu
    have hvj := hsub j v hv
    rw [show holders (apply s.store w) = _ from himp i w hmem s.store] at hu
    by_cases hname : (move w).name = some k
    · cases hm : move w with
      | claim k' =>
        rw [hm] at hname hu
        cases hname
        -- a name client `i` claims is touched by nobody else
        have hij : i = j := by
          by_contra hne
          exact h.claimed j i (fun e => hne e.symm) v hvj w hmem k hk hm
        subst hij
        rw [Move.apply_claim, if_pos rfl] at hu
        exact (Option.some.inj hu).symm
      | release k' =>
        rw [hm] at hname hu
        cases hname
        rw [Move.apply_release, if_pos rfl] at hu
        cases hu
      | idle => rw [hm] at hname; cases hname
    · rw [Move.apply_of_ne _ _ _ _ hname] at hu
      exact h.held j v hvj k u hk hu
  · rintro ⟨v, vs, hv, k, u, hk, hu, hne⟩
    rw [hw] at hv
    cases hv
    exact hne (h.held i w hmem k u hk hu)

omit [DecidableEq ι] in
/-- A name nobody of these writes touches keeps its holder. -/
theorem holders_settle (i : ι) (s : σ) (ws : List ω) (k : κ)
    (himp : Implements apply holders user move i ws) (hk : ∀ w ∈ ws, (move w).name ≠ some k) :
    holders (Outbox.settle apply s ws) k = holders s k := by
  refine Outbox.settle_invariant apply (fun t => holders t k = holders s k) s ws ?_ rfl
  intro w hw t ht
  rw [himp w hw t, Move.apply_of_ne _ _ _ _ (hk w hw)]
  exact ht

/-- The first of the writes that touches a name. -/
theorem first_touch (ws : List ω) (w : ω) (k : κ) (hw : w ∈ ws) (hk : (move w).name = some k) :
    ∃ pre w' post, ws = pre ++ w' :: post ∧ (move w').name = some k ∧
      ∀ v ∈ pre, (move v).name ≠ some k := by
  induction ws with
  | nil => cases hw
  | cons v ws ih =>
    by_cases hv : (move v).name = some k
    · exact ⟨[], v, ws, rfl, hv, fun u hu => by cases hu⟩
    · have hw' : w ∈ ws := by
        rcases List.mem_cons.1 hw with rfl | hw'
        · exact absurd hk hv
        · exact hw'
      obtain ⟨pre, w', post, rfl, hw1, hpre⟩ := ih hw'
      refine ⟨v :: pre, w', post, rfl, hw1, fun u hu => ?_⟩
      rcases List.mem_cons.1 hu with rfl | hu
      · exact hv
      · exact hpre u hu

/-- Client `i` may deliver its writes until its next one touches `k`, and then the
holder of `k` is still who it was. -/
theorem reach_touch (s : Outbox.Shared σ ω ι) (i : ι) (w : ω) (k : κ)
    (himp : Implements apply holders user move i (s.outbox i)) (hw : w ∈ s.outbox i)
    (hk : (move w).name = some k) :
    ∃ sched s' w' ws, Runs.run (Outbox.deliver apply) s sched = some s' ∧
      s'.outbox i = w' :: ws ∧ (move w').name = some k ∧
      holders s'.store k = holders s.store k := by
  obtain ⟨pre, w', post, hsplit, hk', hpre⟩ := first_touch move (s.outbox i) w k hw hk
  refine ⟨_, _, w', post, Outbox.run_deliver_one apply s i pre (w' :: post) hsplit,
    Function.update_self _ _ _, hk', ?_⟩
  refine holders_settle apply holders user move i s.store pre k (fun v hv => ?_) hpre
  exact himp v (by rw [hsplit]; exact List.mem_append_left _ hv)

/-- **No order of the writes disturbs anybody exactly when the clients are apart.** -/
theorem undisturbed_iff_apart (s : Outbox.Shared σ ω ι) (hinj : Function.Injective user)
    (himp : ∀ i, Implements apply holders user move i (s.outbox i)) :
    (∀ sched s', Runs.run (Outbox.deliver apply) s sched = some s' →
        ∀ i, ¬ Disturbed holders user move s' i) ↔
      Apart holders user move s := by
  constructor
  · intro h
    have hfirst : ∀ i, ∀ w ∈ s.outbox i, ∀ k v, (move w).name = some k →
        ∀ sched s1, Runs.run (Outbox.deliver apply) s sched = some s1 →
        s1.outbox i = s.outbox i → holders s1.store k = some v → v = user i := by
      intro i w hw k v hk sched s1 hrun hout hv
      obtain ⟨sched', s2, w', ws, hrun', hout', hk', hh⟩ :=
        reach_touch apply holders user move s1 i w k (by rw [hout]; exact himp i)
          (by rw [hout]; exact hw) hk
      by_contra hne
      refine h (sched ++ sched') s2 ((Runs.run_append_eq_some _ s s2 sched sched').2
        ⟨s1, hrun, hrun'⟩) i ⟨w', ws, hout', k, v, hk', ?_, hne⟩
      rw [hh]
      exact hv
    refine ⟨fun i j hij w hw w' hw' k hk hclaim => ?_, fun i w hw k v hk hv => ?_⟩
    · -- let `j` claim the name, and then `i` touch it
      obtain ⟨pre, post, hsplit⟩ := List.append_of_mem hw'
      have hrun := Outbox.run_deliver_one apply s j (pre ++ [w']) post (by rw [hsplit]; simp)
      have hheld : holders (Outbox.settle apply s.store (pre ++ [w'])) k = some (user j) := by
        rw [Outbox.settle_append]
        show holders (apply _ w') k = _
        rw [himp j w' hw', hclaim, Move.apply_claim, if_pos rfl]
      have huser := hfirst i w hw k (user j) hk _ _ hrun (Function.update_of_ne hij _ _) hheld
      exact hij (hinj huser).symm
    · exact hfirst i w hw k v hk [] s rfl rfl hv
  · intro h sched s' hrun i
    have hinv := Runs.run_invariant (Outbox.deliver apply)
      (fun s => (∀ i, Implements apply holders user move i (s.outbox i)) ∧
        Apart holders user move s)
      (fun s i s' hI hs => ⟨(apart_step apply holders user move s s' i hI.1 hI.2 hs).1,
        (apart_step apply holders user move s s' i hI.1 hI.2 hs).2.1⟩)
      s s' sched ⟨himp, h⟩ hrun
    rintro ⟨w, ws, hw, hd⟩
    have hs : Outbox.deliver apply s' i = some _ :=
      (Outbox.deliver_eq_some apply s' _ i).2 ⟨w, ws, hw, rfl⟩
    exact (apart_step apply holders user move s' _ i hinv.1 hinv.2 hs).2.2 ⟨w, ws, hw, hd⟩

/-- While the clients are apart, a user keeps a name until it touches it itself. -/
theorem kept_run (s s' : Outbox.Shared σ ω ι) (sched : List ι) (k : κ) (v : υ)
    (himp : ∀ i, Implements apply holders user move i (s.outbox i))
    (h : Apart holders user move s) (hrun : Runs.run (Outbox.deliver apply) s sched = some s')
    (hown : Runs.Meets (Outbox.deliver apply) (fun s i => user i = v → ¬ Touching move s i k)
      s sched)
    (hv : holders s.store k = some v) : holders s'.store k = some v := by
  refine (Runs.run_of_meets (Outbox.deliver apply)
    (fun s => (∀ i, Implements apply holders user move i (s.outbox i)) ∧
      Apart holders user move s ∧ holders s.store k = some v) _ ?_ s s' sched ⟨himp, h, hv⟩ hown
    hrun).2.2
  rintro t i t' ⟨himp, h, hv⟩ hother hs
  obtain ⟨himp', h', hnot⟩ := apart_step apply holders user move t t' i himp h hs
  refine ⟨himp', h', ?_⟩
  obtain ⟨w, ws, hw, rfl⟩ := (Outbox.deliver_eq_some apply t t' i).1 hs
  rw [show holders (apply t.store w) = _ from
    himp i w (by rw [hw]; exact List.mem_cons_self) t.store]
  by_cases hi : user i = v
  · rw [Move.apply_of_ne _ _ _ _ fun hk => hother hi ⟨w, ws, hw, hk⟩]
    exact hv
  · exact kept_of_not_disturbs _ _ v _ k hv (fun e => hi e.symm) fun hd => hnot ⟨w, ws, hw, hd⟩

end Implementation

end Registry
