import Mathlib.Data.List.Infix

/-!
# Runs of a guarded step function

`step s e = none` when the event `e` is not enabled in `s`.  A run is a list of
events, each enabled where it is taken.

    Always step P s es    `P` holds in every state the run `es` from `s` passes through
    Meets step C s es     every event of the run meets `C` in the state it is taken in

Rules: an invariant carried by one step is carried by a run (`run_invariant`);
a condition on the steps that is enough for one step is enough for a run
(`run_of_meets`), and one that is exact for one step is exact for a run
(`always_iff_meets`).
-/

namespace Runs

variable {σ ε : Type*} (step : σ → ε → Option σ)

/-- The state after the events; `none` when one of them is not enabled. -/
def run : σ → List ε → Option σ
  | s, [] => some s
  | s, e :: es => (step s e).bind fun s' => run s' es

/-- `P` in every state passed through, the first and the last included. -/
def Always (P : σ → Prop) (s : σ) (es : List ε) : Prop :=
  ∀ pre, pre <+: es → ∀ s', run step s pre = some s' → P s'

/-- Every event meets `C` in the state it is taken in. -/
def Meets (C : σ → ε → Prop) (s : σ) (es : List ε) : Prop :=
  ∀ pre e, pre ++ [e] <+: es → ∀ s', run step s pre = some s' → C s' e

theorem run_nil (s : σ) : run step s [] = some s := rfl

theorem run_cons (s : σ) (e : ε) (es : List ε) :
    run step s (e :: es) = (step s e).bind fun s' => run step s' es := rfl

theorem run_cons_eq_some (s s' : σ) (e : ε) (es : List ε) :
    run step s (e :: es) = some s' ↔ ∃ m, step s e = some m ∧ run step m es = some s' := by
  rw [run_cons, Option.bind_eq_some_iff]

theorem run_append (s : σ) (es fs : List ε) :
    run step s (es ++ fs) = (run step s es).bind fun s' => run step s' fs := by
  induction es generalizing s with
  | nil => rfl
  | cons e es ih =>
    rw [List.cons_append, run_cons, run_cons]
    cases step s e with
    | none => rfl
    | some m => exact ih m

theorem run_append_eq_some (s s' : σ) (es fs : List ε) :
    run step s (es ++ fs) = some s' ↔
      ∃ m, run step s es = some m ∧ run step m fs = some s' := by
  rw [run_append, Option.bind_eq_some_iff]

theorem run_snoc_eq_some (s s' : σ) (es : List ε) (e : ε) :
    run step s (es ++ [e]) = some s' ↔ ∃ m, run step s es = some m ∧ step m e = some s' := by
  rw [run_append_eq_some]
  simp [run]

theorem run_shorter (s s' : σ) (pre es : List ε) (h : pre <+: es)
    (hr : run step s es = some s') : ∃ m, run step s pre = some m := by
  obtain ⟨post, rfl⟩ := h
  obtain ⟨m, hm, -⟩ := (run_append_eq_some step s s' pre post).1 hr
  exact ⟨m, hm⟩

/-! ## Invariants -/

/-- What one step preserves, a run preserves. -/
theorem run_invariant (I : σ → Prop) (hstep : ∀ s e s', I s → step s e = some s' → I s')
    (s s' : σ) (es : List ε) (h0 : I s) (hr : run step s es = some s') : I s' := by
  induction es generalizing s with
  | nil => rw [run_nil] at hr; cases hr; exact h0
  | cons e es ih =>
    obtain ⟨m, hm, hr⟩ := (run_cons_eq_some step s s' e es).1 hr
    exact ih m (hstep s e m h0 hm) hr

/-- A state that some run from a first state reaches. -/
def Reachable (init : σ → Prop) (s : σ) : Prop :=
  ∃ s0 es, init s0 ∧ run step s0 es = some s

theorem Reachable.invariant {step : σ → ε → Option σ} {init : σ → Prop} (I : σ → Prop)
    (h0 : ∀ s, init s → I s) (hstep : ∀ s e s', I s → step s e = some s' → I s')
    {s : σ} (h : Reachable step init s) : I s := by
  obtain ⟨s0, es, hi, hr⟩ := h
  exact run_invariant step I hstep s0 s es (h0 s0 hi) hr

/-! ## Conditions on the steps -/

theorem meets_shorter (C : σ → ε → Prop) (s : σ) (pre es : List ε) (h : pre <+: es)
    (hm : Meets step C s es) : Meets step C s pre :=
  fun p e hp s' hs => hm p e (hp.trans h) s' hs

theorem meets_cons (C : σ → ε → Prop) (s m : σ) (e : ε) (es : List ε) (he : step s e = some m) :
    Meets step C s (e :: es) ↔ C s e ∧ Meets step C m es := by
  constructor
  · intro h
    refine ⟨h [] e ⟨es, rfl⟩ s rfl, fun p f hp s' hs => ?_⟩
    refine h (e :: p) f ?_ s' ((run_cons_eq_some step s s' e p).2 ⟨m, he, hs⟩)
    obtain ⟨post, rfl⟩ := hp
    exact ⟨post, rfl⟩
  · rintro ⟨hc, h⟩ p f hp s' hs
    cases p with
    | nil =>
      rw [run_nil] at hs
      cases hs
      obtain ⟨post, hpost⟩ := hp
      have : f = e := by simpa using congrArg List.head? hpost
      rw [this]; exact hc
    | cons e' p =>
      obtain ⟨m', hm', hs⟩ := (run_cons_eq_some step s s' e' p).1 hs
      obtain ⟨post, hpost⟩ := hp
      simp only [List.cons_append, List.cons.injEq] at hpost
      obtain ⟨rfl, rfl⟩ := hpost
      rw [he] at hm'
      cases hm'
      exact h p f ⟨post, rfl⟩ s' hs

/-- `Meets`, computed along the run. -/
def meetsB (C : σ → ε → Prop) [∀ s e, Decidable (C s e)] : σ → List ε → Bool
  | _, [] => true
  | s, e :: es => decide (C s e) && (match step s e with
    | some s' => meetsB C s' es
    | none => true)

theorem meets_of_meetsB (C : σ → ε → Prop) [∀ s e, Decidable (C s e)] (s : σ) (es : List ε)
    (h : meetsB step C s es = true) : Meets step C s es := by
  induction es generalizing s with
  | nil =>
    intro pre e hp
    obtain ⟨post, hpost⟩ := hp
    simp at hpost
  | cons e es ih =>
    unfold meetsB at h
    rw [Bool.and_eq_true, decide_eq_true_eq] at h
    obtain ⟨hc, hrest⟩ := h
    cases he : step s e with
    | some m =>
      rw [he] at hrest
      exact (meets_cons step C s m e es he).2 ⟨hc, ih m hrest⟩
    | none =>
      intro pre f hp s' hs
      cases pre with
      | nil =>
        rw [run_nil] at hs
        cases hs
        obtain ⟨post, hpost⟩ := hp
        have : f = e := by simpa using congrArg List.head? hpost
        rw [this]; exact hc
      | cons e' pre =>
        obtain ⟨m, hm, -⟩ := (run_cons_eq_some step s s' e' pre).1 hs
        obtain ⟨post, hpost⟩ := hp
        simp only [List.cons_append, List.cons.injEq] at hpost
        rw [hpost.1, he] at hm
        cases hm

/-- A run from a computed start, evaluated: each step meets `C`, and the run ends in `P`. -/
theorem exists_of_checked {α : Type*} (C : σ → ε → Prop) [∀ s e, Decidable (C s e)]
    (P : σ → Prop) [DecidablePred P] (init : Option α) (start : α → σ) (es : List ε)
    (h : (init.any fun a => meetsB step C (start a) es &&
      (run step (start a) es).any fun s => decide (P s)) = true) :
    ∃ a s, init = some a ∧ run step (start a) es = some s ∧ Meets step C (start a) es ∧ P s := by
  obtain ⟨a, ha, h⟩ := (Option.any_eq_true _ _).1 h
  rw [Bool.and_eq_true] at h
  obtain ⟨s, hs, hP⟩ := (Option.any_eq_true _ _).1 h.2
  exact ⟨a, s, ha, hs, meets_of_meetsB step C (start a) es h.1, of_decide_eq_true hP⟩

/-- An invariant that a step keeps when it meets `C` is kept by every run of such steps. -/
theorem run_of_meets (I : σ → Prop) (C : σ → ε → Prop)
    (hstep : ∀ s e s', I s → C s e → step s e = some s' → I s')
    (s s' : σ) (es : List ε) (h0 : I s) (hm : Meets step C s es)
    (hr : run step s es = some s') : I s' := by
  induction es generalizing s with
  | nil => rw [run_nil] at hr; cases hr; exact h0
  | cons e es ih =>
    obtain ⟨m, he, hr⟩ := (run_cons_eq_some step s s' e es).1 hr
    obtain ⟨hc, hm⟩ := (meets_cons step C s m e es he).1 hm
    exact ih m (hstep s e m h0 hc he) hm hr

/-- A condition on the events alone is met when every event of the run meets it. -/
theorem meets_of_forall (A : ε → Prop) (s : σ) (es : List ε) (h : ∀ e ∈ es, A e) :
    Meets step (fun _ e => A e) s es := by
  intro pre e hp s' _
  exact h e (hp.subset (List.mem_append_right pre (List.mem_singleton_self e)))

theorem meets_and (C D : σ → ε → Prop) (s : σ) (es : List ε) (hC : Meets step C s es)
    (hD : Meets step D s es) : Meets step (fun s e => C s e ∧ D s e) s es :=
  fun pre e hp s' hs => ⟨hC pre e hp s' hs, hD pre e hp s' hs⟩

/-- Conditions that agree in the states with the invariant are met by the same runs. -/
theorem meets_congr (I : σ → Prop) (C D : σ → ε → Prop)
    (hI : ∀ s e s', I s → step s e = some s' → I s') (hC : ∀ s e, I s → (C s e ↔ D s e))
    (s : σ) (es : List ε) (h0 : I s) : Meets step C s es ↔ Meets step D s es := by
  have hinv : ∀ pre s', run step s pre = some s' → I s' :=
    fun pre s' hr => run_invariant step I hI s s' pre h0 hr
  constructor
  · intro h pre e hp s' hr
    exact (hC s' e (hinv pre s' hr)).1 (h pre e hp s' hr)
  · intro h pre e hp s' hr
    exact (hC s' e (hinv pre s' hr)).2 (h pre e hp s' hr)

/-- An invariant that a step keeps when it meets `C` holds all along a run of such
steps. -/
theorem always_of_meets (I : σ → Prop) (C : σ → ε → Prop)
    (hstep : ∀ s e s', I s → C s e → step s e = some s' → I s') (s : σ) (es : List ε) (h0 : I s)
    (hm : Meets step C s es) : Always step I s es :=
  fun pre hp s' hr => run_of_meets step I C hstep s s' pre h0 (meets_shorter step C s pre es hp hm) hr

/-- If `C` is exactly when a step keeps `P` (in states with the invariant `I`,
for events with `A`), then `P` holds all along a run of such events exactly when
every step meets `C`. -/
theorem always_iff_meets (I P : σ → Prop) (A : ε → Prop) (C : σ → ε → Prop)
    (hI : ∀ s e s', I s → A e → step s e = some s' → I s')
    (hC : ∀ s e s', I s → P s → A e → step s e = some s' → (P s' ↔ C s e))
    (s s' : σ) (es : List ε) (h0 : I s) (hP : P s) (hA : ∀ e ∈ es, A e)
    (hr : run step s es = some s') :
    Always step P s es ↔ Meets step C s es := by
  have hAm := meets_of_forall step A s es hA
  constructor
  · intro ha p e hp m hm
    obtain ⟨m', hm'⟩ := run_shorter step s s' (p ++ [e]) es hp hr
    obtain ⟨m1, h1, he⟩ := (run_snoc_eq_some step s m' p e).1 hm'
    rw [hm] at h1
    cases h1
    have hpre : p <+: es := (List.prefix_append p [e]).trans hp
    have hPm : P m := ha p hpre m hm
    have hIm : I m := run_of_meets step I (fun _ e => A e) hI s m p h0
      (meets_shorter step _ s p es hpre hAm) hm
    exact (hC m e m' hIm hPm (hAm p e hp m hm) he).1 (ha (p ++ [e]) hp m' hm')
  · intro hm p hp m hpm
    have hboth := meets_shorter step _ s p es hp (meets_and step _ _ s es hAm hm)
    exact (run_of_meets step (fun s => I s ∧ P s) (fun s e => A e ∧ C s e)
      (fun s e s' h hc he => ⟨hI s e s' h.1 hc.1 he, (hC s e s' h.1 h.2 hc.1 he).2 hc.2⟩)
      s m p ⟨h0, hP⟩ hboth hpm).2

/-! ## Simulation -/

/-- If every step that meets `C` is matched by a run of another system, with events
that meet `A`, a run of such steps is matched by one. -/
theorem run_simulated {σ' ε' : Type*} (step' : σ' → ε' → Option σ') (R : σ → σ' → Prop)
    (C : σ → ε → Prop) (A : ε' → Prop)
    (hstep : ∀ s e s' t, R s t → C s e → step s e = some s' →
      ∃ fs t', (∀ f ∈ fs, A f) ∧ run step' t fs = some t' ∧ R s' t')
    (s s' : σ) (t : σ') (es : List ε) (hR : R s t) (hm : Meets step C s es)
    (hr : run step s es = some s') :
    ∃ fs t', (∀ f ∈ fs, A f) ∧ run step' t fs = some t' ∧ R s' t' := by
  induction es generalizing s t with
  | nil =>
    rw [run_nil] at hr
    cases hr
    exact ⟨[], t, List.forall_mem_nil A, rfl, hR⟩
  | cons e es ih =>
    obtain ⟨m, he, hr⟩ := (run_cons_eq_some step s s' e es).1 hr
    obtain ⟨hc, hm⟩ := (meets_cons step C s m e es he).1 hm
    obtain ⟨fs, u, hfs, hu, hRm⟩ := hstep s e m t hR hc he
    obtain ⟨gs, t', hgs, ht', hR'⟩ := ih m u hRm hm hr
    refine ⟨fs ++ gs, t', fun f hf => ?_, ?_, hR'⟩
    · rcases List.mem_append.1 hf with hf | hf
      · exact hfs f hf
      · exact hgs f hf
    · exact (run_append_eq_some step' t t' fs gs).2 ⟨u, hu, ht'⟩

/-- If another system follows every event by what it means there, and does nothing where
it means nothing, it follows every run. -/
theorem run_labelled {σ' δ : Type*} (step' : σ' → δ → Option σ') (label : ε → Option δ)
    (R : σ → σ' → Prop)
    (hstep : ∀ s e s' t, R s t → step s e = some s' →
      ∃ t', run step' t (label e).toList = some t' ∧ R s' t')
    (s s' : σ) (t : σ') (es : List ε) (hR : R s t) (hr : run step s es = some s') :
    ∃ t', run step' t (es.filterMap label) = some t' ∧ R s' t' := by
  induction es generalizing s t with
  | nil =>
    rw [run_nil] at hr
    cases hr
    exact ⟨t, rfl, hR⟩
  | cons e es ih =>
    obtain ⟨m, he, hr⟩ := (run_cons_eq_some step s s' e es).1 hr
    obtain ⟨u, hu, hRm⟩ := hstep s e m t hR he
    obtain ⟨t', ht', hR'⟩ := ih m u hRm hr
    refine ⟨t', ?_, hR'⟩
    cases hlabel : label e with
    | none =>
      rw [hlabel] at hu
      cases hu
      rw [List.filterMap_cons_none hlabel]
      exact ht'
    | some d =>
      rw [hlabel] at hu
      rw [List.filterMap_cons_some hlabel]
      exact (run_append_eq_some step' t t' [d] _).2 ⟨u, hu, ht'⟩

/-- A view of the state that follows every step follows every run. -/
theorem run_projected {σ' : Type*} (step' : σ' → ε → Option σ') (f : σ → σ')
    (hf : ∀ s e s', step s e = some s' → step' (f s) e = some (f s'))
    (s s' : σ) (es : List ε) (hr : run step s es = some s') : run step' (f s) es = some (f s') := by
  induction es generalizing s with
  | nil =>
    rw [run_nil] at hr
    cases hr
    rfl
  | cons e es ih =>
    obtain ⟨m, hm, hr⟩ := (run_cons_eq_some step s s' e es).1 hr
    exact (run_cons_eq_some step' (f s) (f s') e es).2 ⟨f m, hf s e m hm, ih m hr⟩

theorem meets_projected {σ' : Type*} (step' : σ' → ε → Option σ') (f : σ → σ')
    (hf : ∀ s e s', step s e = some s' → step' (f s) e = some (f s'))
    (C : σ' → ε → Prop) (s : σ) (es : List ε) (h : Meets step' C (f s) es) :
    Meets step (fun s e => C (f s) e) s es :=
  fun pre e hp s' hs => h pre e hp (f s') (run_projected step step' f hf s s' pre hs)

/-! ## Records kept beside the state -/

variable {γ : Type*} (after : γ → σ → ε → γ)

/-- A step with a record kept beside the state; the step does not read it. -/
def recorded (s : σ × γ) (e : ε) : Option (σ × γ) :=
  (step s.1 e).map fun s' => (s', after s.2 s.1 e)

theorem recorded_eq_some (s s' : σ × γ) (e : ε) :
    recorded step after s e = some s' ↔ step s.1 e = some s'.1 ∧ s'.2 = after s.2 s.1 e := by
  unfold recorded
  rw [Option.map_eq_some_iff]
  constructor
  · rintro ⟨m, hm, rfl⟩
    exact ⟨hm, rfl⟩
  · rintro ⟨hm, hg⟩
    exact ⟨s'.1, hm, by rw [← hg]⟩

/-- Every run is a run with a record. -/
theorem recorded_of_run (s s' : σ) (g : γ) (es : List ε) (hr : run step s es = some s') :
    ∃ g', run (recorded step after) (s, g) es = some (s', g') := by
  induction es generalizing s g with
  | nil =>
    rw [run_nil] at hr
    cases hr
    exact ⟨g, rfl⟩
  | cons e es ih =>
    obtain ⟨m, he, hr⟩ := (run_cons_eq_some step s s' e es).1 hr
    obtain ⟨g', hg'⟩ := ih m (after g s e) hr
    exact ⟨g', (run_cons_eq_some (recorded step after) _ _ e es).2
      ⟨(m, after g s e), (recorded_eq_some step after _ _ e).2 ⟨he, rfl⟩, hg'⟩⟩

theorem recorded_fst (s : σ × γ) (e : ε) (s' : σ × γ) (h : recorded step after s e = some s') :
    step s.1 e = some s'.1 := ((recorded_eq_some step after s s' e).1 h).1

/-- A run with a record is a run. -/
theorem run_of_recorded (s s' : σ × γ) (es : List ε)
    (hr : run (recorded step after) s es = some s') : run step s.1 es = some s'.1 :=
  run_projected (recorded step after) step Prod.fst (recorded_fst step after) s s' es hr

theorem meets_recorded (C : σ → ε → Prop) (s : σ) (g : γ) (es : List ε) (h : Meets step C s es) :
    Meets (recorded step after) (fun s e => C s.1 e) (s, g) es :=
  meets_projected (recorded step after) step Prod.fst (recorded_fst step after) C (s, g) es h

end Runs
