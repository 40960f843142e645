import ProjectSY.Lib.Outbox

/-!
# Writes that are sent again

A client sends its writes in order, and after a broken connection it sends again
whatever was not acknowledged.  So the store may see a write twice, but always
with the writes behind it again.

    Overwrites view i f    `f` sets cell `i` of the state, or does not touch it
    Absorbed apply w       `w` has no effect before a list it occurs in
    Resent apply s0 s h a p m
        the writes `h` were issued, `a` of them are acknowledged, `p` were sent on this
        connection or are acknowledged, `m` were ever sent, and the store went from `s0`
        to `s`

If writes overwrite every cell they are absorbed (`absorbed_of_overwrites`), and
then the store, with the writes that are not acknowledged on top, is always what
it would be had every write been applied once (`Resent.settle_rest`).
-/

namespace Resend

open Outbox

variable {σ ω ι α : Type*}

/-! ## Cells -/

section Cells

variable (view : σ → ι → α)

/-- `f` gives cell `i` a value of its own, or leaves it. -/
def Overwrites (i : ι) (f : σ → σ) : Prop :=
  (∃ v, ∀ s, view (f s) i = v) ∨ ∀ s, view (f s) i = view s i

theorem overwrites_id (i : ι) : Overwrites view i id := Or.inr fun _ => rfl

theorem Overwrites.comp {i : ι} {f g : σ → σ} (hg : Overwrites view i g)
    (hf : Overwrites view i f) : Overwrites view i (g ∘ f) := by
  rcases hg with ⟨v, hv⟩ | hg
  · exact Or.inl ⟨v, fun s => hv (f s)⟩
  · rcases hf with ⟨v, hv⟩ | hf
    · exact Or.inl ⟨v, fun s => (hg (f s)).trans (hv s)⟩
    · exact Or.inr fun s => (hg (f s)).trans (hf s)

/-- Writes that overwrite a cell overwrite it together. -/
theorem overwrites_foldl {β : Type*} {i : ι} (f : σ → β → σ) (ws : List β)
    (h : ∀ w ∈ ws, Overwrites view i (f · w)) :
    Overwrites view i fun s => ws.foldl f s := by
  induction ws with
  | nil => exact overwrites_id view i
  | cons w ws ih =>
    exact (ih fun w' hw' => h w' (List.mem_cons_of_mem w hw')).comp view (h w List.mem_cons_self)

variable (apply : σ → ω → σ)

theorem view_settle_congr {i : ι} {ws : List ω} (h : ∀ w ∈ ws, Overwrites view i (apply · w))
    {s t : σ} (hst : view s i = view t i) :
    view (settle apply s ws) i = view (settle apply t ws) i := by
  rcases overwrites_foldl view apply ws h with ⟨v, hv⟩ | hid
  · exact (hv s).trans (hv t).symm
  · exact (hid s).trans (hst.trans (hid t).symm)

/-- What a cell was before does not matter when one of the writes sets it. -/
theorem view_settle_set {i : ι} {ws : List ω} (h : ∀ w ∈ ws, Overwrites view i (apply · w))
    {w : ω} (hw : w ∈ ws) {v : α} (hv : ∀ s, view (apply s w) i = v) (s t : σ) :
    view (settle apply s ws) i = view (settle apply t ws) i := by
  obtain ⟨pre, post, rfl⟩ := List.append_of_mem hw
  rw [settle_append, settle_append]
  have hpost : ∀ w' ∈ post, Overwrites view i (apply · w') := fun w' hw' =>
    h w' (List.mem_append_right pre (List.mem_cons_of_mem w hw'))
  have hset : view (apply (settle apply s pre) w) i = view (apply (settle apply t pre) w) i := by
    rw [hv, hv]
  exact view_settle_congr view apply hpost hset

end Cells

variable (apply : σ → ω → σ)

/-- Applying `w` before writes that it is one of changes nothing. -/
def Absorbed (w : ω) (ws : List ω) : Prop :=
  w ∈ ws → ∀ s, settle apply (apply s w) ws = settle apply s ws

theorem absorbed_of_overwrites (view : σ → ι → α)
    (hext : ∀ s t : σ, (∀ i, view s i = view t i) → s = t) {w : ω} {ws : List ω}
    (h : ∀ w ∈ ws, ∀ i, Overwrites view i (apply · w)) : Absorbed apply w ws := by
  intro hw s
  refine hext _ _ fun i => ?_
  rcases h w hw i with ⟨v, hv⟩ | hid
  · exact view_settle_set view apply (fun w' hw' => h w' hw' i) hw hv _ _
  · exact view_settle_congr view apply (fun w' hw' => h w' hw' i) (hid s)

/-! ## The connection -/

/-- After any of the writes from the acknowledged ones to those of this connection, the writes
behind it, up to the last one that ever arrived, lead to the same store. -/
structure Resent (s0 s : σ) (h : List ω) (a p m : Nat) : Prop where
  acked : a ≤ p
  sent : p ≤ m
  issued : m ≤ h.length
  again : ∀ j, a ≤ j → j ≤ p → settle apply s ((h.take m).drop j) = settle apply s0 (h.take m)

theorem resent_start (s0 : σ) : Resent apply s0 s0 [] 0 0 0 :=
  ⟨le_refl 0, le_refl 0, le_refl 0, fun j _ hj => by
    rw [Nat.le_zero.1 hj]
    rfl⟩

section Resent

variable {apply} {s0 s : σ} {h : List ω} {a p m : Nat} (hr : Resent apply s0 s h a p m)

include hr

theorem Resent.issue (w : ω) : Resent apply s0 s (h ++ [w]) a p m := by
  have htake : (h ++ [w]).take m = h.take m := List.take_append_of_le_length hr.issued
  have hlen := hr.issued
  refine ⟨hr.acked, hr.sent, ?_, ?_⟩
  · rw [List.length_append]
    omega
  · rw [htake]
    exact hr.again

/-- A broken connection, and acknowledgements that arrive. -/
theorem Resent.narrow {a' p' : Nat} (ha : a ≤ a') (hap : a' ≤ p') (hp : p' ≤ p) :
    Resent apply s0 s h a' p' m :=
  ⟨hap, hp.trans hr.sent, hr.issued, fun j hj hj' =>
    hr.again j (ha.trans hj) (hj'.trans hp)⟩

/-- The next write of the connection arrives; it may have arrived before. -/
theorem Resent.deliver {w : ω} (hw : h[p]? = some w)
    (habs : ∀ ws, ws ⊆ h → Absorbed apply w ws) :
    ∃ m', Resent apply s0 (apply s w) h a (p + 1) m' := by
  obtain ⟨hlt, hget⟩ := List.getElem?_eq_some_iff.1 hw
  have hap := hr.acked
  rcases Nat.lt_or_ge p m with hpm | hpm
  · -- it has arrived before
    have hdrop : (h.take m).drop p = w :: (h.take m).drop (p + 1) := by
      rw [List.drop_eq_getElem_cons (by rw [List.length_take]; omega), List.getElem_take, hget]
    refine ⟨m, by omega, hpm, hr.issued, fun j hj hj' => ?_⟩
    rcases Nat.lt_or_ge p j with hlt' | hle
    · have hjp : j = p + 1 := by omega
      rw [hjp, ← hr.again p hap (le_refl p), hdrop]
      rfl
    · have hmem : w ∈ ((h.take m).drop j).drop (p - j) := by
        rw [List.drop_drop, Nat.add_sub_cancel' hle, hdrop]
        exact List.mem_cons_self
      rw [habs _ (fun v hv => List.mem_of_mem_take (List.mem_of_mem_drop hv))
        (List.mem_of_mem_drop hmem), hr.again j hj hle]
  · -- it arrives for the first time
    have hmp : m = p := le_antisymm hpm hr.sent
    subst hmp
    have htake : h.take (m + 1) = h.take m ++ [w] := by
      rw [List.take_add_one, hw]
      rfl
    have hlen : (h.take m).length = m := List.length_take_of_le hlt.le
    refine ⟨m + 1, by omega, le_refl _, hlt, fun j hj hj' => ?_⟩
    rw [htake, settle_append]
    rcases Nat.lt_or_ge m j with hlt' | hle
    · have hjm : j = m + 1 := by omega
      have hs := hr.again m hap (le_refl m)
      rw [List.drop_of_length_le (by rw [hlen])] at hs
      rw [hjm, List.drop_of_length_le (by rw [List.length_append, hlen]; rfl), ← hs]
      rfl
    · have hdrop : (h.take m ++ [w]).drop j = (h.take m).drop j ++ [w] :=
        List.drop_append_of_le_length (by rw [hlen]; exact hle)
      have hsub : (h.take m).drop j ++ [w] ⊆ h := by
        intro v hv
        rcases List.mem_append.1 hv with hv | hv
        · exact List.mem_of_mem_take (List.mem_of_mem_drop hv)
        · rw [List.mem_singleton.1 hv, ← hget]
          exact List.getElem_mem hlt
      rw [hdrop, habs _ hsub (List.mem_append_right _ List.mem_cons_self), settle_append,
        hr.again j hj hle]

/-- The store, with the writes that are not acknowledged on top, is what it would be had every
write been applied once. -/
theorem Resent.settle_rest : settle apply s (h.drop a) = settle apply s0 h := by
  have hsplit : h.drop a = (h.take m).drop a ++ h.drop m := by
    have ham : a ≤ (h.take m).length := by
      rw [List.length_take]
      have := hr.acked
      have := hr.sent
      have := hr.issued
      omega
    rw [← List.drop_append_of_le_length ham, List.take_append_drop]
  rw [hsplit, settle_append, hr.again a (le_refl a) hr.acked, ← settle_append,
    List.take_append_drop]

end Resent

end Resend
