import ProjectSY.Lib.Resend

/-!
# One connection after the other

The writes of a client on their way to a store, which accepts some of them
(`ok`).  A connection carries the writes that are not settled, in order, and
settles them: each once it is answered, or the first one when the store ends the
connection over a write.  What was sent on a connection that is gone may still
arrive, until the next connection is established.

    Link                  the writes of the client, and what is on its way
    Step ok l r l'        one step of the link, in which the write `r` reaches the store
    Delivered             the store has got the accepted writes in order, some of them again

`Delivered.settle_rest`: if writes are absorbed, the store with the unsettled
writes that it accepts on top is what it would be had every accepted write been
applied once.
-/

namespace Resend

open Outbox

structure Link (ω : Type*) where
  issued : List ω
  /-- Oldest first, as are all of them. -/
  unsettled : List ω
  /-- What may still arrive of a connection that is gone. -/
  late : List ω
  /-- How many of the unsettled writes the connection has answered, when there is one. -/
  answered : Option Nat

namespace Link

variable {σ ω : Type*} (apply : σ → ω → σ) (ok : ω → Bool)

inductive Step : Link ω → Option ω → Link ω → Prop where
  | idle (l : Link ω) : Step l none l
  | issue (l : Link ω) (w : ω) :
      Step l none ⟨l.issued ++ [w], l.unsettled ++ [w], l.late, l.answered⟩
  | connect (h ws : List ω) : Step ⟨h, ws, [], none⟩ none ⟨h, ws, [], some 0⟩
  | arrive {h ws : List ω} {n : Nat} {w : ω} (hw : ws[n]? = some w) (hok : ok w = true) :
      Step ⟨h, ws, [], some n⟩ (some w) ⟨h, ws, [], some (n + 1)⟩
  | accept (h ws : List ω) (w : ω) (n : Nat) :
      Step ⟨h, w :: ws, [], some (n + 1)⟩ none ⟨h, ws, [], some n⟩
  /-- When all the answers were read, the first unsettled write is the one that was refused. -/
  | reject {h ws sent : List ω} {w : ω} {n : Nat} (hw : n = 0 → ok w = false)
      (hsent : sent <+: (w :: ws).drop n) :
      Step ⟨h, w :: ws, [], some n⟩ none ⟨h, ws, sent, none⟩
  | hangUp {h ws sent : List ω} {n : Nat} (hsent : sent <+: ws.drop n) :
      Step ⟨h, ws, [], some n⟩ none ⟨h, ws, sent, none⟩
  | arriveLate (h ws late : List ω) (w : ω) :
      Step ⟨h, ws, w :: late, none⟩ (if ok w then some w else none) ⟨h, ws, late, none⟩
  | lose (l : Link ω) : Step l none ⟨l.issued, l.unsettled, [], l.answered⟩

/-- The store once the write has reached it. -/
def reached (s : σ) : Option ω → σ
  | none => s
  | some w => apply s w

/-- `settled` are the writes that are settled, and `p` is where the connection stands among the
accepted ones, or the one before it when there is none. -/
structure Delivery (s0 s : σ) (l : Link ω) (settled : List ω) (p m : Nat) : Prop where
  split : l.issued = settled ++ l.unsettled
  resent : Resent apply s0 s (l.issued.filter ok) (settled.filter ok).length p m
  late : l.late.filter ok <+: (l.issued.filter ok).drop p
  accepted : ∀ n ∈ l.answered, n ≤ l.unsettled.length ∧ ∀ w ∈ l.unsettled.take n, ok w = true
  position : ∀ n ∈ l.answered, p = (settled.filter ok).length + n

def Delivered (s0 s : σ) (l : Link ω) : Prop := ∃ settled p m, Delivery apply ok s0 s l settled p m

theorem delivered_start (s0 : σ) : Delivered apply ok s0 s0 ⟨[], [], [], none⟩ :=
  ⟨[], 0, 0, rfl, resent_start apply s0, List.nil_prefix, by simp, by simp⟩

variable {apply ok} {s0 s : σ}

/-- Of the unsettled writes the accepted ones are the answered ones and what is accepted later. -/
theorem filter_unsettled {ws : List ω} {n : Nat} (h : ∀ w ∈ ws.take n, ok w = true) :
    ws.filter ok = ws.take n ++ (ws.drop n).filter ok := by
  conv_lhs => rw [← List.take_append_drop n ws]
  rw [List.filter_append, List.filter_eq_self.2 h]

section Delivery

variable {l : Link ω} {settled : List ω} {p m n : Nat}
  (h : Delivery apply ok s0 s l settled p m)

include h

theorem Delivery.filter_issued :
    l.issued.filter ok = settled.filter ok ++ l.unsettled.filter ok := by
  rw [h.split, List.filter_append]

theorem Delivery.position_le : p ≤ (l.issued.filter ok).length :=
  h.resent.sent.trans h.resent.issued

/-- What the connection still carries. -/
theorem Delivery.behind (hn : l.answered = some n) :
    (l.issued.filter ok).drop p = (l.unsettled.drop n).filter ok := by
  obtain ⟨hle, hacc⟩ := h.accepted n hn
  rw [h.filter_issued, h.position n hn, List.drop_length_add_append, filter_unsettled hacc,
    List.drop_left' (List.length_take_of_le hle)]

theorem Delivery.issue (w : ω) :
    Delivery apply ok s0 s ⟨l.issued ++ [w], l.unsettled ++ [w], l.late, l.answered⟩
      settled p m := by
  have hfilter : (l.issued ++ [w]).filter ok = l.issued.filter ok ++ [w].filter ok :=
    List.filter_append _ _
  refine ⟨?_, ?_, ?_, fun n hn => ?_, h.position⟩
  · rw [h.split, List.append_assoc]
  · rw [hfilter]
    cases hw : ok w with
    | true =>
      rw [List.filter_cons_of_pos hw]
      exact h.resent.issue w
    | false =>
      rw [List.filter_cons_of_neg (by simp [hw])]
      simpa using h.resent
  · rw [hfilter, List.drop_append_of_le_length h.position_le]
    exact h.late.trans (List.prefix_append _ _)
  · obtain ⟨hle, hacc⟩ := h.accepted n hn
    refine ⟨by simp only [List.length_append]; omega, ?_⟩
    rw [List.take_append_of_le_length hle]
    exact hacc

/-- A new connection begins with the first unsettled write. -/
theorem Delivery.connect :
    Delivery apply ok s0 s ⟨l.issued, l.unsettled, [], some 0⟩ settled
      (settled.filter ok).length m :=
  ⟨h.split, h.resent.narrow (le_refl _) (le_refl _) h.resent.acked, List.nil_prefix,
    by simp, by simp⟩

theorem Delivery.hangUp {sent : List ω} (hn : l.answered = some n)
    (hsent : sent <+: l.unsettled.drop n) :
    Delivery apply ok s0 s ⟨l.issued, l.unsettled, sent, none⟩ settled p m :=
  ⟨h.split, h.resent, by rw [h.behind hn]; exact hsent.filter ok, by simp, by simp⟩

/-- The next accepted write reaches the store. -/
theorem Delivery.deliver {w : ω} (hw : (l.issued.filter ok)[p]? = some w)
    (habs : ∀ ws, ws ⊆ l.issued → Absorbed apply w ws) :
    ∃ m', Resent apply s0 (apply s w) (l.issued.filter ok) (settled.filter ok).length (p + 1) m' :=
  h.resent.deliver hw fun ws hws =>
    habs ws (List.Subset.trans hws (List.filter_subset_self l.issued))

theorem Delivery.arrive {w : ω} (hn : l.answered = some n) (hw : l.unsettled[n]? = some w)
    (hok : ok w = true) (habs : ∀ ws, ws ⊆ l.issued → Absorbed apply w ws) :
    ∃ m', Delivery apply ok s0 (apply s w) ⟨l.issued, l.unsettled, [], some (n + 1)⟩
      settled (p + 1) m' := by
  obtain ⟨hlt, -⟩ := List.getElem?_eq_some_iff.1 hw
  have hnext : (l.issued.filter ok)[p]? = some w := by
    rw [← Nat.add_zero p, ← List.getElem?_drop, h.behind hn, List.drop_eq_getElem?_toList_append,
      hw, Option.toList_some, List.singleton_append, List.filter_cons_of_pos hok,
      List.getElem?_cons_zero]
  obtain ⟨m', hr⟩ := h.deliver hnext habs
  obtain ⟨-, hacc⟩ := h.accepted n hn
  refine ⟨m', h.split, hr, List.nil_prefix, fun k hk => ?_, fun k hk => ?_⟩
  · cases hk
    refine ⟨hlt, fun v hv => ?_⟩
    rw [List.take_add_one, hw] at hv
    rcases List.mem_append.1 hv with hv | hv
    · exact hacc v hv
    · rw [List.mem_singleton.1 hv]
      exact hok
  · cases hk
    rw [h.position n hn]
    rfl

theorem Delivery.arriveLate {w : ω} {rest : List ω} (hl : l.late = w :: rest) (hok : ok w = true)
    (habs : ∀ ws, ws ⊆ l.issued → Absorbed apply w ws) :
    ∃ m', Delivery apply ok s0 (apply s w) ⟨l.issued, l.unsettled, rest, none⟩
      settled (p + 1) m' := by
  obtain ⟨behind, hb⟩ := h.late
  rw [hl, List.filter_cons_of_pos hok, List.cons_append] at hb
  have hnext : (l.issued.filter ok)[p]? = some w := by
    rw [← Nat.add_zero p, ← List.getElem?_drop, ← hb, List.getElem?_cons_zero]
  obtain ⟨m', hr⟩ := h.deliver hnext habs
  refine ⟨m', h.split, hr, ?_, by simp, by simp⟩
  rw [← List.drop_drop, ← hb]
  exact List.prefix_append _ _

/-- The first unsettled write is settled: it was answered, or it is not accepted. -/
theorem Delivery.settle {w : ω} {ws sent : List ω} {answered : Option Nat}
    (hu : l.unsettled = w :: ws) (hn : l.answered = some n)
    (hw : n = 0 → ok w = false) (hsent : sent.filter ok <+: (l.issued.filter ok).drop p)
    (hanswered : ∀ k ∈ answered, n = k + 1) :
    Delivery apply ok s0 s ⟨l.issued, ws, sent, answered⟩ (settled ++ [w]) p m := by
  obtain ⟨hle, hacc⟩ := h.accepted n hn
  have hp := h.position n hn
  have hlen : ((settled ++ [w]).filter ok).length =
      (settled.filter ok).length + if ok w then 1 else 0 := by
    rw [List.filter_append, List.length_append]
    cases hk : ok w <;> simp [hk]
  have hone : (if ok w then 1 else 0) ≤ n := by
    split
    · next hk =>
      refine Nat.pos_of_ne_zero fun e => ?_
      rw [hw e] at hk
      cases hk
    · exact Nat.zero_le _
  refine ⟨?_, ?_, hsent, fun k hk => ?_, fun k hk => ?_⟩
  · rw [h.split, hu, List.append_assoc]
    rfl
  · rw [hlen]
    exact h.resent.narrow (Nat.le_add_right _ _) (by omega) (le_refl _)
  · rw [hanswered k hk, hu] at hle hacc
    rw [List.take_succ_cons] at hacc
    exact ⟨by simpa using hle, fun v hv => hacc v (List.mem_cons_of_mem w hv)⟩
  · have hk1 := hanswered k hk
    have hok : ok w = true := by
      rw [hk1, hu, List.take_succ_cons] at hacc
      exact hacc w List.mem_cons_self
    rw [hlen, if_pos hok]
    omega

end Delivery

/-- Every step keeps what was delivered in order. -/
theorem Delivered.step {l l' : Link ω} {r : Option ω} (h : Delivered apply ok s0 s l)
    (hstep : Step ok l r l') (habs : ∀ w ws, ws ⊆ l.issued → Absorbed apply w ws) :
    Delivered apply ok s0 (reached apply s r) l' := by
  obtain ⟨settled, p, m, h⟩ := h
  cases hstep with
  | idle => exact ⟨settled, p, m, h⟩
  | issue _ w => exact ⟨settled, p, m, h.issue w⟩
  | connect => exact ⟨settled, _, m, h.connect⟩
  | arrive hw hok =>
    obtain ⟨m', h'⟩ := h.arrive rfl hw hok (habs _)
    exact ⟨settled, _, m', h'⟩
  | accept ws w n =>
    exact ⟨_, p, m, h.settle rfl rfl (by simp) List.nil_prefix fun k hk => by cases hk; rfl⟩
  | reject hw hsent =>
    refine ⟨_, p, m, h.settle rfl rfl hw ?_ (by simp)⟩
    rw [h.behind rfl]
    exact hsent.filter ok
  | hangUp hsent => exact ⟨settled, p, m, h.hangUp rfl hsent⟩
  | arriveLate h0 ws late w =>
    by_cases hok : ok w = true
    · rw [if_pos hok]
      obtain ⟨m', h'⟩ := h.arriveLate rfl hok (habs _)
      exact ⟨settled, _, m', h'⟩
    · rw [if_neg hok]
      refine ⟨settled, p, m, h.split, h.resent, ?_, by simp, by simp⟩
      have hlate := h.late
      rwa [List.filter_cons_of_neg hok] at hlate
  | lose =>
    exact ⟨settled, p, m, h.split, h.resent, List.nil_prefix, h.accepted, h.position⟩

/-- What the connection has answered is accepted. -/
theorem Delivered.accepted {l : Link ω} {n : Nat} (h : Delivered apply ok s0 s l)
    (hn : l.answered = some n) : ∀ w ∈ l.unsettled.take n, ok w = true := by
  obtain ⟨settled, p, m, h⟩ := h
  exact (h.accepted n hn).2

theorem Delivered.settle_rest {l : Link ω} (h : Delivered apply ok s0 s l) :
    Outbox.settle apply s (l.unsettled.filter ok) =
      Outbox.settle apply s0 (l.issued.filter ok) := by
  obtain ⟨settled, p, m, h⟩ := h
  have hrest := h.resent.settle_rest
  rwa [h.filter_issued, List.drop_left, ← h.filter_issued] at hrest

end Link

end Resend
