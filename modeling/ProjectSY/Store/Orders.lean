import ProjectSY.Lib.Schedules
import ProjectSY.Store.Directory

/-!
# When the order of the writes does not matter

The writes of several queues reach the server one by one, each queue's own in the order
they were issued.  Queues that speak for different users share nothing but the codes:

    Touches changes c    some change gives or takes the code `c`
    Leaves changes c     the last of them gives it

All orders end with the same directory exactly when no queue touches a code that another
one leaves (`settled_agree_iff`).  Two queues may well touch the same code, as long as
each of them takes it away again; then it is gone in the end, whoever had it in between.
-/

namespace ProjectSY

namespace Directory

open Outbox (Shuffle Local)

/-- The user a change is about. -/
def Change.user : Change → Option String
  | .setProfile uid _ => some uid
  | .release _ => none
  | .register _ uid => some uid
  | .point uid _ => some uid

/-- The code a change gives or takes away. -/
def Change.code : Change → Option String
  | .release code => some code
  | .register code _ => some code
  | _ => none

/-! ## The places of a directory -/

theorem local_user (u : String) :
    Local apply (fun D : Directory => (D.profile u, D.code u))
      (fun change => change.user = some u) := by
  refine ⟨fun D change hne => ?_, fun D E change h => ?_⟩
  · have hu : ∀ uid, change.user = some uid → u ≠ uid := by
      rintro uid huid rfl
      exact hne huid
    cases change with
    | setProfile uid p =>
      show (Function.update D.profile uid (some p) u, Function.update D.code uid none u) = _
      rw [Function.update_of_ne (hu uid rfl), Function.update_of_ne (hu uid rfl)]
    | release code => rfl
    | register code uid => rfl
    | point uid code =>
      show (D.profile u, Function.update D.code uid (some code) u) = _
      rw [Function.update_of_ne (hu uid rfl)]
  · simp only [Prod.mk.injEq] at h ⊢
    obtain ⟨hprofile, hcode⟩ := h
    cases change with
    | setProfile uid p =>
      constructor
      · show Function.update D.profile uid (some p) u = Function.update E.profile uid (some p) u
        rw [Function.update_apply, Function.update_apply, hprofile]
      · show Function.update D.code uid none u = Function.update E.code uid none u
        rw [Function.update_apply, Function.update_apply, hcode]
    | release code => exact ⟨hprofile, hcode⟩
    | register code uid => exact ⟨hprofile, hcode⟩
    | point uid code =>
      refine ⟨hprofile, ?_⟩
      show Function.update D.code uid (some code) u = Function.update E.code uid (some code) u
      rw [Function.update_apply, Function.update_apply, hcode]

/-- No change is about a picture. -/
theorem picture_settle (D : Directory) (changes : List Change) :
    (Outbox.settle apply D changes).picture = D.picture :=
  Outbox.settle_invariant apply (fun E => E.picture = D.picture) D changes
    (fun change _ E hE => by cases change <;> exact hE) rfl

/-- Who has the code after a change that touches it. -/
def Change.holder : Change → Option String
  | .register _ uid => some uid
  | _ => none

theorem sender_apply (D : Directory) (change : Change) (c : String) :
    (D.apply change).sender c = if change.code = some c then change.holder else D.sender c := by
  cases change with
  | release code =>
    show Function.update D.sender code none c = _
    rw [Function.update_apply]
    simp [Change.code, Change.holder, eq_comm]
  | register code uid =>
    show Function.update D.sender code (some uid) c = _
    rw [Function.update_apply]
    simp [Change.code, Change.holder, eq_comm]
  | setProfile uid p => exact (if_neg (by simp [Change.code])).symm
  | point uid code => exact (if_neg (by simp [Change.code])).symm

theorem local_sender (c : String) :
    Local apply (fun D : Directory => D.sender c) (fun change => change.code = some c) := by
  refine ⟨fun D change h => ?_, fun D E change h => ?_⟩
  · show (D.apply change).sender c = D.sender c
    rw [sender_apply, if_neg h]
  · show (D.apply change).sender c = (E.apply change).sender c
    have h' : D.sender c = E.sender c := h
    rw [sender_apply, sender_apply, h']

/-- The last change that touches the code decides who has it. -/
theorem sender_of_last (D : Directory) (changes : List Change) (c : String) (change : Change)
    (h : (changes.filter fun change => change.code = some c).getLast? = some change) :
    (Outbox.settle apply D changes).sender c = change.holder := by
  have hlast := Outbox.view_of_last (local_sender c) (fun D E change hc => by
    show (D.apply change).sender c = (E.apply change).sender c
    rw [sender_apply, sender_apply, if_pos hc, if_pos hc]) D changes change h
  have hcode : change.code = some c := by
    simpa using (List.mem_filter.1 (List.mem_of_getLast? h)).2
  have hlast' : (Outbox.settle apply D changes).sender c = (D.apply change).sender c := hlast
  rw [hlast', sender_apply, if_pos hcode]

theorem eq_of_places (D E : Directory)
    (huser : ∀ u, (D.profile u, D.code u) = (E.profile u, E.code u))
    (hsender : ∀ c, D.sender c = E.sender c) (hpicture : D.picture = E.picture) : D = E := by
  obtain ⟨profile, code, sender, picture⟩ := D
  obtain ⟨profile', code', sender', picture'⟩ := E
  simp only [Prod.mk.injEq, forall_and] at huser
  rw [mk.injEq]
  exact ⟨funext huser.1, funext huser.2, funext hsender, hpicture⟩

/-! ## The order of the changes -/

def Touches (changes : List Change) (c : String) : Prop :=
  ∃ change ∈ changes, change.code = some c

/-- The last of the changes that touch the code gives it to somebody. -/
def Leaves (changes : List Change) (c : String) : Prop :=
  ∃ uid, (changes.filter fun change => change.code = some c).getLast? = some (.register c uid)

variable {ι : Type*}

/-- The changes of different queues are about different users. -/
def UsersApart (changes : ι → List Change) : Prop :=
  ∀ i j, i ≠ j → ∀ a ∈ changes i, ∀ b ∈ changes j, a.user = none ∨ a.user ≠ b.user

/-- A queue that touches a code leaves it, or takes it away in the end. -/
theorem last_cases (changes : List Change) (c : String) (change : Change)
    (h : (changes.filter fun change => change.code = some c).getLast? = some change) :
    change = .release c ∨ (∃ uid, change = .register c uid) := by
  have hcode : change.code = some c := by
    simpa using (List.mem_filter.1 (List.mem_of_getLast? h)).2
  cases change with
  | release code => cases hcode; exact Or.inl rfl
  | register code uid => cases hcode; exact Or.inr ⟨uid, rfl⟩
  | _ => cases hcode

theorem last_of_touches (changes : List Change) (c : String) (h : Touches changes c) :
    ∃ change, (changes.filter fun change => change.code = some c).getLast? = some change := by
  obtain ⟨change, hm, hc⟩ := h
  have hne : (changes.filter fun change => change.code = some c) ≠ [] :=
    List.ne_nil_of_mem (List.mem_filter.2 ⟨hm, by simpa using hc⟩)
  exact ⟨_, List.getLast?_eq_some_getLast hne⟩

/-- A queue whose changes come last decides about a code it touches. -/
theorem sender_of_behind (D : Directory) (changes : ι → List Change) (order : List ι) (i : ι)
    (c : String) (change : Change)
    (h : ((changes i).filter fun change => change.code = some c).getLast? = some change) :
    (Outbox.settle apply D ((Outbox.serial changes (order ++ [i])).map Prod.snd)).sender c =
      change.holder := by
  refine sender_of_last D _ c change ?_
  unfold Outbox.serial
  rw [List.flatMap_append, List.map_append, List.filter_append, List.flatMap_singleton, List.map_map]
  have hblock : (Prod.snd ∘ fun w : Change => (i, w)) = id := rfl
  rw [hblock, List.map_id]
  exact (List.getLast?_append_of_ne_nil _ (fun hnil => by rw [hnil] at h; cases h)).trans h

variable [DecidableEq ι]

/-- A code that two queues touch and none leaves is gone. -/
theorem sender_of_shared (D : Directory) (changes : ι → List Change) (log : List (ι × Change))
    (h : Shuffle changes log) (i j : ι) (hij : i ≠ j) (c : String)
    (hi : Touches (changes i) c) (hj : Touches (changes j) c)
    (hleaves : ∀ i j, i ≠ j → Touches (changes i) c → ¬ Leaves (changes j) c) :
    (Outbox.settle apply D (log.map Prod.snd)).sender c = none := by
  have htouch : Touches (log.map Prod.snd) c := by
    obtain ⟨change, hm, hc⟩ := hi
    rw [← h i] at hm
    obtain ⟨e, he, rfl⟩ := List.mem_map.1 hm
    exact ⟨e.2, List.mem_map_of_mem (List.mem_of_mem_filter he), hc⟩
  obtain ⟨change, hlast⟩ := last_of_touches _ c htouch
  rw [sender_of_last D _ c change hlast]
  obtain ⟨k, hk⟩ := Outbox.getLast?_of_shuffle (fun change : Change => change.code = some c) h change
    hlast
  rcases last_cases _ c change hk with rfl | ⟨uid, rfl⟩
  · rfl
  · exfalso
    by_cases hik : i = k
    · subst hik
      exact hleaves j i hij.symm hj ⟨uid, hk⟩
    · exact hleaves i k hik hi ⟨uid, hk⟩

theorem settled_agree (D : Directory) (changes : ι → List Change) (hapart : UsersApart changes)
    (hleaves : ∀ i j, i ≠ j → ∀ c, Touches (changes i) c → ¬ Leaves (changes j) c)
    (log log' : List (ι × Change)) (h : Shuffle changes log) (h' : Shuffle changes log') :
    Outbox.settle apply D (log.map Prod.snd) = Outbox.settle apply D (log'.map Prod.snd) := by
  refine eq_of_places _ _ (fun u => ?_) (fun c => ?_) (by rw [picture_settle, picture_settle])
  · have hfilter := Outbox.filter_agree (fun change : Change => change.user = some u) h h' ?_
    · have hview := Outbox.view_of_filter (local_user u) D (log.map Prod.snd)
      have hview' := Outbox.view_of_filter (local_user u) D (log'.map Prod.snd)
      rw [hview, hview', hfilter]
    · rintro i j ⟨a, ha, hua⟩ ⟨b, hb, hub⟩
      by_contra hij
      rcases hapart i j hij a ha b hb with hnone | hne
      · rw [hua] at hnone
        cases hnone
      · exact hne (hua.trans hub.symm)
  · by_cases hone : ∀ i j, Touches (changes i) c → Touches (changes j) c → i = j
    · have hfilter := Outbox.filter_agree (fun change : Change => change.code = some c) h h' hone
      have hview := Outbox.view_of_filter (local_sender c) D (log.map Prod.snd)
      have hview' := Outbox.view_of_filter (local_sender c) D (log'.map Prod.snd)
      rw [← hfilter] at hview'
      exact hview.trans hview'.symm
    · simp only [not_forall] at hone
      obtain ⟨i, j, hi, hj, hij⟩ := hone
      rw [sender_of_shared D changes log h i j hij c hi hj fun i j hij => hleaves i j hij c,
        sender_of_shared D changes log' h' i j hij c hi hj fun i j hij => hleaves i j hij c]

/-- **When all orders agree.**  Any directory and any changes that are pending in finitely
many queues, about different users: the directory after all of them is the same in every
order exactly when no queue touches a code that another one leaves. -/
theorem settled_agree_iff (D : Directory) (changes : ι → List Change) (clients : List ι)
    (hall : ∀ i, changes i ≠ [] → i ∈ clients) (hapart : UsersApart changes) :
    (∀ log log', Shuffle changes log → Shuffle changes log' →
      Outbox.settle apply D (log.map Prod.snd) = Outbox.settle apply D (log'.map Prod.snd)) ↔
    ∀ i j, i ≠ j → ∀ c, Touches (changes i) c → ¬ Leaves (changes j) c := by
  constructor
  · rintro h i j hij c hi ⟨uid, hj⟩
    obtain ⟨change, hlast⟩ := last_of_touches _ c hi
    -- one order in which `i` comes last, and one in which `j` does
    obtain ⟨order, horder⟩ := Outbox.shuffle_behind changes clients hall i
    obtain ⟨order', horder'⟩ := Outbox.shuffle_behind changes clients hall j
    have hsame : change.holder = (Change.register c uid).holder := by
      rw [← sender_of_behind D changes order i c _ hlast,
        ← sender_of_behind D changes order' j c _ hj, h _ _ horder horder']
    rcases last_cases _ c change hlast with rfl | ⟨uid', rfl⟩
    · cases hsame
    · obtain rfl : uid' = uid := Option.some.inj hsame
      rcases hapart i j hij _ (List.mem_of_mem_filter (List.mem_of_getLast? hlast)) _
        (List.mem_of_mem_filter (List.mem_of_getLast? hj)) with hnone | hne
      · cases hnone
      · exact hne rfl
  · intro h log log' hlog hlog'
    exact settled_agree D changes hapart h log log' hlog hlog'

end Directory

end ProjectSY
