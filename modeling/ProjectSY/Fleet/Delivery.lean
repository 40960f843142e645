import ProjectSY.Fleet.Format

/-!
# A profile saved on one device is read on all of them

Once `users/<u>` holds a profile `p` and nothing else is under way about `u`, the
profile stays there as long as nobody saves another one as `u`: a code that is merged
into the document hides none of its fields.  So whatever the devices do meanwhile, a
fetch of `u` that completes on any of them puts `p` into its session, and the profile
form shows it (`profile_reaches_every_device`).  A device that is offline may answer from
what it knew of the document before; it is read there only while that is `p` as well.

    HoldsProfile u p c    `users/<u>` is a record with the profile `p`
    Brings u p w          what the device `w` has to send about `u`, and what answers
                          about `u` it waits for, agrees with that
-/

namespace ProjectSY

def HoldsProfile (u : String) (p : Profile) (c : Collections) : Prop :=
  ∃ code, c.doc "users" u = recordData (some p) code

/-- The code is the one the document names. -/
theorem holdsProfile_iff (u : String) (p : Profile) (c : Collections) :
    HoldsProfile u p c ↔ c.doc "users" u = recordData (some p) (c.codeOf u) := by
  constructor
  · rintro ⟨code, hdoc⟩
    have hcode : c.codeOf u = code := by
      unfold Collections.codeOf
      rw [hdoc]
      exact (read_recordData (some p) code).2
    rw [hcode]
    exact hdoc
  · exact fun h => ⟨_, h⟩

instance (u : String) (p : Profile) (c : Collections) : Decidable (HoldsProfile u p c) :=
  decidable_of_iff _ (holdsProfile_iff u p c).symm

structure Brings (u : String) (p : Profile) (w : World) : Prop where
  nav : NavInv w
  queues : ∀ account, ∀ write ∈ w.queue account, ∃ change : Directory.Change,
    write = change.write ∧ ∀ q, change = .setProfile u q → q = p
  answers : ∀ d, .documentSnapshot u (.data d) ∈ w.callbacks →
    ∃ code, some d = recordData (some p) code

/-- A write about `u` that brings no other profile leaves the profile there. -/
theorem holdsProfile_apply (u : String) (p : Profile) (c : Collections)
    (change : Directory.Change) (h : HoldsProfile u p c)
    (hc : ∀ q, change = .setProfile u q → q = p) : HoldsProfile u p (c.apply change.write) := by
  obtain ⟨code, hdoc⟩ := h
  cases change with
  | setProfile uid q =>
    by_cases hu : u = uid
    · subst hu
      obtain rfl : q = p := hc q rfl
      refine ⟨none, ?_⟩
      show (c.apply (.setData "users" u q.toDict)).doc "users" u = some q.toDict
      rw [Collections.doc_setData, if_pos rfl]
    · refine ⟨code, ?_⟩
      show (c.apply (.setData "users" uid q.toDict)).doc "users" u = _
      rw [Collections.doc_setData, if_neg (fun e => hu ((pair_eq_iff _ _ _).1 e))]
      exact hdoc
  | release code' =>
    exact ⟨code, (users_apply_connection c (Directory.Change.release code').write code' rfl u).trans
      hdoc⟩
  | register code' uid =>
    exact ⟨code, (users_apply_connection c (Directory.Change.register code' uid).write code' rfl
      u).trans hdoc⟩
  | point uid code' =>
    by_cases hu : u = uid
    · subst hu
      refine ⟨some code', ?_⟩
      show (c.apply (.mergeData "users" u (codeData code'))).doc "users" u = _
      rw [Collections.doc_mergeData, if_pos rfl, hdoc, union_recordData]
      rfl
    · refine ⟨code, ?_⟩
      show (c.apply (.mergeData "users" uid (codeData code'))).doc "users" u = _
      rw [Collections.doc_mergeData, if_neg (fun e => hu ((pair_eq_iff _ _ _).1 e))]
      exact hdoc

/-! ## One step -/

/-- The event saves no other profile of `u`. -/
def SavesOnly (u : String) (p : Profile) (w : World) (e : Event) : Prop :=
  ∀ jpeg data, e.action w = .saved u jpeg data → data = p.toDict

instance (u : String) (p : Profile) (w : World) (e : Event) : Decidable (SavesOnly u p w e) :=
  match h : e.action w with
  | .saved uid jpeg data =>
    decidable_of_iff (uid = u → data = p.toDict) (by
      unfold SavesOnly
      rw [h]
      constructor
      · intro hu jpeg' data' heq
        cases heq
        exact hu rfl
      · rintro hs rfl
        exact hs jpeg data rfl)
  | .quiet | .launched | .restored | .signedIn _ | .fetched _ _ | .requested _ | .signedOut =>
    isTrue (by
      intro jpeg data heq
      rw [h] at heq
      cases heq)

theorem toDict_inj (p q : Profile) (h : p.toDict = q.toDict) : p = q := by
  have hread := congrArg readProfile h
  rw [readProfile_toDict, readProfile_toDict] at hread
  exact Option.some.inj hread

/-- A fetch of `u` is answered by what the device knows only while that has the profile. -/
def ReadsNoOther (u : String) (p : Profile) (w : World) : Event → Prop
  | .answer uid .cache _ => uid = u → HoldsProfile u p w.firebase.cache
  | _ => True

instance (u : String) (p : Profile) (w : World) (e : Event) : Decidable (ReadsNoOther u p w e) :=
  match e with
  | .answer uid .cache _ =>
    inferInstanceAs (Decidable (uid = u → HoldsProfile u p w.firebase.cache))
  | .answer _ .server _ | .answer _ .unavailable _ | .goToNextStorybaord | .googleSignIn
  | .didSignIn _ | .authSignIn _ _ _ | .documentSnapshot _ _ | .finishWritingProfile _
  | .backToSignIn | .no | .yes _ | .getConnectionCode _ | .backToProfile | .presentAlert
  | .dismissAlert | .writeDone _ | .uploadDone _ _ | .relaunch => inferInstanceAs (Decidable True)

theorem queues_brings (u : String) (p : Profile) (w w' : World) (e : Event) (h : Brings u p w)
    (hc : SavesOnly u p w e) (hs : step w e = some w') (account : Option String) (write : Write)
    (hm : write ∈ w'.queue account) : ∃ change : Directory.Change, write = change.write ∧
      ∀ q, change = .setProfile u q → q = p := by
  rcases mem_queue_step w w' e hs account write hm with hold | ⟨-, hnew⟩
  · exact h.queues account write hold
  · obtain ⟨change, hwrite, hprofile⟩ := change_of_writes w w' e h.nav hs write hnew
    refine ⟨change, hwrite, fun q hq => ?_⟩
    obtain ⟨jpeg, ha⟩ := hprofile u q hq
    exact toDict_inj q p (hc jpeg q.toDict ha)

/-- A fetch of `u` reads the profile, whatever part of the pending writes it sees. -/
theorem fetchResult_brings (u : String) (p : Profile) (w : World) (source : Source) (seen : Nat)
    (d : Dict) (h : Brings u p w) (hp : HoldsProfile u p w.server.documents)
    (hc : ReadsNoOther u p w (.answer u source seen))
    (hd : FetchResult.data d = w.fetchResult u source seen) :
    ∃ code, some d = recordData (some p) code := by
  obtain ⟨hdoc, -⟩ := view_of_fetchResult w u source seen d hd
  have hsource : HoldsProfile u p (w.known source) := by
    cases source with
    | cache => exact hc rfl
    | server => exact hp
    | unavailable => exact hp
  have hview : HoldsProfile u p (w.view source seen) := by
    refine Outbox.settle_invariant Collections.apply (HoldsProfile u p) _ _ (fun write hm c ht => ?_)
      hsource
    obtain ⟨change, rfl, hprofile⟩ := h.queues w.firebase.currentUser write (List.mem_of_mem_take hm)
    exact holdsProfile_apply u p c change ht hprofile
  obtain ⟨code, hcode⟩ := hview
  exact ⟨code, hdoc.symm.trans hcode⟩

theorem brings_step (u : String) (p : Profile) (w w' : World) (e : Event) (h : Brings u p w)
    (hp : HoldsProfile u p w.server.documents) (hc : SavesOnly u p w e)
    (hread : ReadsNoOther u p w e) (hs : step w e = some w') :
    Brings u p w' ∧ HoldsProfile u p w'.server.documents := by
  refine ⟨⟨navInv_step w e w' h.nav hs, queues_brings u p w w' e h hc hs, fun d hm => ?_⟩, ?_⟩
  · rcases step_answers w w' e hs u (.data d) hm with hm | ⟨source, seen, rfl, hanswer⟩
    · exact h.answers d hm
    · exact fetchResult_brings u p w source seen d h hp hread hanswer
  · cases hd : e.isDone with
    | false =>
      rw [(step_issue w w' e hs hd).server]
      exact hp
    | true =>
      cases e with
      | writeDone ok =>
        obtain ⟨write, hpending, hserver⟩ := (step_writeDone w w' ok hs).taken
        obtain ⟨change, rfl, hprofile⟩ := h.queues w.firebase.currentUser write (by
          show write ∈ w.pending
          rw [hpending]
          exact List.mem_cons_self)
        rw [hserver]
        cases ok with
        | false => exact hp
        | true => exact holdsProfile_apply u p w.server.documents change hp hprofile
      | uploadDone task ok =>
        obtain ⟨upload, -, hserver⟩ := (step_uploadDone w w' task ok hs).taken
        rw [hserver]
        cases ok with
        | false => exact hp
        | true => exact hp
      | _ => cases hd

/-! ## Every device -/

variable {ι : Type*} [DecidableEq ι]

/-- What a fetch brings into the session is what the form shows. -/
theorem viewDidLoad_fetched (u : String) (p : Profile) (w w' : World) (d : Dict)
    (h : Brings u p w) (hs : step w (.documentSnapshot u (.data d)) = some w') :
    ProfileForm.viewDidLoad w'.user = .prefilled (some p) := by
  obtain ⟨code, hcode⟩ := h.answers d (step_enabled w w' _ hs).2
  have huser : w'.user = w.user.setUserData d :=
    (step_session w w' (.documentSnapshot u (.data d)) hs).1
  refine viewDidLoad_recordData w'.user (some p) code ?_
  rw [huser, ← hcode]
  rfl

/-- **A saved profile is read on every device.**  A fleet that comes from fresh installs
is in a state where `users/<u>` holds the profile `p`, no other profile of `u` is
waiting to be sent and no answer about `u` to be delivered.  After any further run in
which nobody saves another profile as `u`, and no fetch of `u` is answered by a device
that knows another one, whatever else the devices do and whatever fails, when a fetch of
`u` that found a document completes on any device the form there shows `p`. -/
theorem profile_reaches_every_device (u : String) (p : Profile) (server : Server)
    (hD : IsDirectory server) (s0 s s' s'' : ι → World) (es0 es : List (ι × Event)) (i : ι)
    (d : Dict) (h0 : Fleet.FirstLaunch server s0) (hr0 : Runs.run Fleet.step s0 es0 = some s)
    (hdoc : ∀ j, HoldsProfile u p (s j).server.documents)
    (hqueues : ∀ j account data, .setData "users" u data ∈ (s j).queue account → data = p.toDict)
    (hanswers : ∀ j data, .documentSnapshot u (.data data) ∉ (s j).callbacks)
    (hm : Runs.Meets Fleet.step
      (fun s a => SavesOnly u p (s a.1) a.2 ∧ ReadsNoOther u p (s a.1) a.2) s es)
    (hr : Runs.run Fleet.step s es = some s')
    (hs : Fleet.step s' (i, .documentSnapshot u (.data d)) = some s'') :
    ProfileForm.viewDidLoad (s'' i).user = .prefilled (some p) := by
  have hstart : Sharing.Guaranteed World.server (fun _ : ι => Brings u p)
      (fun server => HoldsProfile u p server.documents) s := by
    intro j
    obtain ⟨hformat, -⟩ := formatted_run server hD s0 s es0 h0 hr0 j
    refine ⟨⟨hformat.stored.nav, fun account write hwrite => ?_,
      fun data hdata => absurd hdata (hanswers j data)⟩, hdoc j⟩
    obtain ⟨change, rfl⟩ := hformat.queues account write hwrite
    refine ⟨change, rfl, fun q hq => toDict_inj q p (hqueues j account q.toDict ?_)⟩
    rw [hq] at hwrite
    exact hwrite
  have hend := Sharing.run_guaranteed step World.server World.withServer (fun _ _ => rfl)
    (fun _ : ι => Brings u p) (fun server => HoldsProfile u p server.documents)
    (fun _ w e => SavesOnly u p w e ∧ ReadsNoOther u p w e)
    (fun _ w e w' hI hJ hC hs => brings_step u p w w' e hI hJ hC.1 hC.2 hs)
    (fun _ w t hI _ => ⟨⟨hI.nav.stacked, hI.nav.start, hI.nav.ready, hI.nav.running⟩, hI.queues,
      hI.answers⟩) s s' es hstart hm hr
  exact viewDidLoad_fetched u p (s' i) (s'' i) d (hend i).1 (Sharing.step_self _ _ _ s' s'' i _ hs)

/-- `A` saves a profile on one device, and everything arrives. -/
def savedOnOne : List (Bool × Event) :=
  savedByNewcomer.map (true, ·) ++ [(true, .writeDone true), (true, .uploadDone 0 true)]

/-- `A` asks for a code there and signs in on the other device, which reads the document;
`A` signs out and in again, and is answered by the device. -/
def readOnTheOther : List (Bool × Event) :=
  [(true, .getConnectionCode 7), (false, .goToNextStorybaord)] ++ (signInAs "A" 1).map (false, ·) ++
  List.replicate 2 (true, .writeDone true) ++
  [(false, .answer "A" .server 0),
    (false, .documentSnapshot "A" (.data (codeData "000007" ∪ profileOfA))),
    (false, .backToSignIn), (false, .yes true)] ++
  (signInAs "A" 3).map (false, ·) ++ [(false, .answer "A" .cache 0)]

theorem profile_reaches_every_device_savedOnOne :
    ∃ s s' s'', Runs.run Fleet.step (fun _ => newDevice ⟨∅, ∅⟩) savedOnOne = some s ∧
      Runs.run Fleet.step s readOnTheOther = some s' ∧
      Fleet.step s' (false, .documentSnapshot "A" (.data (codeData "000007" ∪ profileOfA))) =
        some s'' ∧
      ProfileForm.viewDidLoad (s'' false).user = .prefilled (some (formOfA "hello").toProfile) := by
  have hrun : (Runs.run Fleet.step (fun _ : Bool => newDevice ⟨∅, ∅⟩) savedOnOne).any (fun s =>
      decide (∀ j, (s j).server.doc "users" "A" = some profileOfA ∧ (s j).firebase.outbox = [] ∧
        (s j).callbacks = []) &&
      Runs.meetsB Fleet.step
        (fun s a => SavesOnly "A" (formOfA "hello").toProfile (s a.1) a.2 ∧
          ReadsNoOther "A" (formOfA "hello").toProfile (s a.1) a.2) s readOnTheOther &&
      (Runs.run Fleet.step s readOnTheOther).any fun s' =>
        (Fleet.step s' (false, .documentSnapshot "A" (.data (codeData "000007" ∪ profileOfA)))).any
          fun _ => true) = true := by
    decide +kernel
  obtain ⟨s, hs, hrun⟩ := (Option.any_eq_true _ _).1 hrun
  rw [Bool.and_eq_true, Bool.and_eq_true, decide_eq_true_eq] at hrun
  obtain ⟨⟨hsaved, hmeets⟩, hrun⟩ := hrun
  obtain ⟨s', hs', hrun⟩ := (Option.any_eq_true _ _).1 hrun
  obtain ⟨s'', hs'', -⟩ := (Option.any_eq_true _ _).1 hrun
  refine ⟨s, s', s'', hs, hs', hs'', ?_⟩
  refine profile_reaches_every_device "A" (formOfA "hello").toProfile ⟨∅, ∅⟩ ⟨_, represents_empty⟩
    _ s s' s'' savedOnOne readOnTheOther false _ (Fleet.firstLaunch_newDevices ⟨∅, ∅⟩) hs
    (fun j => ⟨none, (hsaved j).1⟩) (fun j account data hm => ?_) (fun j data hm => ?_)
    (Runs.meets_of_meetsB _ _ _ _ hmeets) hs' hs''
  · have hpending := (Outbox.mem_lane _ _ _).1 hm
    rw [(hsaved j).2.1] at hpending
    cases hpending
  · rw [(hsaved j).2.2] at hm
    cases hm

end ProjectSY
