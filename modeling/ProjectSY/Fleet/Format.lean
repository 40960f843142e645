import ProjectSY.App.Presentation
import ProjectSY.Controllers.TextFields
import ProjectSY.Fleet.Accounts

/-!
# The format of what is stored

`[String: Any]` says nothing about a dictionary; the app reads it with `as?` and gives up
silently when a field is missing or no string.  On a fleet that starts from fresh
installs and a server in the app's format none of this happens: every dictionary in
memory, on a disk, in a cache, in an answer under way and on the server is a record
(`Formatted`), whatever is merged, replaced, lost or fetched in whatever order.

Two consequences:

* the profile form is pre-filled with a whole profile or not at all
  (`prefilled_whole`);
* nothing ever brings a connection token, so no device gets past the connection screen
  (`home_never_shown`).
-/

namespace ProjectSY

/-- The data of a session is a record of the format, or there is none. -/
def IsRecord (data : Option Dict) : Prop := ∃ p c, data = recordData p c

theorem isRecord_none : IsRecord none := ⟨none, none, rfl⟩

theorem isRecord_profile (form : ProfileForm) : IsRecord (some form.profile) :=
  ⟨some form.toProfile, none, rfl⟩

theorem isRecord_code (code : String) : IsRecord (some (codeData code)) := ⟨none, some code, rfl⟩

/-- The server holds some directory, in the app's format. -/
def IsDirectory (s : Server) : Prop := ∃ D, Represents s D

/-- The documents of `users` are records. -/
def UsersAreRecords (c : Collections) : Prop := ∀ u, IsRecord (c.doc "users" u)

/-- What a device stores, waits for and has to send is in the app's format, there is no
connection token and the home screen is not presented. -/
structure Formatted (w : World) : Prop where
  stored : Stored w
  memory : IsRecord w.user.userData
  disk : IsRecord (w.defaults.dictionary "userData")
  cache : UsersAreRecords w.firebase.cache
  answers : ∀ uid d, .documentSnapshot uid (.data d) ∈ w.callbacks → IsRecord (some d)
  queues : ∀ account, ∀ write ∈ w.queue account, ∃ change : Directory.Change, write = change.write
  uploads : ∀ upload, some upload ∈ w.uploads → ∃ uid jpeg, upload = profileUpload uid jpeg
  memoryToken : w.user.connectionToken = none
  diskToken : w.defaults.string "connectionToken" = none
  home : .mainHome ∉ w.screens

/-! ## Writes and uploads -/

/-- A write that an action issues is a change of the directory; it changes a profile only
if one is saved. -/
theorem change_of_writes (w w' : World) (e : Event) (hnav : NavInv w) (hs : step w e = some w')
    (write : Write) (hm : write ∈ (e.action w).writes w.user) :
    ∃ change : Directory.Change, write = change.write ∧
      ∀ u q, change = .setProfile u q → ∃ jpeg, e.action w = .saved u jpeg q.toDict := by
  have hg := step_guard w w' e hs
  cases ha : e.action w with
  | saved uid jpeg data =>
    rw [ha] at hm hg
    obtain ⟨-, -, form, rfl⟩ := hg
    refine ⟨.setProfile uid form.toProfile, List.mem_singleton.1 hm, fun u q hq => ?_⟩
    cases hq
    exact ⟨jpeg, rfl⟩
  | requested n =>
    rw [ha] at hm hg
    obtain ⟨uid, ht⟩ := Option.ne_none_iff_exists'.1 (hnav.ready_of_shows hg).1
    have hm' : write ∈ codeWrites w.user uid (connectionCode n) := by
      rw [← getConnectionCode_writes w.user n uid ht]
      exact hm
    rcases (mem_codeWrites w.user uid _ write).1 hm' with ⟨last, -, rfl⟩ | rfl | rfl
    · exact ⟨.release last, rfl, fun u q hq => by cases hq⟩
    · exact ⟨.register (connectionCode n) uid, rfl, fun u q hq => by cases hq⟩
    · exact ⟨.point uid (connectionCode n), rfl, fun u q hq => by cases hq⟩
  | _ => rw [ha] at hm; cases hm

theorem queues_step (w w' : World) (e : Event) (h : Formatted w) (hs : step w e = some w')
    (account : Option String) (write : Write) (hm : write ∈ w'.queue account) :
    ∃ change : Directory.Change, write = change.write := by
  rcases mem_queue_step w w' e hs account write hm with hold | ⟨-, hnew⟩
  · exact h.queues account write hold
  · obtain ⟨change, hwrite, -⟩ := change_of_writes w w' e h.stored.nav hs write hnew
    exact ⟨change, hwrite⟩

theorem uploads_step (w w' : World) (e : Event) (h : Formatted w) (hs : step w e = some w')
    (upload : Upload) (hm : some upload ∈ w'.uploads) :
    ∃ uid jpeg, upload = profileUpload uid jpeg := by
  cases hd : e.isDone with
  | false =>
    rw [(step_issue w w' e hs hd).uploads] at hm
    cases ha : e.action w with
    | saved uid jpeg data =>
      rw [ha] at hm
      rcases List.mem_append.1 hm with hold | hnew
      · exact h.uploads upload hold
      · cases List.mem_singleton.1 hnew
        exact ⟨uid, jpeg, rfl⟩
    | launched => rw [ha] at hm; cases hm
    | _ => rw [ha] at hm; exact h.uploads upload hm
  | true =>
    cases e with
    | writeDone ok => exact h.uploads upload ((step_writeDone w w' ok hs).uploads ▸ hm)
    | uploadDone task ok =>
      rw [(step_uploadDone w w' task ok hs).uploads] at hm
      rcases List.mem_or_eq_of_mem_set hm with hold | hnew
      · exact h.uploads upload hold
      · cases hnew
    | _ => cases hd

/-- The server changes by the writes and uploads of the format only. -/
theorem isDirectory_step (w w' : World) (e : Event) (h : Formatted w) (hD : IsDirectory w.server)
    (hs : step w e = some w') : IsDirectory w'.server := by
  obtain ⟨D, hD⟩ := hD
  cases hd : e.isDone with
  | false =>
    rw [(step_issue w w' e hs hd).server]
    exact ⟨D, hD⟩
  | true =>
    cases e with
    | writeDone ok =>
      obtain ⟨write, hpending, hserver⟩ := (step_writeDone w w' ok hs).taken
      obtain ⟨change, rfl⟩ := h.queues w.firebase.currentUser write (by
        show write ∈ w.pending
        rw [hpending]
        exact List.mem_cons_self)
      rw [hserver]
      cases ok with
      | false => exact ⟨D, hD⟩
      | true => exact ⟨D.apply change, represents_apply w.server D hD change⟩
    | uploadDone task ok =>
      obtain ⟨upload, htask, hserver⟩ := (step_uploadDone w w' task ok hs).taken
      obtain ⟨uid, jpeg, rfl⟩ := h.uploads upload (List.mem_of_getElem? htask)
      rw [hserver]
      cases ok with
      | false => exact ⟨D, hD⟩
      | true => exact ⟨D.setPicture uid jpeg, represents_store w.server D hD uid jpeg⟩
    | _ => cases hd

/-! ## Answers and the cache -/

theorem IsDirectory.users {s : Server} (h : IsDirectory s) : UsersAreRecords s.documents := by
  obtain ⟨D, hD⟩ := h
  exact fun u => ⟨D.profile u, D.code u, hD.documents.users u⟩

theorem usersAreRecords_apply (c : Collections) (change : Directory.Change)
    (h : UsersAreRecords c) : UsersAreRecords (c.apply change.write) := by
  intro u
  cases change with
  | setProfile uid p =>
    show IsRecord ((c.apply (.setData "users" uid p.toDict)).doc "users" u)
    rw [Collections.doc_setData]
    split
    · exact ⟨some p, none, rfl⟩
    · exact h u
  | release code =>
    rw [users_apply_connection c (Directory.Change.release code).write code rfl u]
    exact h u
  | register code uid =>
    rw [users_apply_connection c (Directory.Change.register code uid).write code rfl u]
    exact h u
  | point uid code =>
    show IsRecord ((c.apply (.mergeData "users" uid (codeData code))).doc "users" u)
    rw [Collections.doc_mergeData]
    split
    · obtain ⟨p, code', hdoc⟩ := h uid
      rw [hdoc, union_recordData]
      refine ⟨p, some code, ?_⟩
      cases p <;> rfl
    · exact h u

/-- What a fetch sees is in the format, wherever it looks and whatever part of the pending
writes it sees. -/
theorem usersAreRecords_view (w : World) (source : Source) (seen : Nat) (h : Formatted w)
    (hD : IsDirectory w.server) : UsersAreRecords (w.view source seen) := by
  have hsource : UsersAreRecords (w.known source) := by
    cases source with
    | cache => exact h.cache
    | server => exact hD.users
    | unavailable => exact hD.users
  refine Outbox.settle_invariant Collections.apply UsersAreRecords _ _ (fun write hm c hc => ?_)
    hsource
  obtain ⟨change, rfl⟩ := h.queues w.firebase.currentUser write (List.mem_of_mem_take hm)
  exact usersAreRecords_apply c change hc

/-- Data is answered only if it was seen. -/
theorem view_of_fetchResult (w : World) (uid : String) (source : Source) (seen : Nat) (d : Dict)
    (h : FetchResult.data d = w.fetchResult uid source seen) :
    (w.view source seen).doc "users" uid = some d ∧ source ≠ .unavailable := by
  unfold World.fetchResult at h
  cases hdoc : (w.view source seen).doc "users" uid with
  | none => cases source <;> rw [hdoc] at h <;> cases h
  | some d' =>
    cases source with
    | unavailable => cases h
    | server => rw [hdoc] at h; cases h; exact ⟨rfl, by simp⟩
    | cache => rw [hdoc] at h; cases h; exact ⟨rfl, by simp⟩

/-- The device comes to know a document by an answer of the server, or by a write of its
own that was taken. -/
theorem step_cache (w w' : World) (e : Event) (h : step w e = some w') :
    (∃ uid source seen, e = .answer uid source seen ∧ w'.firebase.cache = w.refreshed uid source) ∨
    (∃ write rest, e = .writeDone true ∧ w.pending = write :: rest ∧
      w'.firebase.cache = w.firebase.cache.apply write) ∨
    w'.firebase.cache = w.firebase.cache := by
  obtain ⟨-, rfl⟩ := (step_eq_some w w' e).1 h
  cases e with
  | answer uid source seen => exact Or.inl ⟨uid, source, seen, rfl, rfl⟩
  | writeDone ok =>
    have hen := (step_enabled _ _ _ h).2
    refine Or.inr ?_
    show (∃ write rest, _ ∧ _ ∧ (w.writeDone ok).firebase.cache = _) ∨
      (w.writeDone ok).firebase.cache = _
    unfold World.writeDone
    cases hp : w.pending with
    | nil => exact absurd hp hen
    | cons write rest =>
      cases ok with
      | false => exact Or.inr rfl
      | true => exact Or.inl ⟨write, rest, rfl, rfl, rfl⟩
  | authSignIn uid controller ok =>
    refine Or.inr (Or.inr ?_)
    cases ok with
    | false => rfl
    | true =>
      obtain ⟨screens, hw⟩ := authSignIn_fields w uid controller
      show (w.authSignIn uid controller true).firebase.cache = _
      rw [hw]
  | didSignIn account =>
    obtain ⟨callbacks, hw⟩ := didSignIn_fields w account
    refine Or.inr (Or.inr ?_)
    show (w.didSignIn account).firebase.cache = _
    rw [hw]
  | finishWritingProfile form =>
    refine Or.inr (Or.inr ?_)
    show (w.finishWritingProfile form).firebase.cache = _
    unfold World.finishWritingProfile
    cases finishWritingProfile form w.user <;> rfl
  | getConnectionCode n =>
    refine Or.inr (Or.inr ?_)
    show (w.getConnectionCode n).firebase.cache = _
    unfold World.getConnectionCode
    rcases getConnectionCode w.user n with ⟨writes, _ | user⟩ <;> rfl
  | uploadDone task ok =>
    refine Or.inr (Or.inr ?_)
    show (w.uploadDone task ok).firebase.cache = _
    unfold World.uploadDone
    split <;> rfl
  | _ => exact Or.inr (Or.inr rfl)

/-- An answer of the server makes the document known as the server has it. -/
theorem refreshed_users (w : World) (uid u : String) (source : Source) :
    (w.refreshed uid source).doc "users" u =
      if source = .server ∧ u = uid then w.server.doc "users" u
      else w.firebase.cache.doc "users" u := by
  cases source with
  | server =>
    simp only [true_and]
    unfold World.refreshed Collections.doc
    cases hdoc : w.server.doc "users" uid with
    | none =>
      simp only [Records.lookup_erase_if, pair_eq_iff]
      split
      · next hu => rw [hu, hdoc]
      · rfl
    | some d =>
      simp only [Records.lookup_insert_if, pair_eq_iff]
      split
      · next hu => rw [hu, hdoc]
      · rfl
  | cache => exact (if_neg (by simp)).symm
  | unavailable => exact (if_neg (by simp)).symm

theorem cache_step (w w' : World) (e : Event) (h : Formatted w) (hD : IsDirectory w.server)
    (hs : step w e = some w') : UsersAreRecords w'.firebase.cache := by
  rcases step_cache w w' e hs with
    ⟨uid, source, seen, -, hcache⟩ | ⟨write, rest, -, hpending, hcache⟩ | hcache
  · intro u
    rw [hcache, refreshed_users]
    split
    · exact hD.users u
    · exact h.cache u
  · rw [hcache]
    obtain ⟨change, rfl⟩ := h.queues w.firebase.currentUser write (by
      show write ∈ w.pending
      rw [hpending]
      exact List.mem_cons_self)
    exact usersAreRecords_apply _ change h.cache
  · rw [hcache]
    exact h.cache

/-! ## The session -/

theorem connectionToken_restored (u : User) (d : UserDefaults)
    (h : d.string "connectionToken" = none) :
    (searchUserFromKeychain u d).2.connectionToken = u.connectionToken := by
  unfold searchUserFromKeychain
  rw [h]
  cases d.string "userIdToken" with
  | none => rfl
  | some idToken =>
    cases d.dictionary "userData" with
    | none => rfl
    | some userData => rfl

theorem getConnectionCode_connectionToken (u : User) (n : Nat) :
    ((getConnectionCode u n).2.getD u).connectionToken = u.connectionToken := by
  cases hr : (getConnectionCode u n).2 with
  | none => rfl
  | some user =>
    have htrap := (getConnectionCode_trap u n).not
    rw [hr, not_or] at htrap
    obtain ⟨ht, hd⟩ := htrap.1 (Option.some_ne_none user)
    rw [getConnectionCode_user u n ht hd] at hr
    cases hr
    rfl

/-- No action brings a connection token to the disk. -/
theorem Action.defaults_connectionToken (a : Action) (d : UserDefaults)
    (hown : ∀ key ∈ defaultsKeys, d.others.lookup key = none)
    (hd : d.string "connectionToken" = none) : (a.defaults d).string "connectionToken" = none := by
  cases a with
  | signedIn uid =>
    show (d.set (.string uid) "userIdToken").string "connectionToken" = none
    rw [UserDefaults.string_set_of_ne _ _ _ _ (by decide)]
    exact hd
  | saved uid jpeg data =>
    show (d.set (.dictionary data) "userData").string "connectionToken" = none
    rw [UserDefaults.string_set_of_ne _ _ _ _ (by decide)]
    exact hd
  | signedOut => exact string_eq_none _ _ (freshInstall_removeAll d hown "connectionToken" (by decide))
  | _ => exact hd

/-- No action brings one to memory, as long as there is none on the disk. -/
theorem Action.user_connectionToken (a : Action) (u : User) (d : UserDefaults)
    (hu : u.connectionToken = none) (hd : d.string "connectionToken" = none) :
    (a.user u d).connectionToken = none := by
  cases a with
  | restored => exact (connectionToken_restored u d hd).trans hu
  | requested n => exact (getConnectionCode_connectionToken u n).trans hu
  | launched => rfl
  | signedOut => rfl
  | _ => exact hu

/-- The data after a step is a record if the data before it was. -/
theorem isRecord_step (w w' : World) (e : Event) (h : Formatted w) (hs : step w e = some w') :
    IsRecord w'.user.userData ∧ IsRecord (w'.defaults.dictionary "userData") := by
  have hmemory := step_memory w w' e h.stored.nav hs
  have hdisk := step_disk w w' e h.stored.own hs
  have hg := step_guard w w' e hs
  have hm : w'.user.userData = ((e.action w).memory w.memory w.disk).data :=
    congrArg Session.data hmemory
  have hd : w'.defaults.dictionary "userData" = ((e.action w).disk w.disk).data :=
    congrArg Session.data hdisk
  rw [hm, hd]
  cases ha : e.action w with
  | quiet => exact ⟨h.memory, h.disk⟩
  | launched => exact ⟨isRecord_none, h.disk⟩
  | restored =>
    refine ⟨?_, h.disk⟩
    show IsRecord w.disk.restored.data
    unfold Session.restored
    split
    · exact isRecord_none
    · exact h.disk
  | signedIn uid => exact ⟨h.memory, h.disk⟩
  | fetched uid d =>
    rw [ha] at hg
    exact ⟨h.answers uid d hg, h.disk⟩
  | saved uid jpeg data =>
    rw [ha] at hg
    obtain ⟨-, -, form, rfl⟩ := hg
    exact ⟨isRecord_profile form, isRecord_profile form⟩
  | requested n => exact ⟨isRecord_code _, h.disk⟩
  | signedOut => exact ⟨isRecord_none, isRecord_none⟩

theorem formatted_step (w w' : World) (e : Event) (h : Formatted w) (hD : IsDirectory w.server)
    (hs : step w e = some w') : Formatted w' ∧ IsDirectory w'.server := by
  obtain ⟨hmemory, hdisk⟩ := isRecord_step w w' e h hs
  obtain ⟨hu, hd⟩ := step_session w w' e hs
  have hut := (e.action w).user_connectionToken w.user w.defaults h.memoryToken h.diskToken
  have hdt := (e.action w).defaults_connectionToken w.defaults h.stored.own h.diskToken
  refine ⟨⟨stored_step w e w' h.stored hs, hmemory, hdisk, cache_step w w' e h hD hs,
    fun uid d hm => ?_, queues_step w w' e h hs, uploads_step w w' e h hs, hu ▸ hut, hd ▸ hdt,
    fun hm => ?_⟩, isDirectory_step w w' e h hD hs⟩
  · rcases step_answers w w' e hs uid (.data d) hm with hm | ⟨source, seen, -, hread⟩
    · exact h.answers uid d hm
    · obtain ⟨hview, -⟩ := view_of_fetchResult w uid source seen d hread
      exact hview ▸ usersAreRecords_view w source seen h hD uid
  · rcases step_home w w' e hs hm with hm | htoken
    · exact h.home hm
    · exact htoken h.diskToken

/-! ## Whole runs -/

theorem FirstLaunch.formatted {w : World} (h : FirstLaunch w) : Formatted w := by
  have hstored := h.stored
  have hqueue := h.queue
  obtain ⟨defaults, currentUser, server, hfresh, rfl⟩ := h
  have hdisk : IsRecord (defaults.dictionary "userData") := by
    rw [hfresh.dictionary]
    exact isRecord_none
  exact
    { stored := hstored
      memory := isRecord_none
      disk := hdisk
      cache := fun _ => isRecord_none
      answers := fun uid d hm => by cases hm
      queues := fun account write hm => by rw [hqueue account] at hm; cases hm
      uploads := fun upload hm => by cases hm
      memoryToken := rfl
      diskToken := string_eq_none _ _ (hfresh "connectionToken" (by decide))
      home := fun hm => by cases List.mem_singleton.1 hm }

variable {ι : Type*} [DecidableEq ι]

theorem formatted_run (server : Server) (hD : IsDirectory server) (s s' : ι → World)
    (es : List (ι × Event)) (h : Fleet.FirstLaunch server s)
    (hr : Runs.run Fleet.step s es = some s') (i : ι) :
    Formatted (s' i) ∧ IsDirectory (s' i).server := by
  refine Sharing.run_guaranteed step World.server World.withServer (fun _ _ => rfl)
    (fun _ : ι => Formatted) IsDirectory (fun _ _ _ => True)
    (fun _ w e w' hI hJ _ hs => formatted_step w w' e hI hJ hs) (fun _ w t hI _ => ?_) s s' es
    (fun i => ⟨(h i).1.formatted, by rw [(h i).2]; exact hD⟩) (fun _ _ _ _ _ => trivial) hr i
  exact ⟨⟨⟨hI.stored.nav.stacked, hI.stored.nav.start, hI.stored.nav.ready, hI.stored.nav.running⟩,
    hI.stored.own, hI.stored.token, hI.stored.current⟩, hI.memory, hI.disk, hI.cache, hI.answers,
    hI.queues, hI.uploads, hI.memoryToken, hI.diskToken, hI.home⟩

/-- The form as it is before anything is entered in it: blank, or with a profile. -/
def ProfileForm.prefilled : Option Profile → ProfileForm
  | none => ⟨⟨""⟩, ⟨""⟩, ⟨""⟩, ⟨""⟩, false, none⟩
  | some p => ⟨⟨p.name⟩, ⟨p.birthday⟩, ⟨p.phone⟩, ⟨p.comment⟩, false, none⟩

/-- What the form is loaded with is the profile in the record of the session. -/
theorem viewDidLoad_recordData (user : User) (p : Option Profile) (c : Option String)
    (h : user.userData = recordData p c) : ProfileForm.viewDidLoad user = .prefilled p := by
  have hfields : ∀ q : Profile, stringField q.toDict "name" = some q.name ∧
      stringField q.toDict "birthday" = some q.birthday ∧
      stringField q.toDict "phone" = some q.phone ∧
      stringField q.toDict "comment" = some q.comment :=
    fun q => stringField_profileData q.name q.birthday q.phone q.comment
  have hcode : ∀ (code key : String) (d : Dict), key ≠ "connectionCode" →
      stringField (codeData code ∪ d) key = stringField d key := by
    intro code key d hk
    unfold stringField
    rw [lookup_code_union code key d hk]
  have hblank : ∀ code key : String, key ≠ "connectionCode" →
      stringField (codeData code) key = none := by
    intro code key hk
    unfold stringField
    rw [lookup_codeData, if_neg hk]
    rfl
  unfold ProfileForm.viewDidLoad User.getUserData
  rw [h]
  cases p with
  | none =>
    cases c with
    | none => rfl
    | some code =>
      simp only [recordData, Option.bind_some, hblank code "name" (by decide),
        hblank code "birthday" (by decide), hblank code "phone" (by decide),
        hblank code "comment" (by decide)]
      rfl
  | some q =>
    obtain ⟨hn, hb, hp, hc⟩ := hfields q
    cases c with
    | none =>
      simp only [recordData, Option.bind_some, hn, hb, hp, hc]
      rfl
    | some code =>
      simp only [recordData, Option.bind_some, hcode code "name" _ (by decide),
        hcode code "birthday" _ (by decide), hcode code "phone" _ (by decide),
        hcode code "comment" _ (by decide), hn, hb, hp, hc]
      rfl

/-- **The form is pre-filled with a whole profile or not at all.**  Fresh installs
around a server in the app's format: at every moment of every run, the session of every
device, in memory and on its disk, is a record, and `viewDidLoad` fills the form with
the profile of that record, or leaves all four fields blank. -/
theorem prefilled_whole (server : Server) (hD : IsDirectory server) (s s' : ι → World)
    (es : List (ι × Event)) (h : Fleet.FirstLaunch server s)
    (hr : Runs.run Fleet.step s es = some s') (i : ι) :
    (∃ p c, (s' i).user.userData = recordData p c ∧
      ProfileForm.viewDidLoad (s' i).user = .prefilled p) ∧
    IsRecord ((s' i).defaults.dictionary "userData") := by
  obtain ⟨hformat, -⟩ := formatted_run server hD s s' es h hr i
  obtain ⟨p, c, hpc⟩ := hformat.memory
  exact ⟨⟨p, c, hpc, viewDidLoad_recordData _ p c hpc⟩, hformat.disk⟩

theorem isDirectory_serverWithA : IsDirectory serverWithA := ⟨_, represents_serverWithA⟩

/-- `A`, whom the server knows, signs in on one of two devices, and the fetch completes. -/
def fetchedOnOne : List (Bool × Event) :=
  [(false, .goToNextStorybaord), (true, .goToNextStorybaord)] ++ (signInAs "A" 1).map (true, ·) ++
  [(true, .answer "A" .server 0), (true, .documentSnapshot "A" (.data profileOfA))]

theorem prefilled_whole_fetchedOnOne :
    ∃ s', Runs.run Fleet.step (fun _ => newDevice serverWithA) fetchedOnOne = some s' ∧
      (s' true).user.userData = some profileOfA ∧
      ∃ p c, (s' true).user.userData = recordData p c ∧
        ProfileForm.viewDidLoad (s' true).user = .prefilled p := by
  have hrun : (Runs.run Fleet.step (fun _ : Bool => newDevice serverWithA) fetchedOnOne).any
      (fun s => decide ((s true).user.userData = some profileOfA)) = true := by
    decide +kernel
  obtain ⟨s', hs', hend⟩ := (Option.any_eq_true _ _).1 hrun
  obtain ⟨hform, -⟩ := prefilled_whole serverWithA isDirectory_serverWithA _ s' fetchedOnOne
    (Fleet.firstLaunch_newDevices serverWithA) hs' true
  exact ⟨s', hs', of_decide_eq_true hend, hform⟩

/-- **Nobody gets past the connection screen.**  Fresh installs around a server in the
app's format: in no state of any run is the home screen presented on any device, or a
connection token in its memory or on its disk, or in the record it holds. -/
theorem home_never_shown (server : Server) (hD : IsDirectory server) (s s' : ι → World)
    (es : List (ι × Event)) (h : Fleet.FirstLaunch server s)
    (hr : Runs.run Fleet.step s es = some s') (i : ι) :
    .mainHome ∉ (s' i).screens ∧ (s' i).user.getConnectionToken = none ∧
    (s' i).defaults.string "connectionToken" = none ∧
    ((s' i).user.getUserData.bind fun d => d.lookup "connectionToken") = none := by
  obtain ⟨hformat, -⟩ := formatted_run server hD s s' es h hr i
  refine ⟨hformat.home, hformat.memoryToken, hformat.diskToken, ?_⟩
  obtain ⟨p, c, hpc⟩ := hformat.memory
  have hprofile : ∀ q : Profile, q.toDict.lookup "connectionToken" = none := by
    intro q
    unfold Profile.toDict
    rw [lookup_profileData]
    simp
  unfold User.getUserData
  rw [hpc]
  cases p with
  | none =>
    cases c with
    | none => rfl
    | some code =>
      show (codeData code).lookup "connectionToken" = none
      rw [lookup_codeData, if_neg (by decide)]
  | some q =>
    cases c with
    | none => exact hprofile q
    | some code =>
      show (codeData code ∪ q.toDict).lookup "connectionToken" = none
      rw [lookup_code_union code _ _ (by decide)]
      exact hprofile q

theorem home_never_shown_twoAccounts :
    ∃ s', Runs.run Fleet.step (fun _ => newDevice ⟨∅, ∅⟩) twoAccounts = some s' ∧
      (s' true).shows .makeNewConnect ∧ .mainHome ∉ (s' true).screens ∧
      (s' true).defaults.string "connectionToken" = none := by
  have hrun : (Runs.run Fleet.step (fun _ : Bool => newDevice ⟨∅, ∅⟩) twoAccounts).any
      (fun s => decide ((s true).shows .makeNewConnect)) = true := by
    decide +kernel
  obtain ⟨s', hs', hend⟩ := (Option.any_eq_true _ _).1 hrun
  obtain ⟨hhome, -, htoken, -⟩ := home_never_shown ⟨∅, ∅⟩ ⟨_, represents_empty⟩ _ s' twoAccounts
    (Fleet.firstLaunch_newDevices ⟨∅, ∅⟩) hs' true
  exact ⟨s', hs', of_decide_eq_true hend, hhome, htoken⟩

end ProjectSY
