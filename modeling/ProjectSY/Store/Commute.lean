import ProjectSY.Store.Mirror

/-!
# A saved profile and a requested code

Two updates of one record: the four fields of a profile, and the code.  Were they
independent, either order would end with `updated d form n` in memory and on the
server.  The four writes follow three rules:

                        server                       memory
    saved profile       the document is replaced     the data is replaced
    requested code      the code is merged           the code replaces the data

    save, then code     profile and code             the code alone
    code, then save     the profile alone            the profile alone

So neither order ends with the updated record, and the two orders differ, whatever
the record, the profile and the code (`updates_interfere`).
-/

namespace ProjectSY

/-- The record with the four fields of the profile and the code set, and every other
field as it was. -/
def updated (d : Dict) (form : ProfileForm) (randomNum : Nat) : Dict :=
  form.profile ∪ (codeData (connectionCode randomNum) ∪ d)

/-- `uid` is signed in, memory and server hold the record, nothing is pending. -/
structure Holding (w : World) (uid : String) (d : Dict) : Prop where
  token : w.user.userIdToken = some uid
  memory : w.user.userData = some d
  document : w.server.doc "users" uid = some d
  idle : w.Idle

/-- Memory, and the server once the writes are applied, hold the record. -/
structure EndsWith (w : World) (uid : String) (d : Dict) : Prop where
  memory : w.user.userData = some d
  document : w.settled.doc "users" uid = some d

def saveThenCode (w : World) (form : ProfileForm) (randomNum : Nat) : World :=
  (w.finishWritingProfile form).getConnectionCode randomNum

def codeThenSave (w : World) (form : ProfileForm) (randomNum : Nat) : World :=
  (w.getConnectionCode randomNum).finishWritingProfile form

/-- The updates are independent: both orders end with the updated record. -/
structure Independent (w : World) (uid : String) (d : Dict) (form : ProfileForm)
    (randomNum : Nat) : Prop where
  saveFirst : EndsWith (saveThenCode w form randomNum) uid (updated d form randomNum)
  codeFirst : EndsWith (codeThenSave w form randomNum) uid (updated d form randomNum)

/-! ## What each call does -/

/-- An accepted profile is in memory and on its way to the document. -/
theorem after_save (w : World) (form : ProfileForm) (uid : String) (jpeg : Data) (data : Dict)
    (hf : finishWritingProfile form w.user = .saved uid jpeg data) :
    (w.finishWritingProfile form).user = { w.user with userData := some data } ∧
    (w.finishWritingProfile form).settled.doc "users" uid = some data := by
  unfold World.finishWritingProfile
  rw [hf]
  refine ⟨rfl, ?_⟩
  show (w.issue (profileWrites uid data)).settled.doc "users" uid = _
  rw [settled_issue, users_settle_profileWrites, if_pos rfl]

/-- A code that is requested with data is in memory, and on its way to the
document. -/
theorem after_code (w : World) (uid : String) (d : Dict) (n : Nat)
    (ht : w.user.userIdToken = some uid) (hd : w.user.userData = some d) :
    (w.getConnectionCode n).user =
      { w.user with userData := some (codeData (connectionCode n)) } ∧
    (w.getConnectionCode n).settled.doc "users" uid =
      some (codeData (connectionCode n) ∪ (w.settled.doc "users" uid).getD ∅) := by
  have hwrites := getConnectionCode_writes w.user n uid ht
  have huser := getConnectionCode_user w.user n (by simp [ht]) (by simp [hd])
  unfold World.getConnectionCode
  rcases hg : getConnectionCode w.user n with ⟨writes, user⟩
  rw [hg] at hwrites huser
  subst hwrites huser
  refine ⟨rfl, ?_⟩
  show (w.issue (codeWrites w.user uid (connectionCode n))).settled.doc "users" uid = _
  rw [settled_issue, users_settle_codeWrites, if_pos rfl]

theorem saveThenCode_ends (w : World) (form : ProfileForm) (uid : String) (jpeg : Data)
    (data : Dict) (n : Nat) (hf : finishWritingProfile form w.user = .saved uid jpeg data) :
    (saveThenCode w form n).user.userData = some (codeData (connectionCode n)) ∧
    (saveThenCode w form n).settled.doc "users" uid =
      some (codeData (connectionCode n) ∪ data) := by
  obtain ⟨-, -, ht, -⟩ := (finishWritingProfile_saved_iff form w.user uid jpeg data).1 hf
  obtain ⟨huser, hdoc⟩ := after_save w form uid jpeg data hf
  obtain ⟨huser', hdoc'⟩ := after_code (w.finishWritingProfile form) uid data n
    (by rw [huser]; exact ht) (by rw [huser])
  unfold saveThenCode
  rw [huser', hdoc', hdoc]
  exact ⟨rfl, rfl⟩

theorem codeThenSave_ends (w : World) (form : ProfileForm) (uid : String) (jpeg : Data)
    (data d : Dict) (n : Nat) (hf : finishWritingProfile form w.user = .saved uid jpeg data)
    (hd : w.user.userData = some d) :
    (codeThenSave w form n).user.userData = some data ∧
    (codeThenSave w form n).settled.doc "users" uid = some data := by
  obtain ⟨hv, hj, ht, hp⟩ := (finishWritingProfile_saved_iff form w.user uid jpeg data).1 hf
  obtain ⟨huser, -⟩ := after_code w uid d n ht hd
  -- the form is judged by the user id, which the code left alone
  have hf' : finishWritingProfile form (w.getConnectionCode n).user = .saved uid jpeg data := by
    rw [finishWritingProfile_saved_iff, huser]
    exact ⟨hv, hj, ht, hp⟩
  obtain ⟨huser', hdoc'⟩ := after_save (w.getConnectionCode n) form uid jpeg data hf'
  unfold codeThenSave
  rw [huser', hdoc']
  exact ⟨rfl, rfl⟩

/-! ## Neither order updates the record -/

theorem lookup_name_profile (form : ProfileForm) :
    form.profile.lookup "name" = some (.string form.usernameTextField.entered) := by
  unfold ProfileForm.profile
  rw [lookup_profileData]
  simp

theorem lookup_name_codeData (code : String) : (codeData code).lookup "name" = none := by
  rw [lookup_codeData]
  simp

theorem lookup_name_updated (d : Dict) (form : ProfileForm) (n : Nat) :
    (updated d form n).lookup "name" = some (.string form.usernameTextField.entered) := by
  unfold updated
  rw [Records.lookup_union_or, lookup_name_profile]
  rfl

theorem lookup_code_updated (d : Dict) (form : ProfileForm) (n : Nat) :
    (updated d form n).lookup "connectionCode" = some (.string (connectionCode n)) := by
  unfold updated
  rw [Records.lookup_union_or, form.profile_connectionCode, Records.lookup_union_or,
    lookup_codeData, if_pos rfl]
  rfl

/-- A profile is not a record with a code. -/
theorem profile_ne_code (form : ProfileForm) (d : Dict) (code : String)
    (hd : d.lookup "connectionCode" = some (.string code)) : form.profile ≠ d := by
  intro h
  have hnone := form.profile_connectionCode
  rw [h, hd] at hnone
  cases hnone

/-- **The updates are never independent.**  Whatever record the user holds, in
memory and on the server alike, whatever profile is accepted and whatever code is
drawn: neither order ends with the updated record both in memory and on the server,
and the two orders end with different data and with different documents. -/
theorem updates_interfere (w : World) (uid : String) (d : Dict) (form : ProfileForm)
    (jpeg : Data) (data : Dict) (n : Nat) (h : Holding w uid d)
    (hf : finishWritingProfile form w.user = .saved uid jpeg data) :
    ¬ EndsWith (saveThenCode w form n) uid (updated d form n) ∧
    ¬ EndsWith (codeThenSave w form n) uid (updated d form n) ∧
    (saveThenCode w form n).user.userData ≠ (codeThenSave w form n).user.userData ∧
    (saveThenCode w form n).settled.doc "users" uid ≠
      (codeThenSave w form n).settled.doc "users" uid := by
  obtain ⟨-, -, -, hp⟩ := (finishWritingProfile_saved_iff form w.user uid jpeg data).1 hf
  obtain ⟨hmem1, hdoc1⟩ := saveThenCode_ends w form uid jpeg data n hf
  obtain ⟨hmem2, hdoc2⟩ := codeThenSave_ends w form uid jpeg data d n hf h.memory
  have hcode : (codeData (connectionCode n) ∪ data).lookup "connectionCode" =
      some (.string (connectionCode n)) := by
    rw [Records.lookup_union_or, lookup_codeData, if_pos rfl]
    rfl
  refine ⟨fun he => ?_, fun he => ?_, fun he => ?_, fun he => ?_⟩
  · -- memory has lost the name
    have heq : codeData (connectionCode n) = updated d form n :=
      Option.some.inj (hmem1.symm.trans he.memory)
    have hname := lookup_name_updated d form n
    rw [← heq, lookup_name_codeData] at hname
    cases hname
  · -- memory has lost the code
    have heq : data = updated d form n := Option.some.inj (hmem2.symm.trans he.memory)
    exact profile_ne_code form _ _ (lookup_code_updated d form n) (hp.trans heq)
  · rw [hmem1, hmem2, Option.some.injEq] at he
    exact profile_ne_codeData form _ (hp.trans he.symm)
  · rw [hdoc1, hdoc2, Option.some.injEq] at he
    exact profile_ne_code form _ _ hcode (hp.trans he.symm)

/-- `A` holds the profile that was fetched, and saves another one. -/
theorem fetchedProfile_holding :
    ∃ w, Runs.run step (newDevice serverWithA) fetchedProfile = some w ∧
      Holding w "A" profileOfA ∧
      finishWritingProfile nextForm w.user = .saved "A" [1] nextForm.profile := by
  have hrun : (Runs.run step (newDevice serverWithA) fetchedProfile).any (fun w =>
      decide (w.user.userIdToken = some "A" ∧ w.user.userData = some profileOfA ∧
        w.server.doc "users" "A" = some profileOfA ∧ w.Idle ∧
        finishWritingProfile nextForm w.user = .saved "A" [1] nextForm.profile)) = true := by
    decide +kernel
  obtain ⟨w, hw, hrun⟩ := (Option.any_eq_true _ _).1 hrun
  obtain ⟨ht, hm, hd, ho, hf⟩ := of_decide_eq_true hrun
  exact ⟨w, hw, ⟨ht, hm, hd, ho⟩, hf⟩

/-- The updates are not independent for `A`, who draws `000007`. -/
theorem updates_not_independent :
    ¬ ∀ (w : World) (uid : String) (d : Dict) (form : ProfileForm) (jpeg : Data) (data : Dict)
      (n : Nat), Runs.Reachable step FirstLaunch w → Holding w uid d →
      finishWritingProfile form w.user = .saved uid jpeg data → Independent w uid d form n := by
  intro h
  obtain ⟨w, hw, hold, hf⟩ := fetchedProfile_holding
  have hreach : Runs.Reachable step FirstLaunch w :=
    ⟨_, _, firstLaunch_newDevice serverWithA, hw⟩
  have hind := h w "A" profileOfA nextForm [1] nextForm.profile 7 hreach hold hf
  have hmem := (saveThenCode_ends w nextForm "A" [1] nextForm.profile 7 hf).1
  have heq : codeData (connectionCode 7) = updated profileOfA nextForm 7 :=
    Option.some.inj (hmem.symm.trans hind.saveFirst.memory)
  have hname := lookup_name_updated profileOfA nextForm 7
  rw [← heq, lookup_name_codeData] at hname
  cases hname

theorem updates_interfere_fetched :
    ∃ w, Holding w "A" profileOfA ∧
      ¬ EndsWith (saveThenCode w nextForm 7) "A" (updated profileOfA nextForm 7) ∧
      ¬ EndsWith (codeThenSave w nextForm 7) "A" (updated profileOfA nextForm 7) ∧
      (saveThenCode w nextForm 7).user.userData ≠ (codeThenSave w nextForm 7).user.userData ∧
      (saveThenCode w nextForm 7).settled.doc "users" "A" ≠
        (codeThenSave w nextForm 7).settled.doc "users" "A" := by
  obtain ⟨w, -, hold, hf⟩ := fetchedProfile_holding
  exact ⟨w, hold, updates_interfere w "A" profileOfA nextForm [1] nextForm.profile 7 hold hf⟩

end ProjectSY
