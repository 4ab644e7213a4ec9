import LexiGo.Account.AccountRuns

/-! The two kinds of one-time token that are mailed out, over all runs: the one
that sets a new password and the one that moves the account to a new address.
A change of the password ends the password resets that are pending, and a change
of the address the address changes; neither looks at tokens of the other kind. -/
namespace RecoveryTokens
open RowStore TransactionProgram Interleaving CommitContract RunSoundness
open AccountSchema AccountMachine AccountService AccountRefinement AccountRuns Function

variable {platform : Platform} {w w' : AccountWorld} {c : AccountConfig}
variable {n : Note} {s s' : Accounts} {u : UserId} {h : TokenHash} {seen : List Key}

inductive Kind
  | passwordReset
  | emailChange
  deriving DecidableEq

variable {kind : Kind}

def Kind.requested : Kind → UserId → TokenHash → List Key → Note
  | .passwordReset => .resetRequested
  | .emailChange => .emailRequested

def Kind.consumed : Kind → UserId → TokenHash → List Key → Note
  | .passwordReset => .passwordReset
  | .emailChange => .emailChanged

/-- The credentials that a token of this kind was issued under change. -/
def Kind.supersededBy : Kind → UserId → Note → Bool
  | .emailChange, u, .passwordReset v _ _ | .emailChange, u, .passwordChanged v _ _ => u = v
  | .passwordReset, u, .emailChanged v _ _ => u = v
  | _, _, _ => false

/-- The owner of a token and whether it is used up. -/
def Kind.token (s : Accounts) : Kind → TokenHash → Option (UserId × Bool)
  | .passwordReset, h => (s.reset h).map fun r => (r.userId, r.usedAt.isSome)
  | .emailChange, h => (s.change h).map fun r => (r.userId, r.usedAt.isSome)

/-- No token is consumed after the credentials it was issued under have changed. -/
def RecoveryTokensDie (w : AccountWorld) : Prop :=
  ∀ (kind : Kind) u h i j k n seen seen', kind.supersededBy u n = true →
    ¬ [(k, kind.consumed u h seen'), (j, n), (i, kind.requested u h seen)].Sublist w.log

/-- The unused tokens of the other kind that a change of credentials finds. -/
def survivors (db : AccountDb) : Note → List Key
  | .passwordReset u _ _ | .passwordChanged u _ _ =>
    rowsWhere (emailChanges fun r => r.userId = u && r.usedAt.isNone) db
  | .emailChanged u _ _ => rowsWhere (passwordResets fun r => r.userId = u && r.usedAt.isNone) db
  | _ => []

def NoneSurvives (_ : Nat) (notes : List Note) (w _ : AccountWorld) : Prop :=
  ∀ n ∈ notes, survivors w.db n = []

instance (i : Nat) (notes : List Note) : Decidable (NoneSurvives i notes w w') :=
  inferInstanceAs (Decidable (∀ n ∈ notes, survivors w.db n = []))

theorem token_passwordReset {used : Bool} : Kind.passwordReset.token s h = some (u, used) ↔
    ∃ r, s.reset h = some r ∧ r.userId = u ∧ r.usedAt.isSome = used := by
  simp [Kind.token, Option.map_eq_some_iff]

theorem token_emailChange {used : Bool} : Kind.emailChange.token s h = some (u, used) ↔
    ∃ r, s.change h = some r ∧ r.userId = u ∧ r.usedAt.isSome = used := by
  simp [Kind.token, Option.map_eq_some_iff]

theorem survivors_none {db : AccountDb} (hn : survivors db n = [])
    (hs : kind.supersededBy u n = true) {used : Bool}
    (ht : kind.token (view db) h = some (u, used)) : used = true := by
  have reset : ∀ v, rowsWhere (passwordResets fun r => r.userId = v && r.usedAt.isNone) db = [] →
      u = v → kind = .passwordReset → used = true := by
    rintro v hnone rfl rfl
    obtain ⟨r, hr, hu, rfl⟩ := token_passwordReset.mp ht
    have hmem := List.eq_nil_iff_forall_not_mem.mp hnone (.passwordReset h)
    by_contra hused
    exact hmem (mem_rowsWhere.mpr ⟨r, hr, by simpa [passwordResets, hu] using hused⟩)
  have change : ∀ v, rowsWhere (emailChanges fun r => r.userId = v && r.usedAt.isNone) db = [] →
      u = v → kind = .emailChange → used = true := by
    rintro v hnone rfl rfl
    obtain ⟨r, hr, hu, rfl⟩ := token_emailChange.mp ht
    have hmem := List.eq_nil_iff_forall_not_mem.mp hnone (.emailChange h)
    by_contra hused
    exact hmem (mem_rowsWhere.mpr ⟨r, hr, by simpa [emailChanges, hu] using hused⟩)
  cases kind with
  | passwordReset =>
    cases n with
    | emailChanged v k seen => exact reset v hn (by simpa [Kind.supersededBy] using hs) rfl
    | _ => cases hs
  | emailChange =>
    cases n with
    | passwordReset v k seen => exact change v hn (by simpa [Kind.supersededBy] using hs) rfl
    | passwordChanged v k seen => exact change v hn (by simpa [Kind.supersededBy] using hs) rfl
    | _ => cases hs

/-- A token stays with its owner and, once used, stays used. -/
def Stays (kind : Kind) (s s' : Accounts) : Prop :=
  ∀ h u used, kind.token s h = some (u, used) →
    ∃ used', kind.token s' h = some (u, used') ∧ (used = true → used' = true)

theorem Stays.refl (kind : Kind) (s : Accounts) : Stays kind s s := fun _ _ used ht => ⟨used, ht, id⟩

theorem spendResets_stays (s : Accounts) (v : UserId) (seen : List Key) (now : Instant) :
    Stays .passwordReset s (s.spendResets v seen now) := by
  intro h u used ht
  obtain ⟨r, hr, rfl, rfl⟩ := token_passwordReset.mp ht
  refine ⟨_, token_passwordReset.mpr ⟨_, by simp [Accounts.spendResets, hr]; rfl, ?_, rfl⟩, ?_⟩
  · split_ifs <;> rfl
  · split_ifs
    · exact fun _ => rfl
    · exact id

theorem spendChanges_stays (s : Accounts) (v : UserId) (seen : List Key) (now : Instant) :
    Stays .emailChange s (s.spendChanges v seen now) := by
  intro h u used ht
  obtain ⟨r, hr, rfl, rfl⟩ := token_emailChange.mp ht
  refine ⟨_, token_emailChange.mpr ⟨_, by simp [Accounts.spendChanges, hr]; rfl, ?_, rfl⟩, ?_⟩
  · split_ifs <;> rfl
  · split_ifs
    · exact fun _ => rfl
    · exact id

/-- Tokens stay for as long as the owner exists. -/
theorem token_stays (hs : Step n s s') {used : Bool} (ht : kind.token s h = some (u, used)) :
    s'.user u = none ∨ ∃ used', kind.token s' h = some (u, used') ∧ (used = true → used' = true) := by
  cases hs with
  | @resetRequested _ v k seen e now fresh =>
    right
    cases kind with
    | emailChange => exact Stays.refl _ s _ _ _ ht
    | passwordReset =>
      obtain ⟨used', ht', mono⟩ := spendResets_stays s v seen now h u used ht
      refine ⟨used', ?_, mono⟩
      by_cases heq : h = k
      · subst heq
        simp [Kind.token, fresh] at ht
      · simpa [Kind.token, heq] using ht'
  | @emailRequested _ v k seen o a e now fresh =>
    right
    cases kind with
    | passwordReset => exact Stays.refl _ s _ _ _ ht
    | emailChange =>
      obtain ⟨used', ht', mono⟩ := spendChanges_stays s v seen now h u used ht
      refine ⟨used', ?_, mono⟩
      by_cases heq : h = k
      · subst heq
        simp [Kind.token, fresh] at ht
      · simpa [Kind.token, heq] using ht'
  | passwordReset | passwordChanged =>
    right
    cases kind with
    | passwordReset => exact spendResets_stays _ _ _ _ h u used ht
    | emailChange => exact Stays.refl _ s _ _ _ ht
  | emailChanged =>
    right
    cases kind with
    | passwordReset => exact Stays.refl _ s _ _ _ ht
    | emailChange => exact spendChanges_stays _ _ _ _ h u used ht
  | @emailCancelled _ k now =>
    right
    cases kind with
    | passwordReset => exact Stays.refl _ s _ _ _ ht
    | emailChange =>
      obtain ⟨r, hr, rfl, rfl⟩ := token_emailChange.mp ht
      by_cases heq : h = k
      · subst heq
        exact ⟨true, token_emailChange.mpr ⟨r.spend now, by simp [hr], rfl, rfl⟩, fun _ => rfl⟩
      · exact ⟨_, token_emailChange.mpr ⟨r, by simpa [heq] using hr, rfl, rfl⟩, id⟩
  | @deleted _ v =>
    by_cases heq : u = v
    · left
      subst heq
      simp [Accounts.without]
    · right
      refine ⟨used, ?_, id⟩
      cases kind with
      | passwordReset =>
        obtain ⟨r, hr, rfl, rfl⟩ := token_passwordReset.mp ht
        exact token_passwordReset.mpr ⟨r, by simp [Accounts.without, hr, heq], rfl, rfl⟩
      | emailChange =>
        obtain ⟨r, hr, rfl, rfl⟩ := token_emailChange.mp ht
        exact token_emailChange.mpr ⟨r, by simp [Accounts.without, hr, heq], rfl, rfl⟩
  | registered | stored | rotated | expired | familyRevoked | othersRevoked =>
    right
    cases kind <;> exact ⟨used, ht, id⟩

theorem requested_fresh (hs : Step (kind.requested u h seen) s s') :
    (s.user u).isSome = true ∧ kind.token s' h = some (u, false) := by
  cases kind with
  | passwordReset =>
    cases hs with
    | resetRequested _ hu => exact ⟨hu, by simp [Kind.token]⟩
  | emailChange =>
    cases hs with
    | emailRequested _ hu => exact ⟨hu, by simp [Kind.token]⟩

theorem consumed_unused (hs : Step (kind.consumed u h seen) s s') (linked : Linked s) :
    (s.user u).isSome = true ∧ kind.token s h = some (u, false) := by
  cases kind with
  | passwordReset =>
    cases hs with
    | passwordReset found unused =>
      exact ⟨linked _ _ found, token_passwordReset.mpr ⟨_, found, rfl, by simp [unused]⟩⟩
  | emailChange =>
    cases hs with
    | emailChanged found unused _ hu =>
      exact ⟨by simp [hu], token_emailChange.mpr ⟨_, found, rfl, by simp [unused]⟩⟩

/-- A user that has been deleted does not come back. -/
theorem gone_stays (hs : Step n s s') (known : s.issued u = true) (gone : s.user u = none) :
    s'.user u = none := by
  cases hr : s'.user u with
  | none => rfl
  | some r =>
    rcases hs.user_origin hr with ⟨r, found, -⟩ | ⟨fresh, -⟩
    · rw [gone] at found
      cases found
    · rw [known] at fresh
      cases fresh

/-- What every commit keeps. -/
structure Recorded (w : AccountWorld) : Prop where
  die : RecoveryTokensDie w
  issued : Issued (view w.db)
  known : ∀ (kind : Kind) i u h seen, (i, kind.requested u h seen) ∈ w.log →
    (view w.db).issued u = true
  recorded : ∀ (kind : Kind) i u h seen, (i, kind.requested u h seen) ∈ w.log →
    (view w.db).user u = none ∨ ∃ used, kind.token (view w.db) h = some (u, used)
  spent : ∀ (kind : Kind) i j u h seen n, kind.supersededBy u n = true →
    [(j, n), (i, kind.requested u h seen)].Sublist w.log →
      (view w.db).user u = none ∨ kind.token (view w.db) h = some (u, true)

theorem gone_or_stays (hs : Step n s s') (known : s.issued u = true) {used : Bool}
    (ht : s.user u = none ∨ kind.token s h = some (u, used)) :
    s'.user u = none ∨ ∃ used', kind.token s' h = some (u, used') ∧ (used = true → used' = true) := by
  rcases ht with gone | ht
  · exact .inl (gone_stays hs known gone)
  · exact token_stays hs ht

theorem commit_keeps (hc : Commits (accountContract NoneSurvives) w w') (hw : Recorded w) :
    Recorded w' := by
  have linked := commits_linked hc
  obtain ⟨i, n, hlog, hstep, hnone⟩ := commits_step hc
  have hnone : survivors w.db n = [] := hnone n (by simp)
  refine ⟨?_, hstep.keeps_issued hw.issued, ?_, ?_, ?_⟩
  · intro kind u h i' j k m seen seen' super hsub
    rw [hlog] at hsub
    cases hsub with
    | cons _ hsub => exact hw.die _ _ _ _ _ _ _ _ _ super hsub
    | cons_cons _ hsub =>
      obtain ⟨owner, unused⟩ := consumed_unused hstep linked
      rcases hw.spent kind i' j u h seen m super hsub with gone | used
      · simp [gone] at owner
      · simp [used] at unused
  · intro kind j u h seen hmem
    rw [hlog] at hmem
    rcases List.mem_cons.mp hmem with heq | hmem
    · cases heq
      obtain ⟨r, hr⟩ := Option.isSome_iff_exists.mp (requested_fresh hstep).1
      exact hstep.issued_mono (hw.issued.user u r hr)
    · exact hstep.issued_mono (hw.known kind j u h seen hmem)
  · intro kind j u h seen hmem
    rw [hlog] at hmem
    rcases List.mem_cons.mp hmem with heq | hmem
    · cases heq
      exact .inr ⟨false, (requested_fresh hstep).2⟩
    · have known := hw.known kind j u h seen hmem
      rcases hw.recorded kind j u h seen hmem with gone | ⟨used, ht⟩
      · exact .inl (gone_stays hstep known gone)
      · rcases token_stays hstep ht with gone | ⟨used', ht', -⟩
        · exact .inl gone
        · exact .inr ⟨used', ht'⟩
  · intro kind i' j u h seen m super hsub
    rw [hlog] at hsub
    have later : ∀ (known : (view w.db).issued u = true),
        ((view w.db).user u = none ∨ kind.token (view w.db) h = some (u, true)) →
        (view w'.db).user u = none ∨ kind.token (view w'.db) h = some (u, true) := by
      intro known ht
      rcases gone_or_stays hstep known ht with gone | ⟨used', ht', mono⟩
      · exact .inl gone
      · exact .inr (by rw [ht', mono rfl])
    cases hsub with
    | cons _ hsub =>
      have hmem : (i', kind.requested u h seen) ∈ w.log := hsub.subset (by simp)
      exact later (hw.known _ _ _ _ _ hmem) (hw.spent kind i' j u h seen m super hsub)
    | cons_cons _ hsub =>
      have hmem := List.singleton_sublist.mp hsub
      refine later (hw.known _ _ _ _ _ hmem) ?_
      rcases hw.recorded kind i' u h seen hmem with gone | ⟨used, ht⟩
      · exact .inl gone
      · exact .inr (by rw [ht, survivors_none hnone super ht])

theorem empty_recorded : Recorded empty.world := by
  refine ⟨fun _ _ _ _ _ _ _ _ _ _ h => ?_, empty_issued, fun _ _ _ _ _ h => ?_,
    fun _ _ _ _ _ h => ?_, fun _ _ _ _ _ _ _ _ h => ?_⟩
  all_goals cases h

/-- In every run in which no change of credentials finds an unused token of the
other kind, the tokens issued before it are dead. -/
theorem recovery_tokens_die (h : Run (program platform) NoneSurvives empty c) :
    RecoveryTokensDie c.world :=
  (history_keeps (run_history h).2 (fun _ _ => commit_keeps) empty_recorded).die

def movingAddress (i : Nat) (password : String) : List (Action Op) :=
  .start (.requestEmailChange 1 password "eve@example.org") ::
    steps i [0, 9, 100, 900, 0, 0, 0, 0, 0, 0, 0, 0, 1]

/-- With so many sessions of the user to end. -/
def followingLink (i sessions : Nat) : List (Action Op) :=
  .start (.confirmEmailChange 9) :: steps i (600 :: List.replicate (16 + 3 * sessions) 0)

def resettingPassword (i : Nat) (email : String) : List (Action Op) :=
  .start (.requestPasswordReset email) :: steps i [0, 7, 800, 0, 0, 0, 0, 0, 0, 0, 0] ++
    .start (.resetPassword 7 "better") ::
      steps (i + 1) [4, 500, 0, 0, 0, 0, 0, 0, 0, 0, 0, 0, 0, 0, 0, 0, 0, 0]

theorem movedFirst_die : ∃ c,
    exec (program plainPlatform) NoneSurvives empty (signUp ++ movingAddress 1 "secret" ++
      followingLink 2 1 ++ resettingPassword 3 "eve@example.org") = some c ∧
      c.world.log.head? = some (4, .passwordReset 1 7 [.passwordReset 7]) ∧
      RecoveryTokensDie c.world := by
  have log : (exec (program plainPlatform) NoneSurvives empty (signUp ++ movingAddress 1 "secret" ++
      followingLink 2 1 ++ resettingPassword 3 "eve@example.org")).map
        (fun c => c.world.log.head?) = some (some (4, .passwordReset 1 7 [.passwordReset 7])) := by
    decide +kernel
  obtain ⟨c, hc, heq⟩ := Option.map_eq_some_iff.mp log
  exact ⟨c, hc, heq, recovery_tokens_die (.of_exec _ hc)⟩

/-- An intruder who knows the password asks for another address. The owner
resets the password, which ends every session but not the link. -/
theorem address_moves_after_reset :
    ¬ ∀ c, Run (program plainPlatform) (fun _ _ _ _ => True) empty c → RecoveryTokensDie c.world := by
  intro die
  have log : (exec (program plainPlatform) (fun _ _ _ _ => True) empty (signUp ++
      movingAddress 1 "secret" ++ resettingPassword 2 "ada@example.org" ++ followingLink 4 0)).map
        (fun c => c.world.log) = some [(4, .emailChanged 1 9 [.emailChange 9]),
          (3, .passwordReset 1 7 [.passwordReset 7]), (2, .resetRequested 1 7 []),
          (1, .emailRequested 1 9 []), (0, .stored 1 1 5 2), (0, .registered 1)] := by
    decide +kernel
  obtain ⟨c, hc, heq⟩ := Option.map_eq_some_iff.mp log
  refine die c (.of_exec _ hc) .emailChange 1 9 1 3 4 (.passwordReset 1 7 [.passwordReset 7])
    [] [.emailChange 9] rfl ?_
  rw [heq]
  decide

end RecoveryTokens
