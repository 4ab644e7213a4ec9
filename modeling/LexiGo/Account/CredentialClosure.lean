import LexiGo.Account.AccountRuns

/-! What a change of credentials ends, over all runs. A reset or changed
password, a changed address and the revocation of other sessions all raise the
version of their user in the transaction that closes the refresh tokens, and
whoever makes a token holds the row that carries the version. -/
namespace CredentialClosure
open RowStore TransactionProgram Interleaving CommitContract RunSoundness
open AccountSchema AccountMachine AccountRepository AccountService AccountRefinement AccountRuns

variable {allow : Nat → List Note → AccountWorld → AccountWorld → Prop} {platform : Platform}
variable {w w' : AccountWorld} {c₀ c₁ c : AccountConfig}
variable {n : Note} {s s' : Accounts} {u : UserId} {keep : Option FamilyId} {version : Nat}

/-- The user whose credentials a commit changes, and the family it keeps. -/
def credentialChange : Note → Option (UserId × Option FamilyId)
  | .passwordReset u _ _ | .emailChanged u _ _ => some (u, none)
  | .passwordChanged u keep _ | .othersRevoked u keep => some (u, some keep)
  | _ => none

/-- Only the kept family has a token of the user that is not revoked. -/
def OnlyOpen (u : UserId) (keep : Option FamilyId) (s : Accounts) : Prop :=
  ∀ h t, s.token h = some t → t.userId = u → t.revokedAt = none → keep = some t.familyId

theorem revokeAll_onlyOpen (s : Accounts) (u : UserId) (now : Instant) :
    OnlyOpen u none (s.revokeAll u now) := by
  intro h t ht hu hn
  obtain ⟨r, -, rfl⟩ := Option.map_eq_some_iff.mp ht
  dsimp only at hu hn
  split_ifs at hu hn with hr
  · simp [RefreshToken.revoke, coalesce] at hn
  · exact absurd hu hr

theorem keepFamily_onlyOpen (s : Accounts) (u : UserId) (f : FamilyId) (version : Nat)
    (now : Instant) : OnlyOpen u (some f) (s.keepFamily u f version now) := by
  intro h t ht hu hn
  obtain ⟨r, -, rfl⟩ := Option.map_eq_some_iff.mp ht
  dsimp only at hu hn ⊢
  split_ifs at hu hn ⊢ with hr hf
  · simp [hf]
  · simp [RefreshToken.revoke, coalesce] at hn
  · exact absurd hu hr

/-- The version of the user goes up by one with every such change. -/
structure Changed (u : UserId) (keep : Option FamilyId) (s s' : Accounts) : Prop where
  raised : ∃ r r', s.user u = some r ∧ s'.user u = some r' ∧ r'.authVersion = r.authVersion + 1
  closed : OnlyOpen u keep s'

theorem mapUser_raised {s : Accounts} {u : UserId} {r : UserRow} (hr : s.user u = some r)
    {g : UserRow → UserRow} (hg : (g r).authVersion = r.authVersion + 1) :
    ∃ r r', s.user u = some r ∧ (s.mapUser u g).user u = some r' ∧
      r'.authVersion = r.authVersion + 1 :=
  ⟨r, g r, hr, by simp [Accounts.mapUser, hr], hg⟩

theorem credentialChange_changed (hs : Step n s s') (linked : Linked s)
    (hn : credentialChange n = some (u, keep)) : Changed u keep s s' := by
  cases hs with
  | passwordReset found =>
    cases hn
    obtain ⟨r, hr⟩ := Option.isSome_iff_exists.mp (linked _ _ found)
    exact ⟨mapUser_raised hr rfl, revokeAll_onlyOpen _ _ _⟩
  | passwordChanged hr =>
    cases hn
    exact ⟨mapUser_raised hr rfl, keepFamily_onlyOpen _ _ _ _ _⟩
  | othersRevoked hr =>
    cases hn
    exact ⟨mapUser_raised hr rfl, keepFamily_onlyOpen _ _ _ _ _⟩
  | emailChanged _ _ _ hr =>
    cases hn
    exact ⟨mapUser_raised hr rfl, revokeAll_onlyOpen _ _ _⟩
  | _ => cases hn

/-- What holds from the change on. `before` are the identifiers that had been
handed out by then: a family that is not among them belongs to a later login. -/
structure Closed (u : UserId) (version : Nat) (keep : Option FamilyId) (before : Nat → Bool)
    (s : Accounts) : Prop where
  known : s.issued u = true
  current : ∀ r, s.user u = some r → version ≤ r.authVersion
  issued : ∀ f, before f = true → s.issued f = true
  tokens : ∀ h t, s.token h = some t → t.userId = u → t.revokedAt = none →
    keep = some t.familyId ∨ before t.familyId = false

theorem Changed.closed_from {r' : UserRow} (h : Changed u keep s s') (hi : Issued s')
    (hr : s'.user u = some r') : Closed u r'.authVersion keep s'.issued s' := by
  refine ⟨hi.user u r' hr, fun r hr₁ => ?_, fun _ hf => hf, fun h₁ t ht hu hn => ?_⟩
  · rw [hr] at hr₁
    cases hr₁
    exact Nat.le_refl _
  · exact .inl (h.closed h₁ t ht hu hn)

variable {before : Nat → Bool}

theorem Closed.step (hc : Closed u version keep before s) (hs : Step n s s') :
    Closed u version keep before s' := by
  refine ⟨hs.issued_mono hc.known, fun r' hr => ?_, fun f hf => hs.issued_mono (hc.issued f hf),
    fun h t ht hu hn => ?_⟩
  · rcases hs.user_origin hr with ⟨r, found, le⟩ | ⟨fresh, -⟩
    · have := hc.current r found
      omega
    · rw [hc.known] at fresh
      cases fresh
  · cases hs.token_origin ht with
    | kept found older =>
      rw [older.familyId]
      exact hc.tokens _ _ found (older.userId ▸ hu) (older.unrevoked hn)
    | replaced found userId familyId unrevoked =>
      rw [← familyId]
      exact hc.tokens _ _ found (userId.trans hu) unrevoked
    | opened fresh =>
      right
      by_contra hb
      have := hc.issued _ (by simpa using hb)
      rw [fresh] at this
      cases this

/-- A token that is stored or rotated after the change is of the new version,
and what is rotated is the kept family or one that was opened since. -/
def Permitted (u : UserId) (version : Nat) (keep : Option FamilyId) (before : Nat → Bool) :
    Note → Prop
  | .stored v made _ _ => v = u → version ≤ made
  | .rotated v made _ _ f => v = u → version ≤ made ∧ (keep = some f ∨ before f = false)
  | _ => True

theorem Closed.permits (hc : Closed u version keep before s) (hs : Step n s s') :
    Permitted u version keep before n := by
  cases hs with
  | stored hr =>
    rintro rfl
    exact hc.current _ hr
  | rotated hr found hu _ unrevoked =>
    rintro rfl
    exact ⟨hc.current _ hr, hc.tokens _ _ found hu unrevoked⟩
  | _ => trivial

/-- Every commit of a later history is permitted. -/
structure Since (u : UserId) (version : Nat) (keep : Option FamilyId) (before : Nat → Bool)
    (w w' : AccountWorld) : Prop where
  closed : Closed u version keep before (view w'.db)
  permitted : ∃ later, w'.log = later ++ w.log ∧ ∀ e ∈ later, Permitted u version keep before e.2

theorem history_since (h : AccountHistory allow w w')
    (hc : Closed u version keep before (view w.db)) : Since u version keep before w w' := by
  have keeps : ∀ v v', Commits (accountContract allow) v v' → Since u version keep before w v →
      Since u version keep before w v' := by
    rintro v v' hv ⟨closed, later, hlog, permitted⟩
    obtain ⟨i, n, hn, hstep, -⟩ := commits_step hv
    refine ⟨closed.step hstep, (i, n) :: later, by rw [hn, hlog]; rfl, ?_⟩
    intro e he
    rcases List.mem_cons.mp he with rfl | he
    · exact closed.permits hstep
    · exact permitted e he
  exact history_keeps h keeps ⟨hc, [], rfl, by simp⟩

/-- A request to validate a token is waiting, or has read the version, or is done. -/
inductive Validating (token : AccessToken) : Option (AccountProg (Reply Answer)) → Prop
  | lost : Validating token none
  | arrived : Validating token (some (validateAccess token))
  | looking : Validating token (some (currentAccess token))
  | answered (a : Reply Answer) : Validating token (some (.ret a))

def ValidatesAccess (p : Proc Row Note Op (Reply Answer)) : Prop :=
  ∀ token, p.op = .validateAccess token → p.tx = {} ∧ Validating token p.code

/-- The answer to a token, given the row of its user. -/
def verdict (token : AccessToken) : Option UserRow → Reply Answer
  | none => .error .invalidAccess
  | some r =>
    if r.authVersion ≠ token.authVersion then .error .invalidAccess
    else .ok (.authenticated token.subject)

theorem currentAccess_eq (token : AccessToken) : currentAccess token =
    .look fun db => .ret (verdict token (db.lookup (.user token.subject))) := by
  refine congrArg Prog.look (funext fun db => ?_)
  simp only [Prog.bind]
  cases db.lookup (Key.user token.subject) with
  | none => rfl
  | some r =>
    by_cases h : r.authVersion = token.authVersion <;> simp [verdict, h, Prog.pure_def, Prog.bind]

theorem verdict_accepts {token : AccessToken} {found : Option UserRow} {v : UserId}
    (h : verdict token found = .ok (.authenticated v)) :
    ∃ r, found = some r ∧ r.authVersion = token.authVersion := by
  cases found with
  | none => cases h
  | some r =>
    by_cases hv : r.authVersion = token.authVersion
    · exact ⟨r, rfl, hv⟩
    · simp [verdict, hv] at h

theorem validatesAccess_local : Local (program platform) ValidatesAccess := by
  refine ⟨?_, ?_, ?_⟩
  · rintro op w token rfl
    exact ⟨rfl, .arrived⟩
  · intro ⟨op, born, tx, left⟩ code db choice hp hcode token hop
    cases hcode
    obtain ⟨htx, phase⟩ := hp token (by cases code <;> exact hop)
    cases phase with
    | arrived =>
      refine ⟨htx, ?_⟩
      show Validating token (some (if _ then _ else _))
      split
      · exact .answered _
      · exact .looking
    | looking =>
      rw [currentAccess_eq]
      exact ⟨htx, .answered _⟩
    | answered a => exact ⟨htx, .answered a⟩
  · intro p hp token hop
    exact ⟨rfl, .lost⟩

/-- A token is accepted in a world in which its version is the current one. -/
theorem accepted_current (h : Run (program platform) allow c₁ c) {j : Nat}
    {p : Proc Row Note Op (Reply Answer)} {token : AccessToken} {v : UserId}
    (start : ∀ (j : Nat) p, c₁.procs[j]? = some p → ValidatesAccess p)
    (hp : c.procs[j]? = some p) (hop : p.op = .validateAccess token)
    (waiting : c₁.answer j = none) (ha : p.code = some (.ret (.ok (.authenticated v)))) :
    ∃ c₂ r, Run (program platform) allow c₁ c₂ ∧
      (view c₂.world.db).user token.subject = some r ∧ r.authVersion = token.authVersion := by
  rcases h.answered waiting hp ha with ⟨c₂, op, _, rfl⟩ | ⟨c₂, q, code, choice, hrun, hq, hcode, left, rfl⟩
  · cases hop
    cases ha
  · obtain ⟨op, born, tx, rest⟩ := q
    cases hcode
    have hop : op = .validateAccess token := by cases code <;> exact hop
    obtain ⟨htx, phase⟩ := validatesAccess_local.run hrun start j _ hq token hop
    cases phase with
    | arrived =>
      have ha : (if _ then _ else _ : AccountProg (Reply Answer)) = _ := Option.some.inj ha
      split at ha <;> cases ha
    | looking =>
      rw [currentAccess_eq] at ha
      cases htx
      obtain ⟨r, hr, hv⟩ := verdict_accepts (Prog.ret.inj (Option.some.inj ha))
      exact ⟨c₂, r, hrun, hr, hv⟩
    | answered a => exact absurd rfl (left a)

/-- Between the change, after which the run is at `c₁`, and `c`: no token of an
earlier version was accepted, stored or rotated, and no family but the kept one
and those opened since was. -/
structure SessionsEnd (u : UserId) (version : Nat) (keep : Option FamilyId)
    (c₁ c : AccountConfig) : Prop where
  access : ∀ (j : Nat) p token v, c.procs[j]? = some p → p.op = .validateAccess token →
    token.subject = u → c₁.answer j = none → p.code = some (.ret (.ok (.authenticated v))) →
    version ≤ token.authVersion
  refresh : ∃ later, c.world.log = later ++ c₁.world.log ∧
    ∀ e ∈ later, Permitted u version keep (view c₁.world.db).issued e.2

theorem sessions_end {i choice : Nat} {keep : Option FamilyId}
    (past : Run (program platform) (fun _ _ _ _ => True) empty c₀)
    (change : step (program platform) c₀ (.advance i choice) = some c₁)
    (commits : published c₀ (.advance i choice) = some (i, [n]))
    (credential : credentialChange n = some (u, keep))
    (later : Run (program platform) (fun _ _ _ _ => True) c₁ c) :
    ∃ r r', (view c₀.world.db).user u = some r ∧ (view c₁.world.db).user u = some r' ∧
      r'.authVersion = r.authVersion + 1 ∧ SessionsEnd u r'.authVersion keep c₁ c := by
  obtain ⟨safe, hist⟩ := run_history past
  have issued := history_issued hist empty_issued
  have past₁ := past.tail _ change fun _ _ _ => trivial
  obtain ⟨safe₁, -⟩ := run_history past₁
  have changed : Step n (view c₀.world.db) (view c₁.world.db) := by
    rcases safe.commits change fun _ _ _ => trivial with ⟨none, -⟩ | ⟨j, notes, same, hc⟩
    · rw [commits] at none
      cases none
    · rw [commits] at same
      cases same
      obtain ⟨n', heq, hstep⟩ := hc.step
      cases heq
      exact hstep
  have closes := credentialChange_changed changed safe.inv credential
  obtain ⟨r, r', hr, hr', raised⟩ := closes.raised
  have closed := closes.closed_from (changed.keeps_issued issued) hr'
  refine ⟨r, r', hr, hr', raised, ?_, (history_since (run_sound account_sound later safe₁).2
    closed).permitted⟩
  rintro j p token v hp hop rfl waiting ha
  have start : ∀ (j : Nat) p, c₁.procs[j]? = some p → ValidatesAccess p :=
    validatesAccess_local.run past₁ (by simp [empty])
  obtain ⟨c₂, row, hrun, hrow, hv⟩ := accepted_current later start hp hop waiting ha
  have since := history_since (run_sound account_sound hrun safe₁).2 closed
  rw [← hv]
  exact since.closed.current row hrow

/-- A signed-in user changes the password: up to the commit, and from it to a
refresh of the session that was kept. -/
def changingPassword : List (Action Op) :=
  signUp ++ .start (.changePassword 1 5 "secret" "better") ::
    steps 1 [0, 3, 500, 0, 0, 0, 0, 0, 0, 0, 0, 0, 0, 0, 0, 0, 0, 0, 0]

theorem changingPassword_ends : ∃ c₀ c₁ c,
    exec (program plainPlatform) (fun _ _ _ _ => True) empty changingPassword = some c₀ ∧
      step (program plainPlatform) c₀ (.advance 1 0) = some c₁ ∧
      exec (program plainPlatform) (fun _ _ _ _ => True) c₁ (refreshing 2 5 6) = some c ∧
      c.world.log.head? = some (2, .rotated 1 2 5 6 2) ∧ SessionsEnd 1 2 (some 2) c₁ c := by
  have run : ((exec (program plainPlatform) (fun _ _ _ _ => True) empty changingPassword).bind
      fun c₀ => (step (program plainPlatform) c₀ (.advance 1 0)).bind fun c₁ =>
        (exec (program plainPlatform) (fun _ _ _ _ => True) c₁ (refreshing 2 5 6)).map fun c =>
          (published c₀ (.advance 1 0), c.world.log.head?,
            (c₁.world.db.lookup (.user 1)).map UserRow.authVersion)) =
      some (some (1, [.passwordChanged 1 2 []]), some (2, .rotated 1 2 5 6 2), some 2) := by
    decide +kernel
  obtain ⟨c₀, h₀, run⟩ := Option.bind_eq_some_iff.mp run
  obtain ⟨c₁, h₁, run⟩ := Option.bind_eq_some_iff.mp run
  obtain ⟨c, h, run⟩ := Option.map_eq_some_iff.mp run
  obtain ⟨commits, log, version⟩ : _ ∧ _ ∧ _ := by simpa only [Prod.mk.injEq] using run
  obtain ⟨row, hrow, hv⟩ := Option.map_eq_some_iff.mp version
  obtain ⟨r, r', -, hr', -, sessions⟩ :=
    sessions_end (.of_exec _ h₀) h₁ commits rfl (.of_exec _ h)
  refine ⟨c₀, c₁, c, h₀, h₁, h, log, ?_⟩
  have same : r' = row := Option.some.inj (hr'.symm.trans hrow)
  rw [same, hv] at sessions
  exact sessions

end CredentialClosure
