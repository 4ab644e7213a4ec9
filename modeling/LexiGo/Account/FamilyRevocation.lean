import LexiGo.Account.AccountRuns

/-! Revoking a family of refresh tokens, by logging out or because a replaced
token came back, over all runs. The `UPDATE` that revokes a family goes through
the rows its snapshot shows; a rotation that commits after the snapshot adds a
row it does not show. -/
namespace FamilyRevocation
open RowStore TransactionProgram Interleaving CommitContract RunSoundness
open AccountSchema AccountMachine AccountService AccountRefinement AccountRuns

variable {platform : Platform} {w w' : AccountWorld} {c : AccountConfig}

/-- A token of the family that could still be rotated. -/
def Open (f : FamilyId) (s : Accounts) (h : TokenHash) : Prop :=
  ∃ r, s.token h = some r ∧ r.familyId = f ∧ r.revokedAt = none

/-- Revoked families have no open token and are never rotated again. -/
structure RevocationComplete (w : AccountWorld) : Prop where
  closed : ∀ i f seen h, (i, Note.familyRevoked f seen) ∈ w.log → ¬ Open f (view w.db) h
  final : ∀ i j f seen u version old new,
    ¬ [(j, Note.rotated u version old new f), (i, Note.familyRevoked f seen)].Sublist w.log

def openTokens (f : FamilyId) (db : AccountDb) : List Key :=
  rowsWhere (refreshTokens fun r => r.familyId = f && r.revokedAt.isNone) db

/-- The tokens of the family that are open when its revocation commits were
all in the snapshot of its `UPDATE`. -/
def seesFamily (db : AccountDb) : Note → Bool
  | .familyRevoked f seen => (openTokens f db).all fun k => k ∈ seen
  | _ => true

def RevocationSeesFamily (_ : Nat) (notes : List Note) (w _ : AccountWorld) : Prop :=
  ∀ n ∈ notes, seesFamily w.db n = true

instance (i : Nat) (notes : List Note) : Decidable (RevocationSeesFamily i notes w w') :=
  inferInstanceAs (Decidable (∀ n ∈ notes, seesFamily w.db n = true))

theorem mem_openTokens {f : FamilyId} {db : AccountDb} {h : TokenHash} :
    Key.refreshToken h ∈ openTokens f db ↔ Open f (view db) h := by
  rw [openTokens, mem_rowsWhere]
  constructor
  · rintro ⟨r, hr, hp⟩
    have := Bool.and_eq_true_iff.mp hp
    exact ⟨r, hr, by simpa using this.1, by simpa using this.2⟩
  · rintro ⟨r, hr, hf, hn⟩
    exact ⟨r, hr, by simp [refreshTokens, hf, hn]⟩

theorem seesFamily_open {f : FamilyId} {seen : List Key} {db : AccountDb} {h : TokenHash}
    (hs : seesFamily db (.familyRevoked f seen) = true) (ho : Open f (view db) h) :
    Key.refreshToken h ∈ seen := by
  have := List.all_eq_true.mp hs _ (mem_openTokens.mpr ho)
  simpa using this

/-- Besides what a revocation closes, only a new family has a new open token. -/
theorem open_origin {n : Note} {s s' : Accounts} (hs : Step n s s') {f : FamilyId} {h : TokenHash}
    (ho : Open f s' h) : (∃ h', Open f s h') ∨ s.issued f = false := by
  obtain ⟨r', hr', rfl, hn⟩ := ho
  cases hs.token_origin hr' with
  | kept found older => exact .inl ⟨h, _, found, older.familyId.symm, older.unrevoked hn⟩
  | replaced found _ familyId unrevoked => exact .inl ⟨_, _, found, familyId, unrevoked⟩
  | opened fresh => exact .inr fresh

theorem revoked_closes {s s' : Accounts} {f : FamilyId} {seen : List Key}
    (hs : Step (.familyRevoked f seen) s s')
    (hseen : ∀ h, Open f s h → Key.refreshToken h ∈ seen) (h : TokenHash) : ¬ Open f s' h := by
  rintro ⟨r', hr', hf, hn⟩
  cases hs with
  | familyRevoked hg _ _ =>
    obtain ⟨r, found, rfl⟩ := Option.map_eq_some_iff.mp hr'
    dsimp only at hf hn
    split_ifs at hf hn with hc
    · have := hg.revoked r
      rw [hn] at this
      cases this
    · exact hc ⟨hseen h ⟨r, found, hf, hn⟩, hf⟩

/-- A token that the snapshot missed is still open after the commit. -/
theorem missed_stays_open {s s' : Accounts} {f : FamilyId} {seen : List Key} {h : TokenHash}
    (hs : Step (.familyRevoked f seen) s s') (ho : Open f s h)
    (missed : Key.refreshToken h ∉ seen) : Open f s' h := by
  obtain ⟨r, found, hf, hn⟩ := ho
  cases hs with
  | familyRevoked => exact ⟨r, by simp [Accounts.mapToken, found, missed], hf, hn⟩

/-- Only a revocation that saw every open token leaves the family closed. -/
theorem complete_sees {allow : Nat → List Note → AccountWorld → AccountWorld → Prop}
    (hc : Commits (accountContract allow) w w') (complete : RevocationComplete w') :
    ∃ i n, w'.log = (i, n) :: w.log ∧ RevocationSeesFamily i [n] w w' := by
  obtain ⟨i, n, hlog, hstep, -⟩ := commits_step hc
  refine ⟨i, n, hlog, fun m hm => ?_⟩
  rw [List.mem_singleton] at hm
  subst hm
  cases m with
  | familyRevoked f seen =>
    refine List.all_eq_true.mpr fun k hk => ?_
    by_contra missed
    have missed : k ∉ seen := by simpa using missed
    obtain ⟨r, hr, hp⟩ := mem_rowsWhere.mp hk
    cases k with
    | refreshToken h =>
      have ho := missed_stays_open hstep (mem_openTokens.mp hk) missed
      exact complete.closed i f seen h (by simp [hlog]) ho
    | _ => cases hp
  | _ => rfl

theorem revoked_issued {s s' : Accounts} {f : FamilyId} {seen : List Key}
    (hs : Step (.familyRevoked f seen) s s') (hi : Issued s) : s.issued f = true := by
  cases hs with
  | familyRevoked _ found hf => exact hf ▸ hi.family _ _ found

theorem rotated_open {s s' : Accounts} {u : UserId} {version : Nat} {old new : TokenHash}
    {f : FamilyId} (hs : Step (.rotated u version old new f) s s') : Open f s old := by
  cases hs with
  | rotated _ found _ _ unrevoked => exact ⟨_, found, rfl, unrevoked⟩

/-- What every commit keeps. -/
structure Revoked (w : AccountWorld) : Prop where
  complete : RevocationComplete w
  issued : Issued (view w.db)
  families : ∀ i f seen, (i, Note.familyRevoked f seen) ∈ w.log → (view w.db).issued f = true

theorem commit_keeps (hc : Commits (accountContract RevocationSeesFamily) w w')
    (hw : Revoked w) : Revoked w' := by
  obtain ⟨i, n, hlog, hstep, hsees⟩ := commits_step hc
  refine ⟨⟨fun j f seen h hmem ho => ?_, fun j k f seen u version old new hsub => ?_⟩,
    hstep.keeps_issued hw.issued, fun j f seen hmem => ?_⟩
  · rw [hlog] at hmem
    rcases List.mem_cons.mp hmem with heq | hmem
    · cases heq
      exact revoked_closes hstep (fun k => seesFamily_open (hsees _ (by simp))) h ho
    · rcases open_origin hstep ho with ⟨h', ho'⟩ | fresh
      · exact hw.complete.closed j f seen h' hmem ho'
      · have := hw.families j f seen hmem
        simp [this] at fresh
  · rw [hlog] at hsub
    cases hsub with
    | cons _ hsub => exact hw.complete.final _ _ _ _ _ _ _ _ hsub
    | cons_cons _ hsub =>
      exact hw.complete.closed j f seen old (List.singleton_sublist.mp hsub) (rotated_open hstep)
  · rw [hlog] at hmem
    rcases List.mem_cons.mp hmem with heq | hmem
    · cases heq
      exact hstep.issued_mono (revoked_issued hstep hw.issued)
    · exact hstep.issued_mono (hw.families j f seen hmem)

theorem empty_revoked : Revoked empty.world := by
  refine ⟨⟨fun _ _ _ _ h => ?_, fun _ _ _ _ _ _ _ _ h => ?_⟩, empty_issued, fun _ _ _ h => ?_⟩
  all_goals cases h

/-- In every run in which no revocation misses an open token of its family,
revoked families stay closed. -/
theorem revocation_complete (h : Run (program platform) RevocationSeesFamily empty c) :
    RevocationComplete c.world :=
  (history_keeps (run_history h).2 (fun _ _ => commit_keeps) empty_revoked).complete

/-- A session that was refreshed once is logged out with its first token. -/
def loggingOut : List (Action Op) :=
  signUp ++ refreshing 1 5 6 ++ .start (.logout 5) :: steps 2 [30, 0, 0, 0, 0, 0, 0, 0, 0, 0, 0, 0]

theorem loggingOut_complete : ∃ c,
    exec (program plainPlatform) RevocationSeesFamily empty loggingOut = some c ∧
      c.world.log.head? = some (2, .familyRevoked 2 [.refreshToken 6, .refreshToken 5]) ∧
      RevocationComplete c.world := by
  have log : (exec (program plainPlatform) RevocationSeesFamily empty loggingOut).map
      (fun c => c.world.log.head?) =
        some (some (2, .familyRevoked 2 [.refreshToken 6, .refreshToken 5])) := by
    decide +kernel
  obtain ⟨c, hc, heq⟩ := Option.map_eq_some_iff.mp log
  exact ⟨c, hc, heq, revocation_complete (.of_exec _ hc)⟩

/-- Between the snapshot of the logout and its commit the current token is
replaced. The new one is not revoked, and the session goes on. -/
def rotatedMeanwhile : List (Action Op) :=
  signUp ++ refreshing 1 5 6 ++ .start (.logout 5) :: steps 2 [30, 0, 0, 0, 0] ++
    refreshing 3 6 7 ++ steps 2 [0, 0, 0, 0, 0, 0, 0] ++ refreshing 4 7 8

theorem rotation_escapes : ¬ ∀ c, Run (program plainPlatform) (fun _ _ _ _ => True) empty c →
    RevocationComplete c.world := by
  intro complete
  have log : (exec (program plainPlatform) (fun _ _ _ _ => True) empty rotatedMeanwhile).map
      (fun c => c.world.log) = some [(4, .rotated 1 1 7 8 2),
        (2, .familyRevoked 2 [.refreshToken 6, .refreshToken 5]), (3, .rotated 1 1 6 7 2),
        (1, .rotated 1 1 5 6 2), (0, .stored 1 1 5 2), (0, .registered 1)] := by
    decide +kernel
  obtain ⟨c, hc, heq⟩ := Option.map_eq_some_iff.mp log
  refine (complete c (.of_exec _ hc)).final 2 4 2 [.refreshToken 6, .refreshToken 5] 1 1 7 8 ?_
  rw [heq]
  decide

end FamilyRevocation
