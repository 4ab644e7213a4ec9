import LexiGo.Account.AccountService
import LexiGo.Account.AccountMachine
import LexiGo.ReadCommitted.RowStatements

/-! Every commit of the account services is one step of the account machine,
whatever the other requests do between the statements that lead to it. -/
namespace AccountRefinement
open RowStore TransactionProgram Interleaving CommitContract RowStatements RunSoundness
open AccountSchema AccountMachine AccountRepository AccountService Function

abbrev AccountWorld := World Row Note

/-- Holding a user's row against writers keeps new tokens of that user away:
whoever issues one holds the row in share mode. Requests for mail only refer to
the row, and are kept away by whoever is deleting it. -/
structure UserGuard (u : UserId) (m : Mode) (s s' : Accounts) : Prop where
  tokens : m.writes → NoNewTokens u s s'
  requests : m = .update → NoNewRequests u s s'
  stays : (s.user u).isSome = true → (s'.user u).isSome = true

def accountContract (allow : Nat → List Note → AccountWorld → AccountWorld → Prop) :
    Contract Row Note where
  inv w := Linked (view w.db)
  step _ notes w w' := ∃ n, notes = [n] ∧ Step n (view w.db) (view w'.db)
  allow := allow
  guard k m w w' := ∀ u, k = .user u → UserGuard u m (view w.db) (view w'.db)

section Views
variable (db : AccountDb)

@[simp] theorem view_set_user (u : UserId) (v : Option UserRow) :
    view (set (Key.user u) v db) = { view db with user := update (view db).user u v } := by
  ext1 <;> funext x
  case user =>
    by_cases heq : x = u
    · subst heq; simp [view]
    · simp [view, lookup_set_ne, heq]
  all_goals simp [view, lookup_set_ne]

@[simp] theorem view_set_refreshToken (h : TokenHash) (v : Option RefreshToken) :
    view (set (Key.refreshToken h) v db) = { view db with token := update (view db).token h v } := by
  ext1 <;> funext x
  case token =>
    by_cases heq : x = h
    · subst heq; simp [view]
    · simp [view, lookup_set_ne, heq]
  all_goals simp [view, lookup_set_ne]

@[simp] theorem view_set_passwordReset (h : TokenHash) (v : Option PasswordReset) :
    view (set (Key.passwordReset h) v db) = { view db with reset := update (view db).reset h v } := by
  ext1 <;> funext x
  case reset =>
    by_cases heq : x = h
    · subst heq; simp [view]
    · simp [view, lookup_set_ne, heq]
  all_goals simp [view, lookup_set_ne]

@[simp] theorem view_set_emailChange (h : TokenHash) (v : Option EmailChange) :
    view (set (Key.emailChange h) v db) = { view db with change := update (view db).change h v } := by
  ext1 <;> funext x
  case change =>
    by_cases heq : x = h
    · subst heq; simp [view]
    · simp [view, lookup_set_ne, heq]
  all_goals simp [view, lookup_set_ne]

@[simp] theorem view_set_uuid (n : Nat) (v : Option Unit) :
    view (set (Key.uuid n) v db) = { view db with issued := update (view db).issued n v.isSome } := by
  ext1 <;> funext x
  case issued =>
    by_cases heq : x = n
    · subst heq; simp [view]
    · simp [view, lookup_set_ne, heq]
  all_goals simp [view, lookup_set_ne]

end Views

variable {allow : Nat → List Note → AccountWorld → AccountWorld → Prop}
variable {i : Nat} {t t' : Tx Row} {w w' w'' : AccountWorld}

abbrev AccountRely (allow : Nat → List Note → AccountWorld → AccountWorld → Prop) (i : Nat)
    (t : Tx Row) := Rely (accountContract allow) i t

/-- The lock on a user's row that an operation needs to be published. -/
def Licensed (held : List (Key × Mode)) : Note → Prop
  | .stored u _ _ _ | .rotated u _ _ _ _ => (Key.user u, Mode.share) ∈ held
  | .resetRequested u _ _ | .emailRequested u _ _ => (Key.user u, Mode.keyShare) ∈ held
  | .deleted u => (Key.user u, Mode.update) ∈ held
  | _ => True

theorem not_admitted {k : Key} {m n : Mode} (held : (k, n) ∈ t.held) (free : t.admits k m) :
    n.conflicts m = false := free n held

theorem publishes {n : Note} (inv : Linked (view w.db))
    (step : Step n (view w.db) (view (t.visible w.db))) (licensed : Licensed t.held n) :
    Publishes (accountContract allow) i t [n] w := by
  refine ⟨step.linked inv, ⟨n, rfl, step⟩, ?_⟩
  rintro k m free u rfl
  refine ⟨fun hm => ?_, fun hm => ?_, fun hu => ?_⟩
  · refine step.noNewTokens u ?_ ?_
    · rintro v h f rfl
      have := not_admitted licensed free
      rcases hm with rfl | rfl <;> cases this
    · rintro v h h' f rfl
      have := not_admitted licensed free
      rcases hm with rfl | rfl <;> cases this
  · subst hm
    refine step.noNewRequests u ?_ ?_
    · rintro h seen rfl
      cases not_admitted licensed free
    · rintro h seen rfl
      cases not_admitted licensed free
  · refine step.user_stays ?_ hu
    rintro rfl
    cases not_admitted licensed free

theorem rely_user {u : UserId} {m : Mode} (h : AccountRely allow i t w w')
    (hu : (Key.user u, m) ∈ t.held) : UserGuard u m (view w.db) (view w'.db) := by
  have stable : Stable (accountContract allow) i t
      (fun v => UserGuard u m (view w.db) (view v.db)) := by
    intro v v' ho hv
    have hg := ho.guard _ _ hu u rfl
    exact ⟨fun hm => (hv.tokens hm).trans (hg.tokens hm),
      fun hm => (hv.requests hm).trans (hg.requests hm), hg.stays ∘ hv.stays⟩
  exact stable.rely h ⟨fun _ => .refl u _, fun _ => .refl u _, id⟩

theorem rely_noNewTokens {u : UserId} {m : Mode} (h : AccountRely allow i t w w')
    (hu : (Key.user u, m) ∈ t.held) (hm : m.writes) : NoNewTokens u (view w.db) (view w'.db) :=
  (rely_user h hu).tokens hm

/-- What `UPDATE refresh_tokens` makes of the tokens it saw. -/
theorem updated_tokens {p : RefreshToken → Bool} {g : RefreshToken → RefreshToken}
    {seen done : List Key}
    (h : Changed (accountContract allow) i .noKeyUpdate
      (fun k r => if refreshTokens p k r then some (some (onRefreshToken g k r)) else none)
      seen done t w t' w') (later : AccountRely allow i t' w' w'') :
    view (t'.visible w''.db) = (view (t.visible w''.db)).mapToken fun k r =>
      if Key.refreshToken k ∈ seen ∧ p r = true then g r else r := by
  have settled := h.visible (h.settled (Or.inl rfl) later)
  ext1 <;> funext x <;> simp only [view, Accounts.mapToken, settled, bind_outcome_update]
  case token => rfl
  all_goals simp [refreshTokens]

theorem spent_resets {u : UserId} {now : Instant} {seen done : List Key}
    (h : Changed (accountContract allow) i .noKeyUpdate
      (fun k r => if passwordResets (fun r => r.userId = u && r.usedAt.isNone) k r
        then some (some (onPasswordReset (PasswordReset.spend now) k r)) else none)
      seen done t w t' w') (later : AccountRely allow i t' w' w'') :
    view (t'.visible w''.db) = (view (t.visible w''.db)).spendResets u seen now := by
  have settled := h.visible (h.settled (Or.inl rfl) later)
  ext1 <;> funext x <;> simp only [view, Accounts.spendResets, settled, bind_outcome_update] <;>
    simp [passwordResets, onPasswordReset]

theorem spent_changes {u : UserId} {now : Instant} {seen done : List Key}
    (h : Changed (accountContract allow) i .noKeyUpdate
      (fun k r => if emailChanges (fun r => r.userId = u && r.usedAt.isNone) k r
        then some (some (onEmailChange (EmailChange.spend now) k r)) else none)
      seen done t w t' w') (later : AccountRely allow i t' w' w'') :
    view (t'.visible w''.db) = (view (t.visible w''.db)).spendChanges u seen now := by
  have settled := h.visible (h.settled (Or.inl rfl) later)
  ext1 <;> funext x <;> simp only [view, Accounts.spendChanges, settled, bind_outcome_update] <;>
    simp [emailChanges, onEmailChange]

theorem wp_revokeFamily {f : FamilyId} {g : RefreshToken → RefreshToken}
    {Q : List Key × List Key → Tx Row → AccountWorld → Prop}
    (h : ∀ seen changed t' w', AccountRely allow i t w w' → t.held ⊆ t'.held →
      (∀ w'', AccountRely allow i t' w' w'' → view (t'.visible w''.db) =
        (view (t.visible w''.db)).mapToken fun k r =>
          if Key.refreshToken k ∈ seen ∧ r.familyId = f then g r else r) →
      Q (seen, changed) t' w') :
    wp (accountContract allow) i Q (revokeFamily f g) t w := by
  unfold revokeFamily
  rw [wp_bind, wp_select]
  intro w₁ hr₁ _
  rw [wp_bind]
  refine wp_changeEach (Or.inl rfl) _ (rowsWhere_nodup _ _) fun done t' w' hc => ?_
  refine h _ done t' w' (hr₁.trans hc.rely) hc.held fun w'' later => ?_
  simpa using updated_tokens hc later

/-- The keys that a statement's snapshot shows, taken while the transaction stands at `t`. -/
def Saw (allow : Nat → List Note → AccountWorld → AccountWorld → Prop) (i : Nat) (t : Tx Row)
    (w : AccountWorld) (p : ∀ k, Row k → Bool) (seen : List Key) : Prop :=
  ∃ w₁, AccountRely allow i t w w₁ ∧ seen = rowsWhere p (t.visible w₁.db)

/-- What the transaction holds and finds as the statement asks is in the snapshot. -/
theorem Saw.own {p : ∀ k, Row k → Bool} {seen : List Key} (h : Saw allow i t w p seen) {k : Key}
    (held : t.holds k) (unwritten : ¬ t.wrote k) {r : Row k} (hr : w.db.lookup k = some r)
    (hp : p k r = true) : k ∈ seen := by
  obtain ⟨w₁, hr₁, rfl⟩ := h
  exact mem_rowsWhere.mpr ⟨r, (t.visible_unwritten unwritten w₁.db).trans (hr₁.kept held hr), hp⟩

theorem wp_spendPasswordResets {u : UserId} {now : Instant}
    {Q : List Key → Tx Row → AccountWorld → Prop}
    (h : ∀ seen t' w', Saw allow i t w (passwordResets fun r => r.userId = u && r.usedAt.isNone) seen →
      AccountRely allow i t w w' → t.held ⊆ t'.held →
      (∀ w'', AccountRely allow i t' w' w'' → view (t'.visible w''.db) =
        (view (t.visible w''.db)).spendResets u seen now) → Q seen t' w') :
    wp (accountContract allow) i Q (spendPasswordResets u now) t w := by
  unfold spendPasswordResets
  rw [wp_bind, wp_select]
  intro w₁ hr₁ _
  rw [wp_bind]
  refine wp_changeEach (Or.inl rfl) _ (rowsWhere_nodup _ _) fun done t' w' hc => ?_
  exact h _ t' w' ⟨w₁, hr₁, rfl⟩ (hr₁.trans hc.rely) hc.held fun w'' later => spent_resets hc later

theorem wp_spendEmailChanges {u : UserId} {now : Instant}
    {Q : List Key → Tx Row → AccountWorld → Prop}
    (h : ∀ seen t' w', Saw allow i t w (emailChanges fun r => r.userId = u && r.usedAt.isNone) seen →
      AccountRely allow i t w w' → t.held ⊆ t'.held →
      (∀ w'', AccountRely allow i t' w' w'' → view (t'.visible w''.db) =
        (view (t.visible w''.db)).spendChanges u seen now) → Q seen t' w') :
    wp (accountContract allow) i Q (spendEmailChanges u now) t w := by
  unfold spendEmailChanges
  rw [wp_bind, wp_select]
  intro w₁ hr₁ _
  rw [wp_bind]
  refine wp_changeEach (Or.inl rfl) _ (rowsWhere_nodup _ _) fun done t' w' hc => ?_
  exact h _ t' w' ⟨w₁, hr₁, rfl⟩ (hr₁.trans hc.rely) hc.held fun w'' later => spent_changes hc later

/-- Seen through the writes of a transaction, too, no token of `u` is new. -/
theorem visible_noNewTokens {u : UserId} (t : Tx Row)
    (h : NoNewTokens u (view w.db) (view w'.db)) :
    NoNewTokens u (view (t.visible w.db)) (view (t.visible w'.db)) := by
  intro k r' hr' hu
  by_cases hk : t.wrote (Key.refreshToken k)
  · exact ⟨r', (t.visible_wrote hk w.db w'.db).trans hr', .refl r'⟩
  · have hr' : w'.db.lookup (Key.refreshToken k) = some r' := by
      rw [← t.visible_unwritten hk]
      exact hr'
    obtain ⟨r, hr, ho⟩ := h k r' hr' hu
    exact ⟨r, (t.visible_unwritten hk w.db).trans hr, ho⟩

/-- With the user's row held, `UPDATE refresh_tokens … WHERE user_id = u AND p`
reaches every token that is committed when the transaction commits. -/
theorem wp_updateTokensOf {u : UserId} {m : Mode} {p : RefreshToken → Bool}
    {g : RefreshToken → RefreshToken} {Q : Unit → Tx Row → AccountWorld → Prop}
    (hu : (Key.user u, m) ∈ t.held) (hm : m.writes)
    (back : ∀ r r', Older r r' → p r' = true → p r = true)
    (h : ∀ t' w', AccountRely allow i t w w' → t.held ⊆ t'.held →
      (∀ w'', AccountRely allow i t' w' w'' → view (t'.visible w''.db) =
        (view (t.visible w''.db)).mapToken fun _ r =>
          if r.userId = u ∧ p r = true then g r else r) → Q () t' w') :
    wp (accountContract allow) i Q (updateTokensOf u p g) t w := by
  unfold updateTokensOf
  rw [wp_bind, wp_select]
  intro w₁ hr₁ _
  rw [wp_bind]
  refine wp_changeEach (Or.inl rfl) _ (rowsWhere_nodup _ _) fun done t' w' hc => ?_
  refine h t' w' (hr₁.trans hc.rely) hc.held fun w'' later => ?_
  have older : NoNewTokens u (view (t.visible w₁.db)) (view (t.visible w''.db)) :=
    visible_noNewTokens t (rely_noNewTokens (hc.rely.trans (later.mono hc.held)) hu hm)
  rw [updated_tokens hc later]
  ext1 <;> try rfl
  funext k
  refine Option.map_congr fun r hr => ?_
  have seen : r.userId = u ∧ p r = true → Key.refreshToken k ∈
      rowsWhere (refreshTokens fun r => r.userId = u && p r) (t.visible w₁.db) := by
    rintro ⟨hru, hp⟩
    obtain ⟨r₀, hr₀, ho⟩ := older k r hr hru
    refine mem_rowsWhere.mpr ⟨r₀, hr₀, ?_⟩
    simp [refreshTokens, ← ho.userId, hru, back r₀ r ho hp]
  by_cases hr : r.userId = u ∧ p r = true
  · simp [hr, seen hr]
  · have : ¬ ((r.userId = u && p r) = true) := by simpa using hr
    simp [hr, this]

theorem wp_genRandomUuid {Q : Option Nat → Tx Row → AccountWorld → Prop}
    (taken : ∀ t' w', Q none t' w')
    (fresh : ∀ n w', AccountRely allow i t w w' → (t.visible w'.db).lookup (Key.uuid n) = none →
      Q (some n) ((t.hold (Key.uuid n) .update).write (Key.uuid n) .update (some ())) w') :
    wp (accountContract allow) i Q genRandomUuid t w := by
  unfold genRandomUuid
  rw [wp_bind, wp_choose]
  intro n
  rw [wp_bind]
  refine wp_insertRow (fun w' r' _ _ _ => ?_) (fun w' hr _ hrow => ?_)
  · exact taken _ _
  · exact fresh n w' hr hrow

theorem wp_lockUser {u : UserId} {m : Mode} {p : UserRow → Bool}
    {Q : Option UserRow → Tx Row → AccountWorld → Prop}
    (missing : ∀ t' w', Q none t' w')
    (found : ∀ w' (r : UserRow), AccountRely allow i t w w' →
      (t.visible w'.db).lookup (Key.user u) = some r → p r = true →
      Q (some r) (t.hold (Key.user u) m) w') :
    wp (accountContract allow) i Q (lockUser u m p) t w := by
  refine @wp_selectFor Key _ Row Note _ i t w (.user u) m p Q ?_ ?_ ?_
  · exact fun w' _ _ _ => missing _ w'
  · exact fun w' _ _ _ => missing _ w'
  · exact fun w' r hr _ hrow hp => found w' r hr hrow hp

theorem wp_lockRefreshToken {h : TokenHash} {p : RefreshToken → Bool}
    {Q : Option RefreshToken → Tx Row → AccountWorld → Prop}
    (missing : ∀ t' w', Q none t' w')
    (found : ∀ w' (r : RefreshToken), AccountRely allow i t w w' →
      (t.visible w'.db).lookup (Key.refreshToken h) = some r → p r = true →
      Q (some r) (t.hold (Key.refreshToken h) .update) w') :
    wp (accountContract allow) i Q (lockRefreshToken h p) t w := by
  refine @wp_selectFor Key _ Row Note _ i t w (.refreshToken h) .update p Q ?_ ?_ ?_
  · exact fun w' _ _ _ => missing _ w'
  · exact fun w' _ _ _ => missing _ w'
  · exact fun w' r hr _ hrow hp => found w' r hr hrow hp

abbrev Keeps (allow : Nat → List Note → AccountWorld → AccountWorld → Prop)
    (p : AccountProg α) : Prop :=
  Transactional (accountContract allow) p

theorem create_keeps (email passwordHash displayName : String) :
    Keeps allow (create email passwordHash displayName) := by
  intro i w
  unfold create
  rw [wp_bind]
  refine wp_genRandomUuid (fun _ _ => rfl) fun id w₁ _ hfresh => ?_
  simp only [wp_bind, wp_lockRow, wp_select]
  intro w₂ hr₂ _ w₃ hr₃ _
  split_ifs
  · exact rfl
  rw [wp_bind]
  refine wp_insertRow (fun w' r' _ _ _ => rfl) fun w₄ hr₄ _ _ => ?_
  simp only [if_true, wp_bind, wp_commit]
  intro w₅ hr₅ hi₅ _
  refine ⟨publishes hi₅ ?_ (by simp [Licensed]), rfl⟩
  have fresh : w₅.db.lookup (Key.uuid id) = none :=
    hr₅.kept (by simp) (hr₄.kept (by simp) (hr₃.kept (by simp) (hr₂.kept (by simp) hfresh)))
  have issued : (view w₅.db).issued id = false := by simp [view, fresh]
  simpa using Step.registered issued rfl

theorem store_keeps (u : UserId) (version : Nat) (hash : TokenHash) (expiresAt : Instant) :
    Keeps allow (store u version hash expiresAt) := by
  intro i w
  unfold store
  rw [wp_bind]
  refine wp_lockUser (fun _ _ => rfl) fun w₁ user _ huser _ => ?_
  dsimp only
  split_ifs with hversion
  · exact rfl
  rw [wp_bind]
  refine wp_genRandomUuid (fun _ _ => rfl) fun family w₂ hr₂ hfresh => ?_
  rw [wp_bind]
  refine wp_insertRow (fun _ _ _ _ _ => rfl) fun w₃ hr₃ _ hfree => ?_
  simp only [if_true, wp_bind, wp_commit]
  intro w₄ hr₄ hi₄ _
  refine ⟨publishes hi₄ ?_ (by simp [Licensed]), rfl⟩
  have user₄ : (view w₄.db).user u = some user :=
    hr₄.kept (by simp) (hr₃.kept (by simp) (hr₂.kept (by simp) huser))
  have fresh : w₄.db.lookup (Key.uuid family) = none := hr₄.kept (by simp) (hr₃.kept (by simp) hfresh)
  have free : (view w₄.db).token hash = none :=
    hr₄.kept (by simp) ((Tx.visible_unwritten _ (by simp) _).symm.trans hfree)
  have issued : (view w₄.db).issued family = false := by simp [view, fresh]
  obtain ⟨-, rfl⟩ : version ≠ 0 ∧ user.authVersion = version := by simpa using hversion
  simpa using Step.stored user₄ issued free

/-- The state that a transaction of locks alone leaves behind. -/
def Untouched (t : Tx Row) : Prop := ∀ db, t.visible db = db

theorem closeFamily {old : TokenHash} {token : RefreshToken} {g : RefreshToken → RefreshToken}
    (hg : Closes g) (untouched : Untouched t) (held : t.holds (Key.refreshToken old))
    (htoken : w.db.lookup (Key.refreshToken old) = some token) (next : List Key → Bool)
    (answer refused : α) :
    wp (accountContract allow) i (fun _ t _ => t = {})
      (do
        let (seen, changed) ← revokeFamily token.familyId g
        if next changed then
          leave refused
        else
          commit [.familyRevoked token.familyId seen]
          return answer) t w := by
  rw [wp_bind]
  refine wp_revokeFamily fun seen changed t' w₁ hr₁ sub hview => ?_
  dsimp only
  split_ifs
  · exact rfl
  rw [wp_bind, wp_commit]
  intro w₂ hr₂ hi₂ _
  refine ⟨publishes hi₂ ?_ (by simp [Licensed]), rfl⟩
  have htoken₂ : (view w₂.db).token old = some token :=
    hr₂.kept (held.mono sub) (hr₁.kept held htoken)
  rw [hview w₂ hr₂, untouched]
  exact .familyRevoked hg htoken₂ rfl

theorem rotate_keeps (old new : TokenHash) (newExpiresAt : Instant) :
    Keeps allow (rotate old new newExpiresAt) := by
  intro i w
  unfold rotate
  rw [wp_bind, wp_choose]
  intro dbNow
  rw [wp_bind, wp_select]
  intro w₁ hr₁ _
  cases hu : (w₁.db.lookup (Key.refreshToken old)).map RefreshToken.userId with
  | none =>
    simp only [Tx.visible_empty, hu]
    exact rfl
  | some u =>
    simp only [Tx.visible_empty, hu]
    rw [wp_bind]
    refine wp_lockUser (fun _ _ => rfl) fun w₂ user _ huser _ => ?_
    dsimp only
    rw [wp_bind]
    refine wp_lockRefreshToken (fun _ _ => rfl) fun w₃ token hr₃ htoken _ => ?_
    dsimp only
    rw [wp_bind, wp_choose]
    intro clock
    have untouched : Untouched ((({} : Tx Row).hold (Key.user u) .share).hold
      (Key.refreshToken old) .update) := fun _ => rfl
    split
    · exact closeFamily (revoke_closes clock) untouched (by simp) htoken (fun _ => false) _
        (.error .invalidRefresh)
    rename_i hmine
    obtain ⟨rfl, hversion⟩ : token.userId = u ∧ token.authVersion = user.authVersion := by
      simpa using hmine
    split
    · split
      · exact rfl
      · exact closeFamily (markReuse_closes dbNow) untouched (by simp) htoken (fun _ => false) _
          (.error .invalidRefresh)
    rename_i hrev
    have hrev : token.revokedAt = none := by
      cases h : token.revokedAt with
      | none => rfl
      | some at' => exact absurd h (hrev at')
    split
    · rw [wp_bind]
      refine wp_updateRow_locked (Or.inl rfl) (by simp) htoken rfl fun w₄ hr₄ _ => ?_
      rw [wp_bind, wp_commit]
      intro w₅ hr₅ hi₅ _
      refine ⟨publishes hi₅ ?_ (by simp [Licensed]), rfl⟩
      have htoken₅ : (view w₅.db).token old = some token :=
        hr₅.kept (by simp) (hr₄.kept (by simp) htoken)
      simpa using Step.expired htoken₅
    · rw [wp_bind]
      refine wp_updateRow_locked (Or.inl rfl) (by simp) htoken rfl fun w₄ hr₄ _ => ?_
      rw [wp_bind]
      refine wp_insertRow (fun _ _ _ _ _ => rfl) fun w₅ hr₅ _ hfree => ?_
      simp only [if_true, wp_bind, wp_commit]
      intro w₆ hr₆ hi₆ _
      refine ⟨publishes hi₆ ?_ (by simp [Licensed]), rfl⟩
      have user₆ : (view w₆.db).user token.userId = some user :=
        hr₆.kept (by simp) (hr₅.kept (by simp) (hr₄.kept (by simp) (hr₃.kept (by simp) huser)))
      have old₆ : (view w₆.db).token old = some token :=
        hr₆.kept (by simp) (hr₅.kept (by simp) (hr₄.kept (by simp) htoken))
      have hne : new ≠ old := by
        rintro rfl
        simp at hfree
      have new₆ : (view w₆.db).token new = none :=
        hr₆.kept (by simp) ((Tx.visible_unwritten _ (by simp [hne]) _).symm.trans hfree)
      simpa using Step.rotated user₆ old₆ rfl hversion hrev new₆

theorem revoke_keeps (hash : TokenHash) : Keeps allow (revoke hash) := by
  intro i w
  unfold revoke
  rw [wp_bind, wp_choose]
  intro dbNow
  rw [wp_bind]
  refine wp_lockRefreshToken (fun _ _ => rfl) fun w₁ token _ htoken _ => ?_
  have untouched : Untouched (({} : Tx Row).hold (Key.refreshToken hash) .update) := fun _ => rfl
  exact closeFamily (revoke_closes dbNow) untouched (by simp) htoken List.isEmpty
    (Except.ok ()) (Except.error AccountError.invalidRefresh)

theorem wp_referenceUser {u : UserId} {Q : Bool → Tx Row → AccountWorld → Prop}
    (h : ∀ w', AccountRely allow i t w w' →
      Q ((view (t.visible w'.db)).user u).isSome (t.hold (Key.user u) .keyShare) w') :
    wp (accountContract allow) i Q (referenceUser u) t w := by
  unfold referenceUser
  rw [wp_bind, wp_lockRow]
  intro w₁ hr₁ _
  rw [wp_select]
  intro w₂ hr₂ _
  exact h w₂ (hr₁.trans (rely_hold hr₂))

theorem replacePasswordReset_keeps (u : UserId) (hash : TokenHash) (expiresAt : Instant) :
    Keeps allow (replacePasswordReset u hash expiresAt) := by
  intro i w
  unfold replacePasswordReset
  rw [wp_bind, wp_choose]
  intro dbNow
  rw [wp_bind]
  refine wp_spendPasswordResets fun seen t₁ w₁ _ hr₁ sub hview => ?_
  rw [wp_bind]
  refine wp_insertRow (fun _ _ _ _ _ => rfl) fun w₂ hr₂ _ hfree => ?_
  simp only [if_true]
  rw [wp_bind]
  refine wp_referenceUser fun w₃ hr₃ => ?_
  split_ifs with hfound
  · rw [wp_bind, wp_commit]
    intro w₄ hr₄ hi₄ _
    refine ⟨publishes hi₄ ?_ (by simp [Licensed]), rfl⟩
    have before : AccountRely allow i t₁ w₁ w₃ := hr₂.trans (rely_hold (rely_write hr₃))
    have later : AccountRely allow i t₁ w₁ w₄ :=
      before.trans (rely_hold (rely_write (rely_hold hr₄)))
    have free : (view (t₁.visible w₄.db)).reset hash = none :=
      (t₁.visible_congr (hr₄.kept (by simp) (hr₃.kept (by simp) rfl))).trans hfree
    rw [hview w₄ later] at free
    have free₄ : (view w₄.db).reset hash = none := Option.map_eq_none_iff.mp free
    have user₃ : ((view w₃.db).user u).isSome = true := by
      simpa [hview w₃ before, Accounts.spendResets] using hfound
    have user₄ := (rely_user hr₄ List.mem_cons_self).stays user₃
    simpa [hview w₄ later] using Step.resetRequested free₄ user₄
  · rfl

/-- Having written the user's row is holding it. -/
theorem held_user {u : UserId} {m : Mode} {v : Option UserRow} :
    (Key.user u, m) ∈ ((t.hold (Key.user u) m).write (Key.user u) m v).held := List.mem_cons_self

theorem consumePasswordReset_keeps (hash : TokenHash) (passwordHash : String) (now : Instant) :
    Keeps allow (consumePasswordReset hash passwordHash now) := by
  intro i w
  unfold consumePasswordReset
  rw [wp_bind]
  refine wp_selectFor (fun _ _ _ _ => rfl) (fun _ _ _ _ => rfl) ?_
  intro w₁ token _ _ htoken _
  dsimp only
  split_ifs with hvalid
  · exact rfl
  obtain ⟨hused, hexp⟩ : token.usedAt = none ∧ now < token.expiresAt := by simpa using hvalid
  have linked : ∀ w', AccountRely allow i (({} : Tx Row).hold (Key.passwordReset hash) .update) w₁ w' →
      Linked (view w'.db) → ¬ Misses (({} : Tx Row).hold (Key.passwordReset hash) .update) w'
        (Key.user token.userId) fun _ => true := by
    intro w' hr hi hmiss
    have htoken' : (view w'.db).reset hash = some token := hr.kept (by simp) htoken
    obtain ⟨user, huser⟩ := Option.isSome_iff_exists.mp (hi hash token htoken')
    exact absurd (hmiss user huser) (by simp)
  rw [wp_bind]
  refine wp_updateRow (Or.inl rfl) ?_ ?_ ?_
  · exact fun w' hr hi hmiss => absurd hmiss (linked w' hr hi)
  · exact fun w' hr hi hmiss => absurd hmiss (linked w' hr hi)
  intro w₂ user hr₂ _ huser _
  rw [wp_bind]
  refine wp_spendPasswordResets fun seen t₃ w₃ saw hr₃ sub₃ hview₃ => ?_
  rw [wp_bind]
  refine wp_updateTokensOf (sub₃ held_user) (Or.inl rfl) (fun _ _ _ _ => rfl)
    fun t₄ w₄ hr₄ sub₄ hview₄ => ?_
  rw [wp_bind, wp_commit]
  intro w₅ hr₅ hi₅ _
  refine ⟨publishes hi₅ ?_ (by simp [Licensed]), rfl⟩
  have held₃ : t₃.holds (Key.passwordReset hash) := .mono (by simp) sub₃
  have heldUser₃ : t₃.holds (Key.user token.userId) := .mono (by simp) sub₃
  have token₅ : (view w₅.db).reset hash = some token :=
    hr₅.kept (held₃.mono sub₄) (hr₄.kept held₃ (hr₃.kept (by simp) (hr₂.kept (by simp) htoken)))
  have user₅ : (view w₅.db).user token.userId = some user :=
    hr₅.kept (heldUser₃.mono sub₄) (hr₄.kept heldUser₃ (hr₃.kept (by simp) huser))
  have own : Key.passwordReset hash ∈ seen :=
    saw.own (by simp) (by simp) (hr₂.kept (by simp) htoken) (by simp [passwordResets, hused])
  have hstep := @Step.passwordReset _ hash token seen passwordHash now token₅ hused hexp own
  rw [hview₄ w₅ hr₅, hview₃ w₅ (hr₄.trans (hr₅.mono sub₄))]
  rw [Accounts.mapUser_of user₅] at hstep
  simpa [Accounts.revokeAll] using hstep

/-- `between` is a statement that does `effect` to other tables. -/
theorem revokeOthers_keeps {u : UserId} {expected : String} {now : Instant}
    {change : UserRow → UserRow} {between : AccountProg (List Key)}
    {note : FamilyId → List Key → Note} (effect : List Key → Accounts → Accounts)
    (current : TokenHash) (bumps : ∀ r, (change r).authVersion = r.authVersion + 1)
    (licensed : ∀ held f seen, Licensed held (note f seen))
    (tokens : ∀ seen s g, effect seen (Accounts.mapToken s g) = (effect seen s).mapToken g)
    (hbetween : ∀ i t w (Q : List Key → Tx Row → AccountWorld → Prop),
      (∀ seen t' w', AccountRely allow i t w w' → t.held ⊆ t'.held →
        (∀ w'', AccountRely allow i t' w' w'' →
          view (t'.visible w''.db) = effect seen (view (t.visible w''.db))) → Q seen t' w') →
      wp (accountContract allow) i Q between t w)
    (hstep : ∀ s r f seen, s.user u = some r → Step (note f seen) s
      ((effect seen (s.mapUser u change)).keepFamily u f (r.authVersion + 1) now)) :
    Keeps allow (revokeOthers u current expected now change between note) := by
  intro i w
  unfold revokeOthers
  rw [wp_bind]
  refine wp_lockUser (fun _ _ => rfl) fun w₁ user _ huser _ => ?_
  dsimp only
  split
  · rfl
  unfold currentActiveFamily
  rw [wp_bind, wp_bind]
  refine wp_lockRefreshToken (fun _ _ => rfl) fun w₂ token hr₂ _ _ => ?_
  simp only [wp_pure, Option.map_some]
  rw [wp_bind]
  have user₂ : w₂.db.lookup (Key.user u) = some user := hr₂.kept (by simp) huser
  refine wp_updateRow_locked (Or.inl rfl) (by simp) user₂ rfl fun w₃ hr₃ _ => ?_
  simp only [bumps, ne_eq, not_true_eq_false, if_false]
  rw [wp_bind]
  refine wp_updateTokensOf held_user (Or.inl rfl) ?_ fun t₄ w₄ hr₄ sub₄ hview₄ => ?_
  · intro r r' ho hf
    simpa [ho.familyId] using hf
  rw [wp_bind]
  refine hbetween _ _ _ _ fun seen t₅ w₅ hr₅ sub₅ hview₅ => ?_
  rw [wp_bind]
  refine wp_updateTokensOf (sub₅ (sub₄ held_user)) (Or.inl rfl) ?_
    fun t₆ w₆ hr₆ sub₆ hview₆ => ?_
  · intro r r' ho hp
    simp only [Bool.and_eq_true, decide_eq_true_eq, Option.isNone_iff_eq_none] at hp ⊢
    exact ⟨ho.familyId ▸ hp.1, ho.unrevoked hp.2⟩
  rw [wp_bind, wp_commit]
  intro w₇ hr₇ hi₇ _
  refine ⟨publishes hi₇ ?_ (licensed _ _ _), rfl⟩
  have held₄ : t₄.holds (Key.user u) := .mono (by simp) sub₄
  have user₇ : (view w₇.db).user u = some user :=
    hr₇.kept ((held₄.mono sub₅).mono sub₆) (hr₆.kept (held₄.mono sub₅) (hr₅.kept held₄
      (hr₄.kept (by simp) (hr₃.kept (by simp) user₂))))
  have later₅ := hr₆.trans (hr₇.mono sub₆)
  have later₄ := hr₅.trans (later₅.mono sub₅)
  have step := hstep _ user token.familyId seen user₇
  rw [hview₆ w₇ hr₇, hview₅ w₇ later₅, hview₄ w₇ later₄, tokens]
  rw [← Accounts.keepFamily_eq, Accounts.mapUser_of user₇] at step
  simpa [RefreshToken.advance] using step

theorem changePassword_keeps (u : UserId) (current : TokenHash) (expected passwordHash : String)
    (now : Instant) :
    Keeps allow (changePasswordAndRevokeOtherSessions u current expected passwordHash now) := by
  refine revokeOthers_keeps (fun seen s => s.spendResets u seen now) current (fun _ => rfl)
    (fun _ _ _ => trivial) (fun _ _ _ => rfl) (fun i t w Q h =>
      wp_spendPasswordResets fun seen t' w' _ hr sub hview => h seen t' w' hr sub hview) ?_
  exact fun s r f seen hu => .passwordChanged hu

theorem revokeOtherSessions_keeps (u : UserId) (current : TokenHash) (expected : String)
    (now : Instant) :
    Keeps allow (AccountRepository.revokeOtherSessions u current expected now) := by
  refine revokeOthers_keeps (fun _ s => s) current (fun _ => rfl) (fun _ _ _ => trivial)
    (fun _ _ _ => rfl) (fun i t w Q h => h [] t w .refl (fun _ hp => hp) fun _ _ => rfl) ?_
  exact fun s r f seen hu => .othersRevoked hu

theorem replaceEmailChange_keeps (u : UserId) (oldEmail newEmail : String) (hash : TokenHash)
    (createdAt expiresAt : Instant) :
    Keeps allow (replaceEmailChange u oldEmail newEmail hash createdAt expiresAt) := by
  intro i w
  unfold replaceEmailChange
  rw [wp_bind, wp_select]
  intro w₀ hr₀ _
  split_ifs
  · rfl
  rw [wp_bind]
  refine wp_spendEmailChanges fun seen t₁ w₁ _ hr₁ sub hview => ?_
  rw [wp_bind]
  refine wp_insertRow (fun _ _ _ _ _ => rfl) fun w₂ hr₂ _ hfree => ?_
  simp only [if_true]
  rw [wp_bind]
  refine wp_referenceUser fun w₃ hr₃ => ?_
  split_ifs with hfound
  · rw [wp_bind, wp_commit]
    intro w₄ hr₄ hi₄ _
    refine ⟨publishes hi₄ ?_ (by simp [Licensed]), rfl⟩
    have before : AccountRely allow i t₁ w₁ w₃ := hr₂.trans (rely_hold (rely_write hr₃))
    have later : AccountRely allow i t₁ w₁ w₄ :=
      before.trans (rely_hold (rely_write (rely_hold hr₄)))
    have free : (view (t₁.visible w₄.db)).change hash = none :=
      (t₁.visible_congr (hr₄.kept (by simp) (hr₃.kept (by simp) rfl))).trans hfree
    rw [hview w₄ later] at free
    have free₄ : (view w₄.db).change hash = none := Option.map_eq_none_iff.mp free
    have user₃ : ((view w₃.db).user u).isSome = true := by
      simpa [hview w₃ before, Accounts.spendChanges] using hfound
    have user₄ := (rely_user hr₄ List.mem_cons_self).stays user₃
    simpa [hview w₄ later] using Step.emailRequested free₄ user₄
  · rfl

theorem cancelEmailChange_keeps (hash : TokenHash) (cancelledAt : Instant) :
    Keeps allow (cancelEmailChange hash cancelledAt) := by
  intro i w
  unfold cancelEmailChange
  rw [wp_bind]
  refine wp_updateRow (Or.inl rfl) (fun _ _ _ _ => rfl) (fun _ _ _ _ => rfl) ?_
  intro w₁ token _ _ htoken _ w₂ hr₂ hi₂ _
  refine ⟨publishes hi₂ ?_ (by simp [Licensed]), rfl⟩
  have token₂ : (view w₂.db).change hash = some token := hr₂.kept (by simp) htoken
  simpa [token₂] using @Step.emailCancelled (view w₂.db) hash cancelledAt

theorem consumeEmailChange_keeps (hash : TokenHash) (confirmedAt : Instant) :
    Keeps allow (consumeEmailChange hash confirmedAt) := by
  intro i w
  unfold consumeEmailChange
  rw [wp_bind]
  refine wp_selectFor (fun _ _ _ _ => rfl) (fun _ _ _ _ => rfl) ?_
  intro w₁ token _ _ htoken _
  dsimp only
  split_ifs with hvalid
  · rfl
  obtain ⟨hused, hexp⟩ : token.usedAt = none ∧ confirmedAt < token.expiresAt := by
    simpa using hvalid
  rw [wp_bind]
  refine wp_lockUser (fun _ _ => rfl) fun w₂ user hr₂ huser hemail => ?_
  dsimp only
  rw [wp_bind, wp_lockRow]
  intro w₃ hr₃ _
  rw [wp_bind, wp_lockRow]
  intro w₄ hr₄ _
  rw [wp_bind, wp_select]
  intro w₅ hr₅ _
  split_ifs
  · rfl
  rw [wp_bind, wp_writeRow]
  intro w₆ hr₆ _ _
  rw [wp_bind]
  refine wp_spendEmailChanges fun seen t₇ w₇ saw hr₇ sub₇ hview₇ => ?_
  rw [wp_bind]
  refine wp_updateTokensOf (sub₇ List.mem_cons_self) (Or.inr rfl) ?_ fun t₈ w₈ hr₈ sub₈ hview₈ => ?_
  · intro r r' ho hp
    simp only [Option.isNone_iff_eq_none] at hp ⊢
    exact ho.unrevoked hp
  rw [wp_bind, wp_commit]
  intro w₉ hr₉ hi₉ _
  refine ⟨publishes hi₉ ?_ (by simp [Licensed]), rfl⟩
  have held₇ : t₇.holds (Key.emailChange hash) := .mono (by simp) sub₇
  have heldUser₇ : t₇.holds (Key.user token.userId) := .mono (by simp) sub₇
  have token₉ : (view w₉.db).change hash = some token :=
    hr₉.kept (held₇.mono sub₈) (hr₈.kept held₇ (hr₇.kept (by simp) (hr₆.kept (by simp)
      (hr₅.kept (by simp) (hr₄.kept (by simp) (hr₃.kept (by simp) (hr₂.kept (by simp) htoken)))))))
  have user₉ : (view w₉.db).user token.userId = some user :=
    hr₉.kept (heldUser₇.mono sub₈) (hr₈.kept heldUser₇ (hr₇.kept (by simp) (hr₆.kept (by simp)
      (hr₅.kept (by simp) (hr₄.kept (by simp) (hr₃.kept (by simp) huser))))))
  have own : Key.emailChange hash ∈ seen :=
    saw.own (by simp) (by simp) (hr₆.kept (by simp) (hr₅.kept (by simp) (hr₄.kept (by simp)
      (hr₃.kept (by simp) (hr₂.kept (by simp) htoken))))) (by simp [emailChanges, hused])
  have step := @Step.emailChanged _ hash token user seen confirmedAt token₉ hused hexp user₉
    (by simpa using hemail) own
  rw [hview₈ w₉ hr₉, hview₇ w₉ (hr₈.trans (hr₉.mono sub₈))]
  rw [Accounts.mapUser_of user₉, ← Accounts.revokeAll_eq] at step
  simpa using step

theorem visible_noNewRequests {u : UserId} (t : Tx Row)
    (h : NoNewRequests u (view w.db) (view w'.db)) :
    NoNewRequests u (view (t.visible w.db)) (view (t.visible w'.db)) := by
  refine ⟨fun k r' hr' hu => ?_, fun k r' hr' hu => ?_⟩
  · by_cases hk : t.wrote (Key.passwordReset k)
    · exact ⟨r', (t.visible_wrote hk w.db w'.db).trans hr', hu⟩
    · obtain ⟨r, hr, hu⟩ := h.reset k r' ((t.visible_unwritten hk w'.db).symm.trans hr') hu
      exact ⟨r, (t.visible_unwritten hk w.db).trans hr, hu⟩
  · by_cases hk : t.wrote (Key.emailChange k)
    · exact ⟨r', (t.visible_wrote hk w.db w'.db).trans hr', hu⟩
    · obtain ⟨r, hr, hu⟩ := h.change k r' ((t.visible_unwritten hk w'.db).symm.trans hr') hu
      exact ⟨r, (t.visible_unwritten hk w.db).trans hr, hu⟩

/-- With the user's row held for deletion, a cascade misses nothing. -/
theorem wp_cascade {u : UserId} {p : ∀ k, Row k → Bool}
    {Q : List Key → Tx Row → AccountWorld → Prop} (hu : (Key.user u, Mode.update) ∈ t.held)
    (table : p = refreshTokens (fun r => r.userId = u) ∨ p = passwordResets (fun r => r.userId = u) ∨
      p = emailChanges (fun r => r.userId = u))
    (h : ∀ done t' w', AccountRely allow i t w w' → t.held ⊆ t'.held →
      (∀ w₂, AccountRely allow i t' w' w₂ → ∀ k, (t'.visible w₂.db).lookup k =
        ((t.visible w₂.db).lookup k).filter fun r => !p k r) → Q done t' w') :
    wp (accountContract allow) i Q (deleteWhere p) t w := by
  refine wp_deleteWhere (fun w₁ w₂ hr k r hrow hp => ?_) h
  have guard := rely_user hr hu
  have tokens := visible_noNewTokens t (guard.tokens (Or.inr rfl))
  have requests := visible_noNewRequests t (guard.requests rfl)
  rcases table with rfl | rfl | rfl <;> cases k <;> try cases hp
  · rename_i h
    obtain ⟨r₀, hr₀, ho⟩ := tokens h r hrow (by simpa [refreshTokens] using hp)
    exact ⟨r₀, hr₀, by simpa [refreshTokens, ho.userId] using hp⟩
  · obtain ⟨r₀, hr₀, hu₀⟩ := requests.reset _ r hrow (by simpa [passwordResets] using hp)
    exact ⟨r₀, hr₀, by simpa [passwordResets] using hu₀⟩
  · obtain ⟨r₀, hr₀, hu₀⟩ := requests.change _ r hrow (by simpa [emailChanges] using hp)
    exact ⟨r₀, hr₀, by simpa [emailChanges] using hu₀⟩

theorem filter_all {α : Type} (o : Option α) : o.filter (fun _ => true) = o := by
  cases o <;> rfl

theorem delete_keeps (u : UserId) (expected : String) : Keeps allow (delete u expected) := by
  intro i w
  unfold delete
  rw [wp_bind]
  refine wp_lockUser (fun _ _ => rfl) fun w₁ user _ huser _ => ?_
  dsimp only
  rw [wp_bind, wp_lockRow]
  intro w₂ hr₂ _
  rw [wp_bind, wp_writeRow]
  intro w₃ hr₃ _ _
  rw [wp_bind]
  refine wp_cascade List.mem_cons_self (Or.inl rfl) fun _ t₄ w₄ hr₄ sub₄ hview₄ => ?_
  rw [wp_bind]
  refine wp_cascade (sub₄ List.mem_cons_self) (Or.inr (Or.inl rfl)) fun _ t₅ w₅ hr₅ sub₅ hview₅ => ?_
  rw [wp_bind]
  refine wp_cascade (sub₅ (sub₄ List.mem_cons_self)) (Or.inr (Or.inr rfl))
    fun _ t₆ w₆ hr₆ sub₆ hview₆ => ?_
  rw [wp_bind, wp_commit]
  intro w₇ hr₇ hi₇ _
  refine ⟨publishes hi₇ ?_ (sub₆ (sub₅ (sub₄ List.mem_cons_self))), rfl⟩
  have later₅ := hr₆.trans (hr₇.mono sub₆)
  have later₄ := hr₅.trans (later₅.mono sub₅)
  have gone : view (t₆.visible w₇.db) = (view w₇.db).without u := by
    ext1 <;> funext x <;>
      simp only [view, Accounts.without, hview₆ w₇ hr₇, hview₅ w₇ later₅, hview₄ w₇ later₄]
    case user =>
      by_cases hx : x = u
      · subst hx; simp
      · simp [hx, lookup_set_ne, refreshTokens, passwordResets, emailChanges, filter_all]
    all_goals simp [lookup_set_ne, refreshTokens, passwordResets, emailChanges, filter_all]
  rw [gone]
  exact .deleted

end AccountRefinement
