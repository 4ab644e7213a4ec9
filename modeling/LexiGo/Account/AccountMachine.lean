import LexiGo.Account.AccountSchema
import Mathlib.Logic.Function.Basic

/-! Accounts and their tokens as a state machine: what each operation makes of
the committed state at the moment it commits. A token maps to its row, and an
operation is a function of the whole state. The lists `seen` keep what a
statement's snapshot showed: rows that were committed after it are not touched. -/
namespace AccountMachine
open RowStore TransactionProgram AccountSchema Function

@[ext] structure Accounts where
  user : UserId → Option UserRow
  token : TokenHash → Option RefreshToken
  reset : TokenHash → Option PasswordReset
  change : TokenHash → Option EmailChange
  issued : Nat → Bool

def view (db : AccountDb) : Accounts where
  user u := db.lookup (.user u)
  token h := db.lookup (.refreshToken h)
  reset h := db.lookup (.passwordReset h)
  change h := db.lookup (.emailChange h)
  issued n := (db.lookup (.uuid n)).isSome

namespace Accounts
variable (s : Accounts)

def mapUser (u : UserId) (g : UserRow → UserRow) : Accounts :=
  { s with user := update s.user u ((s.user u).map g) }

theorem mapUser_of {s : Accounts} {u : UserId} {r : UserRow} (h : s.user u = some r)
    (g : UserRow → UserRow) : s.mapUser u g = { s with user := update s.user u (some (g r)) } := by
  simp [mapUser, h]

def mapToken (g : TokenHash → RefreshToken → RefreshToken) : Accounts :=
  { s with token := fun h => (s.token h).map (g h) }

/-- Of the rows in `seen`, the unused tokens of `u` become used. -/
def spendResets (u : UserId) (seen : List Key) (now : Instant) : Accounts :=
  { s with reset := fun h => (s.reset h).map fun r =>
      if Key.passwordReset h ∈ seen ∧ r.userId = u ∧ r.usedAt = none then r.spend now else r }

def spendChanges (u : UserId) (seen : List Key) (now : Instant) : Accounts :=
  { s with change := fun h => (s.change h).map fun r =>
      if Key.emailChange h ∈ seen ∧ r.userId = u ∧ r.usedAt = none then r.spend now else r }

/-- All tokens of `u` that are not exempt. -/
def revokeAll (u : UserId) (now : Instant) : Accounts :=
  s.mapToken fun _ r => if r.userId = u then r.revoke now else r

theorem revokeAll_eq (u : UserId) (now : Instant) :
    (s.mapToken fun _ r => if r.userId = u ∧ r.revokedAt = none then r.revoke now else r) =
      s.revokeAll u now := by
  ext1 <;> try rfl
  funext h
  refine Option.map_congr fun r _ => ?_
  by_cases hr : r.revokedAt = none
  · simp [hr]
  · simp [hr, revoke_of_revoked hr]

/-- The family `f` of `u` moves on to `version`, its other families are closed. -/
def keepFamily (u : UserId) (f : FamilyId) (version : Nat) (now : Instant) : Accounts :=
  s.mapToken fun _ r =>
    if r.userId = u then
      if r.familyId = f then { r with authVersion := version } else r.revoke now
    else r

theorem keepFamily_eq (u : UserId) (f : FamilyId) (version : Nat) (now : Instant) :
    (s.mapToken fun _ r => if r.userId = u ∧ r.familyId = f
        then { r with authVersion := version } else r).mapToken
      (fun _ r => if r.userId = u ∧ r.familyId ≠ f ∧ r.revokedAt = none
        then r.revoke now else r) = s.keepFamily u f version now := by
  ext1 <;> try rfl
  funext h
  simp only [mapToken, keepFamily, Option.map_map]
  refine Option.map_congr fun r _ => ?_
  by_cases hu : r.userId = u
  · by_cases hf : r.familyId = f
    · simp [hu, hf]
    · by_cases hr : r.revokedAt = none
      · simp [hu, hf, hr]
      · simp [hu, hf, hr, revoke_of_revoked hr]
  · simp [hu]

/-- A user and everything that refers to it are gone. -/
def without (u : UserId) : Accounts :=
  { s with
    user := update s.user u none
    token := fun h => (s.token h).filter fun r => r.userId ≠ u
    reset := fun h => (s.reset h).filter fun r => r.userId ≠ u
    change := fun h => (s.change h).filter fun r => r.userId ≠ u }

end Accounts

/-- A change of a token that closes it and leaves what it belongs to alone. -/
structure Closes (g : RefreshToken → RefreshToken) : Prop where
  userId : ∀ r, (g r).userId = r.userId
  familyId : ∀ r, (g r).familyId = r.familyId
  authVersion : ∀ r, (g r).authVersion = r.authVersion
  revoked : ∀ r, (g r).revokedAt.isSome = true

theorem revoke_closes (now : Instant) : Closes (RefreshToken.revoke now) :=
  ⟨fun _ => rfl, fun _ => rfl, fun _ => rfl, fun _ => rfl⟩

theorem markReuse_closes (now : Instant) : Closes (RefreshToken.markReuse now) :=
  ⟨fun _ => rfl, fun _ => rfl, fun _ => rfl, fun _ => rfl⟩

theorem replaceBy_closes (h : TokenHash) (now : Instant) : Closes (RefreshToken.replaceBy h now) :=
  ⟨fun _ => rfl, fun _ => rfl, fun _ => rfl, fun _ => rfl⟩

/-- One commit. -/
inductive Step : Note → Accounts → Accounts → Prop
  | registered {s : Accounts} {u : UserId} {r : UserRow} :
      s.issued u = false → r.authVersion = 1 →
      Step (.registered u) s
        { s with user := update s.user u (some r), issued := update s.issued u true }
  | stored {s : Accounts} {u : UserId} {r : UserRow} {h : TokenHash} {f : FamilyId}
      {expiresAt : Instant} :
      s.user u = some r → s.issued f = false → s.token h = none →
      Step (.stored u r.authVersion h f) s
        { s with
          token := update s.token h (some ⟨u, f, r.authVersion, expiresAt, none, none, none⟩)
          issued := update s.issued f true }
  | rotated {s : Accounts} {u : UserId} {r : UserRow} {old new : TokenHash} {token : RefreshToken}
      {expiresAt now : Instant} :
      s.user u = some r → s.token old = some token → token.userId = u →
      token.authVersion = r.authVersion → token.revokedAt = none → s.token new = none →
      Step (.rotated u r.authVersion old new token.familyId) s
        { s with
          token := update (update s.token old (some (token.replaceBy new now))) new
            (some ⟨u, token.familyId, r.authVersion, expiresAt, none, none, none⟩) }
  | expired {s : Accounts} {h : TokenHash} {token : RefreshToken} {now : Instant} :
      s.token h = some token →
      Step (.expired h) s { s with token := update s.token h (some (token.revoke now)) }
  | familyRevoked {s : Accounts} {f : FamilyId} {seen : List Key}
      {g : RefreshToken → RefreshToken} {h : TokenHash} {r : RefreshToken} :
      Closes g → s.token h = some r → r.familyId = f →
      Step (.familyRevoked f seen) s
        (s.mapToken fun h r => if Key.refreshToken h ∈ seen ∧ r.familyId = f then g r else r)
  | resetRequested {s : Accounts} {u : UserId} {h : TokenHash} {seen : List Key}
      {expiresAt now : Instant} :
      s.reset h = none → (s.user u).isSome = true →
      Step (.resetRequested u h seen) s
        { s.spendResets u seen now with
          reset := update (s.spendResets u seen now).reset h (some ⟨u, expiresAt, none⟩) }
  | passwordReset {s : Accounts} {h : TokenHash} {token : PasswordReset} {seen : List Key}
      {passwordHash : String} {now : Instant} :
      s.reset h = some token → token.usedAt = none → now < token.expiresAt →
      Key.passwordReset h ∈ seen →
      Step (.passwordReset token.userId h seen) s
        (((s.mapUser token.userId (UserRow.withPassword passwordHash)).spendResets
          token.userId seen now).revokeAll token.userId now)
  | passwordChanged {s : Accounts} {u : UserId} {r : UserRow} {keep : FamilyId} {seen : List Key}
      {passwordHash : String} {now : Instant} :
      s.user u = some r →
      Step (.passwordChanged u keep seen) s
        (((s.mapUser u (UserRow.withPassword passwordHash)).spendResets u seen now).keepFamily u keep
          (r.authVersion + 1) now)
  | othersRevoked {s : Accounts} {u : UserId} {r : UserRow} {keep : FamilyId} {now : Instant} :
      s.user u = some r →
      Step (.othersRevoked u keep) s
        ((s.mapUser u UserRow.bump).keepFamily u keep (r.authVersion + 1) now)
  | emailRequested {s : Accounts} {u : UserId} {h : TokenHash} {seen : List Key}
      {oldEmail newEmail : String} {expiresAt now : Instant} :
      s.change h = none → (s.user u).isSome = true →
      Step (.emailRequested u h seen) s
        { s.spendChanges u seen now with
          change := update (s.spendChanges u seen now).change h
            (some ⟨u, oldEmail, newEmail, expiresAt, none⟩) }
  | emailCancelled {s : Accounts} {h : TokenHash} {now : Instant} :
      Step (.emailCancelled h) s
        { s with change := update s.change h ((s.change h).map (EmailChange.spend now)) }
  | emailChanged {s : Accounts} {h : TokenHash} {token : EmailChange} {r : UserRow}
      {seen : List Key} {now : Instant} :
      s.change h = some token → token.usedAt = none → now < token.expiresAt →
      s.user token.userId = some r → r.email = token.oldEmail → Key.emailChange h ∈ seen →
      Step (.emailChanged token.userId h seen) s
        (((s.mapUser token.userId fun r =>
          { r with email := token.newEmail, authVersion := r.authVersion + 1 }).spendChanges
            token.userId seen now).revokeAll token.userId now)
  | deleted {s : Accounts} {u : UserId} : Step (.deleted u) s (s.without u)

/-- A token keeps its owner and its family, and is never reopened. -/
structure Older (r r' : RefreshToken) : Prop where
  userId : r'.userId = r.userId
  familyId : r'.familyId = r.familyId
  unrevoked : r'.revokedAt = none → r.revokedAt = none

theorem Older.refl (r : RefreshToken) : Older r r := ⟨rfl, rfl, id⟩

theorem Older.trans {r r' r'' : RefreshToken} (h : Older r r') (h' : Older r' r'') : Older r r'' :=
  ⟨h'.userId.trans h.userId, h'.familyId.trans h.familyId, h.unrevoked ∘ h'.unrevoked⟩

theorem Closes.older {g : RefreshToken → RefreshToken} (hg : Closes g) (r : RefreshToken) :
    Older r (g r) := by
  refine ⟨hg.userId r, hg.familyId r, fun h => ?_⟩
  have := hg.revoked r
  rw [h] at this
  cases this

def NoNewTokens (u : UserId) (s s' : Accounts) : Prop :=
  ∀ h r', s'.token h = some r' → r'.userId = u → ∃ r, s.token h = some r ∧ Older r r'

theorem NoNewTokens.refl (u : UserId) (s : Accounts) : NoNewTokens u s s :=
  fun _ r' hr _ => ⟨r', hr, .refl r'⟩

theorem NoNewTokens.trans {u : UserId} {s s' s'' : Accounts} (h : NoNewTokens u s s')
    (h' : NoNewTokens u s' s'') : NoNewTokens u s s'' := by
  intro k r'' hr'' hu
  obtain ⟨r', hr', ho'⟩ := h' k r'' hr'' hu
  obtain ⟨r, hr, ho⟩ := h k r' hr' (ho'.userId ▸ hu)
  exact ⟨r, hr, ho.trans ho'⟩

theorem mapToken_older {s : Accounts} {g : TokenHash → RefreshToken → RefreshToken}
    (hg : ∀ h r, Older r (g h r)) (u : UserId) : NoNewTokens u s (s.mapToken g) := by
  intro h r' hr' _
  obtain ⟨r, hr, rfl⟩ := Option.map_eq_some_iff.mp hr'
  exact ⟨r, hr, hg h r⟩

theorem revokeAll_older (s : Accounts) (v u : UserId) (now : Instant) :
    NoNewTokens u s (s.revokeAll v now) := by
  refine mapToken_older (fun _ r => ?_) u
  split_ifs
  · exact (revoke_closes now).older r
  · exact .refl r

theorem keepFamily_older (s : Accounts) (v u : UserId) (f : FamilyId) (version : Nat)
    (now : Instant) : NoNewTokens u s (s.keepFamily v f version now) := by
  refine mapToken_older (fun _ r => ?_) u
  split_ifs
  · exact ⟨rfl, rfl, id⟩
  · exact (revoke_closes now).older r
  · exact .refl r

/-- Only `stored` and `rotated` make tokens, and only for the user they name. -/
theorem Step.noNewTokens {n : Note} {s s' : Accounts} (h : Step n s s') (u : UserId)
    (stored : ∀ v k f, n ≠ .stored u v k f) (rotated : ∀ v k k' f, n ≠ .rotated u v k k' f) :
    NoNewTokens u s s' := by
  cases h with
  | registered => exact .refl u s
  | @stored _ u' r k f e =>
    intro k' r' hr' hu'
    by_cases heq : k' = k
    · subst heq
      simp only [update_self, Option.some.injEq] at hr'
      subst hr'
      exact absurd (by rw [← hu']) (stored r.authVersion k' f)
    · exact ⟨r', by simpa [heq] using hr', .refl r'⟩
  | @rotated _ u' r old new token e now _ hold =>
    intro k' r' hr' hu'
    by_cases heq : k' = new
    · subst heq
      simp only [update_self, Option.some.injEq] at hr'
      subst hr'
      exact absurd (by rw [← hu']) (rotated r.authVersion old k' token.familyId)
    · by_cases hk : k' = old
      · subst hk
        simp only [update_of_ne heq, update_self, Option.some.injEq] at hr'
        subst hr'
        exact ⟨token, hold, (replaceBy_closes new now).older token⟩
      · exact ⟨r', by simpa [heq, hk] using hr', .refl r'⟩
  | @expired _ h token now htoken =>
    intro k r' hr' _
    by_cases heq : k = h
    · subst heq
      simp only [update_self, Option.some.injEq] at hr'
      subst hr'
      exact ⟨token, htoken, (revoke_closes now).older token⟩
    · exact ⟨r', by simpa [heq] using hr', .refl r'⟩
  | familyRevoked hg =>
    refine mapToken_older (fun _ r => ?_) u
    split_ifs
    · exact hg.older r
    · exact .refl r
  | resetRequested => exact .refl u s
  | passwordReset => exact revokeAll_older _ _ u _
  | passwordChanged => exact keepFamily_older _ _ u _ _ _
  | othersRevoked => exact keepFamily_older _ _ u _ _ _
  | emailRequested => exact .refl u s
  | emailCancelled => exact .refl u s
  | emailChanged => exact revokeAll_older _ _ u _
  | deleted =>
    intro k r' hr' _
    exact ⟨r', (Option.filter_eq_some_iff.mp hr').1, .refl r'⟩

/-- What the lock that deletes a user keeps away. -/
structure NoNewRequests (u : UserId) (s s' : Accounts) : Prop where
  reset : ∀ h r', s'.reset h = some r' → r'.userId = u → ∃ r, s.reset h = some r ∧ r.userId = u
  change : ∀ h r', s'.change h = some r' → r'.userId = u → ∃ r, s.change h = some r ∧ r.userId = u

theorem NoNewRequests.refl (u : UserId) (s : Accounts) : NoNewRequests u s s :=
  ⟨fun _ r hr hu => ⟨r, hr, hu⟩, fun _ r hr hu => ⟨r, hr, hu⟩⟩

theorem NoNewRequests.trans {u : UserId} {s s' s'' : Accounts} (h : NoNewRequests u s s')
    (h' : NoNewRequests u s' s'') : NoNewRequests u s s'' := by
  refine ⟨fun k r'' hr'' hu => ?_, fun k r'' hr'' hu => ?_⟩
  · obtain ⟨r', hr', hu'⟩ := h'.reset k r'' hr'' hu
    exact h.reset k r' hr' hu'
  · obtain ⟨r', hr', hu'⟩ := h'.change k r'' hr'' hu
    exact h.change k r' hr' hu'

theorem spendResets_same (s : Accounts) (u v : UserId) (seen : List Key) (now : Instant) :
    NoNewRequests u s (s.spendResets v seen now) := by
  refine ⟨fun h r' hr' hu => ?_, (NoNewRequests.refl u s).change⟩
  obtain ⟨r, hr, rfl⟩ := Option.map_eq_some_iff.mp hr'
  refine ⟨r, hr, ?_⟩
  split_ifs at hu <;> exact hu

theorem spendChanges_same (s : Accounts) (u v : UserId) (seen : List Key) (now : Instant) :
    NoNewRequests u s (s.spendChanges v seen now) := by
  refine ⟨(NoNewRequests.refl u s).reset, fun h r' hr' hu => ?_⟩
  obtain ⟨r, hr, rfl⟩ := Option.map_eq_some_iff.mp hr'
  refine ⟨r, hr, ?_⟩
  split_ifs at hu <;> exact hu

theorem Step.noNewRequests {n : Note} {s s' : Accounts} (h : Step n s s') (u : UserId)
    (resets : ∀ k seen, n ≠ .resetRequested u k seen)
    (changes : ∀ k seen, n ≠ .emailRequested u k seen) : NoNewRequests u s s' := by
  cases h with
  | @resetRequested _ v h seen e now =>
    have same := spendResets_same s u v seen now
    refine ⟨fun k r' hr' hu => ?_, same.change⟩
    by_cases heq : k = h
    · subst heq
      simp only [update_self, Option.some.injEq] at hr'
      subst hr'
      exact absurd (by rw [← hu]) (resets k seen)
    · exact same.reset k r' (by simpa [heq] using hr') hu
  | @emailRequested _ v h seen o n e now =>
    have same := spendChanges_same s u v seen now
    refine ⟨same.reset, fun k r' hr' hu => ?_⟩
    by_cases heq : k = h
    · subst heq
      simp only [update_self, Option.some.injEq] at hr'
      subst hr'
      exact absurd (by rw [← hu]) (changes k seen)
    · exact same.change k r' (by simpa [heq] using hr') hu
  | passwordReset | passwordChanged =>
    exact ⟨(spendResets_same s u _ _ _).reset, (NoNewRequests.refl u s).change⟩
  | emailChanged =>
    exact ⟨(NoNewRequests.refl u s).reset, (spendChanges_same s u _ _ _).change⟩
  | @emailCancelled _ h now =>
    refine ⟨(NoNewRequests.refl u s).reset, fun k r' hr' hu => ?_⟩
    by_cases heq : k = h
    · subst heq
      simp only [update_self] at hr'
      obtain ⟨r, hr, rfl⟩ := Option.map_eq_some_iff.mp hr'
      exact ⟨r, hr, hu⟩
    · exact ⟨r', by simpa [heq] using hr', hu⟩
  | deleted =>
    exact ⟨fun k r' hr' hu => ⟨r', (Option.filter_eq_some_iff.mp hr').1, hu⟩,
      fun k r' hr' hu => ⟨r', (Option.filter_eq_some_iff.mp hr').1, hu⟩⟩
  | registered | stored | rotated | expired | familyRevoked | othersRevoked =>
    exact ⟨(NoNewRequests.refl u s).reset, (NoNewRequests.refl u s).change⟩

/-- A user disappears only by being deleted. -/
theorem Step.user_stays {n : Note} {s s' : Accounts} (h : Step n s s') {u : UserId}
    (hn : n ≠ .deleted u) (hu : (s.user u).isSome = true) : (s'.user u).isSome = true := by
  have mapped : ∀ v g, ((s.mapUser v g).user u).isSome = true := by
    intro v g
    by_cases heq : u = v
    · subst heq; simpa [Accounts.mapUser] using hu
    · simpa [Accounts.mapUser, heq] using hu
  cases h with
  | @registered _ v r =>
    by_cases heq : u = v
    · subst heq; simp
    · simpa [heq] using hu
  | passwordReset | passwordChanged | othersRevoked | emailChanged => exact mapped _ _
  | @deleted _ v =>
    have hne : u ≠ v := fun heq => hn (by rw [heq])
    simpa [Accounts.without, hne] using hu
  | stored | rotated | expired | familyRevoked | resetRequested | emailRequested
  | emailCancelled => exact hu

/-- The foreign key of the password reset tokens. -/
def Linked (s : Accounts) : Prop := ∀ h r, s.reset h = some r → (s.user r.userId).isSome = true

theorem Step.linked {n : Note} {s s' : Accounts} (h : Step n s s') (linked : Linked s) :
    Linked s' := by
  intro k r' hr'
  by_cases requested : ∃ h seen, n = .resetRequested r'.userId h seen
  · obtain ⟨h', seen, rfl⟩ := requested
    cases h with
    | resetRequested _ hu => exact hu
  · have notDeleted : n ≠ .deleted r'.userId := by
      rintro rfl
      cases h with
      | deleted =>
        have := (Option.filter_eq_some_iff.mp hr').2
        simp at this
    by_cases emailed : ∃ h seen, n = .emailRequested r'.userId h seen
    · obtain ⟨h', seen, rfl⟩ := emailed
      cases h with
      | emailRequested _ hu => exact hu
    · have same := h.noNewRequests r'.userId (fun k seen hn => requested ⟨k, seen, hn⟩)
        (fun k seen hn => emailed ⟨k, seen, hn⟩)
      obtain ⟨r, hr, hu⟩ := same.reset k r' hr' rfl
      exact h.user_stays notDeleted (hu ▸ linked k r hr)

/-- Where a token comes from: it was there, it opens a family nobody has used,
or it replaces an open token of its own family. -/
inductive TokenOrigin (s s' : Accounts) (h : TokenHash) (r' : RefreshToken) : Prop
  | kept {r : RefreshToken} (found : s.token h = some r) (older : Older r r')
  | opened (fresh : s.issued r'.familyId = false) (issued : s'.issued r'.familyId = true)
  | replaced {h' : TokenHash} {r : RefreshToken} (found : s.token h' = some r)
      (userId : r.userId = r'.userId) (familyId : r.familyId = r'.familyId)
      (unrevoked : r.revokedAt = none)

theorem Step.token_origin {n : Note} {s s' : Accounts} (h : Step n s s') {k : TokenHash}
    {r' : RefreshToken} (hr : s'.token k = some r') : TokenOrigin s s' k r' := by
  have kept (stored : ∀ v k f, n ≠ .stored r'.userId v k f)
      (rotated : ∀ v k k' f, n ≠ .rotated r'.userId v k k' f) : TokenOrigin s s' k r' := by
    obtain ⟨r, found, older⟩ := h.noNewTokens r'.userId stored rotated k r' hr rfl
    exact .kept found older
  cases h with
  | @stored _ u r h f e _ fresh =>
    by_cases heq : k = h
    · subst heq
      simp only [update_self, Option.some.injEq] at hr
      subst hr
      exact .opened fresh (by simp)
    · exact .kept (by simpa [heq] using hr) (.refl r')
  | @rotated _ u r old new token e now _ hold hu _ unrevoked =>
    by_cases heq : k = new
    · subst heq
      simp only [update_self, Option.some.injEq] at hr
      subst hr
      exact .replaced hold hu rfl unrevoked
    · by_cases hk : k = old
      · subst hk
        simp only [update_of_ne heq, update_self, Option.some.injEq] at hr
        subst hr
        exact .kept hold ((replaceBy_closes new now).older token)
      · exact .kept (by simpa [heq, hk] using hr) (.refl r')
  | registered | expired | familyRevoked | resetRequested | passwordReset | passwordChanged
  | othersRevoked | emailRequested | emailCancelled | emailChanged | deleted =>
    exact kept (by rintro _ _ _ ⟨⟩) (by rintro _ _ _ _ ⟨⟩)

/-- Identifiers are never taken back. -/
theorem Step.issued_mono {n : Note} {s s' : Accounts} (h : Step n s s') {x : Nat}
    (hx : s.issued x = true) : s'.issued x = true := by
  cases h with
  | @registered _ u => by_cases heq : x = u <;> simp [heq, hx]
  | @stored _ u r h f => by_cases heq : x = f <;> simp [heq, hx]
  | rotated | expired | familyRevoked | resetRequested | passwordReset | passwordChanged
  | othersRevoked | emailRequested | emailCancelled | emailChanged | deleted => exact hx

/-- A user was there before, at the same version or one less, or is new. -/
theorem Step.user_origin {n : Note} {s s' : Accounts} (h : Step n s s') {u : UserId}
    {r' : UserRow} (hr : s'.user u = some r') :
    (∃ r, s.user u = some r ∧ r.authVersion ≤ r'.authVersion) ∨
      (s.issued u = false ∧ s'.issued u = true) := by
  have mapped : ∀ v g, (∀ r : UserRow, r.authVersion ≤ (g r).authVersion) →
      (s.mapUser v g).user u = some r' →
      ∃ r, s.user u = some r ∧ r.authVersion ≤ r'.authVersion := by
    intro v g grows hr
    by_cases heq : u = v
    · subst heq
      simp only [Accounts.mapUser, update_self] at hr
      obtain ⟨r, found, rfl⟩ := Option.map_eq_some_iff.mp hr
      exact ⟨r, found, grows r⟩
    · exact ⟨r', by simpa [Accounts.mapUser, heq] using hr, Nat.le_refl _⟩
  cases h with
  | @registered _ v r fresh =>
    by_cases heq : u = v
    · subst heq
      exact .inr ⟨fresh, by simp⟩
    · exact .inl ⟨r', by simpa [heq] using hr, Nat.le_refl _⟩
  | passwordReset | passwordChanged => exact .inl (mapped _ _ (fun _ => Nat.le_succ _) hr)
  | othersRevoked | emailChanged => exact .inl (mapped _ _ (fun _ => Nat.le_succ _) hr)
  | @deleted _ v =>
    refine .inl ⟨r', ?_, Nat.le_refl _⟩
    by_cases heq : u = v
    · subst heq
      simp [Accounts.without] at hr
    · simpa [Accounts.without, heq] using hr
  | stored | rotated | expired | familyRevoked | resetRequested | emailRequested
  | emailCancelled => exact .inl ⟨r', hr, Nat.le_refl _⟩

/-- Users and families carry identifiers that have been handed out. -/
structure Issued (s : Accounts) : Prop where
  user : ∀ u r, s.user u = some r → s.issued u = true
  family : ∀ h r, s.token h = some r → s.issued r.familyId = true

theorem Step.keeps_issued {n : Note} {s s' : Accounts} (h : Step n s s') (hs : Issued s) :
    Issued s' := by
  refine ⟨fun u r' hr => ?_, fun k r' hr => ?_⟩
  · rcases h.user_origin hr with ⟨r, found, -⟩ | ⟨-, issued⟩
    · exact h.issued_mono (hs.user u r found)
    · exact issued
  · cases h.token_origin hr with
    | kept found older => exact older.familyId ▸ h.issued_mono (hs.family _ _ found)
    | replaced found _ familyId => exact familyId ▸ h.issued_mono (hs.family _ _ found)
    | opened _ issued => exact issued

end AccountMachine
