import LexiGo.Account.FamilyLineage
import LexiGo.Account.RotationAuthors

/-! Why a refresh is refused. A token that has been handed out for a session stays good
until the session is ended or the token is rotated, so that whoever is refused has somebody
else to look for, or the expiry of the token. -/
namespace RefreshRefusals
open RowStore TransactionProgram Interleaving CommitContract RowStatements RunSoundness
open KnownCommits FrameRule Function RotationAuthors
open AccountSchema AccountMachine AccountRepository AccountService AccountRefinement AccountRuns

abbrev AccountLog := List (Nat × Note)

variable {allow : Nat → List Note → AccountWorld → AccountWorld → Prop} {platform : Platform}
variable {i : Nat} {t : Tx Row} {w w' : AccountWorld} {log log' : AccountLog}
variable {s s' : Accounts} {n : Note} {u : UserId} {f : FamilyId} {h : TokenHash}

/-- The token was handed out for the session `f` of `u`. -/
def Given (u : UserId) (f : FamilyId) (h : TokenHash) (log : AccountLog) : Prop :=
  ∃ j version, (j, Note.stored u version h f) ∈ log ∨ ∃ old, (j, Note.rotated u version old h f) ∈ log

/-- What ends the session `f` of `u`: the expiry of one of its tokens, its revocation, a
change of the user's credentials that does not keep it, and the deletion of the user. -/
def Ends (u : UserId) (f : FamilyId) (log : AccountLog) : Note → Prop
  | .expired h => Given u f h log
  | .familyRevoked f' _ => f' = f
  | .passwordReset u' _ _ | .emailChanged u' _ _ | .deleted u' => u' = u
  | .passwordChanged u' keep _ | .othersRevoked u' keep => u' = u ∧ keep ≠ f
  | _ => False

def Over (u : UserId) (f : FamilyId) (log : AccountLog) : Prop := ∃ e ∈ log, Ends u f log e.2

def Rotated (h : TokenHash) (log : AccountLog) : Prop :=
  ∃ j u version new f, (j, Note.rotated u version h new f) ∈ log

/-- The token is as the session needs it, unless it has been rotated. -/
def Standing (u : UserId) (f : FamilyId) (h : TokenHash) (log : AccountLog) (s : Accounts) : Prop :=
  ∃ r row, s.token h = some r ∧ s.user u = some row ∧ r.userId = u ∧ r.familyId = f ∧
    r.authVersion = row.authVersion ∧ (r.revokedAt = none ∨ Rotated h log)

section Logs

theorem Given.mono (hlog : log ⊆ log') (hg : Given u f h log) : Given u f h log' := by
  obtain ⟨j, version, hs | ⟨old, hr⟩⟩ := hg
  · exact ⟨j, version, .inl (hlog hs)⟩
  · exact ⟨j, version, .inr ⟨old, hlog hr⟩⟩

theorem Ends.mono (hlog : log ⊆ log') (he : Ends u f log n) : Ends u f log' n := by
  cases n with
  | expired h => exact Given.mono hlog he
  | _ => exact he

theorem Over.mono (hlog : log ⊆ log') (ho : Over u f log) : Over u f log' := by
  obtain ⟨e, he, hends⟩ := ho
  exact ⟨e, hlog he, hends.mono hlog⟩

theorem Rotated.mono (hlog : log ⊆ log') (hr : Rotated h log) : Rotated h log' := by
  obtain ⟨j, u, version, new, f, hmem⟩ := hr
  exact ⟨j, u, version, new, f, hlog hmem⟩

end Logs

section Steps

theorem mapUser_ne {v : UserId} (hv : v ≠ u) (g : UserRow → UserRow) :
    (s.mapUser v g).user u = s.user u := by
  simp [Accounts.mapUser, hv.symm]

theorem Standing.kept (hg : Standing u f h log s) (hlog : log ⊆ log') (htoken : s'.token h = s.token h)
    (huser : s'.user u = s.user u) : Standing u f h log' s' := by
  obtain ⟨r, row, hr, hrow, hu, hf, hv, hopen⟩ := hg
  exact ⟨r, row, htoken.trans hr, huser.trans hrow, hu, hf, hv, hopen.imp_right (.mono hlog)⟩

/-- Every commit that does not end the session leaves its token in order. -/
theorem Standing.step (hg : Standing u f h log s) (hs : Step n s s') (hi : Issued s)
    (given : Given u f h log) (hn : ¬ Ends u f ((i, n) :: log) n) :
    Standing u f h ((i, n) :: log) s' := by
  have hlog : log ⊆ (i, n) :: log := List.subset_cons_self _ _
  have hall := hg
  obtain ⟨r, row, hr, hrow, hu, hf, hv, hopen⟩ := hg
  have mapped : ∀ (s₁ : Accounts) (g : TokenHash → RefreshToken → RefreshToken),
      s₁.token = s.token → s₁.user u = s.user u → g h r = r →
      Standing u f h ((i, n) :: log) (s₁.mapToken g) := by
    intro s₁ g heq huser hsame
    refine hall.kept hlog ?_ huser
    simp only [Accounts.mapToken, heq, hr, Option.map_some, hsame]
  have moved : ∀ (v : UserId) (keep : FamilyId) (s₁ : Accounts) (row₀ : UserRow) (g : UserRow → UserRow)
      (now : Instant), s.user v = some row₀ → (∀ x, (g x).authVersion = x.authVersion + 1) →
      s₁.token = s.token → s₁.user = (s.mapUser v g).user → ¬ (v = u ∧ keep ≠ f) →
      Standing u f h ((i, n) :: log) (s₁.keepFamily v keep (row₀.authVersion + 1) now) := by
    intro v keep s₁ row₀ g now hrow₀ hg htoken huser hne
    by_cases hvu : v = u
    · subst hvu
      obtain rfl : keep = f := not_not.1 fun hk => hne ⟨rfl, hk⟩
      cases hrow.symm.trans hrow₀
      refine ⟨{ r with authVersion := row.authVersion + 1 }, g row, ?_, ?_, hu, hf, ?_,
        hopen.imp_right (.mono hlog)⟩
      · simp [Accounts.keepFamily, Accounts.mapToken, htoken, hr, hu, hf]
      · change s₁.user v = _
        rw [huser, Accounts.mapUser_of hrow]
        simp
      · exact (hg row).symm
    · refine mapped s₁ _ htoken ?_ ?_
      · rw [huser, mapUser_ne hvu]
      · rw [if_neg (fun heq => hvu (heq.symm.trans hu))]
  cases hs with
  | @registered _ v _ fresh =>
    refine hall.kept hlog rfl ?_
    have hne : u ≠ v := by
      rintro rfl
      rw [hi.user u row hrow] at fresh
      cases fresh
    simp [hne]
  | @stored _ v r₀ x f₀ e _ _ free =>
    refine hall.kept hlog ?_ rfl
    have hne : h ≠ x := by
      rintro rfl
      cases free.symm.trans hr
    simp [hne]
  | @rotated _ v r₀ old new token e now _ hold _ _ _ free =>
    have hne : h ≠ new := by
      rintro rfl
      cases free.symm.trans hr
    by_cases heq : h = old
    · subst heq
      cases hold.symm.trans hr
      refine ⟨r.replaceBy new now, row, by simp [hne], hrow, hu, hf, hv, .inr ?_⟩
      exact ⟨i, v, r₀.authVersion, new, r.familyId, List.mem_cons_self⟩
    · exact hall.kept hlog (by simp [hne, heq]) rfl
  | @expired _ x token now _ =>
    have hne : h ≠ x := by
      rintro rfl
      exact hn (given.mono hlog)
    exact hall.kept hlog (by simp [hne]) rfl
  | @familyRevoked _ f₀ seen g x r₀ _ _ _ =>
    refine mapped _ _ rfl rfl (if_neg ?_)
    rintro ⟨-, hf₀⟩
    exact hn (hf₀.symm.trans hf)
  | resetRequested | emailRequested | emailCancelled => exact hall.kept hlog rfl rfl
  | @passwordReset _ x token seen _ now _ _ _ _ =>
    have hne : token.userId ≠ u := hn
    refine mapped _ _ rfl (mapUser_ne hne _) (if_neg ?_)
    exact fun heq => hne (heq.symm.trans hu)
  | @passwordChanged _ v row₀ keep seen passwordHash now hrow₀ =>
    exact moved v keep _ row₀ _ now hrow₀ (fun _ => rfl) rfl rfl hn
  | @othersRevoked _ v row₀ keep now hrow₀ => exact moved v keep _ row₀ _ now hrow₀ (fun _ => rfl) rfl rfl hn
  | @emailChanged _ x token row₀ seen now _ _ _ _ _ _ =>
    have hne : token.userId ≠ u := hn
    refine mapped _ _ rfl (mapUser_ne hne _) (if_neg ?_)
    exact fun heq => hne (heq.symm.trans hu)
  | @deleted _ v =>
    have hne : v ≠ u := hn
    refine hall.kept hlog ?_ ?_
    · have hkeep : r.userId ≠ v := fun heq => hne (heq.symm.trans hu)
      simp [Accounts.without, hr, hkeep]
    · simp [Accounts.without, hne.symm]

/-- A token is in order when it is handed out. -/
theorem standing_given (hs : Step n s s')
    (hn : (∃ version, n = .stored u version h f) ∨ ∃ version old, n = .rotated u version old h f) :
    Standing u f h log s' := by
  rcases hn with ⟨version, rfl⟩ | ⟨version, old, rfl⟩
  · cases hs with
    | @stored _ _ r₀ _ _ e hr₀ _ _ => exact ⟨_, r₀, update_self .., hr₀, rfl, rfl, rfl, .inl rfl⟩
  · cases hs with
    | @rotated _ _ r₀ _ _ token e now hr₀ _ _ _ _ _ =>
      exact ⟨_, r₀, update_self .., hr₀, rfl, rfl, rfl, .inl rfl⟩

theorem rotated_free {v : UserId} {version : Nat} {old x : TokenHash}
    (hs : Step (.rotated v version old x f) s s') : s.token x = none := by
  cases hs with
  | rotated _ _ _ _ _ free => exact free

theorem step_positive (hs : Step n s s') (hpos : ∀ u r, s.user u = some r → 0 < r.authVersion) :
    ∀ u r, s'.user u = some r → 0 < r.authVersion := by
  intro u r' hr'
  rcases hs.user_origin hr' with ⟨r, hr, hle⟩ | ⟨hfresh, hissued⟩
  · exact Nat.lt_of_lt_of_le (hpos u r hr) hle
  · cases hs with
    | @registered _ v r₀ _ hone =>
      by_cases heq : u = v
      · subst heq
        have hr₀ : r₀ = r' := by simpa using hr'
        rw [← hr₀, hone]
        exact Nat.one_pos
      · exact hpos u r' (by simpa [heq] using hr')
    | stored => exact hpos u r' hr'
    | _ => cases hissued.symm.trans hfresh

end Steps

/-- What every commit keeps. -/
structure Accounted (w : AccountWorld) : Prop where
  issued : Issued (view w.db)
  positive : ∀ u r, (view w.db).user u = some r → 0 < r.authVersion
  standing : ∀ u f h, Given u f h w.log → Over u f w.log ∨ Standing u f h w.log (view w.db)

theorem commits_accounted (hc : Commits (accountContract allow) w w') (hw : Accounted w) :
    Accounted w' := by
  obtain ⟨i, n, hlog, hstep, -⟩ := commits_step hc
  refine ⟨hstep.keeps_issued hw.issued, step_positive hstep hw.positive, fun u f h hgiven => ?_⟩
  rw [hlog] at hgiven ⊢
  have hsub : w.log ⊆ (i, n) :: w.log := List.subset_cons_self _ _
  by_cases hends : Ends u f ((i, n) :: w.log) n
  · exact .inl ⟨(i, n), List.mem_cons_self, hends⟩
  by_cases hbefore : Given u f h w.log
  · rcases hw.standing u f h hbefore with hover | hstanding
    · exact .inl (hover.mono hsub)
    · exact .inr (hstanding.step hstep hw.issued hbefore hends)
  · refine .inr (standing_given hstep ?_)
    obtain ⟨j, version, hmem | ⟨old, hmem⟩⟩ := hgiven
    · rcases List.mem_cons.1 hmem with heq | hmem
      · exact .inl ⟨version, (Prod.mk.inj heq).2.symm⟩
      · exact absurd ⟨j, version, .inl hmem⟩ hbefore
    · rcases List.mem_cons.1 hmem with heq | hmem
      · exact .inr ⟨version, old, (Prod.mk.inj heq).2.symm⟩
      · exact absurd ⟨j, version, .inr ⟨old, hmem⟩⟩ hbefore

theorem empty_accounted : Accounted empty.world := by
  refine ⟨empty_issued, fun u r hr => by simp [view, empty] at hr, fun u f h hgiven => ?_⟩
  obtain ⟨j, version, hmem | ⟨old, hmem⟩⟩ := hgiven <;> cases hmem

abbrev accountsKnown (allow : Nat → List Note → AccountWorld → AccountWorld → Prop) :
    Contract Row Note := known (accountContract allow) Accounted

section Refusals

/-- Nothing of request `i` has been committed. -/
def Silent (i : Nat) (w : AccountWorld) : Prop := ∀ n, (i, n) ∉ w.log

/-- A reason to refuse the token that does not lie with request `i`. -/
def Reason (i : Nat) (u : UserId) (f : FamilyId) (h : TokenHash) (log : AccountLog) : Prop :=
  (∃ e ∈ log, (e.1 ≠ i ∨ ∃ x, e.2 = .expired x) ∧ Ends u f log e.2) ∨
    ∃ j v version new f', j ≠ i ∧ (j, Note.rotated v version h new f') ∈ log

theorem Reason.mono (hlog : log ⊆ log') (hr : Reason i u f h log) : Reason i u f h log' := by
  rcases hr with ⟨e, he, hother, hends⟩ | ⟨j, v, version, new, f', hj, hmem⟩
  · exact .inl ⟨e, hlog he, hother, hends.mono hlog⟩
  · exact .inr ⟨j, v, version, new, f', hj, hlog hmem⟩

theorem Silent.rely {C : Contract Row Note} (hs : Silent i w) (hr : Rely C i t w w') : Silent i w' :=
  fun n hn => hs n (rely_own hr hn)

/-- What request `i` has done of its own is the rotation of `h`. -/
def OnlyRotated (i : Nat) (h : TokenHash) (log : AccountLog) : Prop :=
  ∀ n, (i, n) ∈ log → ∃ v version new f', n = .rotated v version h new f'

theorem reason_of_over (hown : OnlyRotated i h log) (hover : Over u f log) : Reason i u f h log := by
  obtain ⟨e, he, hends⟩ := hover
  refine .inl ⟨e, he, .inl ?_, hends⟩
  rintro rfl
  obtain ⟨v, version, new, f', heq⟩ := hown e.2 he
  rw [heq] at hends
  exact hends

theorem Silent.onlyRotated (hs : Silent i w) : OnlyRotated i h w.log := fun n hn => absurd hn (hs n)

/-- The token is in order, or there is a reason. -/
theorem standing_or_reason (hw : Accounted w) (given : Given u f h w.log)
    (hown : OnlyRotated i h w.log) :
    Reason i u f h w.log ∨ (¬ Over u f w.log ∧ Standing u f h w.log (view w.db)) := by
  by_cases hover : Over u f w.log
  · exact .inl (reason_of_over hown hover)
  · exact .inr ⟨hover, (hw.standing u f h given).resolve_left hover⟩

/-- What the answer to a refresh says about the commits. -/
def Outcome (i : Nat) (u : UserId) (f : FamilyId) (h : TokenHash) : Reply Answer → AccountWorld → Prop
  | .ok answer, w => ∃ user access new, answer = .signedIn user ⟨access, some new⟩ ∧
    OnlyRotated i h w.log ∧ (Reason i u f h w.log ∨ ∃ version, (i, .rotated u version h new f) ∈ w.log)
  | .error why, w => Reason i u f h w.log ∨ (why = .internal ∧ Silent i w)

theorem Outcome.rely {C : Contract Row Note} {reply : Reply Answer} (ho : Outcome i u f h reply w)
    (hr : Rely C i t w w') : Outcome i u f h reply w' := by
  have hlog : w.log ⊆ w'.log := fun _ he => rely_log hr he
  cases reply with
  | error why => exact ho.imp (.mono hlog) fun hi => ⟨hi.1, hi.2.rely hr⟩
  | ok answer =>
    obtain ⟨user, access, new, hanswer, hown, hreason⟩ := ho
    exact ⟨user, access, new, hanswer, fun n hn => hown n (rely_own hr hn),
      hreason.imp (.mono hlog) fun ⟨version, hmem⟩ => ⟨version, hlog hmem⟩⟩

/-- The same of the rotation alone. -/
def Turned (i : Nat) (u : UserId) (f : FamilyId) (h new : TokenHash) :
    Reply (UserId × Nat) → Tx Row → AccountWorld → Prop
  | .ok (v, version), t, w => t = {} ∧ 0 < version ∧ Given u f h w.log ∧ OnlyRotated i h w.log ∧
    (Reason i u f h w.log ∨ v = u ∧ (i, .rotated u version h new f) ∈ w.log)
  | .error why, _, w => Reason i u f h w.log ∨ (why = .internal ∧ Silent i w)

/-- Closing the family does not take away the reason. -/
theorem wp_closing {f₀ : FamilyId} {g : RefreshToken → RefreshToken} {new : TokenHash}
    {why : AccountError} (hreason : Reason i u f h w.log) :
    wp (accountsKnown allow) i (Turned i u f h new)
      (do
        let (seen, _) ← revokeFamily f₀ g
        commit [.familyRevoked f₀ seen]
        return .error why) t w := by
  have hsparing : Sparing (fun _ => True) (revokeFamily f₀ g) :=
    .bind (.select _) fun seen => .bind (.changeEach _ (fun _ _ _ _ => trivial) _) fun _ => .pure _
  rw [wp_bind]
  refine wp_sparing hsparing fun seen t' w₁ framed => ?_
  dsimp only
  rw [wp_bind, wp_commit]
  intro w₂ hr₂ _ hallow
  refine ⟨publishes_known hallow, .inl (hreason.mono fun e he => ?_)⟩
  exact List.mem_append_right _ (rely_log hr₂ (rely_log framed.rely he))

theorem rotate_turned (given : Given u f h w.log) (silent : Silent i w) (new : TokenHash)
    (expiresAt : Instant) :
    wp (accountsKnown allow) i (Turned i u f h new)
      (rotate h new expiresAt) {} w := by
  unfold rotate
  rw [wp_bind, wp_choose]
  intro dbNow
  rw [wp_bind, wp_select]
  intro w₁ hr₁ hw₁
  have given₁ : Given u f h w₁.log := given.mono fun _ he => rely_log hr₁ he
  have silent₁ := silent.rely hr₁
  rw [Tx.visible_empty]
  cases hlooked : (w₁.db.lookup (Key.refreshToken h)).map RefreshToken.userId with
  | none =>
    refine .inl ((standing_or_reason hw₁.2 given₁ silent₁.onlyRotated).resolve_right ?_)
    rintro ⟨-, r, row, hr, -⟩
    have hr : w₁.db.lookup (Key.refreshToken h) = some r := hr
    rw [hr] at hlooked
    cases hlooked
  | some v =>
    dsimp only
    have same : ∀ {w₂ : AccountWorld}, w₁.log ⊆ w₂.log → ¬ Over u f w₂.log → v = u := by
      intro w₂ hsub hnot
      obtain ⟨r, row, hr, -, hu, -⟩ := (hw₁.2.standing u f h given₁).resolve_left
        fun hover => hnot (hover.mono hsub)
      have hr : w₁.db.lookup (Key.refreshToken h) = some r := hr
      rw [hr] at hlooked
      exact (Option.some.inj hlooked).symm.trans hu
    have noUser : ∀ w₂, Rely (accountsKnown allow) i {} w₁ w₂ → (accountsKnown allow).inv w₂ →
        Misses {} w₂ (Key.user v) (fun _ => true) → Reason i u f h w₂.log := by
      intro w₂ hr₂ hw₂ hmiss
      have hsub : w₁.log ⊆ w₂.log := fun _ he => rely_log hr₂ he
      refine (standing_or_reason hw₂.2 (given₁.mono hsub) (silent₁.rely hr₂).onlyRotated).resolve_right ?_
      rintro ⟨hnot, r, row, -, hrow, -⟩
      obtain rfl := same hsub hnot
      cases hmiss row hrow
    rw [wp_bind]
    refine @wp_selectFor Key _ Row Note _ i _ _ (.user v) .share (fun _ => true) _ ?_ ?_ ?_
    · exact fun w₂ hr₂ hw₂ hmiss => .inl (noUser w₂ hr₂ hw₂ hmiss)
    · exact fun w₂ hr₂ hw₂ hmiss => .inl (noUser w₂ hr₂ hw₂ hmiss)
    intro w₂ user hr₂ hw₂ huser _
    have silent₂ := silent₁.rely hr₂
    have sub₂ : w₁.log ⊆ w₂.log := fun _ he => rely_log hr₂ he
    have noToken : ∀ w₃, Rely (accountsKnown allow) i (({} : Tx Row).hold (Key.user v) .share) w₂ w₃ →
        (accountsKnown allow).inv w₃ →
        Misses (({} : Tx Row).hold (Key.user v) .share) w₃ (Key.refreshToken h) (fun _ => true) →
        Reason i u f h w₃.log := by
      intro w₃ hr₃ hw₃ hmiss
      have hsub : w₁.log ⊆ w₃.log := fun _ he => rely_log hr₃ (sub₂ he)
      refine (standing_or_reason hw₃.2 (given₁.mono hsub) (silent₂.rely hr₃).onlyRotated).resolve_right ?_
      rintro ⟨-, r, row, hr, -⟩
      cases hmiss r hr
    dsimp only
    rw [wp_bind]
    refine @wp_selectFor Key _ Row Note _ i _ _ (.refreshToken h) .update (fun _ => true) _ ?_ ?_ ?_
    · exact fun w₃ hr₃ hw₃ hmiss => .inl (noToken w₃ hr₃ hw₃ hmiss)
    · exact fun w₃ hr₃ hw₃ hmiss => .inl (noToken w₃ hr₃ hw₃ hmiss)
    intro w₃ token hr₃ hw₃ htoken _
    have htoken : (view w₃.db).token h = some token := htoken
    have silent₃ := silent₂.rely hr₃
    have sub₃ : w₁.log ⊆ w₃.log := fun _ he => rely_log hr₃ (sub₂ he)
    have huser₃ : (view w₃.db).user v = some user := hr₃.kept (by simp) huser
    have cases₃ := standing_or_reason hw₃.2 (given₁.mono sub₃) silent₃.onlyRotated
    have orderly : ¬ Over u f w₃.log ∧ Standing u f h w₃.log (view w₃.db) →
        v = u ∧ token.userId = u ∧ token.familyId = f ∧ token.authVersion = user.authVersion ∧
          (token.revokedAt = none ∨ Rotated h w₃.log) := by
      rintro ⟨hnot, r, row, hr, hrow, hu, hf, hversion, hopen⟩
      obtain rfl := same sub₃ hnot
      cases hr.symm.trans htoken
      cases hrow.symm.trans huser₃
      exact ⟨rfl, hu, hf, hversion, hopen⟩
    dsimp only
    rw [wp_bind, wp_choose]
    intro clock
    split
    · rename_i hmine
      refine wp_closing (cases₃.resolve_right fun hstanding => ?_)
      obtain ⟨hv, hu, -, hversion, -⟩ := orderly hstanding
      simp [hv, hu, hversion] at hmine
    rename_i hmine
    obtain ⟨hu, hversion⟩ : token.userId = v ∧ token.authVersion = user.authVersion := by
      simpa using hmine
    split
    · rename_i revokedAt hrevoked
      have hreason : Reason i u f h w₃.log := by
        refine cases₃.elim id fun hstanding => ?_
        rcases (orderly hstanding).2.2.2.2 with hopen | ⟨j, v', version, new', f', hmem⟩
        · cases hopen.symm.trans hrevoked
        · refine .inr ⟨j, v', version, new', f', ?_, hmem⟩
          rintro rfl
          exact silent₃ _ hmem
      split
      · exact .inl hreason
      · exact wp_closing hreason
    split
    · rw [wp_bind]
      refine wp_updateRow_locked (Or.inl rfl) (by simp) htoken rfl fun w₄ hr₄ _ => ?_
      rw [wp_bind, wp_commit]
      intro w₅ hr₅ _ hallow
      refine ⟨publishes_known hallow, .inl (.inl ⟨(i, .expired h), List.mem_cons_self, ?_, ?_⟩)⟩
      · exact .inr ⟨h, rfl⟩
      · refine Given.mono (fun e he => ?_) given₁
        exact List.mem_cons_of_mem _ (rely_log hr₅ (rely_log hr₄ (sub₃ he)))
    · rw [wp_bind]
      refine wp_updateRow_locked (Or.inl rfl) (by simp) htoken rfl fun w₄ hr₄ _ => ?_
      rw [wp_bind]
      refine wp_insertRow (fun w₅ _ hr₅ _ _ => ?_) fun w₅ hr₅ _ _ => ?_
      · exact .inr ⟨rfl, (silent₃.rely hr₄).rely hr₅⟩
      simp only [if_true, wp_bind, wp_commit]
      intro w₆ hr₆ _ hallow
      refine ⟨publishes_known hallow, rfl, hw₂.2.positive v user huser, ?_, ?_, ?_⟩
      · refine given₁.mono fun e he => ?_
        exact List.mem_cons_of_mem _ (rely_log hr₆ (rely_log hr₅ (rely_log hr₄ (sub₃ he))))
      · intro n hn
        rcases List.mem_cons.1 hn with heq | hn
        · exact ⟨v, user.authVersion, new, token.familyId, (Prod.mk.inj heq).2⟩
        · exact absurd hn (((silent₃.rely hr₄).rely hr₅).rely hr₆ n)
      · rcases cases₃ with hreason | hstanding
        · refine .inl (hreason.mono fun e he => ?_)
          exact List.mem_cons_of_mem _ (rely_log hr₆ (rely_log hr₅ (rely_log hr₄ he)))
        · obtain ⟨rfl, -, rfl, -⟩ := orderly hstanding
          exact .inr ⟨rfl, List.mem_cons_self⟩

/-- A refresh that is refused has a reason to be, unless the digest of the new token was
taken; one that is not refused has rotated the token. -/
theorem refresh_outcome (given : Given u f h w.log) (silent : Silent i w) :
    wp (accountsKnown allow) i (fun reply _ w' => Outcome i u f h reply w') (refresh h) {} w := by
  unfold refresh
  rw [wp_bind, wp_choose]
  intro new
  rw [wp_bind, wp_choose]
  intro expiresAt
  unfold andThen
  rw [wp_bind]
  refine wp_mono ?_ (rotate_turned given silent new expiresAt)
  intro reply t w₁ hturned
  cases reply with
  | error why => exact hturned
  | ok turned =>
    obtain ⟨v, version⟩ := turned
    obtain ⟨rfl, hpos, given₁, hown, hreason⟩ := hturned
    dsimp only
    rw [wp_bind]
    unfold byID
    rw [wp_bind, wp_select]
    intro w₂ hr₂ hw₂
    have sub₂ : w₁.log ⊆ w₂.log := fun _ he => rely_log hr₂ he
    have hown₂ : OnlyRotated i h w₂.log := fun n hn => hown n (rely_own hr₂ hn)
    rw [Tx.visible_empty]
    cases huser : w₂.db.lookup (Key.user v) with
    | none =>
      refine .inl ?_
      rcases hreason with hreason | ⟨rfl, -⟩
      · exact hreason.mono sub₂
      · refine (standing_or_reason hw₂.2 (given₁.mono sub₂) hown₂).resolve_right ?_
        rintro ⟨-, r, row, -, hrow, -⟩
        have hrow : w₂.db.lookup (Key.user v) = some row := hrow
        cases hrow.symm.trans huser
    | some r =>
      have hreason₂ : Reason i u f h w₂.log ∨ ∃ version, (i, .rotated u version h new f) ∈ w₂.log :=
        hreason.imp (.mono sub₂) fun hrotated => ⟨version, sub₂ hrotated.2⟩
      unfold withVersion
      dsimp only
      rw [wp_pure]
      dsimp only
      rw [wp_bind, wp_choose]
      intro accessExpiresAt
      unfold issueAccess
      rw [if_neg (Nat.pos_iff_ne_zero.1 hpos)]
      exact ⟨_, _, new, rfl, hown₂, hreason₂⟩

end Refusals

section Runs
variable {c : AccountConfig}

/-- What a refresh is told, if its token had been handed out before it arrived. -/
def Told (u : UserId) (f : FamilyId) (h : TokenHash) (op : Op) (born : AccountWorld) (i : Nat)
    (reply : Reply Answer) (w : AccountWorld) : Prop :=
  op = .refresh h → Given u f h born.log → Silent i born → Outcome i u f h reply w

theorem told_sound : Sound (accountsKnown allow) (program platform) (Told u f h) := by
  intro op i w _
  by_cases hpresented : op = .refresh h ∧ Given u f h w.log ∧ Silent i w
  · obtain ⟨rfl, given, silent⟩ := hpresented
    refine wp_mono ?_ (refresh_outcome given silent)
    exact fun reply t w₁ ho w₂ hr _ _ _ _ => ho.rely hr
  · refine wp_mono ?_ (wp_known _)
    exact fun _ _ _ _ _ _ _ hop given silent => absurd ⟨hop, given, silent⟩ hpresented

/-- Every commit of a run keeps the accounts in order. -/
theorem run_accounted (hrun : Run (program platform) allow empty c) :
    Run (program platform) (accountsKnown allow).allow empty c ∧ Accounted c.world :=
  run_known account_sound (fun _ _ => commits_accounted) hrun empty_safe empty_accounted

/-- A token that was handed out before the request arrived is not what the request makes of
another, as long as the session lasts. -/
theorem fresh_rotation (hrun : Run (program platform) allow empty c)
    {p : Proc Row Note Op (Reply Answer)} (hp : c.procs[i]? = some p) {x old : TokenHash}
    (given : Given u f x p.born.log) {v : UserId} {version : Nat} {f' : FamilyId}
    (hmem : (i, Note.rotated v version old x f') ∈ c.world.log) : Over u f c.world.log := by
  have noProcs : ∀ (j : Nat) (q : Proc Row Note Op (Reply Answer)), empty.procs[j]? ≠ some q := by
    intro j q hq
    simp [empty] at hq
  have origin := run_origin account_sound hrun empty_safe (fun j q hq => absurd hq (noProcs j q)) i p hp
  have history := run_born account_sound hrun empty_safe (fun j q hq => absurd hq (noProcs j q)) i p hp
  have start : Accounted p.born := history_keeps origin (fun _ _ => commits_accounted) empty_accounted
  have silent : (i, Note.rotated v version old x f') ∉ p.born.log :=
    run_silent ⟨rfl, rfl⟩ hrun i p hp _
  have keeps : ∀ w₁ w₂, Commits (accountContract allow) w₁ w₂ →
      (Accounted w₁ ∧ Given u f x w₁.log ∧
        ((i, Note.rotated v version old x f') ∈ w₁.log → Over u f w₁.log)) →
      Accounted w₂ ∧ Given u f x w₂.log ∧
        ((i, Note.rotated v version old x f') ∈ w₂.log → Over u f w₂.log) := by
    rintro w₁ w₂ hc ⟨hw, hgiven, hover⟩
    obtain ⟨j, n, hlog, hstep, -⟩ := commits_step hc
    have hsub : w₁.log ⊆ w₂.log := by
      rw [hlog]
      exact List.subset_cons_self _ _
    refine ⟨commits_accounted hc hw, hgiven.mono hsub, fun hin => ?_⟩
    rw [hlog] at hin
    rcases List.mem_cons.1 hin with heq | hin
    · -- the digest of a new token is not that of a token there is
      rcases hw.standing u f x hgiven with hover | ⟨r, row, hr, -⟩
      · exact hover.mono hsub
      · obtain rfl := (Prod.mk.inj heq).2
        cases (rotated_free hstep).symm.trans hr
    · exact (hover hin).mono hsub
  exact (history_keeps history keeps ⟨start, given, fun hin => absurd hin silent⟩).2.2 hmem

/-- In every run a refresh with a token that was handed out before is refused only where the
session is over by then, the token had expired, somebody else has presented it, or nothing
was committed because the digest of the new token was taken. -/
theorem refresh_refusals (hrun : Run (program platform) allow empty c) {p : Proc Row Note Op (Reply Answer)}
    (hp : c.procs[i]? = some p) (hop : p.op = .refresh h) (given : Given u f h p.born.log)
    {reply : Reply Answer} (ha : c.answer i = some reply) :
    Outcome i u f h reply c.world ∧
      ∀ j v version new f', (j, Note.rotated v version h new f') ∈ c.world.log →
        ∃ q, c.procs[j]? = some q ∧ q.op = .refresh h := by
  have safe : Safe (accountsKnown allow) (Told u f h) empty :=
    safe_init ⟨empty_safe.inv, empty_accounted⟩
  have answered := (run_sound told_sound (run_accounted hrun).1 safe).1.answer hp ha
  refine ⟨answered hop given ?_, fun j v version new f' => replaced_presented hrun⟩
  exact run_silent ⟨rfl, rfl⟩ hrun i p hp

deriving instance DecidableEq for Op

/-- The second of two clients that present a token at once is refused, since the first of
them has rotated it. -/
theorem presentedTwice_refused : ∃ c p,
    exec (program plainPlatform) (fun _ _ _ _ => True) empty FamilyLineage.presentedTwice = some c ∧
      c.procs[2]? = some p ∧ p.op = .refresh 5 ∧ c.answer 2 = some (.error .refreshInProgress) ∧
      Outcome 2 1 2 5 (.error .refreshInProgress) c.world := by
  have checked : (exec (program plainPlatform) (fun _ _ _ _ => True) empty FamilyLineage.presentedTwice).any
      (fun c => decide (c.answer 2 = some (.error .refreshInProgress)) && (c.procs[2]?).any fun p =>
        decide (p.op = .refresh 5) && decide ((0, Note.stored 1 1 5 2) ∈ p.born.log)) = true := by
    decide +kernel
  obtain ⟨c, hc, hcheck⟩ := (Option.any_eq_true _ _).1 checked
  obtain ⟨ha, hproc⟩ := Bool.and_eq_true_iff.1 hcheck
  obtain ⟨p, hp, hproc⟩ := (Option.any_eq_true _ _).1 hproc
  obtain ⟨hop, hborn⟩ := Bool.and_eq_true_iff.1 hproc
  have ha := of_decide_eq_true ha
  have hop := of_decide_eq_true hop
  have given : Given 1 2 5 p.born.log := ⟨0, 1, .inl (of_decide_eq_true hborn)⟩
  exact ⟨c, p, hc, hp, hop, ha, (refresh_refusals (.of_exec _ hc) hp hop given ha).1⟩

end Runs

end RefreshRefusals
