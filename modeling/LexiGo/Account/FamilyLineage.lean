import LexiGo.Account.FamilyRevocation

/-! A family of refresh tokens is a line: a rotation closes the token it
replaces, so that however often and by however many clients a token is
presented, one token of its family at most is open. -/
namespace FamilyLineage
open RowStore TransactionProgram Interleaving CommitContract RunSoundness Function
open AccountSchema AccountMachine AccountService AccountRefinement AccountRuns FamilyRevocation

variable {platform : Platform} {w w' : AccountWorld} {c : AccountConfig}
variable {n : Note} {s s' : Accounts}

/-- One open token in a family at most; in particular no token ends up with two
usable successors. -/
structure OneOpenToken (w : AccountWorld) : Prop where
  single : ∀ f h h', Open f (view w.db) h → Open f (view w.db) h' → h = h'
  successor : ∀ i j u u' version version' old new new' f f',
    (i, Note.rotated u version old new f) ∈ w.log →
    (j, Note.rotated u' version' old new' f') ∈ w.log →
    Open f (view w.db) new → Open f' (view w.db) new' → new = new'

def Single (s : Accounts) : Prop := ∀ f h h', Open f s h → Open f s h' → h = h'

/-- The tokens of a family belong to one user. -/
def OneOwner (s : Accounts) : Prop :=
  ∀ h h' r r', s.token h = some r → s.token h' = some r' → r.familyId = r'.familyId →
    r.userId = r'.userId

theorem kept_open {f : FamilyId} {h : TokenHash} {r r' : RefreshToken} (found : s.token h = some r)
    (older : Older r r') (hf : r'.familyId = f) (hn : r'.revokedAt = none) : Open f s h :=
  ⟨r, found, older.familyId.symm.trans hf, older.unrevoked hn⟩

/-- An unissued family has no tokens. -/
theorem unissued_empty (hi : Issued s) {f : FamilyId} (fresh : s.issued f = false) {h : TokenHash}
    {r : RefreshToken} (found : s.token h = some r) : r.familyId ≠ f := by
  rintro rfl
  rw [hi.family h r found] at fresh
  cases fresh

/-- Without a new session or a rotation, what is open was open. -/
theorem open_back (hs : Step n s s') (stored : ∀ u v k f, n ≠ .stored u v k f)
    (rotated : ∀ u v k k' f, n ≠ .rotated u v k k' f) {f : FamilyId} {h : TokenHash}
    (ho : Open f s' h) : Open f s h := by
  obtain ⟨r', hr', hf, hn⟩ := ho
  obtain ⟨r, found, older⟩ := hs.noNewTokens r'.userId (fun v k f => stored _ v k f)
    (fun v k k' f => rotated _ v k k' f) h r' hr' rfl
  exact kept_open found older hf hn

theorem step_single (hs : Step n s s') (hi : Issued s) (single : Single s) : Single s' := by
  intro f h h' ho ho'
  have kept (stored : ∀ u v k f, n ≠ .stored u v k f) (rotated : ∀ u v k k' f, n ≠ .rotated u v k k' f) :
      h = h' :=
    single f h h' (open_back hs stored rotated ho) (open_back hs stored rotated ho')
  cases hs with
  | @stored _ u r new f' e _ fresh _ =>
    -- the new token is alone in its family
    have cases : ∀ k, Open f ({ s with
        token := update s.token new (some ⟨u, f', r.authVersion, e, none, none, none⟩)
        issued := update s.issued f' true } : Accounts) k →
        (k = new ∧ f = f') ∨ Open f s k := by
      rintro k ⟨r', hr', hf, hn⟩
      by_cases heq : k = new
      · subst heq
        simp only [update_self, Option.some.injEq] at hr'
        subst hr'
        exact .inl ⟨rfl, hf.symm⟩
      · exact .inr ⟨r', by simpa [heq] using hr', hf, hn⟩
    have apart : ∀ k, Open f s k → f ≠ f' := by
      rintro k ⟨r', hr', hf, -⟩ rfl
      exact unissued_empty hi fresh hr' hf
    rcases cases h ho with ⟨rfl, hf⟩ | hold
    · rcases cases h' ho' with ⟨rfl, -⟩ | hold'
      · rfl
      · exact absurd hf (apart h' hold')
    · rcases cases h' ho' with ⟨rfl, hf⟩ | hold'
      · exact absurd hf (apart h hold)
      · exact single f h h' hold hold'
  | @rotated _ u r old new token e now _ hold _ _ unrevoked free =>
    -- the token that is replaced was the open one of its family
    have cases : ∀ k, Open f ({ s with
        token := update (update s.token old (some (token.replaceBy new now))) new
          (some ⟨u, token.familyId, r.authVersion, e, none, none, none⟩) } : Accounts) k →
        (k = new ∧ f = token.familyId) ∨ (k ≠ old ∧ Open f s k) := by
      rintro k ⟨r', hr', hf, hn⟩
      by_cases heq : k = new
      · subst heq
        simp only [update_self, Option.some.injEq] at hr'
        subst hr'
        exact .inl ⟨rfl, hf.symm⟩
      · have hne : k ≠ old := by
          rintro rfl
          simp only [update_of_ne heq, update_self, Option.some.injEq] at hr'
          subst hr'
          cases hn
        exact .inr ⟨hne, r', by simpa [heq, hne] using hr', hf, hn⟩
    have apart : ∀ k, k ≠ old → Open f s k → f ≠ token.familyId := by
      rintro k hne hk rfl
      exact hne (single _ k old hk ⟨token, hold, rfl, unrevoked⟩)
    rcases cases h ho with ⟨rfl, hf⟩ | ⟨hne, hopen⟩
    · rcases cases h' ho' with ⟨rfl, -⟩ | ⟨hne', hopen'⟩
      · rfl
      · exact absurd hf (apart h' hne' hopen')
    · rcases cases h' ho' with ⟨rfl, hf⟩ | ⟨-, hopen'⟩
      · exact absurd hf (apart h hne hopen)
      · exact single f h h' hopen hopen'
  | registered | expired | familyRevoked | resetRequested | passwordReset | passwordChanged
  | othersRevoked | emailRequested | emailCancelled | emailChanged | deleted =>
    exact kept (by rintro _ _ _ _ ⟨⟩) (by rintro _ _ _ _ _ ⟨⟩)

/-- Every token of a step goes back to one of the same family and user, or is
the first of its family. -/
theorem family_back (hs : Step n s s') {h : TokenHash} {r' : RefreshToken}
    (hr : s'.token h = some r') :
    (∃ h₀ r, s.token h₀ = some r ∧ r.familyId = r'.familyId ∧ r.userId = r'.userId) ∨
      s.issued r'.familyId = false := by
  cases hs.token_origin hr with
  | kept found older => exact .inl ⟨h, _, found, older.familyId.symm, older.userId.symm⟩
  | replaced found userId familyId => exact .inl ⟨_, _, found, familyId, userId⟩
  | opened fresh => exact .inr fresh

/-- The first token of a family is the only one that the step makes. -/
theorem first_alone (hs : Step n s s') (hi : Issued s) {h h' : TokenHash} {r r' : RefreshToken}
    (hr : s'.token h = some r) (hr' : s'.token h' = some r') (hf : r.familyId = r'.familyId)
    (fresh : s.issued r.familyId = false) : h = h' := by
  have unused : ∀ k r₀, s.token k = some r₀ → r₀.familyId ≠ r.familyId :=
    fun k r₀ => unissued_empty hi fresh
  have kept (stored : ∀ u v k f, n ≠ .stored u v k f) (rotated : ∀ u v k k' f, n ≠ .rotated u v k k' f) :
      h = h' := by
    obtain ⟨r₀, found, older⟩ := hs.noNewTokens r.userId (fun v k f => stored _ v k f)
      (fun v k k' f => rotated _ v k k' f) h r hr rfl
    exact absurd older.familyId.symm (unused h r₀ found)
  cases hs with
  | @stored _ u row new f e _ _ _ =>
    have mine : ∀ k r₀, ({ s with
        token := update s.token new (some ⟨u, f, row.authVersion, e, none, none, none⟩)
        issued := update s.issued f true } : Accounts).token k = some r₀ →
        r₀.familyId = r.familyId → k = new := by
      intro k r₀ found hfam
      by_contra heq
      exact unused k r₀ (by simpa [heq] using found) hfam
    rw [mine h r hr rfl, mine h' r' hr' hf.symm]
  | @rotated _ u row old new token e now _ hold _ _ _ _ =>
    exfalso
    by_cases heq : h = new
    · subst heq
      simp only [update_self, Option.some.injEq] at hr
      subst hr
      exact unused old token hold rfl
    · by_cases hk : h = old
      · subst hk
        simp only [update_of_ne heq, update_self, Option.some.injEq] at hr
        subst hr
        exact unused h token hold rfl
      · exact unused h r (by simpa [heq, hk] using hr) rfl
  | registered | expired | familyRevoked | resetRequested | passwordReset | passwordChanged
  | othersRevoked | emailRequested | emailCancelled | emailChanged | deleted =>
    exact kept (by rintro _ _ _ _ ⟨⟩) (by rintro _ _ _ _ _ ⟨⟩)

theorem step_oneOwner (hs : Step n s s') (hi : Issued s) (owner : OneOwner s) : OneOwner s' := by
  intro h h' r r' hr hr' hf
  rcases family_back hs hr with ⟨h₀, r₀, hr₀, hf₀, hu₀⟩ | fresh
  · rcases family_back hs hr' with ⟨h₁, r₁, hr₁, hf₁, hu₁⟩ | fresh
    · have same : r₀.userId = r₁.userId :=
        owner h₀ h₁ r₀ r₁ hr₀ hr₁ (hf₀.trans (hf.trans hf₁.symm))
      rw [← hu₀, ← hu₁, same]
    · exact absurd (hf₀.trans hf) (unissued_empty hi fresh hr₀)
  · obtain rfl := first_alone hs hi hr hr' hf fresh
    cases hr.symm.trans hr'
    rfl

/-- A token goes only together with all the tokens of its user. -/
theorem token_stays (hs : Step n s s') {k : TokenHash} {r : RefreshToken}
    (hr : s.token k = some r) : (∃ r', s'.token k = some r' ∧ r'.familyId = r.familyId) ∨
      ∀ h r', s'.token h = some r' → r'.userId ≠ r.userId := by
  have mapped : ∀ (s₁ : Accounts) (g : TokenHash → RefreshToken → RefreshToken),
      s₁.token = s.token → (∀ h r, Older r (g h r)) →
      ∃ r', (s₁.mapToken g).token k = some r' ∧ r'.familyId = r.familyId := by
    intro s₁ g heq hg
    exact ⟨g k r, by simp [Accounts.mapToken, heq, hr], (hg k r).familyId⟩
  cases hs with
  | @stored _ u row new f e _ _ free =>
    have hne : k ≠ new := by
      rintro rfl
      rw [free] at hr
      cases hr
    exact .inl ⟨r, by simpa [hne] using hr, rfl⟩
  | @rotated _ u row old new token e now _ hold _ _ _ free =>
    have hne : k ≠ new := by
      rintro rfl
      rw [free] at hr
      cases hr
    by_cases heq : k = old
    · subst heq
      cases hold.symm.trans hr
      exact .inl ⟨r.replaceBy new now, by simp [hne], rfl⟩
    · exact .inl ⟨r, by simpa [hne, heq] using hr, rfl⟩
  | @expired _ h token now htoken =>
    by_cases heq : k = h
    · subst heq
      cases htoken.symm.trans hr
      exact .inl ⟨r.revoke now, by simp, rfl⟩
    · exact .inl ⟨r, by simpa [heq] using hr, rfl⟩
  | familyRevoked hg =>
    refine .inl (mapped _ _ rfl fun h r => ?_)
    split_ifs
    · exact hg.older r
    · exact .refl r
  | @passwordReset _ _ _ _ _ now | @emailChanged _ _ _ _ _ now =>
    refine .inl (mapped _ _ rfl fun h r => ?_)
    split_ifs
    · exact (revoke_closes now).older r
    · exact .refl r
  | @passwordChanged _ _ _ _ _ _ now | @othersRevoked _ _ _ _ now =>
    refine .inl (mapped _ _ rfl fun h r => ?_)
    split_ifs
    · exact ⟨rfl, rfl, id⟩
    · exact (revoke_closes now).older r
    · exact .refl r
  | @deleted _ u =>
    by_cases hu : r.userId = u
    · refine .inr fun h r' hr' => ?_
      have := (Option.filter_eq_some_iff.mp hr').2
      rw [hu]
      simpa using this
    · exact .inl ⟨r, by simp [Accounts.without, hr, hu], rfl⟩
  | registered | resetRequested | emailRequested | emailCancelled => exact .inl ⟨r, hr, rfl⟩

/-- While a family has tokens, those that were rotated are among them. -/
structure Lineage (w : AccountWorld) : Prop where
  issued : ∀ i u version old new f, (i, Note.rotated u version old new f) ∈ w.log →
    (view w.db).issued f = true
  parent : ∀ i u version old new f, (i, Note.rotated u version old new f) ∈ w.log →
    ∀ h r, (view w.db).token h = some r → r.familyId = f →
      ∃ r₀, (view w.db).token old = some r₀ ∧ r₀.familyId = f

/-- What every commit keeps. -/
structure OneLine (w : AccountWorld) : Prop where
  single : Single (view w.db)
  owner : OneOwner (view w.db)
  issued : Issued (view w.db)
  lineage : Lineage w

theorem rotated_parent {u : UserId} {version : Nat} {old new : TokenHash} {f : FamilyId}
    (hs : Step (.rotated u version old new f) s s') :
    ∃ r₀, s'.token old = some r₀ ∧ r₀.familyId = f := by
  cases hs with
  | @rotated _ u row old new token e now _ hold _ _ _ free =>
    have hne : old ≠ new := by
      rintro rfl
      rw [free] at hold
      cases hold
    exact ⟨token.replaceBy new now, by simp [hne], rfl⟩

variable {allow : Nat → List Note → AccountWorld → AccountWorld → Prop}

theorem parent_stays (hs : Step n s s') (owner : OneOwner s) {f : FamilyId} {old : TokenHash}
    (issued : s.issued f = true)
    (parent : ∀ h r, s.token h = some r → r.familyId = f →
      ∃ r₀, s.token old = some r₀ ∧ r₀.familyId = f) {h : TokenHash} {r : RefreshToken}
    (hr : s'.token h = some r) (hf : r.familyId = f) :
    ∃ r₀, s'.token old = some r₀ ∧ r₀.familyId = f := by
  rcases family_back hs hr with ⟨h₁, r₁, hr₁, hf₁, hu₁⟩ | fresh
  · obtain ⟨r₀, hr₀, hf₀⟩ := parent h₁ r₁ hr₁ (hf₁.trans hf)
    rcases token_stays hs hr₀ with ⟨r', hr', hf'⟩ | gone
    · exact ⟨r', hr', hf'.trans hf₀⟩
    · have same : r₁.userId = r₀.userId :=
        owner h₁ old r₁ r₀ hr₁ hr₀ ((hf₁.trans hf).trans hf₀.symm)
      exact absurd (hu₁.symm.trans same) (gone h r hr)
  · rw [hf, issued] at fresh
    cases fresh

theorem commit_oneLine (hc : Commits (accountContract allow) w w') (hw : OneLine w) :
    OneLine w' := by
  obtain ⟨i, n, hlog, hstep, -⟩ := commits_step hc
  refine ⟨step_single hstep hw.issued hw.single, step_oneOwner hstep hw.issued hw.owner,
    hstep.keeps_issued hw.issued, ⟨fun j u version old new f hmem => ?_,
      fun j u version old new f hmem h r hr hf => ?_⟩⟩
  · rw [hlog] at hmem
    rcases List.mem_cons.mp hmem with heq | hmem
    · cases heq
      obtain ⟨r, found, rfl, -⟩ := rotated_open hstep
      exact hstep.issued_mono (hw.issued.family _ _ found)
    · exact hstep.issued_mono (hw.lineage.issued j u version old new f hmem)
  · rw [hlog] at hmem
    rcases List.mem_cons.mp hmem with heq | hmem
    · cases heq
      exact rotated_parent hstep
    · exact parent_stays hstep hw.owner (hw.lineage.issued j u version old new f hmem)
        (hw.lineage.parent j u version old new f hmem) hr hf

theorem empty_oneLine : OneLine empty.world := by
  refine ⟨?_, ?_, empty_issued, ⟨?_, ?_⟩⟩
  · rintro f h h' ⟨r, hr, -⟩
    simp [view, empty] at hr
  · intro h h' r r' hr
    simp [view, empty] at hr
  · intro i u version old new f hmem
    cases hmem
  · intro i u version old new f hmem
    cases hmem

theorem OneLine.oneOpenToken (hw : OneLine w) : OneOpenToken w := by
  refine ⟨hw.single, fun i j u u' v v' old new new' f f' hi hj ho ho' => ?_⟩
  obtain ⟨r, hr, hf, hn⟩ := ho
  obtain ⟨r', hr', hf', hn'⟩ := ho'
  obtain ⟨r₀, hr₀, hf₀⟩ := hw.lineage.parent i u v old new f hi new r hr hf
  obtain ⟨r₁, hr₁, hf₁⟩ := hw.lineage.parent j u' v' old new' f' hj new' r' hr' hf'
  cases hr₀.symm.trans hr₁
  have same : f = f' := hf₀.symm.trans hf₁
  subst same
  exact hw.single f new new' ⟨r, hr, hf, hn⟩ ⟨r', hr', hf', hn'⟩

/-- In every run of the account services a family has at most one open token. -/
theorem one_open_token (h : Run (program platform) allow empty c) : OneOpenToken c.world :=
  (history_keeps (run_history h).2 (fun _ _ => commit_oneLine) empty_oneLine).oneOpenToken

/-- The first token of a session is presented by two clients at once: the one that
waits for the row finds it replaced and is sent away. -/
def presentedTwice : List (Action Op) :=
  signUp ++ .start (.refresh 5) :: steps 1 [6, 1000, 10, 0, 0, 0, 0, 0, 0] ++
    .start (.refresh 5) :: steps 2 [7, 1000, 10, 0, 0, 0, 0, 0] ++
    steps 1 [0, 20, 0, 0, 0, 0, 0, 0, 0, 0, 0, 2000] ++ steps 2 [0, 0, 25, 0]

theorem presentedTwice_single : ∃ c,
    exec (program plainPlatform) (fun _ _ _ _ => True) empty presentedTwice = some c ∧
      (c.answer 1).isSome = true ∧ c.answer 2 = some (.error .refreshInProgress) ∧
      c.world.log = [(1, .rotated 1 1 5 6 2), (0, .stored 1 1 5 2), (0, .registered 1)] ∧
      OneOpenToken c.world := by
  have answers : (exec (program plainPlatform) (fun _ _ _ _ => True) empty presentedTwice).map
      (fun c => ((c.answer 1).isSome, c.answer 2, c.world.log)) =
        some (true, some (.error .refreshInProgress),
          [(1, .rotated 1 1 5 6 2), (0, .stored 1 1 5 2), (0, .registered 1)]) := by
    decide +kernel
  obtain ⟨c, hc, heq⟩ := Option.map_eq_some_iff.mp answers
  simp only [Prod.mk.injEq] at heq
  exact ⟨c, hc, heq.1, heq.2.1, heq.2.2, one_open_token (.of_exec _ hc)⟩

end FamilyLineage
