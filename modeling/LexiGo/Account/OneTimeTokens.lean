import LexiGo.Account.RecoveryTokens

/-! The tokens that are mailed out, taken one kind at a time: how many of a user are unused,
how often one is consumed, and what a new one does to those before it. A replacement uses up
the tokens that its first statement sees, and no lock keeps two replacements apart. -/
namespace OneTimeTokens
open RowStore TransactionProgram Interleaving CommitContract RunSoundness
open AccountSchema AccountMachine AccountService AccountRefinement AccountRuns RecoveryTokens Function

variable {platform : Platform} {w w' : AccountWorld} {c : AccountConfig}
variable {n : Note} {s s' : Accounts} {u : UserId} {h : TokenHash} {seen : List Key} {kind : Kind}

structure OneTime (w : AccountWorld) : Prop where
  single : ∀ (kind : Kind) u h h', kind.token (view w.db) h = some (u, false) →
    kind.token (view w.db) h' = some (u, false) → h = h'
  once : ∀ (kind : Kind) u h i j seen seen',
    ¬ [(j, kind.consumed u h seen'), (i, kind.consumed u h seen)].Sublist w.log
  replaced : ∀ (kind : Kind) u h h' i j seen seen',
    [(j, kind.requested u h' seen'), (i, kind.requested u h seen)].Sublist w.log →
      kind.token (view w.db) h ≠ some (u, false)

def unusedResets (u : UserId) (db : AccountDb) : List Key :=
  rowsWhere (passwordResets fun r => r.userId = u && r.usedAt.isNone) db

def unusedChanges (u : UserId) (db : AccountDb) : List Key :=
  rowsWhere (emailChanges fun r => r.userId = u && r.usedAt.isNone) db

/-- The unused tokens that a replacement has not seen. -/
def overlooked (db : AccountDb) : Note → List Key
  | .resetRequested u _ seen => (unusedResets u db).filter (· ∉ seen)
  | .emailRequested u _ seen => (unusedChanges u db).filter (· ∉ seen)
  | _ => []

def NoneOverlooked (_ : Nat) (notes : List Note) (w _ : AccountWorld) : Prop :=
  ∀ n ∈ notes, overlooked w.db n = []

instance (i : Nat) (notes : List Note) : Decidable (NoneOverlooked i notes w w') :=
  inferInstanceAs (Decidable (∀ n ∈ notes, overlooked w.db n = []))

def key : Kind → TokenHash → Key
  | .passwordReset => .passwordReset
  | .emailChange => .emailChange

theorem overlooked_none {db : AccountDb} {k : TokenHash}
    (hn : overlooked db (kind.requested u h seen) = [])
    (hk : kind.token (view db) k = some (u, false)) : key kind k ∈ seen := by
  by_contra hseen
  refine List.eq_nil_iff_forall_not_mem.mp hn (key kind k) ?_
  cases kind with
  | passwordReset =>
    obtain ⟨r, hr, hu, hused⟩ := token_passwordReset.mp hk
    refine List.mem_filter.mpr ⟨mem_rowsWhere.mpr ⟨r, hr, ?_⟩, by simpa using hseen⟩
    simpa [key, passwordResets, hu] using hused
  | emailChange =>
    obtain ⟨r, hr, hu, hused⟩ := token_emailChange.mp hk
    refine List.mem_filter.mpr ⟨mem_rowsWhere.mpr ⟨r, hr, ?_⟩, by simpa using hseen⟩
    simpa [key, emailChanges, hu] using hused

/-- What a statement leaves unused of the tokens of `u` was unused, and it has not seen it. -/
theorem spendResets_unused {v : UserId} {now : Instant}
    (ht : Kind.passwordReset.token (s.spendResets v seen now) h = some (u, false)) :
    Kind.passwordReset.token s h = some (u, false) ∧ (u = v → Key.passwordReset h ∉ seen) := by
  obtain ⟨r', hr', hu, hused⟩ := token_passwordReset.mp ht
  obtain ⟨r, hr, rfl⟩ := Option.map_eq_some_iff.mp hr'
  split_ifs at hu hused with hspent
  · cases hused
  · have hnone : r.usedAt = none := by simpa using hused
    exact ⟨token_passwordReset.mpr ⟨r, hr, hu, hused⟩,
      fun heq hseen => hspent ⟨hseen, hu.trans heq, hnone⟩⟩

theorem spendChanges_unused {v : UserId} {now : Instant}
    (ht : Kind.emailChange.token (s.spendChanges v seen now) h = some (u, false)) :
    Kind.emailChange.token s h = some (u, false) ∧ (u = v → Key.emailChange h ∉ seen) := by
  obtain ⟨r', hr', hu, hused⟩ := token_emailChange.mp ht
  obtain ⟨r, hr, rfl⟩ := Option.map_eq_some_iff.mp hr'
  split_ifs at hu hused with hspent
  · cases hused
  · have hnone : r.usedAt = none := by simpa using hused
    exact ⟨token_emailChange.mpr ⟨r, hr, hu, hused⟩,
      fun heq hseen => hspent ⟨hseen, hu.trans heq, hnone⟩⟩

/-- An unused token was unused before, unless it has just been requested. -/
theorem unused_before (hs : Step n s s') (ht : kind.token s' h = some (u, false)) :
    kind.token s h = some (u, false) ∨ ∃ seen, n = kind.requested u h seen := by
  cases hs with
  | @resetRequested _ v k seen e now =>
    cases kind with
    | emailChange => exact .inl ht
    | passwordReset =>
      by_cases heq : h = k
      · subst heq
        obtain ⟨r, hr, hu, -⟩ := token_passwordReset.mp ht
        simp only [update_self, Option.some.injEq] at hr
        subst hr
        exact .inr ⟨seen, by rw [← hu]; rfl⟩
      · have hspent : Kind.passwordReset.token (s.spendResets v seen now) h = some (u, false) := by
          simpa [Kind.token, heq] using ht
        exact .inl (spendResets_unused hspent).1
  | @emailRequested _ v k seen o a e now =>
    cases kind with
    | passwordReset => exact .inl ht
    | emailChange =>
      by_cases heq : h = k
      · subst heq
        obtain ⟨r, hr, hu, -⟩ := token_emailChange.mp ht
        simp only [update_self, Option.some.injEq] at hr
        subst hr
        exact .inr ⟨seen, by rw [← hu]; rfl⟩
      · have hspent : Kind.emailChange.token (s.spendChanges v seen now) h = some (u, false) := by
          simpa [Kind.token, heq] using ht
        exact .inl (spendChanges_unused hspent).1
  | passwordReset | passwordChanged =>
    left
    cases kind with
    | passwordReset => exact (spendResets_unused ht).1
    | emailChange => exact ht
  | emailChanged =>
    left
    cases kind with
    | passwordReset => exact ht
    | emailChange => exact (spendChanges_unused ht).1
  | @emailCancelled _ k now =>
    left
    cases kind with
    | passwordReset => exact ht
    | emailChange =>
      obtain ⟨r', hr', hu, hused⟩ := token_emailChange.mp ht
      by_cases heq : h = k
      · subst heq
        simp only [update_self] at hr'
        obtain ⟨r, hr, rfl⟩ := Option.map_eq_some_iff.mp hr'
        cases hused
      · exact token_emailChange.mpr ⟨r', by simpa [heq] using hr', hu, hused⟩
  | deleted =>
    left
    cases kind with
    | passwordReset =>
      obtain ⟨r, hr, hu, hused⟩ := token_passwordReset.mp ht
      exact token_passwordReset.mpr ⟨r, (Option.filter_eq_some_iff.mp hr).1, hu, hused⟩
    | emailChange =>
      obtain ⟨r, hr, hu, hused⟩ := token_emailChange.mp ht
      exact token_emailChange.mpr ⟨r, (Option.filter_eq_some_iff.mp hr).1, hu, hused⟩
  | registered | stored | rotated | expired | familyRevoked | othersRevoked =>
    left
    cases kind <;> exact ht

/-- Whatever else is unused after a request is a token that the request has not seen. -/
theorem requested_others (hs : Step (kind.requested u h seen) s s') {k : TokenHash}
    (hk : kind.token s' k = some (u, false)) :
    k = h ∨ (kind.token s k = some (u, false) ∧ key kind k ∉ seen) := by
  by_cases heq : k = h
  · exact .inl heq
  right
  cases kind with
  | passwordReset =>
    cases hs with
    | @resetRequested _ _ _ _ e now =>
      have hspent : Kind.passwordReset.token (s.spendResets u seen now) k = some (u, false) := by
        simpa [Kind.token, heq] using hk
      exact ⟨(spendResets_unused hspent).1, (spendResets_unused hspent).2 rfl⟩
  | emailChange =>
    cases hs with
    | @emailRequested _ _ _ _ o a e now =>
      have hspent : Kind.emailChange.token (s.spendChanges u seen now) k = some (u, false) := by
        simpa [Kind.token, heq] using hk
      exact ⟨(spendChanges_unused hspent).1, (spendChanges_unused hspent).2 rfl⟩

theorem consumed_used (hs : Step (kind.consumed u h seen) s s') : kind.token s' h = some (u, true) := by
  cases kind with
  | passwordReset =>
    cases hs with
    | @passwordReset _ _ token _ _ now found unused _ own =>
      refine token_passwordReset.mpr ⟨token.spend now, ?_, rfl, rfl⟩
      simp [Accounts.revokeAll, Accounts.mapToken, Accounts.spendResets, Accounts.mapUser, found, own,
        unused]
  | emailChange =>
    cases hs with
    | @emailChanged _ _ token _ _ now found unused _ _ _ own =>
      refine token_emailChange.mpr ⟨token.spend now, ?_, rfl, rfl⟩
      simp [Accounts.revokeAll, Accounts.mapToken, Accounts.spendChanges, Accounts.mapUser, found, own,
        unused]

theorem requested_unknown (hs : Step (kind.requested u h seen) s s') :
    (s.user u).isSome = true ∧ kind.token s h = none := by
  cases kind with
  | passwordReset =>
    cases hs with
    | resetRequested free hu => exact ⟨hu, by rw [Kind.token, free, Option.map_none]⟩
  | emailChange =>
    cases hs with
    | emailRequested free hu => exact ⟨hu, by rw [Kind.token, free, Option.map_none]⟩

/-- What every commit keeps. -/
structure Accounted (w : AccountWorld) : Prop where
  oneTime : OneTime w
  issued : Issued (view w.db)
  recorded : ∀ (kind : Kind) i u h seen, (i, kind.requested u h seen) ∈ w.log →
    (view w.db).issued u = true ∧
      ((view w.db).user u = none ∨ ∃ used, kind.token (view w.db) h = some (u, used))
  spent : ∀ (kind : Kind) i u h seen, (i, kind.consumed u h seen) ∈ w.log →
    (view w.db).issued u = true ∧
      ((view w.db).user u = none ∨ kind.token (view w.db) h = some (u, true))

theorem commit_accounted (hc : Commits (accountContract NoneOverlooked) w w') (hw : Accounted w) :
    Accounted w' := by
  have linked := commits_linked hc
  obtain ⟨i, n, hlog, hstep, hnone⟩ := commits_step hc
  have hnone : overlooked w.db n = [] := hnone n (by simp)
  have issuedOf : ∀ u, ((view w.db).user u).isSome = true → (view w.db).issued u = true := by
    intro u hu
    obtain ⟨r, hr⟩ := Option.isSome_iff_exists.mp hu
    exact hw.issued.user u r hr
  -- A token that has been requested is not requested again while its owner is there.
  have fresh : ∀ (kind : Kind) j u h seen seen', n = kind.requested u h seen →
      (j, kind.requested u h seen') ∉ w.log := by
    rintro kind j u h seen seen' rfl hmem
    obtain ⟨owner, unknown⟩ := requested_unknown hstep
    rcases (hw.recorded kind j u h seen' hmem).2 with gone | ⟨used, ht⟩
    · simp [gone] at owner
    · simp [unknown] at ht
  have newest : ∀ (kind : Kind) u h k seen, n = kind.requested u h seen →
      kind.token (view w'.db) k = some (u, false) → k = h := by
    rintro kind u h k seen rfl ht
    rcases requested_others hstep ht with heq | ⟨before, unseen⟩
    · exact heq
    · exact absurd (overlooked_none hnone before) unseen
  refine ⟨⟨?_, ?_, ?_⟩, hstep.keeps_issued hw.issued, ?_, ?_⟩
  · intro kind u h h' ht ht'
    by_cases hrequest : ∃ k seen, n = kind.requested u k seen
    · obtain ⟨k, seen, hn⟩ := hrequest
      exact (newest kind u k h seen hn ht).trans (newest kind u k h' seen hn ht').symm
    · have before : ∀ k, kind.token (view w'.db) k = some (u, false) →
          kind.token (view w.db) k = some (u, false) :=
        fun k hk => (unused_before hstep hk).resolve_right fun ⟨seen, hn⟩ => hrequest ⟨k, seen, hn⟩
      exact hw.oneTime.single kind u h h' (before h ht) (before h' ht')
  · intro kind u h i' j seen seen' hsub
    rw [hlog] at hsub
    cases hsub with
    | cons _ hsub => exact hw.oneTime.once _ _ _ _ _ _ _ hsub
    | cons_cons _ hsub =>
      obtain ⟨owner, unused⟩ := consumed_unused hstep linked
      rcases (hw.spent kind i' u h seen (List.singleton_sublist.mp hsub)).2 with gone | used
      · simp [gone] at owner
      · simp [used] at unused
  · intro kind u h h' i' j seen seen' hsub ht
    rw [hlog] at hsub
    cases hsub with
    | cons _ hsub =>
      rcases unused_before hstep ht with before | ⟨seen'', hn⟩
      · exact hw.oneTime.replaced kind u h h' i' j seen seen' hsub before
      · exact fresh kind i' u h seen'' seen hn (hsub.subset (by simp))
    | cons_cons _ hsub =>
      have hmem := List.singleton_sublist.mp hsub
      have heq := newest kind u h' h seen' rfl ht
      subst heq
      exact fresh kind i' u h seen' seen rfl hmem
  · intro kind j u h seen hmem
    rw [hlog] at hmem
    rcases List.mem_cons.mp hmem with heq | hmem
    · cases heq
      exact ⟨hstep.issued_mono (issuedOf u (requested_fresh hstep).1), .inr ⟨false, (requested_fresh hstep).2⟩⟩
    · obtain ⟨known, ht⟩ := hw.recorded kind j u h seen hmem
      refine ⟨hstep.issued_mono known, ?_⟩
      rcases ht with gone | ⟨used, ht⟩
      · exact .inl (gone_stays hstep known gone)
      · exact (token_stays hstep ht).imp_right fun ⟨used', ht', _⟩ => ⟨used', ht'⟩
  · intro kind j u h seen hmem
    rw [hlog] at hmem
    rcases List.mem_cons.mp hmem with heq | hmem
    · cases heq
      exact ⟨hstep.issued_mono (issuedOf u (consumed_unused hstep linked).1), .inr (consumed_used hstep)⟩
    · obtain ⟨known, ht⟩ := hw.spent kind j u h seen hmem
      refine ⟨hstep.issued_mono known, ?_⟩
      rcases gone_or_stays hstep known ht with gone | ⟨used', ht', mono⟩
      · exact .inl gone
      · exact .inr (by rw [ht', mono rfl])

theorem empty_accounted : Accounted empty.world := by
  refine ⟨⟨?_, fun _ _ _ _ _ _ _ hsub => ?_, fun _ _ _ _ _ _ _ _ hsub => ?_⟩, empty_issued,
    fun _ _ _ _ _ hmem => ?_, fun _ _ _ _ _ hmem => ?_⟩
  · intro kind u h h' ht
    cases kind <;> simp [Kind.token, view, empty] at ht
  · cases hsub
  · cases hsub
  · cases hmem
  · cases hmem

/-- In every run in which no replacement overlooks an unused token of its user, a user has at
most one unused token of each kind, none is consumed twice, and a new one ends the others. -/
theorem one_time_tokens (h : Run (program platform) NoneOverlooked empty c) : OneTime c.world :=
  (history_keeps (run_history h).2 (fun _ _ => commit_accounted) empty_accounted).oneTime

/-- The statement that ends the earlier tokens is the last of the first five steps. -/
def requestingReset (i : Nat) (h : TokenHash) : List (Action Op) × List (Action Op) :=
  (steps i [0, h, 800, 0, 0], steps i [0, 0, 0, 0, 0, 0])

/-- The second request of the same user comes before the first has begun, or after its end. -/
def twoRequests (overlapping : Bool) : List (Action Op) :=
  let first := requestingReset 1 7
  let second := requestingReset 2 8
  signUp ++ .start (.requestPasswordReset "ada@example.org") ::
    .start (.requestPasswordReset "ada@example.org") ::
    if overlapping then first.1 ++ second.1 ++ first.2 ++ second.2
    else first.1 ++ first.2 ++ steps 2 [0, 8, 800, 0, 0, 0, 0, 0] ++ second.2

theorem secondRequest_ends_first : ∃ c,
    exec (program plainPlatform) NoneOverlooked empty (twoRequests false) = some c ∧
      Kind.passwordReset.token (view c.world.db) 7 = some (1, true) ∧
      Kind.passwordReset.token (view c.world.db) 8 = some (1, false) ∧ OneTime c.world := by
  have tokens : (exec (program plainPlatform) NoneOverlooked empty (twoRequests false)).map
      (fun c => (Kind.passwordReset.token (view c.world.db) 7,
        Kind.passwordReset.token (view c.world.db) 8)) = some (some (1, true), some (1, false)) := by
    decide +kernel
  obtain ⟨c, hc, heq⟩ := Option.map_eq_some_iff.mp tokens
  exact ⟨c, hc, congrArg Prod.fst heq, congrArg Prod.snd heq, one_time_tokens (.of_exec _ hc)⟩

/-- Two requests that overlap each leave a token that sets a new password. -/
theorem overlapping_requests_both_live :
    ¬ ∀ c, Run (program plainPlatform) (fun _ _ _ _ => True) empty c → OneTime c.world := by
  intro oneTime
  have tokens : (exec (program plainPlatform) (fun _ _ _ _ => True) empty (twoRequests true)).map
      (fun c => (Kind.passwordReset.token (view c.world.db) 7,
        Kind.passwordReset.token (view c.world.db) 8)) = some (some (1, false), some (1, false)) := by
    decide +kernel
  obtain ⟨c, hc, heq⟩ := Option.map_eq_some_iff.mp tokens
  have hsame := (oneTime c (.of_exec _ hc)).single .passwordReset 1 7 8 (congrArg Prod.fst heq)
    (congrArg Prod.snd heq)
  cases hsame

end OneTimeTokens
