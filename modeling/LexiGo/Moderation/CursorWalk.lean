import LexiGo.Moderation.ListedPages
import LexiGo.Moderation.CursorText

/-! Going through a listing page by page, each from where the text of the one before says,
while learners submit and moderators decide. -/
namespace CursorWalk
open RowStore TransactionProgram Interleaving CommitContract RunSoundness
open GoText AnswerJudgement ModerationSchema ModerationRepository ModerationService
open ModerationMachine ModerationRefinement ModerationRuns
open ListedPages CursorText KeysetPages
open Scheduler (Instant micros)

/-- What a row of the table can have: a positive `bigint`, and a reading of the clock, in
whole microseconds, from 1970 to the year 9999 but for its last day. -/
structure Stored (s : SuggestionId) (r : SuggestionRow) : Prop where
  positive : 0 < s
  bigint : s < 2 ^ 63
  past : 0 ≤ r.createdAt
  clock : r.createdAt < 253402214400 * 1000000000
  precision : micros r.createdAt = r.createdAt

def AllStored (db : ModerationDb) : Prop := ∀ s r, suggestionAt s db = some r → Stored s r

/-- The runs in which every commit leaves such rows. -/
def stores (_ : Nat) (_ : List Note) (_ w' : ModerationWorld) : Prop := AllStored w'.db

variable (unicode : Unicode) (lower : String → String) (zone : Zone)

/-- The query from a cursor on, in the precision of the column. -/
def fromCursor (q : ListQuery) (cursor : Option Cursor) : ListQuery :=
  { q with cursor := cursor.map fun c => ⟨micros c.createdAt, c.id⟩ }

/-- Some request for the query gets its answer by the step from `c` to `c'`. -/
def Answered (q : ListQuery) (c : ModerationConfig) (response : Response) (c' : ModerationConfig) :
    Prop :=
  ∃ i p choice, c.procs[i]? = some p ∧ p.op = .list q ∧
    step (program unicode lower) c (.advance i choice) = some c' ∧ c'.answer i = some response

/-- Where the walk stands after a page: at its end, or at what is read from the text that
the page gives. -/
inductive Follows (response : ListResponse) : Option (Option Cursor) → Prop
  | last : response.nextCursor = none → Follows response none
  | next {cursor read : Cursor} {text : List Char} : response.nextCursor = some cursor →
      encodeCursor zone cursor = some text → decodeCursor text = some read →
      Follows response (some (some read))

/-- The pages from the start on, each with the rows that it was read from. -/
inductive Walk (q : ListQuery) (c : ModerationConfig) :
    List (ModerationDb × ListResponse) → Option (Option Cursor) → ModerationConfig → Prop
  | start : Walk q c [] (some none) c
  | more {pages : List (ModerationDb × ListResponse)} {cursor : Option Cursor}
      {c₁ c₂ c₃ : ModerationConfig} {response : ListResponse} {position : Option (Option Cursor)} :
      Walk q c pages (some cursor) c₁ → Run (program unicode lower) stores c₁ c₂ →
      Answered unicode lower (fromCursor q cursor) c₂ (.ok (.listed response)) c₃ →
      Follows zone response position →
      Walk q c (pages ++ [(c₂.world.db, response)]) position c₃

variable {unicode lower zone}
variable {q : ListQuery} {filter : ListFilter} {c c' : ModerationConfig}

section Requests

/-- A request for a list that has not been lost stands at one of three places. -/
def Stands (lower : String → String) (unicode : Unicode)
    (p : Proc Row Note Op Response) : Prop :=
  ∀ q, p.op = .list q → p.tx = {} ∧ ∀ code, p.code = some code →
    code = program unicode lower (.list q) ∨ code = listing lower q ∨ ∃ r, code = .ret r

/-- The answer of a listing that reads the rows of `db`. -/
def listReply (lower : String → String) (filter : ListFilter) (db : ModerationDb) : Response :=
  match listedItems lower filter db with
  | some items => .ok (.listed (page filter items))
  | none => .error (.refused .internal)

theorem listing_ok (h : normalizeListFilter q = .ok filter) :
    ∃ notes next, listing lower q = .commit notes next ∧
      ∀ db, next db = .ret (listReply lower filter db) := by
  unfold listing
  rw [h]
  refine ⟨_, _, rfl, fun db => ?_⟩
  beta_reduce
  unfold listReply
  cases listedItems lower filter db <;> rfl

theorem listing_error {why : Rejection} (h : normalizeListFilter q = .error why) :
    listing lower q = .ret (.error (.rejected why)) := by
  unfold listing
  rw [h]
  rfl

theorem program_list : ∃ next, program unicode lower (.list q) = .choose next ∧
    ∀ n, next n = if n ≠ 0 then listing lower q else .ret (.error .forbidden) := by
  refine ⟨_, rfl, fun n => ?_⟩
  by_cases hn : n = 0
  · subst hn
    rfl
  · rw [if_pos hn]
    change (if decide (n ≠ 0) = true then listing lower q else _) = _
    rw [if_pos (decide_eq_true hn)]

theorem stands_local : Local (program unicode lower) (Stands lower unicode) := by
  refine ⟨fun op w q hop => ?_, fun p code db choice hp hcode q hop => ?_, fun p hp q hop => ?_⟩
  · cases hop
    exact ⟨rfl, fun code hcode => .inl (Option.some.inj hcode).symm⟩
  · have hop' : p.op = .list q := by
      cases code <;> exact hop
    obtain ⟨htx, hplace⟩ := hp q hop'
    rcases hplace code hcode with rfl | rfl | ⟨r, rfl⟩
    · obtain ⟨next, hprogram, hnext⟩ := @program_list unicode lower q
      rw [hprogram]
      refine ⟨htx, fun code' hcode' => ?_⟩
      cases hcode'
      rw [hnext]
      split
      · exact .inr (.inl rfl)
      · exact .inr (.inr ⟨_, rfl⟩)
    · cases hq : normalizeListFilter q with
      | error why =>
        rw [listing_error hq] at hcode ⊢
        exact ⟨htx, fun code' hcode' =>
          .inr (.inr ⟨_, (Option.some.inj (hcode.symm.trans hcode')).symm⟩)⟩
      | ok filter =>
        obtain ⟨notes, next, hlisting, hnext⟩ := @listing_ok lower _ _ hq
        rw [hlisting]
        exact ⟨rfl, fun code' hcode' =>
          .inr (.inr ⟨_, (Option.some.inj hcode').symm.trans (hnext _)⟩)⟩
    · exact ⟨htx, hplace⟩
  · exact ⟨rfl, fun code hcode => nomatch hcode⟩

theorem answer_code {i : Nat} {a : Response} (h : c.answer i = some a) :
    ∃ p, c.procs[i]? = some p ∧ p.code = some (.ret a) := by
  unfold Config.answer at h
  cases hp : c.procs[i]? with
  | none => simp [hp] at h
  | some p =>
    obtain ⟨op, born, tx, code⟩ := p
    refine ⟨_, rfl, ?_⟩
    simp only [hp] at h
    cases code with
    | none => cases h
    | some code =>
      cases code with
      | ret b =>
        cases h
        rfl
      | look | lock | write | commit | rollback | choose => cases h

/-- What a request for a list answers: what its query reads at one moment, which changes
nothing, unless it is turned away. -/
inductive Replies (lower : String → String) (q : ListQuery) (c : ModerationConfig) (response : Response)
    (c' : ModerationConfig) : Prop
  | forbidden : response = .error .forbidden → Replies lower q c response c'
  | rejected (why : Rejection) : response = .error (.rejected why) → Replies lower q c response c'
  | read (filter : ListFilter) : normalizeListFilter q = .ok filter →
      response = listReply lower filter c.world.db → c'.world.db = c.world.db →
      Replies lower q c response c'

theorem Answered.replies {response : Response}
    (hstands : ∀ (i : Nat) p, c.procs[i]? = some p → Stands lower unicode p)
    (h : Answered unicode lower q c response c') : Replies lower q c response c' := by
  obtain ⟨i, p, choice, hp, hop, hs, ha⟩ := h
  obtain ⟨htx, hplace⟩ := hstands i p hp q hop
  cases hcode : p.code with
  | none => simp [Interleaving.step, hp, hcode] at hs
  | some code =>
    simp only [Interleaving.step, hp, hcode] at hs
    have hprocs := advance_procs hs
    have hi : i < c.procs.length := (List.getElem?_eq_some_iff.1 hp).1
    have hanswer : (p.next c.world.db choice code).code = some (.ret response) := by
      obtain ⟨p', hp', hcode'⟩ := answer_code ha
      rw [hprocs, List.getElem?_set_self hi] at hp'
      cases hp'
      exact hcode'
    rcases hplace code hcode with rfl | rfl | ⟨r, rfl⟩
    · obtain ⟨next, hprogram, hnext⟩ := @program_list unicode lower q
      rw [hprogram] at hanswer
      have hnext' := (hnext choice).symm.trans (Option.some.inj hanswer)
      split at hnext'
      · cases hq : normalizeListFilter q with
        | error why =>
          rw [listing_error hq] at hnext'
          exact .rejected why (Prog.ret.inj hnext').symm
        | ok filter =>
          obtain ⟨notes, next', hlisting, -⟩ := @listing_ok lower _ _ hq
          rw [hlisting] at hnext'
          cases hnext'
      · exact .forbidden (Prog.ret.inj hnext').symm
    · cases hq : normalizeListFilter q with
      | error why =>
        rw [listing_error hq] at hs
        cases hs
      | ok filter =>
        obtain ⟨notes, next, hlisting, hnext⟩ := @listing_ok lower _ _ hq
        rw [hlisting] at hs hanswer
        have hreply := (hnext (p.tx.visible c.world.db)).symm.trans (Option.some.inj hanswer)
        rw [htx] at hreply
        have hdb : c'.world.db = c.world.db := by
          cases hs
          simp only [World.publish]
          rw [htx]
          rfl
        exact .read filter hq (Prog.ret.inj hreply).symm hdb
    · cases hs

theorem Answered.page {response : ListResponse}
    (hstands : ∀ (i : Nat) p, c.procs[i]? = some p → Stands lower unicode p)
    (h : Answered unicode lower q c (.ok (.listed response)) c') :
    ∃ filter items, normalizeListFilter q = .ok filter ∧
      listedItems lower filter c.world.db = some items ∧ response = page filter items ∧
      c'.world.db = c.world.db := by
  cases h.replies hstands with
  | forbidden h => cases h
  | rejected why h => cases h
  | read filter hfilter hreply hdb =>
    unfold listReply at hreply
    cases hitems : listedItems lower filter c.world.db with
    | none =>
      rw [hitems] at hreply
      cases hreply
    | some items =>
      rw [hitems] at hreply
      cases hreply
      exact ⟨filter, items, hfilter, hitems, rfl, hdb⟩

/-- Whoever may list gets an answer, with nobody else in between. -/
theorem answered_alone {allow : Nat → List Note → ModerationWorld → ModerationWorld → Prop}
    (hfilter : normalizeListFilter q = .ok filter) (c : ModerationConfig) :
    ∃ c₂ c₃, Run (program unicode lower) allow c c₂ ∧ c₂.world = c.world ∧
      Answered unicode lower q c₂ (listReply lower filter c.world.db) c₃ ∧
      c₃.world.db = c.world.db := by
  obtain ⟨next, hprogram, hnext⟩ := @program_list unicode lower q
  obtain ⟨notes, last, hlisting, hlast⟩ := @listing_ok lower _ _ hfilter
  have hfirst : next 1 = listing lower q := by
    rw [hnext, if_pos (by decide)]
  let op : Op := .list q
  let i := c.procs.length
  let asked : Proc Row Note Op Response := ⟨op, c.world, {}, some (.choose next)⟩
  let checked : Proc Row Note Op Response := ⟨op, c.world, {}, some (.commit notes last)⟩
  let replied : Proc Row Note Op Response := ⟨op, c.world, {}, some (.ret (listReply lower filter c.world.db))⟩
  let c₁ : ModerationConfig := ⟨c.world, c.procs ++ [asked]⟩
  let c₂ : ModerationConfig := c₁.setProc i checked
  let c₃ : ModerationConfig :=
    ⟨c.world.publish i {} (notes c.world.db), c₂.procs.set i replied⟩
  have hlength : i < c₁.procs.length := by simp [c₁, i]
  have hlength₂ : i < c₂.procs.length := by simpa [c₂, Config.setProc] using hlength
  have hasked : c₁.procs[i]? = some asked := by simp [c₁, i]
  have hchecked : c₂.procs[i]? = some checked := List.getElem?_set_self hlength
  have harrives : step (program unicode lower) c (.start op) = some c₁ := by
    simp only [Interleaving.step, Config.spawn, op, hprogram]
    rfl
  have hchoose : step (program unicode lower) c₁ (.advance i 1) = some c₂ := by
    simp only [Interleaving.step, hasked]
    simp only [asked, Interleaving.advance, hfirst, hlisting]
    rfl
  have hread : step (program unicode lower) c₂ (.advance i 0) = some c₃ := by
    simp only [Interleaving.step, hchecked]
    simp only [checked, Interleaving.advance]
    have hdb : last c.world.db = .ret (listReply lower filter c.world.db) := hlast _
    exact congrArg some (congrArg (fun code : Prog Row Note Response =>
      (⟨c.world.publish i {} (notes c.world.db), c₂.procs.set i ⟨op, c.world, {}, some code⟩⟩ :
        ModerationConfig)) hdb)
  have hquiet : ∀ j notes', published c₁ (.advance i 1) ≠ some (j, notes') := by
    intro j notes' h
    simp only [published, hasked] at h
    cases h
  have hanswer : c₃.answer i = some (listReply lower filter c.world.db) := by
    have hreplied : c₃.procs[i]? = some replied := List.getElem?_set_self hlength₂
    unfold Config.answer
    rw [hreplied]
  refine ⟨c₂, c₃, ?_, rfl, ⟨i, checked, 0, hchecked, rfl, hread, hanswer⟩, rfl⟩
  exact .tail _ (.tail _ (.refl c) harrives fun j notes' h => by cases h) hchoose
    fun j notes' h => absurd h (hquiet j notes')

end Requests

section Filters

theorem normalizeListFilter_limit (h : normalizeListFilter q = .ok filter) : 0 < filter.limit := by
  unfold normalizeListFilter at h
  cases hstatus : statusOf q.status with
  | none => simp [hstatus] at h
  | some status =>
    simp only [hstatus] at h
    split_ifs at h <;> cases h
    all_goals
      simp only [Bool.or_eq_true, decide_eq_true_eq, not_or, not_lt] at *
      omega

/-- The cursor goes through the checks as it is. -/
theorem normalizeListFilter_cursor {cursor : Option Cursor}
    (h : normalizeListFilter (fromCursor q none) = .ok filter) :
    normalizeListFilter (fromCursor q cursor) =
      .ok { filter with cursor := cursor.map fun c => ⟨micros c.createdAt, c.id⟩ } := by
  unfold normalizeListFilter fromCursor at *
  dsimp only at *
  cases hstatus : statusOf q.status with
  | none => simp [hstatus] at h
  | some status =>
    simp only [hstatus] at h ⊢
    split_ifs at h ⊢ <;> cases h
    all_goals rfl

end Filters

section Rows

/-- What is true of every configuration of these runs. -/
structure Fit (unicode : Unicode) (lower : String → String) (c : ModerationConfig) : Prop where
  safe : ModerationSafe unicode stores c
  judged : AllJudged (view c.world.db)
  stored : AllStored c.world.db
  stands : ∀ (i : Nat) p, c.procs[i]? = some p → Stands lower unicode p

theorem fit_start {db : ModerationDb} (hdb : Suits unicode db) (hjudged : AllJudged (view db))
    (hstored : AllStored db) : Fit unicode lower (start db) :=
  ⟨safe_init hdb, hjudged, hstored, fun i p hp => by simp [start] at hp⟩

theorem Fit.run (h : Fit unicode lower c) (hrun : Run (program unicode lower) stores c c') :
    Fit unicode lower c' := by
  obtain ⟨safe, hist⟩ := run_later h.safe hrun
  have judged : ∀ w w', Commits (moderationContract unicode stores) w w' →
      AllJudged (view w.db) → AllJudged (view w'.db) := by
    intro w w' hc hw
    obtain ⟨i, n, -, hstep, -⟩ := commits_step hc
    exact hstep.allJudged hw
  have stored : ∀ w w', Commits (moderationContract unicode stores) w w' →
      AllStored w.db → AllStored w'.db := by
    intro w w' hc _
    obtain ⟨i, n, -, -, hallow⟩ := commits_step hc
    exact hallow
  exact ⟨safe, history_keeps hist judged h.judged, history_keeps hist stored h.stored,
    stands_local.run hrun h.stands⟩

theorem Fit.createdAt (h : Fit unicode lower c) (hrun : Run (program unicode lower) stores c c')
    {s : SuggestionId} {r : SuggestionRow} (hr : suggestionAt s c.world.db = some r) :
    ∃ r', suggestionAt s c'.world.db = some r' ∧ r'.createdAt = r.createdAt := by
  have keeps : ∀ w w', Commits (moderationContract unicode stores) w w' →
      (∃ r', suggestionAt s w.db = some r' ∧ r'.createdAt = r.createdAt) →
      ∃ r', suggestionAt s w'.db = some r' ∧ r'.createdAt = r.createdAt := by
    rintro w w' hc ⟨r₁, hr₁, heq₁⟩
    obtain ⟨i, n, -, hstep, -⟩ := commits_step hc
    obtain ⟨r₂, hr₂, heq₂⟩ := hstep.createdAt hr₁
    exact ⟨r₂, hr₂, heq₂.trans heq₁⟩
  exact history_keeps (run_later h.safe hrun).2 keeps ⟨r, hr, rfl⟩

theorem Fit.answered {response : ListResponse} (h : Fit unicode lower c)
    (ha : Answered unicode lower q c (.ok (.listed response)) c') :
    Run (program unicode lower) stores c c' := by
  obtain ⟨filter, items, -, -, -, hdb⟩ := ha.page h.stands
  obtain ⟨i, p, choice, -, -, hs, -⟩ := ha
  refine .tail _ (.refl c) hs fun _ _ _ => ?_
  unfold stores
  rw [hdb]
  exact h.stored

end Rows

section Pages

/-- Every line of a page is a row that it was read from. -/
theorem page_rows {db : ModerationDb} {items : List SuggestionContext}
    (h : listedItems lower filter db = some items) {item : SuggestionContext}
    (hitem : item ∈ (page filter items).items) :
    ∃ r, suggestionAt item.id db = some r ∧ r.createdAt = item.createdAt := by
  obtain ⟨rows, rfl, -, -, hmem⟩ := listedItems_rows h
  obtain ⟨s, hs⟩ := (hmem item).1 (List.mem_of_mem_take (page_items _ _ hitem))
  obtain ⟨rfl, r, hr, hkey⟩ := joined_row hs
  exact ⟨r, hr, congrArg (fun k => (ofLex k).1) hkey.symm⟩

/-- The cursor of a page comes from one of its lines, and is read as it was written. -/
theorem cursor_text {db : ModerationDb} (hstored : AllStored db) (hlimit : 0 < filter.limit)
    {items : List SuggestionContext} (h : listedItems lower filter db = some items)
    {cursor : Cursor} (hcursor : (page filter items).nextCursor = some cursor) :
    micros cursor.createdAt = cursor.createdAt ∧
      ∃ text, encodeCursor zone cursor = some text ∧ decodeCursor text = some cursor := by
  obtain ⟨hlast, -⟩ := (page_shows hlimit h).last (cursorKey cursor) (by rw [hcursor]; rfl)
  obtain ⟨item, hitem, hkey⟩ := List.mem_map.1 hlast
  have hid : item.id = cursor.id := congrArg (fun k => (ofLex k).2) hkey
  have hcreated : item.createdAt = cursor.createdAt := congrArg (fun k => (ofLex k).1) hkey
  obtain ⟨r, hr, heq⟩ := page_rows h hitem
  have hrow := hstored item.id r hr
  rw [hid] at hrow
  have htime : r.createdAt = cursor.createdAt := heq.trans hcreated
  refine ⟨htime ▸ hrow.precision, ?_⟩
  have hsome : (encodeCursor zone cursor).isSome = true := by
    have hformat := Timestamp.format_isSome (zone.bound cursor.createdAt) (htime ▸ hrow.past)
      (htime ▸ hrow.clock)
    simp only [encodeCursor, marshal, Option.isSome_map]
    exact hformat
  obtain ⟨text, htext⟩ := Option.isSome_iff_exists.1 hsome
  exact ⟨text, htext, decode_encode hrow.positive hrow.bigint (htime ▸ hrow.past) htext⟩

/-- How the pages of a walk are pages by the key. -/
structure Followed (lower : String → String) (zone : Zone) (filter : ListFilter)
    (pages : List (ModerationDb × ListResponse)) (position : Option (Option Cursor))
    (c : ModerationConfig) : Prop where
  keyset : KeysetPages.Walk
    (pages.map fun p => (liveKeys lower filter p.1, p.2.items.map keyOf))
    (position.map (Option.map cursorKey))
  later : ∀ p ∈ pages, ∀ s r, suggestionAt s p.1 = some r →
    ∃ r', suggestionAt s c.world.db = some r' ∧ r'.createdAt = r.createdAt
  lines : ∀ p ∈ pages, ∀ item ∈ p.2.items,
    ∃ r, suggestionAt item.id p.1 = some r ∧ r.createdAt = item.createdAt
  precise : ∀ cursor, position = some (some cursor) → micros cursor.createdAt = cursor.createdAt
  texts : ∀ p ∈ pages, ∀ cursor, p.2.nextCursor = some cursor →
    ∃ text, encodeCursor zone cursor = some text ∧ decodeCursor text = some cursor

theorem Walk.followed {pages : List (ModerationDb × ListResponse)}
    {position : Option (Option Cursor)} (hfit : Fit unicode lower c)
    (hfilter : normalizeListFilter (fromCursor q none) = .ok filter)
    (h : Walk unicode lower zone q c pages position c') :
    Fit unicode lower c' ∧ Followed lower zone filter pages position c' := by
  induction h with
  | start =>
    exact ⟨hfit, .start, fun p hp => absurd hp List.not_mem_nil,
      fun p hp => absurd hp List.not_mem_nil, fun cursor hc => by simp at hc,
      fun p hp => absurd hp List.not_mem_nil⟩
  | @more pages cursor c₁ c₂ c₃ response position _ hrun ha hfollows ih =>
    obtain ⟨fit₁, ih⟩ := ih
    have fit₂ := fit₁.run hrun
    have hlater := fit₂.answered ha
    obtain ⟨filter', items, hfilter', hitems, rfl, -⟩ := ha.page fit₂.stands
    have hlimit := normalizeListFilter_limit hfilter'
    have hcursors : ∀ next, (page filter' items).nextCursor = some next →
        micros next.createdAt = next.createdAt ∧
          ∃ text, encodeCursor zone next = some text ∧ decodeCursor text = some next :=
      fun next hnext => cursor_text fit₂.stored hlimit hitems hnext
    have hshows := page_shows hlimit hitems
    rw [normalizeListFilter_cursor hfilter] at hfilter'
    have hkey : filter'.cursor.map cursorKey = cursor.map cursorKey := by
      cases hfilter'
      cases cursor with
      | none => rfl
      | some cursor =>
        have hprecise := ih.precise cursor rfl
        simp only [Option.map_some, hprecise]
    have hlive : liveKeys lower filter' c₂.world.db = liveKeys lower filter c₂.world.db := by
      cases hfilter'
      rfl
    rw [hkey, hlive] at hshows
    have hposition : position.map (Option.map cursorKey) =
        ((page filter' items).nextCursor.map cursorKey).map some ∧
        ∀ next, position = some (some next) → micros next.createdAt = next.createdAt := by
      cases hfollows with
      | last hnone =>
        rw [hnone]
        exact ⟨rfl, fun next hnext => by cases hnext⟩
      | @next written read text hnext hencode hdecode =>
        obtain ⟨hprecise, text', hencode', hdecode'⟩ := hcursors written hnext
        cases hencode.symm.trans hencode'
        cases hdecode.symm.trans hdecode'
        rw [hnext]
        refine ⟨rfl, fun next hnext => ?_⟩
        cases hnext
        exact hprecise
    refine ⟨fit₂.run hlater, ?_, ?_, ?_, hposition.2, ?_⟩
    · rw [List.map_append, List.map_singleton, hposition.1]
      exact .page ih.keyset hshows
    · intro p hp s r hr
      rcases List.mem_append.1 hp with hp | hp
      · obtain ⟨r', hr', heq'⟩ := ih.later p hp s r hr
        obtain ⟨r'', hr'', heq''⟩ := fit₁.createdAt (hrun.trans hlater) hr'
        exact ⟨r'', hr'', heq''.trans heq'⟩
      · cases List.mem_singleton.1 hp
        exact fit₂.createdAt hlater hr
    · intro p hp item hitem
      rcases List.mem_append.1 hp with hp | hp
      · exact ih.lines p hp item hitem
      · cases List.mem_singleton.1 hp
        exact page_rows hitems hitem
    · intro p hp next hnext
      rcases List.mem_append.1 hp with hp | hp
      · exact ih.texts p hp next hnext
      · cases List.mem_singleton.1 hp
        exact (hcursors next hnext).2

end Pages

/-- The suggestions that the pages show, one after the other. -/
def shownIds (pages : List (ModerationDb × ListResponse)) : List SuggestionId :=
  pages.flatMap fun p => p.2.items.map SuggestionContext.id

/-- A walk shows nothing twice and is over after as many pages as there are suggestions, and
one; once it is over, it has shown what the filter was about at each of its pages. Until
then it goes on, no request for a page fails, and a cursor is read as it was written. -/
structure Exact (unicode : Unicode) (lower : String → String) (zone : Zone) (q : ListQuery)
    (filter : ListFilter) (c : ModerationConfig) (pages : List (ModerationDb × ListResponse))
    (position : Option (Option Cursor)) (c' : ModerationConfig) : Prop where
  once : (shownIds pages).Nodup
  ends : pages.length ≤ (suggestionIds c'.world.db).length + 1
  complete : position = none → ∀ s, (∀ p ∈ pages, Matches lower filter s p.1) → s ∈ shownIds pages
  goesOn : position ≠ none → ∃ response position' c'',
    Walk unicode lower zone q c (pages ++ [(c'.world.db, response)]) position' c''
  answered : ∀ q' response c'', Answered unicode lower q' c' response c'' →
    response ≠ .error (.refused .internal)
  texts : ∀ p ∈ pages, ∀ cursor, p.2.nextCursor = some cursor →
    ∃ text, encodeCursor zone cursor = some text ∧ decodeCursor text = some cursor

theorem Walk.goesOn {pages : List (ModerationDb × ListResponse)} {cursor : Option Cursor}
    (hfit : Fit unicode lower c)
    (hfilter : normalizeListFilter (fromCursor q none) = .ok filter)
    (h : Walk unicode lower zone q c pages (some cursor) c') :
    ∃ items position c'', listedItems lower { filter with cursor := cursor } c'.world.db = some items ∧
      Follows zone (page { filter with cursor := cursor } items) position ∧
      Walk unicode lower zone q c
        (pages ++ [(c'.world.db, page { filter with cursor := cursor } items)]) position c'' ∧
      c''.world.db = c'.world.db := by
  obtain ⟨fit, followed⟩ := h.followed hfit hfilter
  have hprecise : cursor.map (fun c => (⟨micros c.createdAt, c.id⟩ : Cursor)) = cursor := by
    cases cursor with
    | none => rfl
    | some cursor => rw [Option.map_some, followed.precise cursor rfl]
  have hfilter' := @normalizeListFilter_cursor q filter cursor hfilter
  rw [hprecise] at hfilter'
  have hlimit := normalizeListFilter_limit hfilter'
  obtain ⟨items, hitems⟩ := Option.isSome_iff_exists.1
    (@listedItems_isSome lower { filter with cursor := cursor } _ fit.judged)
  obtain ⟨c₂, c₃, hrun, hworld, ha, hdb⟩ :=
    @answered_alone unicode lower _ _ stores hfilter' c'
  have hreply : listReply lower { filter with cursor := cursor } c'.world.db =
      .ok (.listed (page { filter with cursor := cursor } items)) := by
    unfold listReply
    rw [hitems]
  rw [hreply] at ha
  have hfollows : ∃ position, Follows zone (page { filter with cursor := cursor } items) position := by
    cases hnext : (page { filter with cursor := cursor } items).nextCursor with
    | none => exact ⟨none, .last hnext⟩
    | some next =>
      obtain ⟨-, text, hencode, hdecode⟩ := cursor_text fit.stored hlimit hitems hnext
      exact ⟨_, .next hnext hencode hdecode⟩
  obtain ⟨position, hfollows⟩ := hfollows
  have hwalk := Walk.more h hrun ha hfollows
  rw [hworld] at hwalk
  exact ⟨items, position, c₃, hitems, hfollows, hwalk, hdb⟩

theorem walk_exact {db : ModerationDb} (hdb : Suits unicode db) (hjudged : AllJudged (view db))
    (hstored : AllStored db) (hrun : Run (program unicode lower) stores (start db) c)
    (hfilter : normalizeListFilter (fromCursor q none) = .ok filter)
    {pages : List (ModerationDb × ListResponse)} {position : Option (Option Cursor)}
    (hwalk : Walk unicode lower zone q c pages position c') :
    Exact unicode lower zone q filter c pages position c' := by
  have hfit := (fit_start hdb hjudged hstored).run hrun
  obtain ⟨fit, followed⟩ := hwalk.followed hfit hfilter
  have hsound := followed.keyset.sound
  have hids : shownIds pages = (shownKeys (pages.map fun p =>
      (liveKeys lower filter p.1, p.2.items.map keyOf))).map fun k => (ofLex k).2 := by
    simp [shownIds, shownKeys, List.flatMap_map, List.map_flatMap, keyOf, Function.comp_def]
  have hrow : ∀ k ∈ shownKeys (pages.map fun p =>
      (liveKeys lower filter p.1, p.2.items.map keyOf)),
      ∃ r, suggestionAt (ofLex k).2 c'.world.db = some r ∧ (ofLex k).1 = r.createdAt := by
    intro k hk
    simp only [shownKeys, List.flatMap_map, List.mem_flatMap, List.mem_map] at hk
    obtain ⟨p, hp, item, hitem, rfl⟩ := hk
    obtain ⟨r, hr, heq⟩ := followed.lines p hp item hitem
    obtain ⟨r', hr', heq'⟩ := followed.later p hp item.id r hr
    exact ⟨r', hr', heq.symm.trans heq'.symm⟩
  have honce : (shownIds pages).Nodup := by
    rw [hids]
    refine List.Nodup.map_on (fun k hk k' hk' heq => ?_) (hsound.sorted.imp fun h => ne_of_lt h)
    obtain ⟨r, hr, hcreated⟩ := hrow k hk
    obtain ⟨r', hr', hcreated'⟩ := hrow k' hk'
    rw [heq] at hr
    cases hr.symm.trans hr'
    exact ofLex.injective (Prod.ext (hcreated.trans hcreated'.symm) heq)
  refine ⟨honce, ?_, ?_, ?_, ?_, followed.texts⟩
  · have hsub : shownIds pages ⊆ suggestionIds c'.world.db := by
      intro s hs
      rw [hids] at hs
      obtain ⟨k, hk, rfl⟩ := List.mem_map.1 hs
      obtain ⟨r, hr, -⟩ := hrow k hk
      exact mem_suggestionIds.2 ⟨r, hr⟩
    have hle := (honce.subperm hsub).length_le
    have hpages := hsound.length
    rw [List.length_map] at hpages
    rw [hids, List.length_map] at hle
    split at hpages <;> omega
  · rintro rfl s hs
    have hrows : ∀ p ∈ pages, ∃ r r', suggestionAt s p.1 = some r ∧
        suggestionAt s c'.world.db = some r' ∧ r'.createdAt = r.createdAt := by
      intro p hp
      obtain ⟨r, hr⟩ := matches_row (hs p hp)
      obtain ⟨r', hr', heq⟩ := followed.later p hp s r hr
      exact ⟨r, r', hr, hr', heq⟩
    obtain ⟨t, ht⟩ : ∃ t, ∀ p ∈ pages, ∃ r, suggestionAt s p.1 = some r ∧ r.createdAt = t := by
      cases hrow' : suggestionAt s c'.world.db with
      | none =>
        refine ⟨0, fun p hp => ?_⟩
        obtain ⟨r, r', -, hr', -⟩ := hrows p hp
        rw [hrow'] at hr'
        cases hr'
      | some r' =>
        refine ⟨r'.createdAt, fun p hp => ?_⟩
        obtain ⟨r, r'', hr, hr'', heq⟩ := hrows p hp
        cases hrow'.symm.trans hr''
        exact ⟨r, hr, heq.symm⟩
    have hseen : toLex (t, s) ∈ shownKeys (pages.map fun p =>
        (liveKeys lower filter p.1, p.2.items.map keyOf)) := by
      refine hsound.seen _ (fun x hx => ?_) trivial
      obtain ⟨p, hp, rfl⟩ := List.mem_map.1 hx
      obtain ⟨r, hr, rfl⟩ := ht p hp
      exact ⟨s, r, hr, hs p hp, rfl⟩
    rw [hids]
    exact List.mem_map.2 ⟨_, hseen, rfl⟩
  · intro hne
    obtain ⟨cursor, rfl⟩ := Option.ne_none_iff_exists'.1 hne
    obtain ⟨items, position, c'', -, -, hnext, -⟩ := hwalk.goesOn hfit hfilter
    exact ⟨_, position, c'', hnext⟩
  · rintro q' response c'' ha rfl
    cases ha.replies fit.stands with
    | forbidden h => cases h
    | rejected why h => cases h
    | read filter' _ hreply _ =>
      obtain ⟨items, hitems⟩ := Option.isSome_iff_exists.1
        (@listedItems_isSome lower filter' _ fit.judged)
      rw [listReply, hitems] at hreply
      cases hreply

def pendingSuggestion (e : LearningSchema.EventId) (answer : String) (now : Instant) :
    SuggestionRow where
  userId := 1
  wordId := 1
  reviewEventId := some e
  exerciseKind := .translation
  submittedAnswer := answer
  normalizedAnswer := answer
  createdAt := now
  updatedAt := now

/-- Two suggestions from the same moment. -/
def pairDb : ModerationDb :=
  AList.insert (Key.suggestion 9) (pendingSuggestion 5 "kitty" 2000)
    (AList.insert (Key.suggestion 10) (pendingSuggestion 5 "tomcat" 2000)
      (AList.insert (Key.event 5) (rejectedReview "kitty") catDb))

def firstPending : ListFilter := ⟨.pending, none, "", none, 1, none⟩

/-- With a page for each of them, both are shown. -/
theorem pair_walk : ∃ pages c', Walk ascii id .utc { limit := 1 } (start pairDb) pages none c' ∧
    Exact ascii id .utc { limit := 1 } firstPending (start pairDb) pages none c' ∧
    pages.map (fun p => p.2.items.map SuggestionContext.id) = [[9], [10]] := by
  have hrows : ∀ s r, suggestionAt s pairDb = some r → (s = 9 ∨ s = 10) ∧
      (r = pendingSuggestion 5 "kitty" 2000 ∨ r = pendingSuggestion 5 "tomcat" 2000) := by
    intro s r hr
    have hids : suggestionIds pairDb = [9, 10] := by decide +kernel
    have hmem := mem_suggestionIds.2 ⟨r, hr⟩
    rw [hids, List.mem_cons, List.mem_singleton] at hmem
    rcases hmem with rfl | rfl
    · have hkitty : suggestionAt 9 pairDb = some (pendingSuggestion 5 "kitty" 2000) := by decide +kernel
      exact ⟨.inl rfl, .inl (Option.some.inj (hr.symm.trans hkitty))⟩
    · have htomcat : suggestionAt 10 pairDb = some (pendingSuggestion 5 "tomcat" 2000) := by
        decide +kernel
      exact ⟨.inr rfl, .inr (Option.some.inj (hr.symm.trans htomcat))⟩
  have hdb : Suits ascii pairDb := by
    intro s r hr
    rcases (hrows s r hr).2 with rfl | rfl <;> decide +kernel
  have hjudged : AllJudged (view pairDb) := by
    intro s r hr e he
    have hevent : eventAt 5 pairDb = some (rejectedReview "kitty") := by decide +kernel
    rcases (hrows s r hr).2 with rfl | rfl <;> cases he <;> exact ⟨_, hevent, rfl⟩
  have hstored : AllStored pairDb := by
    intro s r hr
    obtain ⟨hs, hr⟩ := hrows s r hr
    rcases hs with rfl | rfl <;> rcases hr with rfl | rfl <;>
      exact ⟨by decide, by decide, by decide, by decide, by decide⟩
  have hfilter : normalizeListFilter (fromCursor { limit := 1 } none) = .ok firstPending := by
    decide +kernel
  have hfit : Fit ascii id (start pairDb) := fit_start hdb hjudged hstored
  have hfirst : (listedItems id { firstPending with cursor := none } pairDb).map (fun items =>
      ((page { firstPending with cursor := none } items).items.map SuggestionContext.id,
        (page { firstPending with cursor := none } items).nextCursor)) =
      some ([9], some ⟨2000, 9⟩) := by decide +kernel
  have hlast : (listedItems id { firstPending with cursor := some ⟨2000, 9⟩ } pairDb).map (fun items =>
      ((page { firstPending with cursor := some ⟨2000, 9⟩ } items).items.map SuggestionContext.id,
        (page { firstPending with cursor := some ⟨2000, 9⟩ } items).nextCursor)) =
      some ([10], none) := by decide +kernel
  obtain ⟨items, position, c₁, hitems, hfollows, hwalk, hsame⟩ :=
    (@Walk.start ascii id .utc { limit := 1 } (start pairDb)).goesOn hfit hfilter
  rw [show (start pairDb).world.db = pairDb from rfl] at hitems hsame
  rw [hitems, Option.map_some, Option.some.injEq, Prod.mk.injEq] at hfirst
  have hposition : position = some (some ⟨2000, 9⟩) := by
    cases hfollows with
    | last hnone =>
      rw [hnone] at hfirst
      cases hfirst.2
    | next hnext hencode hdecode =>
      cases hnext.symm.trans hfirst.2
      obtain ⟨-, text, hencode', hdecode'⟩ := cursor_text hstored (by decide) hitems hnext
      cases hencode.symm.trans hencode'
      cases hdecode.symm.trans hdecode'
      rfl
  subst hposition
  obtain ⟨items', position', c₂, hitems', hfollows', hwalk', -⟩ := hwalk.goesOn hfit hfilter
  rw [hsame] at hitems'
  rw [hitems', Option.map_some, Option.some.injEq, Prod.mk.injEq] at hlast
  have hend : position' = none := by
    cases hfollows' with
    | last => rfl
    | next hnext =>
      rw [hlast.2] at hnext
      cases hnext
  subst hend
  refine ⟨_, c₂, hwalk', walk_exact hdb hjudged hstored (.refl _) hfilter hwalk', ?_⟩
  simp only [List.nil_append, List.cons_append, List.map_cons, List.map_nil, hfirst.1, hlast.1]

end CursorWalk
