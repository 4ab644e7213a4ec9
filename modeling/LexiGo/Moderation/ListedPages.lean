import LexiGo.Moderation.ModerationRuns
import LexiGo.KeysetPages
import Mathlib.Data.Prod.Lex

/-! A page of a listing as a page by the key of the suggestions: the time from which they
are, and their number. -/
namespace ListedPages
open RowStore ModerationSchema ModerationRepository ModerationService ModerationMachine KeysetPages
open Scheduler (Instant)

abbrev ListKey := Int ×ₗ Nat

def keyOf (item : SuggestionContext) : ListKey := toLex (item.createdAt, item.id)

def cursorKey (cursor : Cursor) : ListKey := toLex (cursor.createdAt, cursor.id)

variable (lower : String → String)

/-- The suggestion is one of those that the filter is about, wherever it begins. -/
def Matches (filter : ListFilter) (s : SuggestionId) (db : ModerationDb) : Prop :=
  (joined lower { filter with cursor := none } db s).isSome = true

/-- The keys of the suggestions that the filter is about. -/
def liveKeys (filter : ListFilter) (db : ModerationDb) : Set ListKey :=
  fun k => ∃ s r, suggestionAt s db = some r ∧ Matches lower filter s db ∧
    k = toLex (r.createdAt, s)

def suggestionIds (db : ModerationDb) : List SuggestionId := db.keys.filterMap Key.suggestionId

variable {lower} {filter : ListFilter} {db : ModerationDb}

theorem mem_suggestionIds {s : SuggestionId} :
    s ∈ suggestionIds db ↔ ∃ r, suggestionAt s db = some r := by
  unfold suggestionIds suggestionAt
  rw [List.mem_filterMap]
  constructor
  · rintro ⟨k, hk, hs⟩
    cases k <;> simp only [Key.suggestionId, Option.some.injEq, reduceCtorEq] at hs
    subst hs
    exact mem_keys_iff.1 hk
  · rintro ⟨r, hr⟩
    exact ⟨Key.suggestion s, mem_keys_iff.2 ⟨r, hr⟩, rfl⟩

theorem suggestionIds_nodup (db : ModerationDb) : (suggestionIds db).Nodup := by
  refine List.Nodup.filterMap (fun k k' s hk hk' => ?_) db.nodupKeys
  cases k <;> cases k' <;> simp_all [Key.suggestionId]

theorem not_reached {cursor : Option Cursor} {s : SuggestionId} {r : SuggestionRow} :
    ¬ Reached (some (cursor.map cursorKey)) (toLex (r.createdAt, s)) ↔
      cursor.all (fun cursor =>
        cursor.createdAt < r.createdAt || (cursor.createdAt = r.createdAt && cursor.id < s)) = true := by
  cases cursor with
  | none => simp [Reached]
  | some cursor =>
    simp only [Option.map_some, Reached, cursorKey, not_le, Prod.Lex.toLex_lt_toLex, Option.all_some,
      Bool.or_eq_true, Bool.and_eq_true, decide_eq_true_eq]

/-- A cursor takes away what it has been reached of, and nothing else. -/
theorem joined_cursor {s : SuggestionId} {found : Option SuggestionContext} :
    joined lower filter db s = some found ↔
      joined lower { filter with cursor := none } db s = some found ∧
        ∀ r, suggestionAt s db = some r →
          ¬ Reached (some (filter.cursor.map cursorKey)) (toLex (r.createdAt, s)) := by
  simp only [joined, bind, Option.bind_eq_some_iff, Option.ite_none_right_eq_some, not_reached]
  constructor
  · rintro ⟨r, hr, word, hword, e, he, event, hevent, hadmits, hscan⟩
    simp only [ListFilter.admits, Bool.and_eq_true] at hadmits
    refine ⟨⟨r, hr, word, hword, e, he, event, hevent, ?_, hscan⟩, fun r' hr' => ?_⟩
    · simp only [ListFilter.admits, Bool.and_eq_true]
      exact ⟨hadmits.1, rfl⟩
    · cases hr.symm.trans hr'
      exact hadmits.2
  · rintro ⟨⟨r, hr, word, hword, e, he, event, hevent, hadmits, hscan⟩, hcursor⟩
    simp only [ListFilter.admits, Bool.and_eq_true] at hadmits
    refine ⟨r, hr, word, hword, e, he, event, hevent, ?_, hscan⟩
    simp only [ListFilter.admits, Bool.and_eq_true]
    exact ⟨hadmits.1, hcursor r hr⟩

theorem joined_row {s : SuggestionId} {item : SuggestionContext}
    (h : joined lower filter db s = some (some item)) :
    item.id = s ∧ ∃ r, suggestionAt s db = some r ∧ keyOf item = toLex (r.createdAt, s) := by
  simp only [joined, bind, Option.bind_eq_some_iff, Option.ite_none_right_eq_some,
    Option.some.injEq] at h
  obtain ⟨r, hr, word, -, e, -, event, -, -, hscan⟩ := h
  obtain ⟨correct, -, rfl⟩ := Option.map_eq_some_iff.1 hscan
  exact ⟨rfl, r, hr, rfl⟩

theorem matches_row {s : SuggestionId} (h : Matches lower filter s db) :
    ∃ r, suggestionAt s db = some r := by
  obtain ⟨found, hfound⟩ := Option.isSome_iff_exists.1 h
  simp only [joined, bind, Option.bind_eq_some_iff] at hfound
  obtain ⟨r, hr, -⟩ := hfound
  exact ⟨r, hr⟩

theorem mapM_id_eq_some {α : Type} {found : List (Option α)} {items : List α} :
    found.mapM id = some items ↔ found = items.map some := by
  induction found generalizing items with
  | nil => cases items <;> simp
  | cons o rest ih =>
    rw [List.mapM_cons]
    cases items with
    | nil => cases o <;> simp [Option.bind_eq_some_iff]
    | cons item items =>
      cases o <;> simp [Option.bind_eq_some_iff, ih, and_comm]

theorem earlier_iff {a b : SuggestionContext} : earlier a b = true ↔ keyOf a ≤ keyOf b := by
  simp only [earlier, keyOf, Prod.Lex.toLex_le_toLex, Bool.or_eq_true, Bool.and_eq_true,
    decide_eq_true_eq]

/-- A listing is the beginning of the rows that its filter is about, in their order. -/
theorem listedItems_rows {items : List SuggestionContext}
    (h : listedItems lower filter db = some items) :
    ∃ rows : List SuggestionContext, items = rows.take (filter.limit + 1) ∧
      (rows.map keyOf).Pairwise (· < ·) ∧
      (∀ s, joined lower filter db s ≠ some none) ∧
      ∀ item, item ∈ rows ↔ ∃ s, joined lower filter db s = some (some item) := by
  obtain ⟨found, hfound, rfl⟩ := Option.map_eq_some_iff.1 h
  have hrows : (suggestionIds db).filterMap (joined lower filter db) = found.map some :=
    mapM_id_eq_some.1 hfound
  have hjoined : ∀ s o, joined lower filter db s = some o → o ∈ found.map some := by
    intro s o hs
    rw [← hrows, List.mem_filterMap]
    refine ⟨s, mem_suggestionIds.2 ?_, hs⟩
    simp only [joined, bind, Option.bind_eq_some_iff] at hs
    obtain ⟨r, hr, -⟩ := hs
    exact ⟨r, hr⟩
  have hids : found.Pairwise fun a b => a.id ≠ b.id := by
    have hpairs : ((suggestionIds db).filterMap (joined lower filter db)).Pairwise
        fun x y => ∀ a b, x = some a → y = some b → a.id ≠ b.id := by
      rw [List.pairwise_filterMap]
      refine (suggestionIds_nodup db).imp fun {s s'} hne x hx y hy a b ha hb heq => hne ?_
      subst ha
      subst hb
      exact (joined_row hx).1.symm.trans (heq.trans (joined_row hy).1)
    rw [hrows, List.pairwise_map] at hpairs
    exact hpairs.imp fun h => h _ _ rfl rfl
  have : Std.Total fun a b : SuggestionContext => earlier a b = true :=
    ⟨fun a b => by
      rw [earlier_iff, earlier_iff]
      exact le_total _ _⟩
  have : IsTrans SuggestionContext fun a b => earlier a b = true :=
    ⟨fun a b c => by
      rw [earlier_iff, earlier_iff, earlier_iff]
      exact le_trans⟩
  have hsorted := List.pairwise_insertionSort (fun a b => earlier a b = true) found
  have hperm := List.perm_insertionSort (fun a b => earlier a b = true) found
  refine ⟨found.insertionSort (earlier · ·), rfl, ?_, ?_, fun item => ?_⟩
  · rw [List.pairwise_map]
    have hdistinct := (hperm.pairwise_iff (R := fun a b => a.id ≠ b.id) fun h => Ne.symm h).2 hids
    refine (hsorted.and hdistinct).imp fun {a b} hab => ?_
    refine lt_of_le_of_ne (earlier_iff.1 hab.1) fun heq => hab.2 ?_
    exact congrArg (fun k => (ofLex k).2) heq
  · intro s hs
    have := hjoined s none hs
    simp at this
  · rw [hperm.mem_iff]
    constructor
    · intro hitem
      have hmem : some item ∈ (suggestionIds db).filterMap (joined lower filter db) := by
        rw [hrows]
        exact List.mem_map_of_mem hitem
      obtain ⟨s, -, hs⟩ := List.mem_filterMap.1 hmem
      exact ⟨s, hs⟩
    · rintro ⟨s, hs⟩
      obtain ⟨item', hitem', heq⟩ := List.mem_map.1 (hjoined s _ hs)
      cases heq
      exact hitem'

/-- With a verdict on every review, each row can be read. -/
theorem listedItems_isSome (h : AllJudged (view db)) : (listedItems lower filter db).isSome = true := by
  have hread : ∀ o ∈ (suggestionIds db).filterMap (joined lower filter db), o ≠ none := by
    rintro o ho rfl
    obtain ⟨s, -, hs⟩ := List.mem_filterMap.1 ho
    simp only [joined, bind, Option.bind_eq_some_iff, Option.ite_none_right_eq_some,
      Option.some.injEq, scanSuggestion, Option.map_eq_none_iff] at hs
    obtain ⟨r, hr, word, -, e, he, event, hevent, -, hcorrect⟩ := hs
    obtain ⟨event', hevent', hverdict⟩ := h s r hr e he
    cases hevent.symm.trans hevent'
    simp [hcorrect] at hverdict
  have hsome : ∀ found : List (Option SuggestionContext), (∀ o ∈ found, o ≠ none) →
      ∃ items : List SuggestionContext, found = items.map some := by
    intro found hfound
    induction found with
    | nil => exact ⟨[], rfl⟩
    | cons o rest ih =>
      obtain ⟨items, hitems⟩ := ih fun o ho => hfound o (List.mem_cons_of_mem _ ho)
      obtain ⟨item, hitem⟩ := Option.ne_none_iff_exists'.1 (hfound o List.mem_cons_self)
      exact ⟨item :: items, by rw [hitem, hitems, List.map_cons]⟩
  obtain ⟨items, hitems⟩ := hsome _ hread
  unfold listedItems
  dsimp only
  have hfound : ((db.keys.filterMap Key.suggestionId).filterMap (joined lower filter db)).mapM id =
      some items := mapM_id_eq_some.2 hitems
  rw [hfound]
  rfl

/-- A page of a listing is a page by the key. -/
theorem page_shows (hlimit : 0 < filter.limit) {items : List SuggestionContext}
    (h : listedItems lower filter db = some items) :
    Shows (liveKeys lower filter db) (filter.cursor.map cursorKey)
      ((page filter items).items.map keyOf) ((page filter items).nextCursor.map cursorKey) := by
  obtain ⟨rows, rfl, hsorted, hread, hmem⟩ := listedItems_rows h
  have hkeys : ∀ k, k ∈ rows.map keyOf ↔
      k ∈ liveKeys lower filter db ∧ ¬ Reached (some (filter.cursor.map cursorKey)) k := by
    intro k
    rw [List.mem_map]
    constructor
    · rintro ⟨item, hitem, rfl⟩
      obtain ⟨s, hs⟩ := (hmem item).1 hitem
      obtain ⟨-, r, hr, hkey⟩ := joined_row hs
      obtain ⟨hfree, hnew⟩ := joined_cursor.1 hs
      rw [hkey]
      exact ⟨⟨s, r, hr, by simp [Matches, hfree], rfl⟩, hnew r hr⟩
    · rintro ⟨⟨s, r, hr, hmatches, rfl⟩, hnew⟩
      obtain ⟨found, hfound⟩ := Option.isSome_iff_exists.1 hmatches
      have hs : joined lower filter db s = some found := by
        refine joined_cursor.2 ⟨hfound, fun r' hr' => ?_⟩
        cases hr.symm.trans hr'
        exact hnew
      cases found with
      | none => exact absurd hs (hread s)
      | some item =>
        obtain ⟨-, r', hr', hkey⟩ := joined_row hs
        cases hr.symm.trans hr'
        exact ⟨item, (hmem item).2 ⟨s, hs⟩, hkey⟩
  have hshows := shows_take hlimit hsorted hkeys
  have hlength : ((rows.map keyOf).take (filter.limit + 1)).length =
      (rows.take (filter.limit + 1)).length := by simp
  rw [hlength] at hshows
  unfold page
  by_cases hmore : filter.limit < (rows.take (filter.limit + 1)).length
  · rw [if_pos hmore] at hshows ⊢
    have hnext : ((rows.take (filter.limit + 1))[filter.limit - 1]?.map
        fun last => (⟨last.createdAt, last.id⟩ : Cursor)).map cursorKey =
        ((rows.map keyOf).take (filter.limit + 1))[filter.limit - 1]? := by
      rw [← List.map_take, List.getElem?_map, Option.map_map]
      rfl
    rw [hnext, List.map_take, List.map_take]
    exact hshows
  · rw [if_neg hmore] at hshows ⊢
    have hall : ((rows.map keyOf).take (filter.limit + 1)).take filter.limit =
        (rows.take (filter.limit + 1)).map keyOf := by
      rw [List.take_of_length_le (by omega), List.map_take]
    rw [hall] at hshows
    exact hshows

end ListedPages
