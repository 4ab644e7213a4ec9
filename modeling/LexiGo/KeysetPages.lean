import Mathlib.Order.Basic
import Mathlib.Data.Set.Basic
import Mathlib.Data.List.Pairwise

/-! Pages of rows in the order of a key, each from behind the last key of the page before,
while the rows change between the pages. -/
namespace KeysetPages

variable {κ : Type} [LinearOrder κ]

/-- How far a walk has come: `some none` is its start, `none` its end. -/
def Reached : Option (Option κ) → κ → Prop
  | none, _ => True
  | some none, _ => False
  | some (some c), k => k ≤ c

/-- A page shows the first of the keys that are there and not reached yet, and says
where it stops unless there is nothing left. -/
structure Shows (live : Set κ) (cursor : Option κ) (shown : List κ) (next : Option κ) : Prop where
  sorted : shown.Pairwise (· < ·)
  fresh : ∀ k ∈ shown, k ∈ live ∧ ¬ Reached (some cursor) k
  all : ∀ k ∈ live, ¬ Reached (some cursor) k → Reached (next.map some) k → k ∈ shown
  last : ∀ c, next = some c → c ∈ shown ∧ ∀ k ∈ shown, k ≤ c

/-- The first `limit` rows of those that there are, with one more to see whether there
is another page. -/
theorem shows_take {live : Set κ} {cursor : Option κ} {rows : List κ} {limit : Nat}
    (hlimit : 0 < limit) (hsorted : rows.Pairwise (· < ·))
    (hrows : ∀ k, k ∈ rows ↔ k ∈ live ∧ ¬ Reached (some cursor) k) :
    Shows live cursor ((rows.take (limit + 1)).take limit)
      (if limit < (rows.take (limit + 1)).length then (rows.take (limit + 1))[limit - 1]? else none) := by
  have htake : (rows.take (limit + 1)).take limit = rows.take limit := by
    rw [List.take_take, Nat.min_eq_left (Nat.le_succ limit)]
  rw [htake]
  have hmem : ∀ k ∈ rows.take limit, k ∈ rows := fun k hk => List.mem_of_mem_take hk
  by_cases hmore : limit < (rows.take (limit + 1)).length
  · rw [if_pos hmore]
    have hlength : limit < rows.length := by
      rw [List.length_take] at hmore
      omega
    have hlast : (rows.take (limit + 1))[limit - 1]? = some rows[limit - 1] := by
      rw [List.getElem?_take_of_lt (by omega), List.getElem?_eq_getElem]
    have hsplit : rows = rows.take (limit - 1) ++ rows[limit - 1] :: rows.drop limit := by
      conv_lhs => rw [← List.take_append_drop (limit - 1) rows]
      rw [List.drop_eq_getElem_cons (by omega), Nat.sub_add_cancel hlimit]
    have hfirst : rows.take limit = rows.take (limit - 1) ++ [rows[limit - 1]] := by
      have hnext := @List.take_append_getElem _ rows (limit - 1) (by omega)
      rw [Nat.sub_add_cancel hlimit] at hnext
      exact hnext.symm
    rw [hlast]
    generalize rows[limit - 1] = c at hsplit hfirst
    rw [hsplit, List.pairwise_append, List.pairwise_cons] at hsorted
    obtain ⟨hbefore, ⟨hafter, -⟩, hcross⟩ := hsorted
    refine ⟨?_, fun k hk => (hrows k).1 (hmem k hk), ?_, ?_⟩
    · rw [hfirst, List.pairwise_append]
      exact ⟨hbefore, List.pairwise_singleton _ _, fun a ha b hb =>
        hcross a ha b (List.mem_cons.2 (.inl (List.mem_singleton.1 hb)))⟩
    · intro k hk hnew hreached
      have hrow := (hrows k).2 ⟨hk, hnew⟩
      have hle : k ≤ c := hreached
      rw [hsplit, List.mem_append, List.mem_cons] at hrow
      rw [hfirst, List.mem_append, List.mem_singleton]
      rcases hrow with hrow | hrow | hrow
      · exact .inl hrow
      · exact .inr hrow
      · exact absurd (hafter k hrow) (not_lt.2 hle)
    · intro c' hc
      cases hc
      rw [hfirst]
      refine ⟨List.mem_append_right _ List.mem_cons_self, fun k hk => ?_⟩
      rcases List.mem_append.1 hk with hk | hk
      · exact le_of_lt (hcross k hk c List.mem_cons_self)
      · exact le_of_eq (List.mem_singleton.1 hk)
  · rw [if_neg hmore]
    have hall : rows.take limit = rows := by
      rw [List.length_take] at hmore
      exact List.take_of_length_le (by omega)
    rw [hall]
    refine ⟨hsorted, fun k hk => (hrows k).1 hk, fun k hk hnew _ => (hrows k).2 ⟨hk, hnew⟩, ?_⟩
    intro c hc
    cases hc

/-- The pages so far, each with the keys that were there when it was asked for. -/
inductive Walk : List (Set κ × List κ) → Option (Option κ) → Prop
  | start : Walk [] (some none)
  | page {pages : List (Set κ × List κ)} {cursor : Option κ} {live : Set κ} {shown : List κ}
      {next : Option κ} :
      Walk pages (some cursor) → Shows live cursor shown next →
      Walk (pages ++ [(live, shown)]) (next.map some)

def shownKeys (pages : List (Set κ × List κ)) : List κ := pages.flatMap Prod.snd

omit [LinearOrder κ] in
theorem shownKeys_concat (pages : List (Set κ × List κ)) (live : Set κ) (shown : List κ) :
    shownKeys (pages ++ [(live, shown)]) = shownKeys pages ++ shown := by
  simp [shownKeys]

/-- What holds of a walk wherever it stands. -/
structure Sound (pages : List (Set κ × List κ)) (position : Option (Option κ)) : Prop where
  sorted : (shownKeys pages).Pairwise (· < ·)
  reached : ∀ k ∈ shownKeys pages, Reached position k
  seen : ∀ k, (∀ p ∈ pages, k ∈ p.1) → Reached position k → k ∈ shownKeys pages
  length : pages.length ≤ (shownKeys pages).length + if position = none then 1 else 0

variable {pages : List (Set κ × List κ)} {position : Option (Option κ)}

theorem reached_mono {cursor next : Option κ} {live : Set κ} {shown : List κ}
    (h : Shows live cursor shown next) {k : κ} (hk : Reached (some cursor) k) :
    Reached (next.map some) k := by
  cases next with
  | none => trivial
  | some c =>
    cases cursor with
    | none => exact absurd hk not_false
    | some before =>
      have hbefore : ¬ c ≤ before := (h.fresh c (h.last c rfl).1).2
      exact le_of_lt (lt_of_le_of_lt hk (not_le.1 hbefore))

theorem Walk.sound (h : Walk pages position) : Sound pages position := by
  induction h with
  | start =>
    exact ⟨.nil, by simp [shownKeys], fun k _ hk => absurd hk not_false, Nat.zero_le _⟩
  | @page pages cursor live shown next _ hshows ih =>
    have hreached : ∀ k ∈ shown, Reached (next.map some) k := by
      intro k hk
      cases next with
      | none => trivial
      | some c => exact (hshows.last c rfl).2 k hk
    refine ⟨?_, ?_, ?_, ?_⟩
    · rw [shownKeys_concat, List.pairwise_append]
      refine ⟨ih.sorted, hshows.sorted, fun a ha b hb => ?_⟩
      have hold := ih.reached a ha
      have hnew := (hshows.fresh b hb).2
      cases cursor with
      | none => exact absurd hold not_false
      | some c => exact lt_of_le_of_lt hold (not_le.1 hnew)
    · intro k hk
      rw [shownKeys_concat] at hk
      rcases List.mem_append.1 hk with hk | hk
      · exact reached_mono hshows (ih.reached k hk)
      · exact hreached k hk
    · intro k hlive hk
      rw [shownKeys_concat]
      by_cases hbefore : Reached (some cursor) k
      · exact List.mem_append_left _
          (ih.seen k (fun p hp => hlive p (List.mem_append_left _ hp)) hbefore)
      · exact List.mem_append_right _
          (hshows.all k (hlive (live, shown) (by simp)) hbefore hk)
    · have hlength := ih.length
      rw [if_neg (by simp)] at hlength
      rw [shownKeys_concat, List.length_append, List.length_append, List.length_singleton]
      cases next with
      | none =>
        rw [Option.map_none, if_pos rfl]
        omega
      | some c =>
        have hpos := List.length_pos_of_mem (hshows.last c rfl).1
        rw [Option.map_some, if_neg (by simp)]
        omega

end KeysetPages
