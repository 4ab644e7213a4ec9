import Mathlib.Data.List.Basic
import Mathlib.Data.List.Infix

/-! Lists written one after the other with a separator between them. Where no list
holds the separator, what is written can be read back in one way only. -/
namespace SeparatedLists

variable {α : Type} {sep : α}

theorem intercalate_concat (lists : List (List α)) (last : List α) (h : lists ≠ []) :
    [sep].intercalate (lists ++ [last]) = [sep].intercalate lists ++ sep :: last := by
  induction lists with
  | nil => exact absurd rfl h
  | cons l lists ih =>
    cases lists with
    | nil => simp [List.intercalate_cons_cons]
    | cons l' lists =>
      have htail := ih (by simp)
      rw [List.cons_append, List.cons_append, List.intercalate_cons_cons,
        List.intercalate_cons_cons, ← List.cons_append, htail]
      simp

/-- Read backwards, the lists come in the other order. -/
theorem reverse_intercalate (lists : List (List α)) :
    ([sep].intercalate lists).reverse = [sep].intercalate (lists.map List.reverse).reverse := by
  induction lists with
  | nil => rfl
  | cons l lists ih =>
    cases lists with
    | nil => simp
    | cons l' lists =>
      have hne : ((l' :: lists).map List.reverse).reverse ≠ [] := by simp
      rw [List.intercalate_cons_cons, List.map_cons, List.reverse_cons,
        intercalate_concat _ _ hne, ← ih]
      simp

theorem mem_intercalate {lists : List (List α)} {l : List α} (hl : l ∈ lists) {a : α} (ha : a ∈ l) :
    a ∈ [sep].intercalate lists := by
  induction lists with
  | nil => cases hl
  | cons l' lists ih =>
    cases lists with
    | nil =>
      rw [List.mem_singleton] at hl
      rwa [List.intercalate_singleton, ← hl]
    | cons l'' lists =>
      rw [List.intercalate_cons_cons]
      rcases List.mem_cons.1 hl with rfl | hl
      · exact List.mem_append_left _ (List.mem_append_left _ ha)
      · exact List.mem_append_right _ (ih hl)

theorem of_mem_intercalate {sep a : α} : ∀ {lists : List (List α)},
    a ∈ [sep].intercalate lists → a = sep ∨ ∃ l ∈ lists, a ∈ l
  | [], h => absurd h List.not_mem_nil
  | [l], h => .inr ⟨l, List.mem_singleton_self l, by simpa using h⟩
  | l :: l' :: rest, h => by
    rw [List.intercalate_cons_cons, List.mem_append, List.mem_append, List.mem_singleton] at h
    rcases h with (h | h) | h
    · exact .inr ⟨l, List.mem_cons_self, h⟩
    · exact .inl h
    · rcases of_mem_intercalate h with h | ⟨l₀, hl₀, h⟩
      · exact .inl h
      · exact .inr ⟨l₀, List.mem_cons_of_mem _ hl₀, h⟩

/-- The lists with a separator behind each of them. -/
def closed (sep : α) (lists : List (List α)) : List α := lists.flatMap fun l => l ++ [sep]

theorem closed_cons (l : List α) (lists : List (List α)) :
    closed sep (l :: lists) = l ++ sep :: closed sep lists := by
  simp [closed]

theorem closed_append (xs ys : List (List α)) :
    closed sep (xs ++ ys) = closed sep xs ++ closed sep ys :=
  List.flatMap_append

theorem intercalate_closed {lists : List (List α)} (h : lists ≠ []) :
    [sep].intercalate lists ++ [sep] = closed sep lists := by
  induction lists with
  | nil => exact absurd rfl h
  | cons l lists ih =>
    cases lists with
    | nil => simp [closed]
    | cons l' lists =>
      rw [List.intercalate_cons_cons, closed_cons, ← ih (by simp)]
      simp

/-- The lists with a separator on either side of each. -/
def padded (sep : α) (lists : List (List α)) : List α := sep :: closed sep lists

theorem padded_ends (lists : List (List α)) : ∃ u, padded sep lists = u ++ [sep] := by
  induction lists with
  | nil => exact ⟨[], rfl⟩
  | cons l lists ih =>
    obtain ⟨u, hu⟩ := ih
    have hu : sep :: closed sep lists = u ++ [sep] := hu
    refine ⟨sep :: l ++ u, ?_⟩
    rw [padded, closed_cons, hu]
    simp

/-- Behind each separator the rest of the lists begins. -/
theorem padded_split {lists : List (List α)} (hsep : ∀ l ∈ lists, sep ∉ l) {u w : List α}
    (h : padded sep lists = u ++ sep :: w) :
    ∃ before after, lists = before ++ after ∧ w = closed sep after := by
  induction lists generalizing u with
  | nil =>
    have h : [sep] = u ++ sep :: w := h
    refine ⟨[], [], rfl, ?_⟩
    have hlength := congrArg List.length h
    have hw : w.length = 0 := by simp at hlength; omega
    exact List.eq_nil_of_length_eq_zero hw
  | cons l lists ih =>
    rw [padded, closed_cons] at h
    cases u with
    | nil =>
      obtain ⟨-, rfl⟩ := List.cons.inj h
      exact ⟨[], l :: lists, rfl, (closed_cons l lists).symm⟩
    | cons a u =>
      have h : l ++ sep :: closed sep lists = u ++ sep :: w := (List.cons.inj h).2
      have later : ∀ v, sep :: closed sep lists = v ++ sep :: w →
          ∃ before after, l :: lists = before ++ after ∧ w = closed sep after := by
        intro v hv
        obtain ⟨before, after, rfl, hw⟩ := ih (fun l' hl' => hsep l' (List.mem_cons_of_mem _ hl')) hv
        exact ⟨l :: before, after, rfl, hw⟩
      rcases List.append_eq_append_iff.1 h with ⟨v, rfl, hv⟩ | ⟨v, rfl, hv⟩
      · exact later v hv
      · cases v with
        | nil => exact later [] hv.symm
        | cons b v =>
          obtain ⟨rfl, -⟩ := List.cons.inj hv
          exact absurd (by simp) (hsep _ List.mem_cons_self)

theorem first_unique {x y v w : List α} (hx : sep ∉ x) (hy : sep ∉ y)
    (h : x ++ sep :: v = y ++ sep :: w) : x = y ∧ v = w := by
  rcases List.append_eq_append_iff.1 h with ⟨u, rfl, hu⟩ | ⟨u, rfl, hu⟩
  · cases u with
    | nil => exact ⟨by simp, by simpa using hu⟩
    | cons a u =>
      obtain ⟨rfl, -⟩ := List.cons.inj hu
      exact absurd (by simp) hy
  · cases u with
    | nil => exact ⟨by simp, by simpa using hu.symm⟩
    | cons a u =>
      obtain ⟨rfl, -⟩ := List.cons.inj hu
      exact absurd (by simp) hx

/-- What follows a whole number of lists leaves them as they are. -/
theorem prefix_of_closed {xs ys : List (List α)} (hx : ∀ l ∈ xs, sep ∉ l) (hy : ∀ l ∈ ys, sep ∉ l)
    {v : List α} (h : closed sep xs ++ v = closed sep ys) : xs <+: ys := by
  induction xs generalizing ys with
  | nil => exact List.nil_prefix
  | cons x xs ih =>
    cases ys with
    | nil => simp [closed] at h
    | cons y ys =>
      rw [closed_cons, closed_cons, List.append_assoc, List.cons_append] at h
      obtain ⟨rfl, hrest⟩ := first_unique (hx x List.mem_cons_self) (hy y List.mem_cons_self) h
      exact List.cons_prefix_cons.2 ⟨rfl, ih (fun l hl => hx l (List.mem_cons_of_mem _ hl))
        (fun l hl => hy l (List.mem_cons_of_mem _ hl)) hrest⟩

/-- Some lists stand among others where one writing stands within the other. -/
theorem padded_infix_padded {xs ys : List (List α)} (hx : ∀ l ∈ xs, sep ∉ l)
    (hy : ∀ l ∈ ys, sep ∉ l) : padded sep xs <:+: padded sep ys ↔ xs <:+: ys := by
  constructor
  · rintro ⟨u, v, h⟩
    have hsplit : padded sep ys = u ++ sep :: (closed sep xs ++ v) := by
      rw [← h]
      simp [padded]
    obtain ⟨before, after, rfl, hafter⟩ := padded_split hy hsplit
    have hpre : xs <+: after := prefix_of_closed hx
      (fun l hl => hy l (List.mem_append_right _ hl)) hafter
    exact hpre.isInfix.trans (List.suffix_append before after).isInfix
  · rintro ⟨before, after, rfl⟩
    obtain ⟨u, hu⟩ := @padded_ends _ sep before
    have hu : sep :: closed sep before = u ++ [sep] := hu
    refine ⟨u, closed sep after, ?_⟩
    rw [padded, padded, closed_append, closed_append, ← List.cons_append, ← List.cons_append, hu]
    simp

end SeparatedLists
