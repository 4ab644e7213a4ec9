import Mathlib.Data.List.Basic
import Mathlib.Data.List.Dedup
import Mathlib.Data.List.Perm.Subperm

/-! The entries of a list whose key occurs for the first time. -/
namespace DistinctKeys

variable {α κ : Type} [DecidableEq κ] (key : α → κ)

/-- The entries whose key is not among `seen` and has not occurred before in the list. -/
def unseen : List κ → List α → List α
  | _, [] => []
  | seen, a :: rest =>
    if key a ∈ seen then unseen seen rest else a :: unseen (key a :: seen) rest

variable {key}

theorem unseen_sublist (l : List α) : ∀ seen, (unseen key seen l).Sublist l := by
  induction l with
  | nil => exact fun _ => List.Sublist.slnil
  | cons a l ih =>
    intro seen
    rw [unseen]
    split
    · exact (ih seen).cons a
    · exact (ih _).cons_cons a

theorem unseen_congr (l : List α) : ∀ {s t : List κ}, (∀ k, k ∈ s ↔ k ∈ t) →
    unseen key s l = unseen key t l := by
  induction l with
  | nil => exact fun _ => rfl
  | cons a l ih =>
    intro s t h
    have hcons : ∀ k, k ∈ key a :: s ↔ k ∈ key a :: t := fun k => by simp [h k]
    rw [unseen, unseen, ih h, ih hcons]
    simp only [h (key a)]

theorem unseen_fresh (l : List α) : ∀ {seen : List κ}, ∀ a ∈ unseen key seen l, key a ∉ seen := by
  induction l with
  | nil => exact fun a ha => absurd ha List.not_mem_nil
  | cons b l ih =>
    intro seen a ha
    rw [unseen] at ha
    split at ha
    · exact ih a ha
    · next hb =>
      rcases List.mem_cons.1 ha with rfl | ha
      · exact hb
      · exact fun hmem => ih a ha (List.mem_cons_of_mem _ hmem)

theorem unseen_nodup (l : List α) : ∀ seen, ((unseen key seen l).map key).Nodup := by
  induction l with
  | nil => exact fun _ => List.nodup_nil
  | cons a l ih =>
    intro seen
    rw [unseen]
    split
    · exact ih seen
    · refine List.nodup_cons.2 ⟨?_, ih _⟩
      intro hmem
      obtain ⟨b, hb, heq⟩ := List.mem_map.1 hmem
      exact unseen_fresh l b hb (heq ▸ List.mem_cons_self)

/-- Every key is among those seen before or has its first entry in the list. -/
theorem unseen_covers (l : List α) : ∀ (seen : List κ) {a : α}, a ∈ l →
    key a ∈ seen ∨ key a ∈ (unseen key seen l).map key := by
  induction l with
  | nil => exact fun _ _ ha => absurd ha List.not_mem_nil
  | cons b l ih =>
    intro seen a ha
    rw [unseen]
    by_cases hb : key b ∈ seen
    · rw [if_pos hb]
      rcases List.mem_cons.1 ha with rfl | ha
      · exact .inl hb
      · exact ih seen ha
    · rw [if_neg hb, List.map_cons, List.mem_cons]
      rcases List.mem_cons.1 ha with rfl | ha
      · exact .inr (.inl rfl)
      · rcases ih (key b :: seen) ha with hseen | hlater
        · rcases List.mem_cons.1 hseen with heq | hseen
          · exact .inr (.inl heq)
          · exact .inl hseen
        · exact .inr (.inr hlater)

end DistinctKeys
