import Mathlib.Algebra.BigOperators.Group.List.Basic
import Mathlib.Data.List.Count
import Mathlib.Data.List.Range
import Mathlib.Tactic.Ring

/-! Counts of the rows that satisfy a condition, and how the counts add up where a condition
splits into others. -/
namespace CountedRows
variable {α : Type} {whole : α → Bool} {parts : List (α → Bool)}

/-- A row that satisfies the whole condition satisfies exactly one of the parts, and any
other row none. -/
def Splits (whole : α → Bool) (parts : List (α → Bool)) (row : α) : Prop :=
  parts.countP (fun part => part row) = (whole row).toNat

theorem sum_countP_cons (parts : List (α → Bool)) (row : α) (rows : List α) :
    (parts.map fun part => (row :: rows).countP part).sum =
      (parts.map fun part => rows.countP part).sum + parts.countP fun part => part row := by
  induction parts with
  | nil => rfl
  | cons part parts ih =>
    rw [List.map_cons, List.sum_cons, ih, List.countP_cons, List.map_cons, List.sum_cons,
      List.countP_cons]
    omega

theorem sum_countP {rows : List α} (h : ∀ row ∈ rows, Splits whole parts row) :
    (parts.map fun part => rows.countP part).sum = rows.countP whole := by
  induction rows with
  | nil => simp
  | cons row rows ih =>
    have hrow : parts.countP (fun part => part row) = (whole row).toNat := h row List.mem_cons_self
    have hrest := ih fun r hr => h r (List.mem_cons_of_mem _ hr)
    rw [sum_countP_cons, hrest, hrow, List.countP_cons]
    cases whole row <;> rfl

/-- Conditions that exclude each other have no more rows than one that both imply. -/
theorem countP_add_le {p q : α → Bool} {rows : List α}
    (h : ∀ row ∈ rows, (p row).toNat + (q row).toNat ≤ (whole row).toNat) :
    rows.countP p + rows.countP q ≤ rows.countP whole := by
  induction rows with
  | nil => simp
  | cons row rows ih =>
    have hrow := h row List.mem_cons_self
    have hrest := ih fun r hr => h r (List.mem_cons_of_mem _ hr)
    rw [List.countP_cons, List.countP_cons, List.countP_cons]
    cases hp : p row <;> cases hq : q row <;> cases hw : whole row <;> simp [hp, hq, hw] at hrow ⊢ <;>
      omega

/-- The rows of a condition whose time lies between two bounds. -/
def between (time : α → Int) (p : α → Bool) (start stop : Int) (row : α) : Bool :=
  start ≤ time row && time row < stop && p row

theorem between_append (time : α → Int) (p : α → Bool) {start middle stop : Int} (row : α)
    (hstart : start ≤ middle) (hstop : middle ≤ stop) :
    (between time p start middle row).toNat + (between time p middle stop row).toNat =
      (between time p start stop row).toNat := by
  unfold between
  cases p row with
  | false => simp
  | true =>
    by_cases hlow : start ≤ time row
    · by_cases hmiddle : time row < middle
      · have hnot : ¬middle ≤ time row := by omega
        have hlast : time row < stop := by omega
        simp [hlow, hmiddle, hnot, hlast]
      · have hat : middle ≤ time row := by omega
        simp [hlow, hmiddle, hat]
    · have hnot : ¬middle ≤ time row := by omega
      simp [hlow, hnot]

/-- Intervals that are laid end to end split the whole that they cover. -/
theorem splits_intervals (time : α → Int) (p : α → Bool) (start : Int) {length : Int}
    (hlength : 0 ≤ length) (n : Nat) (row : α) :
    Splits (between time p start (start + n * length))
      ((List.range n).map fun (i : Nat) =>
        between time p (start + i * length) (start + (i + 1) * length)) row := by
  unfold Splits
  induction n with
  | zero =>
    have hnone : between time p start (start + (0 : Nat) * length) row = false := by
      unfold between
      simp
    rw [hnone]
    rfl
  | succ n ih =>
    have hinside : 0 ≤ (n : Int) * length := Int.mul_nonneg (Int.natCast_nonneg n) hlength
    have hnext : ((n : Int) + 1) * length = n * length + length := by ring
    have hsplit := @between_append _ time p start (start + n * length)
      (start + (n + 1) * length) row (by omega) (by omega)
    rw [List.range_succ, List.map_append, List.countP_append, ih, Nat.cast_succ, ← hsplit]
    congr 1

end CountedRows
