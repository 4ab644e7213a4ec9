import Mathlib.Order.Interval.Set.Basic
import Mathlib.Tactic.Ring

/-! Functions of the whole numbers that are constant between the points where they change. -/
namespace StepFunctions

variable {α : Type} {f : Int → α}

def ChangesAt (f : Int → α) (t : Int) : Prop := f (t - 1) ≠ f t

/-- Any two changes are further apart than a gap. -/
def Spread (f : Int → α) (gap : Int) : Prop :=
  ∀ s t, ChangesAt f s → ChangesAt f t → s < t → gap < t - s

theorem eq_of_no_change {a b : Int} (hab : a ≤ b)
    (h : ∀ t, a < t → t ≤ b → ¬ ChangesAt f t) : f b = f a := by
  obtain ⟨n, hn⟩ := Int.eq_ofNat_of_zero_le (by omega : 0 ≤ b - a)
  induction n generalizing b with
  | zero =>
    have hsame : b = a := by omega
    rw [hsame]
  | succ n ih =>
    have hlast : f (b - 1) = f b := by
      by_contra hne
      exact h b (by omega) (by omega) hne
    rw [← hlast]
    refine ih (by omega) (fun t hat htb => h t hat (by omega)) (by omega)

/-- In a window no longer than the gap there is at most one change. -/
theorem change_unique {gap a b s t : Int} (hspread : Spread f gap) (hwindow : b - a ≤ gap)
    (hs : a < s ∧ s ≤ b) (ht : a < t ∧ t ≤ b) (hsc : ChangesAt f s) (htc : ChangesAt f t) : s = t := by
  by_contra hne
  by_cases hlt : s < t
  · have hfar := hspread s t hsc htc hlt
    omega
  · have hfar := hspread t s htc hsc (by omega)
    omega

/-- A window whose ends have different values holds a change. -/
theorem exists_change {a b : Int} (hab : a ≤ b) (hne : f b ≠ f a) :
    ∃ t, a < t ∧ t ≤ b ∧ ChangesAt f t := by
  by_contra hnone
  exact hne (eq_of_no_change hab fun t hat htb hchange => hnone ⟨t, hat, htb, hchange⟩)

/-- Around the only change of a window: the value of the left end before it, that of the right
end from it on. -/
theorem value_of_only_change {a b t : Int} (ht : a < t ∧ t ≤ b)
    (honly : ∀ s, a < s → s ≤ b → ChangesAt f s → s = t) {x : Int} (hax : a ≤ x) (hxb : x ≤ b) :
    (x < t → f x = f a) ∧ (t ≤ x → f x = f b) := by
  constructor
  · intro hxt
    refine eq_of_no_change hax fun s has hsx hchange => ?_
    have hsame := honly s has (by omega) hchange
    omega
  · intro htx
    refine (eq_of_no_change hxb fun s hxs hsb hchange => ?_).symm
    have hsame := honly s (by omega) hsb hchange
    omega

end StepFunctions
