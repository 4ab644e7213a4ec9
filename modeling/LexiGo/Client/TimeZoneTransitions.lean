import LexiGo.StepFunctions
import Mathlib.Data.List.Basic

/-! The search for the changes of a time zone's offset in a range of time: a scan in steps of a
week, and a bisection to the minute where the offsets at the ends of a step differ. Times are in
milliseconds, offsets in minutes; the offset at a time is a parameter. -/
namespace TimeZoneTransitions
open StepFunctions

structure TimeZoneTransition where
  instant : Int
  offsetFrom : Int
  offsetTo : Int

def transitionScanStepMs : Int := 604800000

/-- `Math.floor(t / 60_000) * 60_000` -/
def floorMinute (t : Int) : Int := t / 60000 * 60000

/-- `Math.ceil(t / 60_000) * 60_000` -/
def ceilMinute (t : Int) : Int := -(-t / 60000) * 60000

variable (timeZoneOffsetMinutes : Int → Int)

/-- The loop of the bisection, with the upper bound that it leaves. -/
def bisect (offsetFrom lower upper : Int) : Int :=
  if 60000 < upper - lower then
    let midpoint := (lower + upper) / 2 / 60000 * 60000
    if midpoint ≤ lower then upper
    else if timeZoneOffsetMinutes midpoint = offsetFrom then bisect offsetFrom midpoint upper
    else bisect offsetFrom lower midpoint
  else upper
termination_by (upper - lower).toNat
decreasing_by
  · omega
  · omega

def findTimeZoneTransition (lowerBound upperBound offsetFrom : Int) : TimeZoneTransition :=
  let upper := bisect timeZoneOffsetMinutes offsetFrom (floorMinute lowerBound) (ceilMinute upperBound)
  ⟨upper, offsetFrom, timeZoneOffsetMinutes upper⟩

theorem bisect_after (offsetFrom : Int) {lower upper : Int} (hlower : 60000 ∣ lower)
    (hupper : 60000 ∣ upper) (hlt : lower < upper) :
    60000 ∣ bisect timeZoneOffsetMinutes offsetFrom lower upper ∧
      lower < bisect timeZoneOffsetMinutes offsetFrom lower upper ∧
      bisect timeZoneOffsetMinutes offsetFrom lower upper ≤ upper := by
  fun_induction bisect timeZoneOffsetMinutes offsetFrom lower upper with
  | case1 lower upper hwide midpoint hback => exact ⟨hupper, hlt, Int.le_refl _⟩
  | case2 lower upper hwide midpoint hback hsame ih =>
    obtain ⟨hdvd, hafter, hle⟩ := ih ⟨(lower + upper) / 2 / 60000, by omega⟩ hupper (by omega)
    exact ⟨hdvd, by omega, hle⟩
  | case3 lower upper hwide midpoint hback hother ih =>
    obtain ⟨hdvd, hafter, hle⟩ := ih hlower ⟨(lower + upper) / 2 / 60000, by omega⟩ (by omega)
    exact ⟨hdvd, hafter, by omega⟩
  | case4 lower upper hnarrow => exact ⟨hupper, hlt, Int.le_refl _⟩

/-- A transition lies behind the lower bound of its search, whatever the offsets are. -/
theorem find_after {lowerBound upperBound : Int} (hlt : lowerBound < upperBound) (offsetFrom : Int) :
    lowerBound <
      (findTimeZoneTransition timeZoneOffsetMinutes lowerBound upperBound offsetFrom).instant := by
  have hlower : 60000 ∣ floorMinute lowerBound := ⟨_, Int.mul_comm _ _⟩
  have hupper : 60000 ∣ ceilMinute upperBound := ⟨_, Int.mul_comm _ _⟩
  have hbounds : floorMinute lowerBound < ceilMinute upperBound := by
    unfold floorMinute ceilMinute
    omega
  obtain ⟨⟨k, hk⟩, hafter, -⟩ := bisect_after timeZoneOffsetMinutes offsetFrom hlower hupper hbounds
  dsimp only [findTimeZoneTransition]
  unfold floorMinute at hk hafter ⊢
  omega

/-- The scan from a cursor at which the offset is known. -/
def scan (rangeEnd cursor currentOffset : Int) : List TimeZoneTransition :=
  if cursor < rangeEnd then
    let next := min rangeEnd (cursor + transitionScanStepMs)
    if timeZoneOffsetMinutes next ≠ currentOffset then
      let transition := findTimeZoneTransition timeZoneOffsetMinutes cursor next currentOffset
      transition :: scan rangeEnd transition.instant transition.offsetTo
    else scan rangeEnd next currentOffset
  else []
termination_by (rangeEnd - cursor).toNat
decreasing_by
  · have hnext : cursor < min rangeEnd (cursor + transitionScanStepMs) := by
      unfold transitionScanStepMs
      omega
    have hafter := find_after timeZoneOffsetMinutes hnext currentOffset
    omega
  · unfold transitionScanStepMs
    omega

def timeZoneTransitions (rangeStart rangeEnd : Int) : List TimeZoneTransition :=
  scan timeZoneOffsetMinutes rangeEnd rangeStart (timeZoneOffsetMinutes rangeStart)

section Exactness

variable {timeZoneOffsetMinutes}

theorem floorMinute_whole {t : Int} (h : 60000 ∣ t) : floorMinute t = t := by
  unfold floorMinute
  omega

theorem ceilMinute_whole {t : Int} (h : 60000 ∣ t) : ceilMinute t = t := by
  unfold ceilMinute
  omega

/-- The bisection ends at the point before which the offset is the known one, and from which on
it is another. -/
theorem bisect_exact {offsetFrom lower upper t : Int} (hlower : 60000 ∣ lower)
    (hupper : 60000 ∣ upper) (ht : 60000 ∣ t) (hafter : lower < t) (hle : t ≤ upper)
    (hbefore : ∀ x, lower ≤ x → x < t → timeZoneOffsetMinutes x = offsetFrom)
    (hfrom : ∀ x, t ≤ x → x ≤ upper → timeZoneOffsetMinutes x ≠ offsetFrom) :
    bisect timeZoneOffsetMinutes offsetFrom lower upper = t := by
  fun_induction bisect timeZoneOffsetMinutes offsetFrom lower upper with
  | case1 lower upper hwide midpoint hback => omega
  | case2 lower upper hwide midpoint hback hsame ih =>
    have hmid : midpoint < t := by
      by_contra hnot
      exact hfrom midpoint (by omega) (by omega) hsame
    refine ih ⟨(lower + upper) / 2 / 60000, by omega⟩ hupper hmid hle (fun x hx => ?_) hfrom
    exact hbefore x (by omega)
  | case3 lower upper hwide midpoint hback hother ih =>
    have hmid : t ≤ midpoint := by
      by_contra hnot
      exact hother (hbefore midpoint (by omega) (by omega))
    refine ih hlower ⟨(lower + upper) / 2 / 60000, by omega⟩ hafter hmid hbefore fun x hx hxm => ?_
    exact hfrom x hx (by omega)
  | case4 lower upper hnarrow => omega

/-- The transitions of a range: exactly its change points, in order, with the offsets just
before each and from it on. -/
structure Exact (offset : Int → Int) (a b : Int) (transitions : List TimeZoneTransition) : Prop where
  ordered : (transitions.map (·.instant)).Pairwise (· < ·)
  points : ∀ t, t ∈ transitions.map (·.instant) ↔ a < t ∧ t ≤ b ∧ ChangesAt offset t
  offsets : ∀ x ∈ transitions,
    x.offsetFrom = offset (x.instant - 1) ∧ x.offsetTo = offset x.instant

variable {offset : Int → Int} {a b : Int} {transitions : List TimeZoneTransition}

theorem exact_nil (h : b ≤ a) : Exact offset a b [] where
  ordered := List.Pairwise.nil
  points := fun t => iff_of_false List.not_mem_nil (by omega)
  offsets := nofun

/-- A stretch without a change may be put before a range. -/
theorem Exact.extend {c : Int} (h : Exact offset c b transitions) (hac : a ≤ c)
    (hnone : ∀ t, a < t → t ≤ c → ¬ ChangesAt offset t) : Exact offset a b transitions where
  ordered := h.ordered
  points := by
    intro t
    rw [h.points]
    constructor
    · exact fun ht => ⟨Int.lt_of_le_of_lt hac ht.1, ht.2⟩
    · intro ht
      by_cases hlater : c < t
      · exact ⟨hlater, ht.2⟩
      · exact absurd ht.2.2 (hnone t ht.1 (by omega))
  offsets := h.offsets

theorem Exact.cons {x : TimeZoneTransition} (h : Exact offset x.instant b transitions)
    (hafter : a < x.instant) (hle : x.instant ≤ b) (hchange : ChangesAt offset x.instant)
    (hnone : ∀ t, a < t → t < x.instant → ¬ ChangesAt offset t)
    (hoffsets : x.offsetFrom = offset (x.instant - 1) ∧ x.offsetTo = offset x.instant) :
    Exact offset a b (x :: transitions) where
  ordered := by
    rw [List.map_cons, List.pairwise_cons]
    exact ⟨fun t ht => ((h.points t).1 ht).1, h.ordered⟩
  points := by
    intro t
    rw [List.map_cons, List.mem_cons, h.points]
    constructor
    · rintro (rfl | ht)
      · exact ⟨hafter, hle, hchange⟩
      · exact ⟨by omega, ht.2⟩
    · intro ht
      by_cases hlater : x.instant < t
      · exact .inr ⟨hlater, ht.2⟩
      · by_cases hsame : t = x.instant
        · exact .inl hsame
        · exact absurd ht.2.2 (hnone t ht.1 (by omega))
  offsets := by
    intro y hy
    rcases List.mem_cons.1 hy with rfl | hy
    · exact hoffsets
    · exact h.offsets y hy

/-- What a search finds in a window with one change. -/
theorem find_exact {lower upper t : Int} (hlower : 60000 ∣ lower) (hupper : 60000 ∣ upper)
    (ht : 60000 ∣ t) (hin : lower < t ∧ t ≤ upper)
    (honly : ∀ s, lower < s → s ≤ upper → ChangesAt offset s → s = t)
    (hne : offset upper ≠ offset lower) :
    findTimeZoneTransition offset lower upper (offset lower) = ⟨t, offset lower, offset t⟩ := by
  have hbisect : bisect offset (offset lower) lower upper = t := by
    refine bisect_exact hlower hupper ht hin.1 hin.2 ?_ ?_
    · intro x hx hxt
      exact (value_of_only_change hin honly hx (by omega)).1 hxt
    · intro x htx hx
      rw [(value_of_only_change hin honly (by omega) hx).2 htx]
      exact hne
  unfold findTimeZoneTransition
  rw [floorMinute_whole hlower, ceilMinute_whole hupper, hbisect]

theorem next_whole {cursor rangeEnd : Int} (hcursor : 60000 ∣ cursor) (hend : 60000 ∣ rangeEnd) :
    60000 ∣ min rangeEnd (cursor + transitionScanStepMs) := by
  unfold transitionScanStepMs
  omega

theorem next_window {cursor rangeEnd : Int} (hlt : cursor < rangeEnd) :
    cursor < min rangeEnd (cursor + transitionScanStepMs) ∧
      min rangeEnd (cursor + transitionScanStepMs) ≤ rangeEnd ∧
      min rangeEnd (cursor + transitionScanStepMs) - cursor ≤ transitionScanStepMs := by
  unfold transitionScanStepMs
  omega

/-- The only change of a window separates the values of its ends. -/
theorem only_change {lower upper t : Int} (hin : lower < t ∧ t ≤ upper)
    (honly : ∀ s, lower < s → s ≤ upper → ChangesAt offset s → s = t) :
    offset (t - 1) = offset lower ∧ offset t = offset upper := by
  constructor
  · exact (value_of_only_change hin honly (by omega) (by omega)).1 (by omega)
  · exact (value_of_only_change hin honly (by omega) (by omega)).2 (by omega)

theorem scan_exact (hminutes : ∀ t, ChangesAt offset t → 60000 ∣ t)
    (hspread : Spread offset transitionScanStepMs) {rangeEnd cursor currentOffset : Int}
    (hcursor : 60000 ∣ cursor) (hend : 60000 ∣ rangeEnd) (hoffset : offset cursor = currentOffset) :
    Exact offset cursor rangeEnd (scan offset rangeEnd cursor currentOffset) := by
  fun_induction scan offset rangeEnd cursor currentOffset with
  | case1 cursor currentOffset hlt next hdiffers transition ih =>
    obtain ⟨hafter, hle, hwindow⟩ := next_window hlt
    subst hoffset
    -- one change lies in the step, and no more than one
    obtain ⟨t, hct, htn, hchange⟩ := exists_change (Int.le_of_lt hafter) hdiffers
    have honly : ∀ s, cursor < s → s ≤ next → ChangesAt offset s → s = t := fun s hs hsn hsc =>
      change_unique hspread hwindow ⟨hs, hsn⟩ ⟨hct, htn⟩ hsc hchange
    have hfound : transition = ⟨t, offset cursor, offset t⟩ :=
      find_exact hcursor (next_whole hcursor hend) (hminutes t hchange) ⟨hct, htn⟩ honly hdiffers
    rw [hfound] at ih ⊢
    refine (ih (hminutes t hchange) rfl).cons hct (Int.le_trans htn hle) hchange ?_ ⟨?_, rfl⟩
    · intro s hs hst hsc
      have hsame := honly s hs (Int.le_trans (Int.le_of_lt hst) htn) hsc
      exact Int.ne_of_lt hst hsame
    · exact (only_change ⟨hct, htn⟩ honly).1.symm
  | case2 cursor currentOffset hlt next hsame ih =>
    obtain ⟨hafter, hle, hwindow⟩ := next_window hlt
    rw [not_not] at hsame
    refine (ih (next_whole hcursor hend) hsame).extend (Int.le_of_lt hafter) ?_
    -- a change would be the only one in the step, and so show at its end
    intro t hct htn hchange
    have honly : ∀ s, cursor < s → s ≤ next → ChangesAt offset s → s = t := fun s hs hsn hsc =>
      change_unique hspread hwindow ⟨hs, hsn⟩ ⟨hct, htn⟩ hsc hchange
    obtain ⟨hbefore, hfrom⟩ := only_change ⟨hct, htn⟩ honly
    exact hchange (by rw [hbefore, hfrom, hoffset, hsame])
  | case3 cursor currentOffset hdone => exact exact_nil (by omega)

/-- The transitions of a range whose ends are whole minutes, for offsets that change at whole
minutes only and never twice within a step of the scan. -/
theorem timeZoneTransitions_exact (offset : Int → Int)
    (hminutes : ∀ t, ChangesAt offset t → 60000 ∣ t) (hspread : Spread offset transitionScanStepMs)
    {rangeStart rangeEnd : Int} (hstart : 60000 ∣ rangeStart) (hend : 60000 ∣ rangeEnd) :
    Exact offset rangeStart rangeEnd (timeZoneTransitions offset rangeStart rangeEnd) :=
  scan_exact hminutes hspread hstart hend rfl

/-- Summer time from one hour on, in the first month of the era. -/
def summerOffset (t : Int) : Int := if 3600000 ≤ t then 120 else 60

theorem summerOffset_changes {t : Int} (h : ChangesAt summerOffset t) : t = 3600000 := by
  unfold ChangesAt summerOffset at h
  split at h
  · split at h
    · exact absurd rfl h
    · omega
  · split at h
    · omega
    · exact absurd rfl h

theorem summerOffset_exact :
    (∀ t, ChangesAt summerOffset t → 60000 ∣ t) ∧ Spread summerOffset transitionScanStepMs ∧
      (60000 : Int) ∣ 0 ∧ (60000 : Int) ∣ 2592000000 ∧
      Exact summerOffset 0 2592000000 (timeZoneTransitions summerOffset 0 2592000000) := by
  have hminutes : ∀ t, ChangesAt summerOffset t → 60000 ∣ t := by
    intro t ht
    rw [summerOffset_changes ht]
    decide
  have hspread : Spread summerOffset transitionScanStepMs := by
    intro s t hs ht hlt
    rw [summerOffset_changes hs, summerOffset_changes ht] at hlt
    omega
  exact ⟨hminutes, hspread, by decide, by decide,
    timeZoneTransitions_exact summerOffset hminutes hspread (by decide) (by decide)⟩

end Exactness

end TimeZoneTransitions
