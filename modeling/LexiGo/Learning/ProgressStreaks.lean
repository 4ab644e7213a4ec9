import LexiGo.Learning.Scheduler
import Mathlib.Order.Bounds.Basic

/-! Streaks of days with reviews: the two loops over the days, newest first, find the
longest run of consecutive days and the run that lasts until today or yesterday. -/
namespace ProgressStreaks
open Scheduler

/-- `24 * time.Hour` -/
def dayLength : Int := 86400000000000

/-- `Time.Sub`: a duration has 64 bits, and a longer one is cut off. -/
def sub (t u : Int) : Int := max (-9223372036854775808) (min 9223372036854775807 (t - u))

/-- `AddDate(0, 0, n)` for a time in UTC. -/
def addDays (t : Instant) (n : Int) : Instant := t + n * dayLength

/-- The loop over neighbours, from the first of `days` on. -/
def longestStreak : List Instant → Nat → Nat → Nat
  | before :: day :: rest, run, longest =>
    if sub before day = dayLength then
      longestStreak (day :: rest) (run + 1) (if run + 1 > longest then run + 1 else longest)
    else
      longestStreak (day :: rest) 1 longest
  | _, _, longest => longest

/-- The loop over the days that are expected from `start` on. -/
def currentStreak (start : Instant) : Nat → List Instant → Nat → Nat
  | _, [], current => current
  | index, day :: rest, current =>
    if day ≠ addDays start (-index) then current
    else currentStreak start (index + 1) rest (current + 1)

def calculateStreaks (days : List Instant) (today : Instant) : Nat × Nat :=
  match days with
  | [] => (0, 0)
  | first :: _ =>
    let longest := longestStreak days 1 1
    if first = addDays today (-1) then (currentStreak (addDays today (-1)) 0 days 0, longest)
    else if first ≠ today then (0, longest)
    else (currentStreak today 0 days 0, longest)

/-- The time at which a calendar day begins. -/
def midnight (d : Int) : Instant := d * dayLength

/-- The last of `n` consecutive days, each of which satisfies `P`. -/
def EndsRun (P : Int → Prop) (last : Int) (n : Nat) : Prop := ∀ k < n, P (last - (k : Int))

theorem sub_midnight {d e : Int} : sub (midnight d) (midnight e) = dayLength ↔ d = e + 1 := by
  have hd : midnight d = 86400000000000 * d := Int.mul_comm _ _
  have he : midnight e = 86400000000000 * e := Int.mul_comm _ _
  rw [hd, he]
  unfold sub dayLength
  constructor
  · intro h
    omega
  · rintro rfl
    omega

theorem addDays_midnight (d n : Int) : addDays (midnight d) n = midnight (d + n) := by
  unfold addDays midnight
  rw [Int.add_mul]

theorem midnight_inj {d e : Int} : midnight d = midnight e ↔ d = e := by
  constructor
  · intro h
    have hnanos : d * 86400000000000 = e * 86400000000000 := h
    omega
  · exact congrArg midnight

/-- Within `run` days there are no more consecutive ones than `run`. -/
theorem endsRun_interval {d last : Int} {run n : Nat}
    (h : EndsRun (fun x => d ≤ x ∧ x < d + run) last n) : n ≤ run := by
  rcases Nat.eq_zero_or_pos n with rfl | hn
  · exact Nat.zero_le _
  · have hfirst := h 0 hn
    have hlast := h (n - 1) (by omega)
    omega

/-- Consecutive days do not go past a day that is missing. -/
theorem endsRun_gap {P Q : Int → Prop} {d last : Int} {n : Nat} (hP : ∀ x, P x → x + 1 < d)
    (hQ : ∀ x, Q x → d ≤ x) (h : EndsRun (fun x => P x ∨ Q x) last n) :
    EndsRun P last n ∨ EndsRun Q last n := by
  by_cases hlast : d ≤ last
  · right
    intro k hk
    have hstays : d ≤ last - (k : Int) := by
      induction k with
      | zero => simpa using hlast
      | succ k ih =>
        have hbefore := ih (by omega)
        rcases h (k + 1) hk with hp | hq
        · have hlow := hP _ hp
          push_cast at hlow
          omega
        · exact hQ _ hq
    rcases h k hk with hp | hq
    · have hlow := hP _ hp
      omega
    · exact hq
  · left
    intro k hk
    rcases h k hk with hp | hq
    · exact hp
    · have hhigh := hQ _ hq
      omega

theorem EndsRun.mono {P Q : Int → Prop} {last : Int} {n : Nat} (hPQ : ∀ x, P x → Q x)
    (h : EndsRun P last n) : EndsRun Q last n := fun k hk => hPQ _ (h k hk)

/-- What the loop has found already, and the runs among the days to come, of which the
first joins the `run` days from it upwards. -/
def Lengths (d : Int) (rest : List Int) (run longest : Nat) : Set Nat :=
  {n | n ≤ longest ∨ ∃ last, EndsRun (fun x => x ∈ rest ∨ (d ≤ x ∧ x < d + run)) last n}

theorem lengths_next {e : Int} {rest : List Int} {run longest : Nat} :
    Lengths (e + 1) (e :: rest) run longest =
      Lengths e rest (run + 1) (if run + 1 > longest then run + 1 else longest) := by
  have same : ∀ x, (x ∈ e :: rest ∨ (e + 1 ≤ x ∧ x < e + 1 + (run : Int))) ↔
      (x ∈ rest ∨ (e ≤ x ∧ x < e + ((run + 1 : Nat) : Int))) := by
    intro x
    rw [List.mem_cons]
    push_cast
    by_cases hx : x ∈ rest
    · simp [hx]
    · simp only [hx, or_false, false_or]
      omega
  ext n
  constructor
  · rintro (hn | ⟨last, hlast⟩)
    · left
      split <;> omega
    · exact .inr ⟨last, hlast.mono fun x => (same x).1⟩
  · rintro (hn | ⟨last, hlast⟩)
    · by_cases hmore : run + 1 > longest
      · rw [if_pos hmore] at hn
        refine .inr ⟨e + run, fun k hk => (same _).2 (.inr ?_)⟩
        push_cast
        omega
      · rw [if_neg hmore] at hn
        exact .inl hn
    · exact .inr ⟨last, hlast.mono fun x => (same x).2⟩

theorem lengths_gap {d e : Int} {rest : List Int} {run longest : Nat} (hrun : run ≤ longest)
    (hde : e + 1 < d) (hrest : ∀ x ∈ rest, x < e) :
    Lengths d (e :: rest) run longest = Lengths e rest 1 longest := by
  have same : ∀ x, x ∈ e :: rest ↔ (x ∈ rest ∨ (e ≤ x ∧ x < e + ((1 : Nat) : Int))) := by
    intro x
    rw [List.mem_cons]
    push_cast
    constructor
    · rintro (rfl | hx)
      · exact .inr ⟨Int.le_refl _, Int.lt_succ _⟩
      · exact .inl hx
    · rintro (hx | hx)
      · exact .inr hx
      · exact .inl (by omega)
  have low : ∀ x, x ∈ e :: rest → x + 1 < d := by
    intro x hx
    rcases List.mem_cons.1 hx with rfl | hx
    · exact hde
    · have hlow := hrest x hx
      omega
  ext n
  constructor
  · rintro (hn | ⟨last, hlast⟩)
    · exact .inl hn
    · rcases endsRun_gap low (fun x hx => hx.1) hlast with hlow | hhigh
      · exact .inr ⟨last, hlow.mono fun x => (same x).1⟩
      · exact .inl ((endsRun_interval hhigh).trans hrun)
  · rintro (hn | ⟨last, hlast⟩)
    · exact .inl hn
    · exact .inr ⟨last, hlast.mono fun x hx => .inl ((same x).2 hx)⟩

theorem longestStreak_greatest (rest : List Int) : ∀ (d : Int) (run longest : Nat),
    1 ≤ run → run ≤ longest → (d :: rest).Pairwise (· > ·) →
    IsGreatest (Lengths d rest run longest)
      (longestStreak ((d :: rest).map midnight) run longest) := by
  induction rest with
  | nil =>
    intro d run longest _ hrun _
    refine ⟨.inl (Nat.le_refl _), ?_⟩
    rintro n (hn | ⟨last, hlast⟩)
    · exact hn
    · have hinterval : EndsRun (fun x => d ≤ x ∧ x < d + run) last n :=
        hlast.mono fun x hx => hx.resolve_left List.not_mem_nil
      exact (endsRun_interval hinterval).trans hrun
  | cons e rest ih =>
    intro d run longest hone hrun hsorted
    obtain ⟨hd, htail⟩ := List.pairwise_cons.1 hsorted
    obtain ⟨he, -⟩ := List.pairwise_cons.1 htail
    have hde : e < d := hd e List.mem_cons_self
    rw [List.map_cons, List.map_cons, longestStreak]
    by_cases hnext : d = e + 1
    · subst hnext
      rw [if_pos (sub_midnight.2 rfl), lengths_next]
      refine ih e (run + 1) _ (by omega) ?_ htail
      split <;> omega
    · rw [if_neg (mt sub_midnight.1 hnext), lengths_gap hrun (by omega) he]
      exact ih e 1 longest (Nat.le_refl _) (by omega) htail

/-- A day that is not there ends no run. -/
theorem endsRun_absent {P : Int → Prop} {last : Int} (h : ¬P last) :
    IsGreatest {n | EndsRun P last n} 0 := by
  refine ⟨fun k hk => absurd hk (Nat.not_lt_zero k), ?_⟩
  intro n hn
  by_contra hpos
  have hlast := hn 0 (by omega)
  rw [Int.natCast_zero, Int.sub_zero] at hlast
  exact h hlast

/-- The days expected are counted as long as they are there. -/
theorem currentStreak_greatest (start : Int) (ds : List Int) : ∀ (index current : Nat),
    ds.Pairwise (· > ·) → (∀ d ∈ ds, d ≤ start - index) →
    ∃ m, currentStreak (midnight start) index (ds.map midnight) current = current + m ∧
      IsGreatest {n | EndsRun (· ∈ ds) (start - index) n} m := by
  induction ds with
  | nil =>
    intro index current _ _
    exact ⟨0, rfl, endsRun_absent List.not_mem_nil⟩
  | cons d ds ih =>
    intro index current hsorted hbelow
    obtain ⟨hd, htail⟩ := List.pairwise_cons.1 hsorted
    rw [List.map_cons, currentStreak, addDays_midnight]
    by_cases hday : d = start + -(index : Int)
    · rw [if_neg (not_not.2 (congrArg midnight hday))]
      have hrest : ∀ x ∈ ds, x ≤ start - ((index + 1 : Nat) : Int) := by
        intro x hx
        have hless := hd x hx
        push_cast
        omega
      obtain ⟨m, hm, hgreatest⟩ := ih (index + 1) (current + 1) htail hrest
      refine ⟨m + 1, by omega, ?_, ?_⟩
      · intro k hk
        cases k with
        | zero => exact List.mem_cons.2 (.inl (by push_cast; omega))
        | succ k =>
          have hmem := hgreatest.1 k (by omega)
          refine List.mem_cons.2 (.inr ?_)
          have heq : start - (index : Int) - ((k + 1 : Nat) : Int) =
              start - ((index + 1 : Nat) : Int) - (k : Int) := by push_cast; omega
          rw [heq]
          exact hmem
      · intro n hn
        cases n with
        | zero => exact Nat.zero_le _
        | succ n =>
          refine Nat.succ_le_succ (hgreatest.2 fun k hk => ?_)
          have hmem := hn (k + 1) (by omega)
          have heq : start - (index : Int) - ((k + 1 : Nat) : Int) =
              start - ((index + 1 : Nat) : Int) - (k : Int) := by push_cast; omega
          rw [heq] at hmem
          rcases List.mem_cons.1 hmem with hfirst | hmem
          · push_cast at hfirst
            omega
          · exact hmem
    · rw [if_pos (mt midnight_inj.1 hday)]
      refine ⟨0, rfl, endsRun_absent fun hmem => ?_⟩
      have htop := hbelow d List.mem_cons_self
      rcases List.mem_cons.1 hmem with hfirst | hmem
      · omega
      · have hless := hd _ hmem
        omega

theorem lengths_one (d : Int) (rest : List Int) :
    Lengths d rest 1 1 = {n | ∃ last, EndsRun (· ∈ d :: rest) last n} := by
  have same : ∀ x, x ∈ d :: rest ↔ (x ∈ rest ∨ (d ≤ x ∧ x < d + ((1 : Nat) : Int))) := by
    intro x
    rw [List.mem_cons, or_comm]
    push_cast
    refine or_congr Iff.rfl ?_
    omega
  ext n
  constructor
  · rintro (hn | ⟨last, hlast⟩)
    · refine ⟨d, fun k hk => List.mem_cons.2 (.inl ?_)⟩
      omega
    · exact ⟨last, hlast.mono fun x => (same x).2⟩
  · rintro ⟨last, hlast⟩
    exact .inr ⟨last, hlast.mono fun x => (same x).1⟩

/-- The day a current streak lasts until: today once it has a review, else yesterday. -/
def streakEnd (ds : List Int) (today : Int) : Int := if today ∈ ds then today else today - 1

theorem current_greatest {first : Int} {rest : List Int} {today : Int}
    (hsorted : (first :: rest).Pairwise (· > ·)) (htoday : ∀ d ∈ first :: rest, d ≤ today) :
    IsGreatest {n | EndsRun (· ∈ first :: rest) (streakEnd (first :: rest) today) n}
      (calculateStreaks ((first :: rest).map midnight) (midnight today)).1 := by
  have hbelow : ∀ d ∈ first :: rest, d ≤ first := by
    intro d hd
    rcases List.mem_cons.1 hd with rfl | hd
    · exact Int.le_refl _
    · exact Int.le_of_lt ((List.pairwise_cons.1 hsorted).1 d hd)
  have counts : ∀ start : Int, start = first →
      IsGreatest {n | EndsRun (· ∈ first :: rest) start n}
        (currentStreak (midnight start) 0 ((first :: rest).map midnight) 0) := by
    rintro start rfl
    obtain ⟨m, hm, hgreatest⟩ := currentStreak_greatest start (start :: rest) 0 0 hsorted
      (by simpa using hbelow)
    rw [hm, Nat.zero_add]
    simpa using hgreatest
  have hfirst := htoday first List.mem_cons_self
  rw [List.map_cons, calculateStreaks, addDays_midnight]
  by_cases hyesterday : first = today + -1
  · have hnot : today ∉ first :: rest := by
      intro hmem
      have := hbelow today hmem
      omega
    rw [if_pos (congrArg midnight hyesterday), streakEnd, if_neg hnot]
    exact counts (today - 1) (by omega)
  · rw [if_neg (mt midnight_inj.1 hyesterday)]
    by_cases hday : first = today
    · rw [if_neg (not_not.2 (congrArg midnight hday)), streakEnd,
        if_pos (hday ▸ List.mem_cons_self)]
      exact counts today hday.symm
    · rw [if_pos (mt midnight_inj.1 hday)]
      refine endsRun_absent fun hmem => ?_
      have htop := hbelow _ hmem
      unfold streakEnd at htop
      split at htop <;> omega

theorem longest_greatest {first : Int} {rest : List Int} {today : Instant}
    (hsorted : (first :: rest).Pairwise (· > ·)) :
    IsGreatest {n | ∃ last, EndsRun (· ∈ first :: rest) last n}
      (calculateStreaks ((first :: rest).map midnight) today).2 := by
  have hsnd : (calculateStreaks ((first :: rest).map midnight) today).2 =
      longestStreak ((first :: rest).map midnight) 1 1 := by
    rw [List.map_cons, calculateStreaks]
    split
    · rfl
    · split <;> rfl
  rw [hsnd, ← lengths_one]
  exact longestStreak_greatest rest first 1 1 (Nat.le_refl _) (Nat.le_refl _) hsorted

/-- The streaks are what their names say: of all the runs of consecutive days the longest
one, and the longest of those that last until today or, with no review today, yesterday. -/
theorem calculateStreaks_greatest (ds : List Int) (today : Int) (hsorted : ds.Pairwise (· > ·))
    (htoday : ∀ d ∈ ds, d ≤ today) :
    IsGreatest {n | ∃ last, EndsRun (· ∈ ds) last n}
      (calculateStreaks (ds.map midnight) (midnight today)).2 ∧
    IsGreatest {n | EndsRun (· ∈ ds) (streakEnd ds today) n}
      (calculateStreaks (ds.map midnight) (midnight today)).1 ∧
    (calculateStreaks (ds.map midnight) (midnight today)).1 ≤
      (calculateStreaks (ds.map midnight) (midnight today)).2 := by
  cases ds with
  | nil =>
    have hnone : IsGreatest {n | EndsRun (· ∈ ([] : List Int)) (streakEnd [] today) n} 0 :=
      endsRun_absent List.not_mem_nil
    refine ⟨⟨⟨0, fun k hk => absurd hk (Nat.not_lt_zero k)⟩, ?_⟩, hnone, Nat.le_refl _⟩
    rintro n ⟨last, hlast⟩
    exact (endsRun_absent List.not_mem_nil).2 hlast
  | cons first rest =>
    have hcurrent := current_greatest hsorted htoday
    refine ⟨longest_greatest hsorted, hcurrent, ?_⟩
    exact (longest_greatest hsorted).2 ⟨_, hcurrent.1⟩

theorem streak_until_yesterday :
    calculateStreaks ([19, 18, 15].map midnight) (midnight 20) = (2, 2) ∧
    IsGreatest {n | ∃ last, EndsRun (· ∈ ([19, 18, 15] : List Int)) last n}
      (calculateStreaks ([19, 18, 15].map midnight) (midnight 20)).2 :=
  ⟨by decide, (calculateStreaks_greatest [19, 18, 15] 20 (by decide) (by decide)).1⟩

end ProgressStreaks
