import Mathlib.Data.Nat.Digits.Lemmas
import Mathlib.Data.List.DropRight

/-! Numbers written in decimal digits: with a fixed number of them, or with as many as
there have to be. -/
namespace DecimalDigits

def digit (n : Nat) : Char := Char.ofNat (48 + n)

def digitValue (c : Char) : Nat := c.toNat - 48

def value (ds : List Char) : Nat := ds.foldl (fun n c => 10 * n + digitValue c) 0

/-- The last `k` digits. -/
def pad : Nat → Nat → List Char
  | 0, _ => []
  | k + 1, n => pad k (n / 10) ++ [digit (n % 10)]

def decimal (n : Nat) : List Char :=
  if n = 0 then ['0'] else (Nat.digits 10 n).reverse.map digit

/-- A number of exactly `k` digits, and what follows it. -/
def fixed (k : Nat) (text : List Char) : Option (Nat × List Char) :=
  if (text.take k).length = k ∧ (text.take k).all Char.isDigit then
    some (value (text.take k), text.drop k)
  else none

theorem digit_spec {n : Nat} (h : n < 10) : (digit n).isDigit = true ∧ digitValue (digit n) = n := by
  have hall : ∀ n ∈ List.range 10, (digit n).isDigit = true ∧ digitValue (digit n) = n := by decide
  exact hall n (List.mem_range.2 h)

theorem digit_ne_zero {n : Nat} (h : n < 10) (hn : n ≠ 0) : digit n ≠ '0' := by
  intro heq
  have hvalue := (digit_spec h).2
  rw [heq] at hvalue
  exact hn hvalue.symm

theorem value_concat (ds : List Char) (c : Char) : value (ds ++ [c]) = 10 * value ds + digitValue c := by
  rw [value, List.foldl_append]
  rfl

@[simp] theorem length_pad (k n : Nat) : (pad k n).length = k := by
  induction k generalizing n with
  | zero => rfl
  | succ k ih => simp [pad, ih]

theorem pad_isDigit {k n : Nat} : ∀ c ∈ pad k n, c.isDigit = true := by
  induction k generalizing n with
  | zero => simp [pad]
  | succ k ih =>
    intro c hc
    rcases List.mem_append.1 hc with hc | hc
    · exact ih c hc
    · rw [List.mem_singleton.1 hc]
      exact (digit_spec (Nat.mod_lt n (by decide))).1

theorem value_pad {k n : Nat} (h : n < 10 ^ k) : value (pad k n) = n := by
  induction k generalizing n with
  | zero =>
    have hn : n = 0 := by simpa using h
    rw [hn]
    rfl
  | succ k ih =>
    rw [pad, value_concat, (digit_spec (Nat.mod_lt n (by decide))).2,
      ih (by rw [Nat.pow_succ] at h; omega)]
    omega

theorem fixed_pad {k n : Nat} (h : n < 10 ^ k) (rest : List Char) :
    fixed k (pad k n ++ rest) = some (n, rest) := by
  have htake : (pad k n ++ rest).take k = pad k n := by
    rw [List.take_append_of_le_length (by simp), List.take_of_length_le (by simp)]
  have hdrop : (pad k n ++ rest).drop k = rest := by
    rw [List.drop_append_of_le_length (by simp), List.drop_of_length_le (by simp), List.nil_append]
  have hdigits : (pad k n).all Char.isDigit = true := List.all_eq_true.2 pad_isDigit
  rw [fixed, htake, hdrop, if_pos ⟨length_pad k n, hdigits⟩, value_pad h]

theorem value_reverse {ns : List Nat} (h : ∀ n ∈ ns, n < 10) :
    value (ns.reverse.map digit) = Nat.ofDigits 10 ns := by
  induction ns with
  | nil => rfl
  | cons n ns ih =>
    rw [List.reverse_cons, List.map_append, List.map_singleton, value_concat,
      ih fun m hm => h m (List.mem_cons_of_mem _ hm), (digit_spec (h n List.mem_cons_self)).2,
      Nat.ofDigits_cons]
    omega

theorem value_decimal (n : Nat) : value (decimal n) = n := by
  unfold decimal
  split
  · rename_i hzero
    rw [hzero]
    rfl
  · rw [value_reverse fun m hm => Nat.digits_lt_base (by decide) hm, Nat.ofDigits_digits]

theorem decimal_isDigit (n : Nat) : ∀ c ∈ decimal n, c.isDigit = true := by
  intro c hc
  unfold decimal at hc
  split at hc
  · rw [List.mem_singleton.1 hc]
    rfl
  · obtain ⟨m, hm, rfl⟩ := List.mem_map.1 hc
    exact (digit_spec (Nat.digits_lt_base (by decide) (List.mem_reverse.1 hm))).1

/-- No number but zero begins with a zero. -/
theorem decimal_spec {n : Nat} (h : n ≠ 0) :
    ∃ d ds, decimal n = d :: ds ∧ d ≠ '0' ∧ ∀ c ∈ d :: ds, c.isDigit = true := by
  have hne : Nat.digits 10 n ≠ [] := Nat.digits_ne_nil_iff_ne_zero.2 h
  have hlast := Nat.getLast_digit_ne_zero 10 h
  have hlt := Nat.digits_lt_base (show 1 < 10 by decide) (List.getLast_mem hne)
  have heq : decimal n = digit ((Nat.digits 10 n).getLast hne) ::
      ((Nat.digits 10 n).dropLast.reverse.map digit) := by
    rw [decimal, if_neg h]
    conv_lhs => rw [← List.dropLast_append_getLast hne]
    simp
  exact ⟨_, _, heq, digit_ne_zero hlt hlast, heq ▸ decimal_isDigit n⟩

section TrailingZeros

/-- Digits without the zeros at the end. -/
def trimmed (ds : List Char) : List Char := ds.rdropWhile (· = '0')

theorem value_zeros (ds : List Char) (k : Nat) :
    value (ds ++ List.replicate k '0') = value ds * 10 ^ k := by
  induction k with
  | zero => simp
  | succ k ih =>
    rw [List.replicate_succ', ← List.append_assoc, value_concat, ih, Nat.pow_succ]
    have hzero : digitValue '0' = 0 := rfl
    rw [hzero, Nat.add_zero, Nat.mul_comm, Nat.mul_assoc]

theorem value_trimmed (ds : List Char) :
    value (trimmed ds) * 10 ^ (ds.length - (trimmed ds).length) = value ds := by
  have happend : trimmed ds ++ ds.rtakeWhile (· = '0') = ds := List.rdropWhile_append_rtakeWhile
  have hzeros : ds.rtakeWhile (· = '0') =
      List.replicate (ds.rtakeWhile (· = '0')).length '0' :=
    List.eq_replicate_iff.2 ⟨rfl, fun c hc => by simpa using List.mem_rtakeWhile_imp hc⟩
  have hlength : ds.length - (trimmed ds).length = (ds.rtakeWhile (· = '0')).length := by
    have hsum := congrArg List.length happend
    rw [List.length_append] at hsum
    omega
  rw [hlength, ← value_zeros, ← hzeros, happend]

theorem trimmed_ne_nil {ds : List Char} (h : value ds ≠ 0) : trimmed ds ≠ [] := by
  intro hnil
  have hvalue := value_trimmed ds
  rw [hnil] at hvalue
  have hzero : value [] = 0 := rfl
  rw [hzero, Nat.zero_mul] at hvalue
  exact h hvalue.symm

theorem trimmed_begins (ds : List Char) : trimmed ds <+: ds := List.rdropWhile_prefix _ ds

end TrailingZeros

end DecimalDigits
