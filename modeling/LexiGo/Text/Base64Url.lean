import Mathlib.Data.List.Basic

/-! Bytes written with the letters of a URL, three bytes in four letters and no padding,
and read back. -/
namespace Base64Url

def alphabet : List Char :=
  "ABCDEFGHIJKLMNOPQRSTUVWXYZabcdefghijklmnopqrstuvwxyz0123456789-_".toList

def letter (n : Nat) : Char := alphabet.getD n 'A'

def index (c : Char) : Option Nat := alphabet.idxOf? c

def encode : List Nat → List Char
  | a :: b :: c :: rest =>
    letter (a / 4) :: letter (a % 4 * 16 + b / 16) :: letter (b % 16 * 4 + c / 64) ::
      letter (c % 64) :: encode rest
  | [a, b] => [letter (a / 4), letter (a % 4 * 16 + b / 16), letter (b % 16 * 4)]
  | [a] => [letter (a / 4), letter (a % 4 * 16)]
  | [] => []

/-- Four indices at a time; a single one left over stands for no byte. -/
def join : List Nat → Option (List Nat)
  | p :: q :: r :: s :: rest =>
    (join rest).map fun bytes =>
      (p * 4 + q / 16) :: (q % 16 * 16 + r / 4) :: (r % 4 * 64 + s) :: bytes
  | [p, q, r] => some [p * 4 + q / 16, q % 16 * 16 + r / 4]
  | [p, q] => some [p * 4 + q / 16]
  | [_] => none
  | [] => some []

/-- Line breaks are passed over. -/
def decode (text : List Char) : Option (List Nat) :=
  ((text.filter fun c => c ≠ '\n' ∧ c ≠ '\r').mapM index).bind join

theorem index_letter {n : Nat} (h : n < 64) : index (letter n) = some n := by
  have hall : ∀ n ∈ List.range 64, index (letter n) = some n := by decide
  exact hall n (List.mem_range.2 h)

theorem letter_kept {n : Nat} (h : n < 64) :
    letter n ≠ '\n' ∧ letter n ≠ '\r' := by
  have hall : ∀ n ∈ List.range 64, letter n ≠ '\n' ∧ letter n ≠ '\r' := by decide
  exact hall n (List.mem_range.2 h)

/-- The indices that the letters stand for. -/
def indices : List Nat → List Nat
  | a :: b :: c :: rest =>
    (a / 4) :: (a % 4 * 16 + b / 16) :: (b % 16 * 4 + c / 64) :: (c % 64) :: indices rest
  | [a, b] => [a / 4, a % 4 * 16 + b / 16, b % 16 * 4]
  | [a] => [a / 4, a % 4 * 16]
  | [] => []

theorem encode_eq (bytes : List Nat) : encode bytes = (indices bytes).map letter := by
  induction bytes using encode.induct with
  | case1 a b c rest ih => simp [encode, indices, ih]
  | case2 a b => rfl
  | case3 a => rfl
  | case4 => rfl

theorem indices_lt {bytes : List Nat} (h : ∀ b ∈ bytes, b < 256) : ∀ n ∈ indices bytes, n < 64 := by
  induction bytes using encode.induct with
  | case1 a b c rest ih =>
    have ha := h a (by simp)
    have hb := h b (by simp)
    have hc := h c (by simp)
    have hrest := ih fun x hx => h x (by simp [hx])
    intro n hn
    simp only [indices, List.mem_cons] at hn
    rcases hn with rfl | rfl | rfl | rfl | hn
    · omega
    · omega
    · omega
    · omega
    · exact hrest n hn
  | case2 a b =>
    have ha := h a (by simp)
    have hb := h b (by simp)
    intro n hn
    simp only [indices, List.mem_cons, List.not_mem_nil, or_false] at hn
    omega
  | case3 a =>
    have ha := h a (by simp)
    intro n hn
    simp only [indices, List.mem_cons, List.not_mem_nil, or_false] at hn
    omega
  | case4 => simp [indices]

theorem join_indices {bytes : List Nat} (h : ∀ b ∈ bytes, b < 256) :
    join (indices bytes) = some bytes := by
  induction bytes using encode.induct with
  | case1 a b c rest ih =>
    have ha := h a (by simp)
    have hb := h b (by simp)
    have hc := h c (by simp)
    have hrest := ih fun x hx => h x (by simp [hx])
    have h₁ : a / 4 * 4 + (a % 4 * 16 + b / 16) / 16 = a := by omega
    have h₂ : (a % 4 * 16 + b / 16) % 16 * 16 + (b % 16 * 4 + c / 64) / 4 = b := by omega
    have h₃ : (b % 16 * 4 + c / 64) % 4 * 64 + c % 64 = c := by omega
    simp only [indices, join, hrest, Option.map_some, h₁, h₂, h₃]
  | case2 a b =>
    have ha := h a (by simp)
    have hb := h b (by simp)
    have h₁ : a / 4 * 4 + (a % 4 * 16 + b / 16) / 16 = a := by omega
    have h₂ : (a % 4 * 16 + b / 16) % 16 * 16 + b % 16 * 4 / 4 = b := by omega
    simp only [indices, join, h₁, h₂]
  | case3 a =>
    have ha := h a (by simp)
    have h₁ : a / 4 * 4 + a % 4 * 16 / 16 = a := by omega
    simp only [indices, join, h₁]
  | case4 => rfl

theorem mapM_index {ns : List Nat} (h : ∀ n ∈ ns, n < 64) : (ns.map letter).mapM index = some ns := by
  induction ns with
  | nil => rfl
  | cons n ns ih =>
    rw [List.map_cons, List.mapM_cons, index_letter (h n List.mem_cons_self),
      ih fun m hm => h m (List.mem_cons_of_mem _ hm)]
    rfl

/-- What is written is read back. -/
theorem decode_encode {bytes : List Nat} (h : ∀ b ∈ bytes, b < 256) :
    decode (encode bytes) = some bytes := by
  have hkept : (encode bytes).filter (fun c => c ≠ '\n' ∧ c ≠ '\r') = encode bytes := by
    refine List.filter_eq_self.2 fun c hc => ?_
    rw [encode_eq] at hc
    obtain ⟨n, hn, rfl⟩ := List.mem_map.1 hc
    exact decide_eq_true (letter_kept (indices_lt h n hn))
  rw [decode, hkept, encode_eq, mapM_index (indices_lt h)]
  exact join_indices h

end Base64Url
