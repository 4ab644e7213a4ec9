import Mathlib.Data.List.Perm.Basic
import Mathlib.Data.List.TakeWhile

/-! Lists that are rearranged within their blocks: a block is a stretch of elements
with one key. A rearrangement keeps the keys place by place, and what stands up to
each place where the key changes. -/
namespace BlockOrder
open scoped List

variable {α κ : Type} (key : α → κ)

/-- The key changes between the first `k` elements and the rest, or one of them is empty. -/
def Boundary (l : List α) (k : Nat) : Prop :=
  ∀ i a b, k = i + 1 → l[i]? = some a → l[k]? = some b → key a ≠ key b

structure Regrouped (l l' : List α) : Prop where
  keys : l'.map key = l.map key
  upTo : ∀ k, Boundary key l k → l'.take k ~ l.take k

variable {key} {l l' l'' : List α}

theorem Regrouped.length_eq (h : Regrouped key l l') : l'.length = l.length := by
  simpa using congrArg List.length h.keys

theorem boundary_length (l : List α) : Boundary key l l.length := by
  intro i a b _ _ hb
  simp at hb

theorem Regrouped.perm (h : Regrouped key l l') : l' ~ l := by
  have hall := h.upTo l.length (boundary_length l)
  have hlength := h.length_eq
  rwa [List.take_length, List.take_of_length_le hlength.le] at hall

theorem Regrouped.refl (l : List α) : Regrouped key l l := ⟨rfl, fun _ _ => List.Perm.refl _⟩

/-- Boundaries are a matter of the keys alone. -/
theorem boundary_congr (h : l'.map key = l.map key) {k : Nat} (hb : Boundary key l k) :
    Boundary key l' k := by
  have hkey : ∀ (i : Nat) (x : α), l'[i]? = some x → ∃ y, l[i]? = some y ∧ key y = key x := by
    intro i x hx
    have := congrArg (fun keys => keys[i]?) h
    rw [List.getElem?_map, List.getElem?_map, hx, Option.map_some, eq_comm,
      Option.map_eq_some_iff] at this
    exact this
  intro i a b hk ha hb' heq
  obtain ⟨a', ha', hka⟩ := hkey i a ha
  obtain ⟨b', hb'', hkb⟩ := hkey k b hb'
  exact hb i a' b' hk ha' hb'' (hka.trans (heq.trans hkb.symm))

theorem Regrouped.trans (h : Regrouped key l l') (h' : Regrouped key l' l'') :
    Regrouped key l l'' :=
  ⟨h'.keys.trans h.keys, fun k hb => (h'.upTo k (boundary_congr h.keys hb)).trans (h.upTo k hb)⟩

theorem Regrouped.cons (a : α) (h : Regrouped key l l') : Regrouped key (a :: l) (a :: l') := by
  refine ⟨by simp [h.keys], fun k hb => ?_⟩
  cases k with
  | zero => simp
  | succ k =>
    refine (h.upTo k fun i x y hk hx hy => ?_).cons a
    exact hb (i + 1) x y (by omega) (by simpa using hx) (by simpa [hk] using hy)

/-- The head changes places with a later element of its block. -/
theorem regrouped_swap {a b : α} {rest : List α} {n : Nat} (hn : rest[n]? = some b)
    (hblock : ∀ c ∈ rest.take (n + 1), key c = key a) :
    Regrouped key (a :: rest) (b :: rest.set n a) := by
  have hinside : ∀ i x, i ≤ n → rest[i]? = some x → key x = key a := by
    intro i x hi hx
    refine hblock x (List.mem_iff_getElem?.2 ⟨i, ?_⟩)
    rw [List.getElem?_take_of_lt (by omega), hx]
  have hperm : ∀ s : List α, s[n]? = some b → b :: s.set n a ~ a :: s := by
    intro s hs
    obtain ⟨hlt, hget⟩ := List.getElem?_eq_some_iff.1 hs
    calc b :: s.set n a ~ b :: a :: s.eraseIdx n := (List.set_perm_cons_eraseIdx hlt a).cons _
      _ ~ a :: b :: s.eraseIdx n := List.Perm.swap ..
      _ ~ a :: s := by rw [← hget]; exact (List.getElem_cons_eraseIdx_perm hlt).cons a
  obtain ⟨hlt, hget⟩ := List.getElem?_eq_some_iff.1 hn
  have hb := hinside n b le_rfl hn
  refine ⟨?_, fun k hbound => ?_⟩
  · have hsame : (rest.set n a).map key = rest.map key := by
      rw [List.map_set, ← hb, ← hget, ← List.getElem_map key (h := by simpa using hlt)]
      exact List.set_getElem_self _
    simp [hsame, hb]
  · cases k with
    | zero => simp
    | succ k =>
      by_cases hk : n < k
      · rw [List.take_succ_cons, List.take_succ_cons, List.take_set]
        exact hperm _ (by rw [List.getElem?_take_of_lt hk, hn])
      · -- Inside the block the key does not change.
        exfalso
        obtain ⟨y, hy⟩ : ∃ y, rest[k]? = some y := ⟨_, List.getElem?_eq_getElem (by omega)⟩
        obtain ⟨x, hx⟩ : ∃ x, (a :: rest)[k]? = some x :=
          ⟨_, List.getElem?_eq_getElem (by simp; omega)⟩
        refine hbound k x y rfl hx (by simpa using hy) ?_
        rw [hinside k y (by omega) hy]
        cases k with
        | zero =>
          cases hx
          rfl
        | succ k => exact hinside k x (by omega) hx

/-! What is left of the lists when they are read block by block. -/

theorem length_takeWhile_congr {p : κ → Bool} (h : l'.map key = l.map key) :
    (l'.takeWhile fun a => p (key a)).length = (l.takeWhile fun a => p (key a)).length := by
  have := congrArg (fun keys => (keys.takeWhile p).length) h
  simpa [List.takeWhile_map, Function.comp_def] using this

theorem take_length_takeWhile (p : α → Bool) (l : List α) :
    l.take (l.takeWhile p).length = l.takeWhile p :=
  (List.prefix_iff_eq_take.1 (List.takeWhile_prefix p)).symm

theorem getElem?_length_takeWhile (p : α → Bool) (l : List α) :
    l[(l.takeWhile p).length]? = (l.dropWhile p).head? := by
  induction l with
  | nil => rfl
  | cons a l ih => by_cases h : p a <;> simp [h, ih]

theorem boundary_takeWhile (p : κ → Bool) (l : List α) :
    Boundary key l (l.takeWhile fun a => p (key a)).length := by
  intro i a b hk ha hb heq
  have hpa : p (key a) = true := by
    refine List.all_eq_true.1 (List.all_takeWhile (p := fun a => p (key a)) (l := l)) a
      (List.mem_iff_getElem?.2 ⟨i, ?_⟩)
    rw [← take_length_takeWhile, List.getElem?_take_of_lt (by omega), ha]
  have hpb : ¬ p (key b) = true := by
    rw [getElem?_length_takeWhile] at hb
    have := List.head?_dropWhile_not (fun a => p (key a)) l
    rw [hb] at this
    simpa using this
  exact hpb (heq ▸ hpa)

/-- The first block holds the same elements. -/
theorem Regrouped.takeWhile (h : Regrouped key l l') (p : κ → Bool) :
    (l'.takeWhile fun a => p (key a)) ~ l.takeWhile fun a => p (key a) := by
  have hcut := h.upTo _ (boundary_takeWhile p l)
  rwa [take_length_takeWhile, ← length_takeWhile_congr h.keys, take_length_takeWhile] at hcut

/-- Every block stays where it is, and holds the same elements. -/
theorem Regrouped.block (h : Regrouped key l l') {before block after : List α}
    (hl : l = before ++ block ++ after) (hstart : Boundary key l before.length)
    (hend : Boundary key l (before ++ block).length) :
    ∃ before' block' after', l' = before' ++ block' ++ after' ∧ before'.length = before.length ∧
      block' ~ block := by
  have hfirst := h.upTo _ hstart
  have hboth := h.upTo _ hend
  have hlength := h.length_eq
  rw [hl, List.append_assoc, List.take_left] at hfirst
  rw [hl, List.take_left] at hboth
  refine ⟨l'.take before.length, (l'.drop before.length).take block.length,
    l'.drop (before.length + block.length), ?_, ?_, ?_⟩
  · rw [List.append_assoc, ← List.drop_drop, List.take_append_drop, List.take_append_drop]
  · rw [List.length_take, hlength, hl]
    simp
  · have hsplit : l'.take (before ++ block).length =
        l'.take before.length ++ (l'.drop before.length).take block.length := by
      rw [List.length_append, List.take_add]
    rw [hsplit] at hboth
    exact (List.perm_append_left_iff before).1 ((hfirst.symm.append_right _).trans hboth)

end BlockOrder
