import Mathlib.Data.List.Sort
import Mathlib.Data.List.Basic

/-! Rows in an order by several keys, and the pages that such a list is cut into. -/
namespace OrderedPages

section Pairs
variable {α : Type}

theorem pair_sublist_or {l : List α} {a b : α} (ha : a ∈ l) (hb : b ∈ l) (hne : a ≠ b) :
    [a, b].Sublist l ∨ [b, a].Sublist l := by
  obtain ⟨before, after, rfl⟩ := List.append_of_mem ha
  rcases List.mem_append.1 hb with hbefore | hafter
  · refine .inr (List.Sublist.append (List.singleton_sublist.2 hbefore) ?_)
    exact List.singleton_sublist.2 List.mem_cons_self
  · have hrest := (List.mem_cons.1 hafter).resolve_left hne.symm
    refine .inl (List.Sublist.trans ?_ (List.sublist_append_right _ _))
    exact (List.singleton_sublist.2 hrest).cons_cons a

theorem pair_not_swapped {l : List α} {a b : α} (hnodup : l.Nodup) (h : [a, b].Sublist l) :
    ¬ [b, a].Sublist l := by
  induction l with
  | nil => cases h
  | cons x l ih =>
    intro hswapped
    obtain ⟨hx, hl⟩ := List.nodup_cons.1 hnodup
    cases h with
    | cons _ h =>
      cases hswapped with
      | cons _ hswapped => exact ih hl h hswapped
      | cons_cons _ hswapped => exact hx (h.subset (List.mem_cons_of_mem _ List.mem_cons_self))
    | cons_cons _ h =>
      cases hswapped with
      | cons _ hswapped => exact hx (hswapped.subset (List.mem_cons_of_mem _ List.mem_cons_self))
      | cons_cons _ hswapped => exact hx (h.subset List.mem_cons_self)

/-- In a list in the order of a relation, an element is among the first ones exactly when few
elements come before it. -/
theorem mem_take_iff {l : List α} {before : α → α → Bool} (hnodup : l.Nodup)
    (hsorted : l.Pairwise fun a b => before a b = true)
    (hasymm : ∀ a b, before a b = true → before b a = false) {a : α} (ha : a ∈ l) (n : Nat) :
    a ∈ l.take n ↔ (l.countP fun b => before b a) < n := by
  obtain ⟨front, back, rfl⟩ := List.append_of_mem ha
  obtain ⟨hfront, hback, hcross⟩ := List.pairwise_append.1 hsorted
  have hfirst : (front.countP fun b => before b a) = front.length :=
    List.countP_eq_length.2 fun b hb => hcross b hb a List.mem_cons_self
  have hlast : ((a :: back).countP fun b => before b a) = 0 := by
    rw [List.countP_eq_zero]
    intro b hb hbefore
    rcases List.mem_cons.1 hb with rfl | hb
    · have hself := hasymm b b hbefore
      rw [hbefore] at hself
      cases hself
    · have hself := hasymm a b (List.rel_of_pairwise_cons hback hb)
      rw [hbefore] at hself
      cases hself
  rw [List.countP_append, hfirst, hlast, Nat.add_zero, List.take_append, List.mem_append]
  have hnot : a ∉ front := by
    intro hmem
    exact (List.nodup_append.1 hnodup).2.2 a hmem a List.mem_cons_self rfl
  constructor
  · rintro (hmem | hmem)
    · exact absurd (List.mem_of_mem_take hmem) hnot
    · by_contra hle
      rw [Nat.sub_eq_zero_of_le (by omega), List.take_zero] at hmem
      cases hmem
  · intro hlt
    refine .inr ?_
    obtain ⟨k, hk⟩ : ∃ k, n - front.length = k + 1 := ⟨n - front.length - 1, by omega⟩
    rw [hk, List.take_succ_cons]
    exact List.mem_cons_self

end Pairs

section Keys
variable {α : Type}

/-- The order by the first key, then by the second among rows that are equal in the
first, and so on; each key comes as its `≤`. -/
def lexLe : List (α → α → Bool) → α → α → Bool
  | [], _, _ => true
  | le :: rest, a, b => le a b && (!le b a || lexLe rest a b)

structure IsKey (le : α → α → Bool) : Prop where
  total : ∀ a b, le a b = true ∨ le b a = true
  trans : ∀ a b c, le a b = true → le b c = true → le a c = true

theorem IsKey.flip {le : α → α → Bool} (h : IsKey le) : IsKey fun a b => le b a :=
  ⟨fun a b => h.total b a, fun a b c hab hbc => h.trans c b a hbc hab⟩

theorem IsKey.comap {β : Type} {le : α → α → Bool} (h : IsKey le) (f : β → α) :
    IsKey fun a b => le (f a) (f b) :=
  ⟨fun a b => h.total (f a) (f b), fun a b c => h.trans (f a) (f b) (f c)⟩

theorem lexLe_isKey {keys : List (α → α → Bool)} (h : ∀ le ∈ keys, IsKey le) :
    IsKey (lexLe keys) := by
  induction keys with
  | nil => exact ⟨fun _ _ => .inl rfl, fun _ _ _ _ _ => rfl⟩
  | cons le rest ih =>
    have hle := h le List.mem_cons_self
    have hrest := ih fun le' hle' => h le' (List.mem_cons_of_mem _ hle')
    constructor
    · intro a b
      have hfirst := hle.total a b
      have hnext := hrest.total a b
      cases hab : le a b with
      | false => simp_all [lexLe]
      | true => cases hba : le b a <;> simp_all [lexLe]
    · intro a b c hab hbc
      simp only [lexLe, Bool.and_eq_true, Bool.or_eq_true, Bool.not_eq_true'] at hab hbc ⊢
      refine ⟨hle.trans a b c hab.1 hbc.1, ?_⟩
      cases hca : le c a with
      | false => exact .inl rfl
      | true =>
        have hba : le b a = true := hle.trans b c a hbc.1 hca
        have hcb : le c b = true := hle.trans c a b hca hab.1
        have hab' := hab.2.resolve_left (by simp [hba])
        have hbc' := hbc.2.resolve_left (by simp [hcb])
        exact .inr (hrest.trans a b c hab' hbc')

/-- The keys behind decide among rows that are equal in those before. -/
theorem lexLe_append {keys rest : List (α → α → Bool)} {a b : α} (h : lexLe keys a b = true)
    (hrest : lexLe rest a b = true) : lexLe (keys ++ rest) a b = true := by
  induction keys with
  | nil => exact hrest
  | cons le keys ih =>
    simp only [lexLe, List.cons_append, Bool.and_eq_true, Bool.or_eq_true] at h ⊢
    exact ⟨h.1, h.2.imp_right ih⟩

theorem lexLe_of_append {keys rest : List (α → α → Bool)} {a b : α}
    (h : lexLe (keys ++ rest) a b = true) : lexLe keys a b = true := by
  induction keys with
  | nil => rfl
  | cons le keys ih =>
    simp only [lexLe, List.cons_append, Bool.and_eq_true, Bool.or_eq_true] at h ⊢
    exact ⟨h.1, h.2.imp_right ih⟩

/-- The rows in their order. -/
def orderBy (le : α → α → Bool) (rows : List α) : List α :=
  rows.insertionSort fun a b => le a b = true

theorem orderBy_perm (le : α → α → Bool) (rows : List α) : (orderBy le rows).Perm rows :=
  List.perm_insertionSort _ _

theorem orderBy_sorted {le : α → α → Bool} (h : IsKey le) (rows : List α) :
    (orderBy le rows).Pairwise fun a b => le a b = true := by
  have : Std.Total fun a b => le a b = true := ⟨h.total⟩
  have : IsTrans α fun a b => le a b = true := ⟨h.trans⟩
  exact List.pairwise_insertionSort _ _

theorem orderBy_of_sorted {le : α → α → Bool} {rows : List α}
    (h : rows.Pairwise fun a b => le a b = true) : orderBy le rows = rows :=
  h.insertionSort_eq

/-- Rows that are equal in the order stay as they came. -/
theorem orderBy_stable {le : α → α → Bool} (h : IsKey le) {rows : List α} (hnodup : rows.Nodup)
    {a b : α} (hpair : [a, b].Sublist (orderBy le rows)) (hle : le b a = true) :
    [a, b].Sublist rows := by
  have : Std.Total fun a b => le a b = true := ⟨h.total⟩
  have : IsTrans α fun a b => le a b = true := ⟨h.trans⟩
  have hsorted : (orderBy le rows).Nodup := (orderBy_perm le rows).nodup_iff.2 hnodup
  have hne : a ≠ b := by
    rintro rfl
    have hpairNodup := hsorted.sublist hpair
    simp at hpairNodup
  have ha : a ∈ rows := (orderBy_perm le rows).mem_iff.1 (hpair.subset List.mem_cons_self)
  have hb : b ∈ rows :=
    (orderBy_perm le rows).mem_iff.1 (hpair.subset (List.mem_cons_of_mem _ List.mem_cons_self))
  rcases pair_sublist_or ha hb hne with hab | hba
  · exact hab
  · have hswapped : [b, a].Sublist (orderBy le rows) := List.pair_sublist_insertionSort hle hba
    exact absurd hswapped (pair_not_swapped hsorted hpair)

end Keys

section Pages
variable {α : Type}

/-- The pages up to one of them hold what is before its end. -/
theorem flatMap_chunks (l : List α) (size count : Nat) :
    (List.range count).flatMap (fun page => (l.drop (page * size)).take size) =
      l.take (count * size) := by
  induction count with
  | zero => simp
  | succ count ih =>
    rw [List.range_succ, List.flatMap_append, ih, Nat.succ_mul, List.take_add]
    simp

/-- As many pages as it takes hold all there is. -/
theorem flatMap_pages (l : List α) {size : Nat} (hsize : 0 < size) :
    (List.range ((l.length + size - 1) / size)).flatMap
      (fun page => (l.drop (page * size)).take size) = l := by
  rw [flatMap_chunks]
  refine List.take_of_length_le ?_
  have hmod := Nat.div_add_mod (l.length + size - 1) size
  have hlt := Nat.mod_lt (l.length + size - 1) hsize
  rw [Nat.mul_comm] at hmod
  omega

end Pages

end OrderedPages
