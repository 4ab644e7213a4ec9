import Mathlib.Data.List.DropRight

/-! How a list falls into the parts between its delimiters, and what is left of it
once both ends are stripped. -/
namespace ListParts

/-- What a computation over a list says of each element. -/
theorem forall_of_all {α : Type} {P : α → Prop} [DecidablePred P] {l : List α}
    (h : (l.all fun a => P a) = true) : ∀ a ∈ l, P a :=
  fun a ha => of_decide_eq_true (List.all_eq_true.1 h a ha)

section Parts
variable {α : Type} {p : α → Bool}

/-- A list without delimiters is its only part, any other starts with one. -/
theorem delimited (l : List α) :
    (∀ c ∈ l, p c = false) ∨
      ∃ first d rest, l = first ++ d :: rest ∧ (∀ c ∈ first, p c = false) ∧ p d = true := by
  cases h : l.find? p with
  | none => exact .inl fun c hc => by simpa using List.find?_eq_none.1 h c hc
  | some d =>
    obtain ⟨hd, first, rest, heq, hfirst⟩ := List.find?_eq_some_iff_append.1 h
    exact .inr ⟨first, d, rest, heq, fun c hc => by simpa using hfirst c hc, hd⟩

/-- Every element is a delimiter or belongs to a part. -/
theorem mem_part {l : List α} {c : α} (h : c ∈ l) :
    p c = true ∨ ∃ part ∈ l.splitOnP p, c ∈ part := by
  obtain ⟨u, v, rfl⟩ := List.append_of_mem h
  cases hc : p c with
  | true => exact .inl rfl
  | false =>
    refine .inr ?_
    induction u with
    | nil =>
      obtain ⟨first, rest, hsplit⟩ := List.exists_cons_of_ne_nil (List.splitOnP_ne_nil p v)
      rw [List.nil_append, List.splitOnP_cons_eq_if_modifyHead, hc, hsplit]
      exact ⟨c :: first, by simp, List.mem_cons_self⟩
    | cons d u ih =>
      obtain ⟨part, hpart, hmem⟩ := ih (by simp)
      rw [List.cons_append, List.splitOnP_cons_eq_if_modifyHead]
      cases p d with
      | true => exact ⟨part, List.mem_cons_of_mem _ hpart, hmem⟩
      | false =>
        obtain ⟨first, rest, hsplit⟩ :=
          List.exists_cons_of_ne_nil (List.splitOnP_ne_nil p (u ++ c :: v))
        rw [hsplit] at hpart ⊢
        rcases List.mem_cons.1 hpart with rfl | hpart
        · exact ⟨d :: part, by simp, List.mem_cons_of_mem _ hmem⟩
        · exact ⟨part, by simp [hpart], hmem⟩

/-- Around a part stand delimiters and the other parts. -/
theorem around_part {l part : List α} {before after : List (List α)}
    (h : l.splitOnP p = before ++ part :: after) :
    ∃ u v, l = u ++ part ++ v ∧ (∀ c ∈ u, p c = true ∨ ∃ q ∈ before, c ∈ q) ∧
      ∀ c ∈ v, p c = true ∨ ∃ q ∈ after, c ∈ q := by
  induction before generalizing l with
  | nil =>
    rcases delimited (p := p) l with hnone | ⟨first, d, rest, rfl, hfirst, hd⟩
    · rw [List.splitOnP_eq_singleton hnone, List.nil_append, List.cons.injEq] at h
      obtain ⟨rfl, rfl⟩ := h
      exact ⟨[], [], by simp, by simp, by simp⟩
    · rw [List.splitOnP_append_cons_of_forall_mem hfirst d hd, List.nil_append,
        List.cons.injEq] at h
      obtain ⟨rfl, rfl⟩ := h
      refine ⟨[], d :: rest, by simp, by simp, fun c hc => ?_⟩
      rcases List.mem_cons.1 hc with rfl | hc
      · exact .inl hd
      · exact mem_part hc
  | cons q before ih =>
    rcases delimited (p := p) l with hnone | ⟨first, d, rest, rfl, hfirst, hd⟩
    · rw [List.splitOnP_eq_singleton hnone, List.cons_append, List.cons.injEq] at h
      exact absurd h.2 (by simp)
    · rw [List.splitOnP_append_cons_of_forall_mem hfirst d hd, List.cons_append,
        List.cons.injEq] at h
      obtain ⟨rfl, hrest⟩ := h
      obtain ⟨u, v, rfl, hu, hv⟩ := ih hrest
      refine ⟨first ++ d :: u, v, by simp, fun c hc => ?_, hv⟩
      rcases List.mem_append.1 hc with hc | hc
      · exact .inr ⟨first, List.mem_cons_self, hc⟩
      · rcases List.mem_cons.1 hc with rfl | hc
        · exact .inl hd
        · rcases hu c hc with hc | ⟨q, hq, hc⟩
          · exact .inl hc
          · exact .inr ⟨q, List.mem_cons_of_mem _ hq, hc⟩

theorem mem_of_part {l part : List α} (h : part ∈ l.splitOnP p) {c : α} (hc : c ∈ part) :
    c ∈ l := by
  obtain ⟨before, after, hsplit⟩ := List.append_of_mem h
  obtain ⟨u, v, rfl, -, -⟩ := around_part hsplit
  exact List.mem_append_left _ (List.mem_append_right _ hc)

theorem part_free {l part : List α} (h : part ∈ l.splitOnP p) {c : α} (hc : c ∈ part) :
    p c = false := by
  induction hn : l.length using Nat.strongRecOn generalizing l with
  | ind n ih =>
    rcases delimited (p := p) l with hnone | ⟨first, d, rest, rfl, hfirst, hd⟩
    · rw [List.splitOnP_eq_singleton hnone, List.mem_singleton] at h
      exact hnone c (h ▸ hc)
    · rw [List.splitOnP_append_cons_of_forall_mem hfirst d hd, List.mem_cons] at h
      rcases h with rfl | h
      · exact hfirst c hc
      · refine ih rest.length ?_ h rfl
        simp only [List.length_append, List.length_cons] at hn
        omega

end Parts

section Strip
variable {α : Type} (p : α → Bool)

/-- What is stripped stands at the two ends. -/
theorem around_strip (l : List α) :
    ∃ u v, l = u ++ (l.dropWhile p).rdropWhile p ++ v ∧ (∀ c ∈ u, p c = true) ∧
      ∀ c ∈ v, p c = true := by
  refine ⟨l.takeWhile p, (l.dropWhile p).rtakeWhile p, ?_, ?_, ?_⟩
  · rw [List.append_assoc, List.rdropWhile_append_rtakeWhile, List.takeWhile_append_dropWhile]
  · exact fun c hc => List.mem_takeWhile_imp hc
  · intro c hc
    rw [List.rtakeWhile, List.mem_reverse] at hc
    exact List.mem_takeWhile_imp hc

theorem strip_strip (l : List α) :
    (((l.dropWhile p).rdropWhile p).dropWhile p).rdropWhile p = (l.dropWhile p).rdropWhile p := by
  have front : ((l.dropWhile p).rdropWhile p).dropWhile p = (l.dropWhile p).rdropWhile p := by
    rw [List.dropWhile_eq_self_iff]
    intro hlen
    have hpre : (l.dropWhile p).rdropWhile p <+: l.dropWhile p := List.rdropWhile_prefix _ _
    rw [hpre.getElem hlen]
    exact List.dropWhile_get_zero_not _ _ _
  rw [front, List.rdropWhile_idempotent]

theorem mem_strip {l : List α} {c : α} (h : c ∈ (l.dropWhile p).rdropWhile p) : c ∈ l := by
  obtain ⟨u, v, heq, -, -⟩ := around_strip p l
  rw [heq]
  exact List.mem_append_left _ (List.mem_append_right _ h)

theorem strip_eq_nil {l : List α} (h : (l.dropWhile p).rdropWhile p = []) :
    ∀ c ∈ l, p c = true := by
  obtain ⟨u, v, heq, hu, hv⟩ := around_strip p l
  rw [h, List.append_nil] at heq
  intro c hc
  rw [heq] at hc
  exact (List.mem_append.1 hc).elim (hu c) (hv c)

theorem strip_eq_self {l : List α} (hhead : ∀ c ∈ l.head?, p c = false)
    (hlast : ∀ c ∈ l.getLast?, p c = false) : (l.dropWhile p).rdropWhile p = l := by
  have hfront : l.dropWhile p = l := by
    cases l with
    | nil => rfl
    | cons c l => rw [List.dropWhile_cons_of_neg (by simp [hhead c rfl])]
  rw [hfront, List.rdropWhile_eq_self_iff]
  intro hl
  simp [hlast _ (List.getLast_mem_getLast? hl)]

end Strip

end ListParts
