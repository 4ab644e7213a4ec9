import LexiGo.ReadCommitted.Interleaving

/-! One program that has the database to itself: what it answers and what it
makes of the rows. No lock keeps it waiting, so it is followed without any; what
it is asked to choose comes from a list. -/
namespace SoloRun
open RowStore TransactionProgram Interleaving

variable {Key : Type} [DecidableEq Key] {Row : Key → Type} {Note Op α β : Type}

/-- The committed rows, the rows as the open transaction sees them, and what there
is still to be chosen. -/
structure Solo (Row : Key → Type) where
  committed : Db Row
  view : Db Row
  choices : List Nat

def Solo.put (s : Solo Row) (k : Key) (v : Option (Row k)) : Solo Row :=
  { s with view := set k v s.view }

def solo : Prog Row Note α → Solo Row → Option (α × Solo Row)
  | .ret a, s => some (a, s)
  | .look next, s => solo (next s.view) s
  | .lock _ _ next, s => solo next s
  | .write k m v next, s => if m = .noKeyUpdate || m = .update then solo next (s.put k v) else none
  | .commit _ next, s => solo (next s.view) { s with committed := s.view }
  | .rollback next, s => solo next { s with view := s.committed }
  | .choose next, s =>
    match s.choices with
    | [] => none
    | n :: rest => solo (next n) { s with choices := rest }

variable {s : Solo Row}

theorem solo_bind (p : Prog Row Note α) (f : α → Prog Row Note β) :
    solo (p >>= f) s = (solo p s).bind fun r => solo (f r.1) r.2 := by
  rw [Prog.bind_def]
  induction p generalizing s with
  | ret a => rfl
  | look next ih => exact ih _
  | lock k m next ih => exact ih
  | write k m v next ih =>
    simp only [Prog.bind, solo]
    split
    · exact ih
    · rfl
  | commit notes next ih => exact ih _
  | rollback next ih => exact ih
  | choose next ih =>
    simp only [Prog.bind, solo]
    split
    · rfl
    · exact ih _

@[simp] theorem solo_pure (a : α) : solo (pure a : Prog Row Note α) s = some (a, s) := rfl

@[simp] theorem solo_select (f : Db Row → α) :
    solo (select f : Prog Row Note α) s = some (f s.view, s) := rfl

@[simp] theorem solo_lockRow (k : Key) (m : Mode) :
    solo (lockRow k m : Prog Row Note Unit) s = some ((), s) := rfl

@[simp] theorem solo_writeRow {m : Mode} (hm : m.writes) (k : Key) (v : Option (Row k)) :
    solo (writeRow k m v : Prog Row Note Unit) s = some ((), s.put k v) := by
  rcases hm with rfl | rfl <;> rfl

@[simp] theorem solo_commit (notes : List Note) :
    solo (commit notes : Prog Row Note Unit) s = some ((), { s with committed := s.view }) := rfl

@[simp] theorem solo_leave (a : α) :
    solo (leave a : Prog Row Note α) s = some (a, { s with view := s.committed }) := rfl

theorem solo_choose {n : Nat} {rest : List Nat} (h : s.choices = n :: rest) :
    solo (choose : Prog Row Note Nat) s = some (n, { s with choices := rest }) := by
  simp only [choose, solo, h]

@[simp] theorem solo_selectFor (k : Key) (m : Mode) (p : Row k → Bool) :
    solo (selectFor k m p : Prog Row Note (Option (Row k))) s =
      some ((s.view.lookup k).filter p, s) := by
  unfold selectFor
  rw [solo_bind, solo_select, Option.bind_some]
  dsimp only
  cases h : (s.view.lookup k).filter p with
  | none => rfl
  | some r =>
    rw [Option.isSome_some, if_pos rfl, solo_bind, solo_lockRow, Option.bind_some, solo_select, h]

@[simp] theorem solo_updateRow {m : Mode} (hm : m.writes) (k : Key) (p : Row k → Bool)
    (g : Row k → Row k) :
    solo (updateRow k m p g : Prog Row Note (Option (Row k))) s =
      some ((s.view.lookup k).filter p,
        match (s.view.lookup k).filter p with
        | none => s
        | some r => s.put k (some (g r))) := by
  unfold updateRow
  rw [solo_bind, solo_selectFor]
  cases (s.view.lookup k).filter p with
  | none => rfl
  | some r => simp [solo_bind, hm]

@[simp] theorem solo_insertRow (k : Key) (r : Row k) :
    solo (insertRow k r : Prog Row Note Bool) s =
      some ((s.view.lookup k).isNone,
        if (s.view.lookup k).isNone then s.put k (some r) else s) := by
  unfold insertRow
  rw [solo_bind, solo_lockRow, Option.bind_some, solo_bind, solo_select]
  cases s.view.lookup k with
  | none => rfl
  | some _ => rfl

/-- The program comes to its end, and `Q` holds of the answer and the rows it leaves. -/
def Ends (p : Prog Row Note α) (s : Solo Row) (Q : α → Solo Row → Prop) : Prop :=
  ∃ a s', solo p s = some (a, s') ∧ Q a s'

variable {Q Q' : α → Solo Row → Prop}

theorem ends_bind {p : Prog Row Note α} {f : α → Prog Row Note β} {Q : β → Solo Row → Prop} :
    Ends (p >>= f) s Q ↔ Ends p s fun a s' => Ends (f a) s' Q := by
  unfold Ends
  rw [solo_bind]
  cases solo p s with
  | none => simp
  | some r =>
    obtain ⟨a, s'⟩ := r
    simp

theorem Ends.mono {p : Prog Row Note α} (h : Ends p s Q) (hQ : ∀ a s', Q a s' → Q' a s') :
    Ends p s Q' := by
  obtain ⟨a, s', hsolo, ha⟩ := h
  exact ⟨a, s', hsolo, hQ a s' ha⟩

theorem ends_of_solo {p : Prog Row Note α} {a : α} {s' : Solo Row} (h : solo p s = some (a, s')) :
    Ends p s Q ↔ Q a s' := by
  constructor
  · rintro ⟨b, t, hb, hQ⟩
    rw [h] at hb
    cases hb
    exact hQ
  · exact fun hQ => ⟨a, s', h, hQ⟩

@[simp] theorem ends_pure (a : α) : Ends (pure a : Prog Row Note α) s Q ↔ Q a s := ends_of_solo rfl

@[simp] theorem ends_select (f : Db Row → α) :
    Ends (select f : Prog Row Note α) s Q ↔ Q (f s.view) s := ends_of_solo rfl

@[simp] theorem ends_query (f : Db Row → α) (notes : α → List Note) :
    Ends (query f notes) s Q ↔ Q (f s.view) { s with committed := s.view } := ends_of_solo rfl

@[simp] theorem ends_commit {Q : Unit → Solo Row → Prop} (notes : List Note) :
    Ends (commit notes : Prog Row Note Unit) s Q ↔ Q () { s with committed := s.view } :=
  ends_of_solo rfl

@[simp] theorem ends_leave (a : α) :
    Ends (leave a : Prog Row Note α) s Q ↔ Q a { s with view := s.committed } := ends_of_solo rfl

theorem ends_choose {n : Nat} {rest : List Nat} {Q : Nat → Solo Row → Prop}
    (h : s.choices = n :: rest) :
    Ends (choose : Prog Row Note Nat) s Q ↔ Q n { s with choices := rest } :=
  ends_of_solo (solo_choose h)

@[simp] theorem ends_lockRow {Q : Unit → Solo Row → Prop} (k : Key) (m : Mode) :
    Ends (lockRow k m : Prog Row Note Unit) s Q ↔ Q () s := ends_of_solo rfl

theorem ends_writeRow {m : Mode} {Q : Unit → Solo Row → Prop} (hm : m.writes) (k : Key)
    (v : Option (Row k)) : Ends (writeRow k m v : Prog Row Note Unit) s Q ↔ Q () (s.put k v) :=
  ends_of_solo (solo_writeRow hm k v)

theorem ends_selectFor {k : Key} {m : Mode} {p : Row k → Bool}
    {Q : Option (Row k) → Solo Row → Prop} :
    Ends (selectFor k m p : Prog Row Note (Option (Row k))) s Q ↔
      Q ((s.view.lookup k).filter p) s :=
  ends_of_solo (solo_selectFor k m p)

/-- Changing some rows leaves the others as they are. -/
theorem ends_changeEach {m : Mode} {f : ∀ k, Row k → Option (Option (Row k))} (hm : m.writes)
    (keys : List Key) {Q : List Key → Solo Row → Prop}
    (h : ∀ changed s', s'.committed = s.committed → s'.choices = s.choices →
      (∀ k, k ∉ keys → s'.view.lookup k = s.view.lookup k) → Q changed s') :
    Ends (changeEach m f keys : Prog Row Note (List Key)) s Q := by
  induction keys generalizing s Q with
  | nil => exact (ends_pure _).2 (h [] s rfl rfl fun _ _ => rfl)
  | cons key rest ih =>
    rw [changeEach, ends_bind, ends_lockRow, ends_bind, ends_select]
    cases (s.view.lookup key).bind (f key) with
    | none =>
      exact ih fun changed s' hc hr hk =>
        h changed s' hc hr fun k hne => hk k fun hmem => hne (List.mem_cons_of_mem _ hmem)
    | some v =>
      dsimp only
      rw [ends_bind, ends_writeRow hm, ends_bind]
      refine ih fun changed s' hc hr hk => (ends_pure _).2 (h _ s' hc hr fun k hne => ?_)
      rw [hk k fun hmem => hne (List.mem_cons_of_mem _ hmem)]
      refine lookup_set_ne ?_ _ _
      rintro rfl
      exact hne List.mem_cons_self

/-- With nobody else there, these are the steps that the scheduler can take. -/
theorem run_of_solo {program : Op → Prog Row Note α} {op : Op} {born w : World Row Note}
    {t : Tx Row} {p : Prog Row Note α} {choices rest : List Nat} {a : α} {committed view : Db Row}
    (h : solo p ⟨w.db, t.visible w.db, choices⟩ = some (a, ⟨committed, view, rest⟩)) :
    ∃ w' t', Run program (fun _ _ _ _ => True) ⟨w, [⟨op, born, t, some p⟩]⟩
      ⟨w', [⟨op, born, t', some (.ret a)⟩]⟩ ∧ w'.db = committed ∧ t'.visible w'.db = view := by
  have first : ∀ {w w' : World Row Note} {t t' : Tx Row} {p p' : Prog Row Note α} (choice : Nat),
      advance ⟨w, [⟨op, born, t, some p⟩]⟩ 0 choice ⟨op, born, t, some p⟩ p =
        some (⟨w', [⟨op, born, t', some p'⟩]⟩ : Config Row Note Op α) →
      Run program (fun _ _ _ _ => True) ⟨w, [⟨op, born, t, some p⟩]⟩
        ⟨w', [⟨op, born, t', some p'⟩]⟩ := fun choice hs =>
    .tail (.advance 0 choice) (.refl _) hs fun _ _ _ => trivial
  induction p generalizing w t choices with
  | ret b =>
    cases h
    exact ⟨w, t, .refl _, rfl, rfl⟩
  | look next ih =>
    obtain ⟨w', t', hrun, hdb, hview⟩ := ih _ h
    exact ⟨w', t', (first 0 rfl).trans hrun, hdb, hview⟩
  | lock k m next ih =>
    obtain ⟨w', t', hrun, hdb, hview⟩ := @ih w (t.hold k m) choices h
    exact ⟨w', t', (first 0 rfl).trans hrun, hdb, hview⟩
  | write k m v next ih =>
    by_cases hm : (m = .noKeyUpdate || m = .update) = true
    · simp only [solo, hm, if_true] at h
      obtain ⟨w', t', hrun, hdb, hview⟩ := @ih w (t.write k m v) choices h
      refine ⟨w', t', (first 0 ?_).trans hrun, hdb, hview⟩
      simp only [advance, hm, Bool.and_true]
      rfl
    · simp [solo, hm] at h
  | commit notes next ih =>
    obtain ⟨w', t', hrun, hdb, hview⟩ :=
      @ih _ (w.publish 0 t (notes (t.visible w.db))) {} choices h
    exact ⟨w', t', (first 0 rfl).trans hrun, hdb, hview⟩
  | rollback next ih =>
    obtain ⟨w', t', hrun, hdb, hview⟩ := @ih w {} choices h
    exact ⟨w', t', (first 0 rfl).trans hrun, hdb, hview⟩
  | choose next ih =>
    cases choices with
    | nil => cases h
    | cons n rest' =>
      obtain ⟨w', t', hrun, hdb, hview⟩ := @ih n w t rest' h
      exact ⟨w', t', (first n rfl).trans hrun, hdb, hview⟩

end SoloRun
