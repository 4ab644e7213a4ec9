import LexiGo.ReadCommitted.RowStatements

/-! Programs over some of the tables, run over a database that has more of them.
The program sees the part of the database it knows, and its locks and writes keep
to that part; statement by statement it is the same program. -/
namespace WiderSchema
open RowStore TransactionProgram

variable {Key Extra : Type} {Row : Key → Type} {More : Extra → Type} {Note Note' α β : Type}

/-- The rows of the tables of a program, and the rows of the others. -/
abbrev Both (Row : Key → Type) (More : Extra → Type) : Key ⊕ Extra → Type
  | .inl k => Row k
  | .inr x => More x

/-- An entry of one of the known tables. -/
def known : (Σ k, Both Row More k) → Option (Σ k, Row k)
  | ⟨.inl k, r⟩ => some ⟨k, r⟩
  | ⟨.inr _, _⟩ => none

/-- The tables that the program knows. -/
def part [DecidableEq Key] (db : Db (Both Row More)) : Db Row :=
  (db.entries.filterMap known).toAList

/-- `notes` renders what the program notes. -/
def lift [DecidableEq Key] (notes : List Note → List Note') :
    Prog Row Note α → Prog (Both Row More) Note' α
  | .ret a => .ret a
  | .look next => .look fun db => lift notes (next (part db))
  | .lock k m next => .lock (.inl k) m (lift notes next)
  | .write k m v next => .write (.inl k) m v (lift notes next)
  | .commit told next =>
    .commit (fun db => notes (told (part db))) fun db => lift notes (next (part db))
  | .rollback next => .rollback (lift notes next)
  | .choose next => .choose fun n => lift notes (next n)

variable [DecidableEq Key] [DecidableEq Extra] {notes : List Note → List Note'}

theorem dlookup_known (entries : List (Σ k, Both Row More k)) (k : Key) :
    (entries.filterMap known).dlookup k = entries.dlookup (.inl k) := by
  induction entries with
  | nil => rfl
  | cons entry entries ih =>
    obtain ⟨key, r⟩ := entry
    cases key with
    | inl k' =>
      rw [List.filterMap_cons]
      dsimp only [known]
      by_cases heq : k = k'
      · subst heq
        rw [List.dlookup_cons_eq, List.dlookup_cons_eq]
      · rw [List.dlookup_cons_ne _ _ heq, ih, List.dlookup_cons_ne]
        simpa using heq
    | inr x =>
      rw [List.filterMap_cons]
      dsimp only [known]
      rw [ih, List.dlookup_cons_ne]
      simp

@[simp] theorem lookup_part (db : Db (Both Row More)) (k : Key) :
    (part db).lookup k = db.lookup (.inl k) := by
  rw [part, AList.lookup_to_alist, dlookup_known]
  rfl

section Statements

omit [DecidableEq Extra] in
@[simp] theorem lift_pure (a : α) :
    lift notes (pure a : Prog Row Note α) = (pure a : Prog (Both Row More) Note' α) := rfl

omit [DecidableEq Extra] in
@[simp] theorem lift_bind (p : Prog Row Note α) (f : α → Prog Row Note β) :
    (lift notes (p >>= f) : Prog (Both Row More) Note' β) =
      lift notes p >>= fun a => lift notes (f a) := by
  rw [Prog.bind_def, Prog.bind_def]
  induction p with
  | ret a => rfl
  | look next ih => simp only [Prog.bind, lift, ih]
  | lock k m next ih => simp only [Prog.bind, lift, ih]
  | write k m v next ih => simp only [Prog.bind, lift, ih]
  | commit told next ih => simp only [Prog.bind, lift, ih]
  | rollback next ih => simp only [Prog.bind, lift, ih]
  | choose next ih => simp only [Prog.bind, lift, ih]

omit [DecidableEq Extra] in
theorem lift_select (f : Db Row → α) :
    lift notes (select f : Prog Row Note α) =
      (select fun db => f (part db) : Prog (Both Row More) Note' α) := rfl

omit [DecidableEq Extra] in
@[simp] theorem lift_lockRow (k : Key) (m : Mode) :
    lift notes (lockRow k m : Prog Row Note Unit) =
      (lockRow (.inl k) m : Prog (Both Row More) Note' Unit) := rfl

omit [DecidableEq Extra] in
@[simp] theorem lift_writeRow (k : Key) (m : Mode) (v : Option (Row k)) :
    lift notes (writeRow k m v : Prog Row Note Unit) =
      (writeRow (.inl k) m v : Prog (Both Row More) Note' Unit) := rfl

omit [DecidableEq Extra] in
@[simp] theorem lift_choose :
    lift notes (choose : Prog Row Note Nat) = (choose : Prog (Both Row More) Note' Nat) := rfl

omit [DecidableEq Extra] in
@[simp] theorem lift_leave (a : α) :
    lift notes (leave a : Prog Row Note α) = (leave a : Prog (Both Row More) Note' α) := rfl

omit [DecidableEq Extra] in
@[simp] theorem lift_ite (p : Prop) [Decidable p] (x y : Prog Row Note α) :
    (lift notes (if p then x else y) : Prog (Both Row More) Note' α) =
      if p then lift notes x else lift notes y := by
  split <;> rfl

@[simp] theorem lift_selectRow (k : Key) :
    lift notes (select fun db => db.lookup k : Prog Row Note (Option (Row k))) =
      (select fun db => db.lookup (Sum.inl k) : Prog (Both Row More) Note' (Option (Row k))) := by
  rw [lift_select]
  simp only [lookup_part]

@[simp] theorem lift_selectFor (k : Key) (m : Mode) (p : Row k → Bool) :
    lift notes (selectFor k m p : Prog Row Note (Option (Row k))) =
      @selectFor (Key ⊕ Extra) (Both Row More) Note' _ (.inl k) m p := by
  unfold selectFor
  rw [lift_bind, lift_selectRow]
  congr 1
  funext seen
  rw [lift_ite, lift_bind, lift_lockRow, lift_select]
  simp only [lookup_part]
  rfl

@[simp] theorem lift_updateRow (k : Key) (m : Mode) (p : Row k → Bool) (g : Row k → Row k) :
    lift notes (updateRow k m p g : Prog Row Note (Option (Row k))) =
      @updateRow (Key ⊕ Extra) (Both Row More) Note' _ (.inl k) m p g := by
  unfold updateRow
  rw [lift_bind, lift_selectFor]
  congr 1
  funext found
  cases found with
  | none => rfl
  | some r => rfl

@[simp] theorem lift_insertRow (k : Key) (r : Row k) :
    lift notes (insertRow k r : Prog Row Note Bool) =
      @insertRow (Key ⊕ Extra) (Both Row More) Note' _ (.inl k) r := by
  unfold insertRow
  rw [lift_bind, lift_lockRow]
  congr 1
  funext _
  rw [lift_bind, lift_selectRow]
  congr 1
  funext now
  rw [lift_ite]
  rfl

end Statements

end WiderSchema
