import LexiGo.ReadCommitted.RowStatements
import LexiGo.ReadCommitted.CommitNotes

/-! What a part of a transaction leaves alone. A part that neither commits nor rolls back
and writes only rows of `K` keeps its locks, and the transaction sees every other row as
it did before. -/
namespace FrameRule
open RowStore TransactionProgram Interleaving CommitContract RowStatements

variable {Key : Type} [DecidableEq Key] {Row : Key → Type} {Note α β : Type}
variable {C : Contract Row Note} {i : Nat} {t t' t'' : Tx Row} {w w' w'' : World Row Note}
variable {K : Key → Prop}

/-- The program stays within its transaction and writes rows of `K` only. -/
def Sparing (K : Key → Prop) : Prog Row Note α → Prop
  | .ret _ => True
  | .look next => ∀ db, Sparing K (next db)
  | .lock _ _ next => Sparing K next
  | .write k _ _ next => K k ∧ Sparing K next
  | .commit _ _ => False
  | .rollback _ => False
  | .choose next => ∀ n, Sparing K (next n)

namespace Sparing

omit [DecidableEq Key] in
theorem pure (a : α) : Sparing K (pure a : Prog Row Note α) := trivial

omit [DecidableEq Key] in
theorem bind {p : Prog Row Note α} {f : α → Prog Row Note β} (hp : Sparing K p)
    (hf : ∀ a, Sparing K (f a)) : Sparing K (p >>= f) := by
  rw [Prog.bind_def]
  induction p with
  | ret a => exact hf a
  | look next ih => exact fun db => ih db (hp db)
  | lock k m next ih => exact ih hp
  | write k m v next ih => exact ⟨hp.1, ih hp.2⟩
  | commit => exact hp
  | rollback => exact hp
  | choose next ih => exact fun n => ih n (hp n)

omit [DecidableEq Key] in
theorem select (f : Db Row → α) : Sparing K (select f : Prog Row Note α) := fun _ => trivial

omit [DecidableEq Key] in
theorem choose : Sparing K (choose : Prog Row Note Nat) := fun _ => trivial

omit [DecidableEq Key] in
theorem lockRow (k : Key) (m : Mode) : Sparing K (lockRow k m : Prog Row Note Unit) := trivial

omit [DecidableEq Key] in
theorem writeRow {k : Key} (hk : K k) (m : Mode) (v : Option (Row k)) :
    Sparing K (writeRow k m v : Prog Row Note Unit) := ⟨hk, trivial⟩

theorem selectFor (k : Key) (m : Mode) (p : Row k → Bool) :
    Sparing K (selectFor k m p : Prog Row Note (Option (Row k))) := by
  refine .bind (.select _) fun seen => ?_
  split
  · exact .bind (.lockRow k m) fun _ => .select _
  · exact .pure _

theorem insertRow {k : Key} (hk : K k) (r : Row k) :
    Sparing K (insertRow k r : Prog Row Note Bool) := by
  refine .bind (.lockRow k _) fun _ => .bind (.select _) fun now => ?_
  split
  · exact .pure _
  · exact .bind (.writeRow hk _ _) fun _ => .pure _

theorem changeEach (m : Mode) {f : ∀ k, Row k → Option (Option (Row k))}
    (hf : ∀ k r v, f k r = some v → K k) (keys : List Key) :
    Sparing K (changeEach m f keys : Prog Row Note (List Key)) := by
  induction keys with
  | nil => exact .pure _
  | cons k keys ih =>
    refine .bind (.lockRow k m) fun _ => .bind (.select _) fun now => ?_
    cases hv : now.bind (f k) with
    | none => exact ih
    | some v =>
      obtain ⟨r, -, hr⟩ := Option.bind_eq_some_iff.1 hv
      exact .bind (.writeRow (hf k r v hr) m v) fun _ => .bind ih fun _ => .pure _

omit [DecidableEq Key] in
theorem quiet {p : Prog Row Note α} (hp : Sparing K p) : CommitNotes.Quiet p := by
  intro P past
  induction p with
  | ret a => exact rfl
  | look next ih => exact fun db => ih db (hp db)
  | lock k m next ih => exact ih hp
  | write k m v next ih => exact ih hp.2
  | commit => exact absurd hp not_false
  | rollback => exact absurd hp not_false
  | choose next ih => exact fun n => ih n (hp n)

end Sparing

/-- What such a part has made of the transaction. -/
structure Framed (C : Contract Row Note) (i : Nat) (K : Key → Prop) (t : Tx Row)
    (w : World Row Note) (t' : Tx Row) (w' : World Row Note) : Prop where
  rely : Rely C i t w w'
  held : t.held ⊆ t'.held
  rows : ∀ k, ¬ K k → ∀ db, (t'.visible db).lookup k = (t.visible db).lookup k

theorem Framed.refl : Framed C i K t w t w :=
  ⟨.refl, List.Subset.refl _, fun _ _ _ => rfl⟩

theorem Framed.trans (h : Framed C i K t w t' w') (h' : Framed C i K t' w' t'' w'') :
    Framed C i K t w t'' w'' :=
  ⟨h.rely.trans (h'.rely.mono fun _ hp => h.held hp), fun _ hp => h'.held (h.held hp),
    fun k hk db => (h'.rows k hk db).trans (h.rows k hk db)⟩

theorem Framed.later (h : Framed C i K t w t' w') (hr : Rely C i t' w' w'') :
    Framed C i K t w t' w'' :=
  ⟨h.rely.trans (hr.mono fun _ hp => h.held hp), h.held, h.rows⟩

theorem Framed.before (hr : Rely C i t w w') (h : Framed C i K t w' t' w'') :
    Framed C i K t w t' w'' :=
  ⟨hr.trans h.rely, h.held, h.rows⟩

theorem wp_sparing {p : Prog Row Note α} (hp : Sparing K p)
    {Q : α → Tx Row → World Row Note → Prop}
    (h : ∀ a t' w', Framed C i K t w t' w' → Q a t' w') : wp C i Q p t w := by
  induction p generalizing t w with
  | ret a => exact h a t w .refl
  | look next ih =>
    exact fun w₁ hr _ => ih _ (hp _) fun a t' w' hf => h a t' w' (.before hr hf)
  | lock k m next ih =>
    intro w₁ hr _
    refine ih hp fun a t' w' hf => h a t' w' (.before hr ⟨?_, ?_, ?_⟩)
    · exact rely_hold hf.rely
    · exact fun x hx => hf.held (List.mem_cons_of_mem _ hx)
    · exact hf.rows
  | write k m v next ih =>
    intro w₁ hr _ _
    refine ih hp.2 fun a t' w' hf => h a t' w' (.before hr ⟨?_, ?_, ?_⟩)
    · exact rely_write hf.rely
    · exact fun x hx => hf.held (List.mem_cons_of_mem _ hx)
    · intro k' hk' db
      have hne : k' ≠ k := by
        rintro rfl
        exact hk' hp.1
      rw [hf.rows k' hk' db, Tx.visible_write, lookup_set_ne hne]
  | commit => exact absurd hp not_false
  | rollback => exact absurd hp not_false
  | choose next ih => exact fun n => ih n (hp n) h

end FrameRule
