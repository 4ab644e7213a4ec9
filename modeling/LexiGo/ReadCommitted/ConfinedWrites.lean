import LexiGo.ReadCommitted.FrameRule
import LexiGo.ReadCommitted.WiderSchema

/-! Programs all of whose writes are of one kind, whatever they read. The commits of
such a program change rows in that kind only, also where it runs over a database with
more tables than it knows. -/
namespace ConfinedWrites
open RowStore TransactionProgram Interleaving CommitContract RowStatements FrameRule WiderSchema

variable {Key : Type} [DecidableEq Key] {Row : Key → Type} {Note α β : Type}
variable {P : ∀ k, Option (Row k) → Prop} {N : List Note → Prop}

/-- Every write is one that `P` allows, and the notes of every commit are in `N`. -/
def Confined (P : ∀ k, Option (Row k) → Prop) (N : List Note → Prop) : Prog Row Note α → Prop
  | .ret _ => True
  | .look next => ∀ db, Confined P N (next db)
  | .lock _ _ next => Confined P N next
  | .write k _ v next => P k v ∧ Confined P N next
  | .commit notes next => ∀ db, N (notes db) ∧ Confined P N (next db)
  | .rollback next => Confined P N next
  | .choose next => ∀ n, Confined P N (next n)

namespace Confined

omit [DecidableEq Key] in
theorem pure (a : α) : Confined P N (pure a : Prog Row Note α) := trivial

omit [DecidableEq Key] in
theorem bind {p : Prog Row Note α} {f : α → Prog Row Note β} (hp : Confined P N p)
    (hf : ∀ a, Confined P N (f a)) : Confined P N (p >>= f) := by
  rw [Prog.bind_def]
  induction p with
  | ret a => exact hf a
  | look next ih => exact fun db => ih db (hp db)
  | lock k m next ih => exact ih hp
  | write k m v next ih => exact ⟨hp.1, ih hp.2⟩
  | commit notes next ih => exact fun db => ⟨(hp db).1, ih db (hp db).2⟩
  | rollback next ih => exact ih hp
  | choose next ih => exact fun n => ih n (hp n)

omit [DecidableEq Key] in
theorem select (f : Db Row → α) : Confined P N (select f : Prog Row Note α) := fun _ => trivial

omit [DecidableEq Key] in
theorem choose : Confined P N (choose : Prog Row Note Nat) := fun _ => trivial

omit [DecidableEq Key] in
theorem lockRow (k : Key) (m : Mode) : Confined P N (lockRow k m : Prog Row Note Unit) := trivial

omit [DecidableEq Key] in
theorem writeRow {k : Key} {v : Option (Row k)} (hv : P k v) (m : Mode) :
    Confined P N (writeRow k m v : Prog Row Note Unit) := ⟨hv, trivial⟩

omit [DecidableEq Key] in
theorem commit {notes : List Note} (h : N notes) : Confined P N (commit notes : Prog Row Note Unit) :=
  fun _ => ⟨h, trivial⟩

omit [DecidableEq Key] in
theorem query (f : Db Row → α) {notes : α → List Note} (h : ∀ a, N (notes a)) :
    Confined P N (query f notes) := fun db => ⟨h (f db), trivial⟩

omit [DecidableEq Key] in
theorem leave (a : α) : Confined P N (leave a : Prog Row Note α) := trivial

omit [DecidableEq Key] in
theorem andThen {ε : Type} {p : Prog Row Note (Except ε α)} {f : α → Prog Row Note (Except ε β)}
    (hp : Confined P N p) (hf : ∀ a, Confined P N (f a)) : Confined P N (andThen p f) := by
  refine .bind hp fun r => ?_
  cases r with
  | error why => exact .pure _
  | ok a => exact hf a

theorem selectFor (k : Key) (m : Mode) (p : Row k → Bool) :
    Confined P N (selectFor k m p : Prog Row Note (Option (Row k))) := by
  refine .bind (.select _) fun seen => ?_
  split
  · exact .bind (.lockRow k m) fun _ => .select _
  · exact .pure _

theorem updateRow {k : Key} (m : Mode) (p : Row k → Bool) {g : Row k → Row k}
    (hg : ∀ r, P k (some (g r))) :
    Confined P N (updateRow k m p g : Prog Row Note (Option (Row k))) := by
  refine .bind (.selectFor k m p) fun found => ?_
  cases found with
  | none => exact .pure _
  | some r => exact .bind (.writeRow (hg r) m) fun _ => .pure _

theorem changeEach (m : Mode) {f : ∀ k, Row k → Option (Option (Row k))}
    (hf : ∀ k r v, f k r = some v → P k v) (keys : List Key) :
    Confined P N (changeEach m f keys : Prog Row Note (List Key)) := by
  induction keys with
  | nil => exact .pure _
  | cons k keys ih =>
    refine .bind (.lockRow k m) fun _ => .bind (.select _) fun now => ?_
    cases hv : now.bind (f k) with
    | none => exact ih
    | some v =>
      obtain ⟨r, -, hr⟩ := Option.bind_eq_some_iff.1 hv
      exact .bind (.writeRow (hf k r v hr) m) fun _ => .bind ih fun _ => .pure _

theorem updateRows (m : Mode) (p : ∀ k, Row k → Bool) {g : ∀ k, Row k → Row k}
    (hg : ∀ k r, p k r = true → P k (some (g k r))) (keys : List Key) :
    Confined P N (updateRows m p g keys : Prog Row Note (List Key)) := by
  refine .changeEach m (fun k r v hv => ?_) keys
  by_cases hp : p k r = true
  · rw [if_pos hp] at hv
    exact Option.some.inj hv ▸ hg k r hp
  · rw [if_neg hp] at hv
    cases hv

theorem deleteWhere (p : ∀ k, Row k → Bool) (hp : ∀ k r, p k r = true → P k none) :
    Confined P N (deleteWhere p : Prog Row Note (List Key)) := by
  refine .bind (.select _) fun seen => .changeEach _ (fun k r v hv => ?_) seen
  by_cases hr : p k r = true
  · rw [if_pos hr] at hv
    exact Option.some.inj hv ▸ hp k r hr
  · rw [if_neg hr] at hv
    cases hv

theorem insertRow {k : Key} {r : Row k} (hr : P k (some r)) :
    Confined P N (insertRow k r : Prog Row Note Bool) := by
  refine .bind (.lockRow k _) fun _ => .bind (.select _) fun now => ?_
  split
  · exact .pure _
  · exact .bind (.writeRow hr _) fun _ => .pure _

omit [DecidableEq Key] in
theorem imp {N' : List Note → Prop} {p : Prog Row Note α} (hp : Confined P N p)
    (hN : ∀ notes, N notes → N' notes) : Confined P N' p := by
  induction p with
  | ret a => exact trivial
  | look next ih => exact fun db => ih db (hp db)
  | lock k m next ih => exact ih hp
  | write k m v next ih => exact ⟨hp.1, ih hp.2⟩
  | commit notes next ih => exact fun db => ⟨hN _ (hp db).1, ih db (hp db).2⟩
  | rollback next ih => exact ih hp
  | choose next ih => exact fun n => ih n (hp n)

end Confined

/-- What `P` allows for a part of the tables, said of all of them. -/
def Widened {Extra : Type} {More : Extra → Type} (P : ∀ k, Option (Row k) → Prop) :
    ∀ k, Option (Both Row More k) → Prop
  | .inl k, v => P k v
  | .inr _, _ => False

theorem Confined.lift {Extra Note' : Type} {More : Extra → Type}
    {render : List Note → List Note'} {N' : List Note' → Prop} {p : Prog Row Note α}
    (hp : Confined P N p) (hN : ∀ notes, N notes → N' (render notes)) :
    Confined (Widened P) N' (lift render p : Prog (Both Row More) Note' α) := by
  induction p with
  | ret a => exact trivial
  | look next ih => exact fun db => ih _ (hp _)
  | lock k m next ih => exact ih hp
  | write k m v next ih => exact ⟨hp.1, ih hp.2⟩
  | commit notes next ih => exact fun db => ⟨hN _ (hp _).1, ih _ (hp _).2⟩
  | rollback next ih => exact ih hp
  | choose next ih => exact fun n => ih n (hp n)

theorem sparing_lift {Extra Note' : Type} {More : Extra → Type}
    {render : List Note → List Note'} {p : Prog Row Note α} (hp : Sparing (fun _ => True) p) :
    Sparing (fun _ => True) (lift render p : Prog (Both Row More) Note' α) := by
  induction p with
  | ret a => exact trivial
  | look next ih => exact fun db => ih _ (hp _)
  | lock k m next ih => exact ih hp
  | write k m v next ih => exact ⟨trivial, ih hp.2⟩
  | commit => exact absurd hp not_false
  | rollback => exact absurd hp not_false
  | choose next ih => exact fun n => ih n (hp n)

/-- The rows that the transaction sees otherwise than before are as `P` allows. -/
def Altered (P : ∀ k, Option (Row k) → Prop) (t t' : Tx Row) : Prop :=
  ∀ db k, (t'.visible db).lookup k = (t.visible db).lookup k ∨ P k ((t'.visible db).lookup k)

variable {t t' : Tx Row}

theorem Altered.refl : Altered P t t := fun _ _ => .inl rfl

theorem Altered.write {k : Key} {v : Option (Row k)} (h : Altered P t t') (m : Mode) (hv : P k v) :
    Altered P t (t'.write k m v) := by
  intro db k'
  rw [Tx.visible_write]
  by_cases hk : k' = k
  · subst hk
    rw [lookup_set_self]
    exact .inr hv
  · rw [lookup_set_ne hk]
    exact h db k'

variable {C : Contract Row Note} {i : Nat} {w : World Row Note}

/-- If a contract allows every commit of changes of the kind, such a program keeps it. -/
theorem wp_confined (publishes : ∀ {t w notes}, Altered P {} t → N notes → C.inv w →
      Publishes C i t notes w)
    {p : Prog Row Note α} (hp : Confined P N p) (ht : Altered P {} t) :
    wp C i (fun _ _ _ => True) p t w := by
  induction p generalizing t w with
  | ret a => exact trivial
  | look next ih => exact fun w' _ _ => ih _ (hp _) ht
  | lock k m next ih => exact fun w' _ _ => ih hp ht
  | write k m v next ih => exact fun w' _ _ _ => ih hp.2 (ht.write m hp.1)
  | commit notes next ih =>
    exact fun w' _ hi _ => ⟨publishes ht (hp _).1 hi, ih _ (hp _).2 .refl⟩
  | rollback next ih => exact ih hp .refl
  | choose next ih => exact fun n => ih n (hp n) ht

/-- The same for a part of a transaction. -/
theorem wp_part {p : Prog Row Note α} (hs : Sparing (fun _ => True) p) (hp : Confined P N p)
    {Q : α → Tx Row → World Row Note → Prop}
    (h : ∀ a t' w', Rely C i t w w' → t.held ⊆ t'.held → Altered P t t' → Q a t' w') :
    wp C i Q p t w := by
  have hwp : ∀ {t₀ : Tx Row} {w₀ : World Row Note}, Rely C i t w w₀ → t.held ⊆ t₀.held →
      Altered P t t₀ → wp C i Q p t₀ w₀ := by
    induction p with
    | ret a => exact fun hr hheld halt => h a _ _ hr hheld halt
    | look next ih =>
      exact fun hr hheld halt w₁ hr₁ _ =>
        ih _ (hs _) (hp _) (hr.trans (hr₁.mono fun _ hx => hheld hx)) hheld halt
    | lock k m next ih =>
      exact fun hr hheld halt w₁ hr₁ _ => ih hs hp (hr.trans (hr₁.mono fun _ hx => hheld hx))
        (fun _ hx => List.mem_cons_of_mem _ (hheld hx)) halt
    | write k m v next ih =>
      exact fun hr hheld halt w₁ hr₁ _ _ => ih hs.2 hp.2 (hr.trans (hr₁.mono fun _ hx => hheld hx))
        (fun _ hx => List.mem_cons_of_mem _ (hheld hx)) (halt.write m hp.1)
    | commit => exact absurd hs not_false
    | rollback => exact absurd hs not_false
    | choose next ih => exact fun hr hheld halt n => ih n (hs n) (hp n) hr hheld halt
  exact hwp .refl (List.Subset.refl _) .refl

end ConfinedWrites
