import LexiGo.ReadCommitted.Interleaving
import Mathlib.Logic.Relation

/-! Reasoning about one request while the others run.
A contract says what every commit may do to the committed state. `wp` asks of a
program that its own commits keep the contract, and lets it assume between any
two of its steps that the commits of the others do, that they change no row it
has locked, and that they respect what its locks stand for. If every program
meets its `wp`, every interleaving is a sequence of commits of the contract. -/
namespace CommitContract
open RowStore TransactionProgram Interleaving

variable {Key : Type} [DecidableEq Key] {Row : Key → Type} {Note Op α β : Type}

/-- `guard k m` is what the holder of lock `m` on `k` may expect of the commits
of others besides the row staying as it is. `allow` restricts the runs that the
contract is about. -/
structure Contract (Row : Key → Type) (Note : Type) where
  inv : World Row Note → Prop
  step : Nat → List Note → World Row Note → World Row Note → Prop
  allow : Nat → List Note → World Row Note → World Row Note → Prop := fun _ _ _ _ => True
  guard : Key → Mode → World Row Note → World Row Note → Prop := fun _ _ _ _ => True

/-- One commit of request `j` as the contract permits it. -/
structure Commit (C : Contract Row Note) (j : Nat) (notes : List Note)
    (w w' : World Row Note) : Prop where
  before : C.inv w
  after : C.inv w'
  step : C.step j notes w w'
  allow : C.allow j notes w w'
  log : w'.log = notes.map (fun n => (j, n)) ++ w.log

/-- A commit of somebody else, seen by request `i` with transaction `t` open. -/
structure Other (C : Contract Row Note) (i : Nat) (t : Tx Row) (w w' : World Row Note) : Prop where
  author : ∃ j notes, j ≠ i ∧ Commit C j notes w w'
  rows : ∀ k m, (k, m) ∈ t.held → m ≠ .keyShare → w'.db.lookup k = w.db.lookup k
  guard : ∀ k m, (k, m) ∈ t.held → C.guard k m w w'

def Rely (C : Contract Row Note) (i : Nat) (t : Tx Row) :
    World Row Note → World Row Note → Prop :=
  Relation.ReflTransGen (Other C i t)

def Stable (C : Contract Row Note) (i : Nat) (t : Tx Row) (P : World Row Note → Prop) : Prop :=
  ∀ w w', Other C i t w w' → P w → P w'

variable {C : Contract Row Note} {i : Nat} {t : Tx Row} {w w' w'' : World Row Note}

theorem Other.mono {t' : Tx Row} (sub : ∀ p ∈ t.held, p ∈ t'.held)
    (h : Other C i t' w w') : Other C i t w w' :=
  ⟨h.author, fun k m hk => h.rows k m (sub _ hk), fun k m hk => h.guard k m (sub _ hk)⟩

theorem Rely.refl : Rely C i t w w := Relation.ReflTransGen.refl

theorem Rely.trans (h : Rely C i t w w') (h' : Rely C i t w' w'') : Rely C i t w w'' :=
  Relation.ReflTransGen.trans h h'

theorem Rely.mono {t' : Tx Row} (sub : ∀ p ∈ t.held, p ∈ t'.held)
    (h : Rely C i t' w w') : Rely C i t w w' :=
  Relation.ReflTransGen.mono (fun _ _ => Other.mono sub) _ _ h

theorem Stable.rely {P : World Row Note → Prop} (stable : Stable C i t P)
    (h : Rely C i t w w') (hp : P w) : P w' := by
  induction h with
  | refl => exact hp
  | tail _ hstep ih => exact stable _ _ hstep ih

theorem Rely.inv (h : Rely C i t w w') (hw : C.inv w) : C.inv w' := by
  have stable : Stable C i t C.inv := by
    intro w w' ho _
    obtain ⟨j, notes, -, hc⟩ := ho.author
    exact hc.after
  exact stable.rely h hw

/-- A row that is locked for more than its key stays as it is. -/
theorem Rely.row (h : Rely C i t w w') {k : Key} {m : Mode} (hk : (k, m) ∈ t.held)
    (hm : m ≠ .keyShare) : w'.db.lookup k = w.db.lookup k := by
  have stable : Stable C i t (fun v => v.db.lookup k = w.db.lookup k) := by
    intro v v' ho heq
    rw [ho.rows k m hk hm, heq]
  exact stable.rely h rfl

theorem Rely.kept (h : Rely C i t w w') {k : Key} (hk : t.holds k) {o : Option (Row k)}
    (ho : w.db.lookup k = o) : w'.db.lookup k = o := by
  obtain ⟨m, hm, hmem⟩ := hk
  rw [h.row hmem hm, ho]

/-- A commit of `i` keeps the contract, whatever the others hold. -/
structure Publishes (C : Contract Row Note) (i : Nat) (t : Tx Row) (notes : List Note)
    (w : World Row Note) : Prop where
  inv : C.inv (w.publish i t notes)
  step : C.step i notes w (w.publish i t notes)
  guard : ∀ k m, t.admits k m → C.guard k m w (w.publish i t notes)

/-- The others may act before each step that reads, waits or commits. -/
def wp (C : Contract Row Note) (i : Nat) (Q : α → Tx Row → World Row Note → Prop) :
    Prog Row Note α → Tx Row → World Row Note → Prop
  | .ret a, t, w => Q a t w
  | .look next, t, w =>
    ∀ w', Rely C i t w w' → C.inv w' → wp C i Q (next (t.visible w'.db)) t w'
  | .lock k m next, t, w =>
    ∀ w', Rely C i t w w' → C.inv w' → wp C i Q next (t.hold k m) w'
  | .write k m v next, t, w =>
    ∀ w', Rely C i t w w' → C.inv w' → m.writes → wp C i Q next (t.write k m v) w'
  | .commit notes next, t, w =>
    ∀ w', Rely C i t w w' → C.inv w' →
      C.allow i (notes (t.visible w'.db)) w' (w'.publish i t (notes (t.visible w'.db))) →
      Publishes C i t (notes (t.visible w'.db)) w' ∧
        wp C i Q (next (t.visible w'.db)) {} (w'.publish i t (notes (t.visible w'.db)))
  | .rollback next, _, w => wp C i Q next {} w
  | .choose next, t, w => ∀ n, wp C i Q (next n) t w

variable {Q : α → Tx Row → World Row Note → Prop}

@[simp] theorem wp_ret (a : α) : wp C i Q (.ret a) t w ↔ Q a t w := Iff.rfl

@[simp] theorem wp_pure (a : α) : wp C i Q (pure a) t w ↔ Q a t w := Iff.rfl

theorem wp_bind {Q : β → Tx Row → World Row Note → Prop} (p : Prog Row Note α)
    (f : α → Prog Row Note β) :
    wp C i Q (p >>= f) t w ↔ wp C i (fun a t w => wp C i Q (f a) t w) p t w := by
  rw [Prog.bind_def]
  induction p generalizing t w with
  | ret a => exact Iff.rfl
  | look next ih => simp only [Prog.bind, wp, ih]
  | lock k m next ih => simp only [Prog.bind, wp, ih]
  | write k m v next ih => simp only [Prog.bind, wp, ih]
  | commit notes next ih => simp only [Prog.bind, wp, ih]
  | rollback next ih => simp only [Prog.bind, wp, ih]
  | choose next ih => simp only [Prog.bind, wp, ih]

theorem wp_mono {Q' : α → Tx Row → World Row Note → Prop} {p : Prog Row Note α}
    (himp : ∀ a t w, Q a t w → Q' a t w) (h : wp C i Q p t w) : wp C i Q' p t w := by
  induction p generalizing t w with
  | ret a => exact himp _ _ _ h
  | look next ih => exact fun w' hr hi => ih _ (h w' hr hi)
  | lock k m next ih => exact fun w' hr hi => ih (h w' hr hi)
  | write k m v next ih => exact fun w' hr hi hm => ih (h w' hr hi hm)
  | commit notes next ih =>
    exact fun w' hr hi ha => ⟨(h w' hr hi ha).1, ih _ (h w' hr hi ha).2⟩
  | rollback next ih => exact ih h
  | choose next ih => exact fun n => ih n (h n)

theorem wp_and {Q' : α → Tx Row → World Row Note → Prop} {p : Prog Row Note α}
    (h : wp C i Q p t w) (h' : wp C i Q' p t w) : wp C i (fun a t w => Q a t w ∧ Q' a t w) p t w := by
  induction p generalizing t w with
  | ret a => exact ⟨h, h'⟩
  | look next ih => exact fun v hr hi => ih _ (h v hr hi) (h' v hr hi)
  | lock k m next ih => exact fun v hr hi => ih (h v hr hi) (h' v hr hi)
  | write k m v next ih => exact fun v hr hi hm => ih (h v hr hi hm) (h' v hr hi hm)
  | commit notes next ih =>
    exact fun v hr hi ha => ⟨(h v hr hi ha).1, ih _ (h v hr hi ha).2 (h' v hr hi ha).2⟩
  | rollback next ih => exact ih h h'
  | choose next ih => exact fun n => ih n (h n) (h' n)

end CommitContract
