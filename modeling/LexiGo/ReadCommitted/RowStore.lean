import Mathlib.Data.List.AList

/-! A store of typed rows and the changes one open transaction has made to it.
The type of a row depends on its key, so that one finite map holds every table.
A transaction reads its own writes over what others have committed: this is
what a statement of a READ COMMITTED transaction sees when it starts. -/
namespace RowStore

variable {Key : Type} [DecidableEq Key] {Row : Key → Type}

abbrev Db (Row : Key → Type) := AList Row

/-- PostgreSQL's four strengths of row lock. -/
inductive Mode
  | keyShare
  | share
  | noKeyUpdate
  | update
  deriving DecidableEq

def Mode.conflicts : Mode → Mode → Bool
  | .keyShare, .update => true
  | .keyShare, _ => false
  | .share, .keyShare => false
  | .share, .share => false
  | .share, _ => true
  | .noKeyUpdate, .keyShare => false
  | .noKeyUpdate, _ => true
  | .update, _ => true

theorem conflicts_comm (m n : Mode) : m.conflicts n = n.conflicts m := by
  cases m <;> cases n <;> rfl

/-- A transaction that may write a row keeps every lock but KEY SHARE away. -/
def Mode.writes (m : Mode) : Prop := m = .noKeyUpdate ∨ m = .update

theorem writes_conflicts {m n : Mode} (hm : m.writes) (hn : n ≠ .keyShare) :
    m.conflicts n = true := by
  rcases hm with rfl | rfl <;> cases n <;> simp_all [Mode.conflicts]

/-- `none` deletes the row. -/
def set (k : Key) (v : Option (Row k)) (db : Db Row) : Db Row :=
  match v with
  | some r => db.insert k r
  | none => db.erase k

@[simp] theorem lookup_set_self (k : Key) (v : Option (Row k)) (db : Db Row) :
    (set k v db).lookup k = v := by
  cases v <;> simp [set]

theorem lookup_set_ne {k k' : Key} (h : k' ≠ k) (v : Option (Row k)) (db : Db Row) :
    (set k v db).lookup k' = db.lookup k' := by
  cases v with
  | none => exact AList.lookup_erase_ne h
  | some r => exact AList.lookup_insert_ne h

theorem mem_keys_iff {db : Db Row} {k : Key} : k ∈ db.keys ↔ ∃ r, db.lookup k = some r := by
  rw [← AList.mem_keys, ← AList.lookup_isSome, Option.isSome_iff_exists]

theorem mem_keys_of_lookup {db : Db Row} {k : Key} {r : Row k} (h : db.lookup k = some r) :
    k ∈ db.keys := mem_keys_iff.mpr ⟨r, h⟩

/-- The keys of the rows that satisfy `p`, in no particular order. -/
def rowsWhere (p : ∀ k, Row k → Bool) (db : Db Row) : List Key :=
  db.keys.filter fun k => (db.lookup k).any (p k)

theorem mem_rowsWhere {p : ∀ k, Row k → Bool} {db : Db Row} {k : Key} :
    k ∈ rowsWhere p db ↔ ∃ r, db.lookup k = some r ∧ p k r = true := by
  rw [rowsWhere, List.mem_filter, mem_keys_iff, Option.any_eq_true]
  constructor
  · rintro ⟨-, r, hr, hp⟩
    exact ⟨r, hr, hp⟩
  · rintro ⟨r, hr, hp⟩
    exact ⟨⟨r, hr⟩, r, hr, hp⟩

theorem rowsWhere_nodup (p : ∀ k, Row k → Bool) (db : Db Row) : (rowsWhere p db).Nodup :=
  db.keys_nodup.filter _

/-- The part of the database that an open transaction owns: its uncommitted
writes, newest first, and the locks it holds. -/
structure Tx (Row : Key → Type) where
  own : List (Σ k, Option (Row k)) := []
  held : List (Key × Mode) := []

def overlay : List (Σ k, Option (Row k)) → Db Row → Db Row
  | [], db => db
  | ⟨k, v⟩ :: rest, db => set k v (overlay rest db)

namespace Tx
variable (t : Tx Row)

def visible (db : Db Row) : Db Row := overlay t.own db

def hold (k : Key) (m : Mode) : Tx Row := { t with held := (k, m) :: t.held }

def write (k : Key) (m : Mode) (v : Option (Row k)) : Tx Row where
  own := ⟨k, v⟩ :: t.own
  held := (k, m) :: t.held

def wrote (k : Key) : Prop := k ∈ t.own.map Sigma.fst

/-- Nothing is written without a lock that keeps other writers away. -/
def Covered : Prop := ∀ k, t.wrote k → ∃ m, m.writes ∧ (k, m) ∈ t.held

/-- The row is locked for more than its key. -/
def holds (k : Key) : Prop := ∃ m, m ≠ .keyShare ∧ (k, m) ∈ t.held

/-- Another transaction may hold `m` on `k` while `t` is open. -/
def admits (k : Key) (m : Mode) : Prop := ∀ n, (k, n) ∈ t.held → n.conflicts m = false

instance (k : Key) (m : Mode) : Decidable (t.admits k m) :=
  decidable_of_iff (∀ p ∈ t.held, p.1 = k → p.2.conflicts m = false) <| by
    constructor
    · intro h n hn
      exact h _ hn rfl
    · rintro h ⟨k', n⟩ hp rfl
      exact h n hp

@[simp] theorem visible_empty (db : Db Row) : ({} : Tx Row).visible db = db := rfl

@[simp] theorem visible_hold (k : Key) (m : Mode) (db : Db Row) :
    (t.hold k m).visible db = t.visible db := rfl

@[simp] theorem visible_write (k : Key) (m : Mode) (v : Option (Row k)) (db : Db Row) :
    (t.write k m v).visible db = set k v (t.visible db) := rfl

omit [DecidableEq Key] in
@[simp] theorem held_hold (k : Key) (m : Mode) : (t.hold k m).held = (k, m) :: t.held := rfl

omit [DecidableEq Key] in
@[simp] theorem held_write (k : Key) (m : Mode) (v : Option (Row k)) :
    (t.write k m v).held = (k, m) :: t.held := rfl

omit [DecidableEq Key] in
@[simp] theorem wrote_empty (k : Key) : ¬ ({} : Tx Row).wrote k := by simp [wrote]

omit [DecidableEq Key] in
@[simp] theorem wrote_hold (k k' : Key) (m : Mode) :
    (t.hold k m).wrote k' ↔ t.wrote k' := Iff.rfl

omit [DecidableEq Key] in
@[simp] theorem wrote_write (k k' : Key) (m : Mode) (v : Option (Row k)) :
    (t.write k m v).wrote k' ↔ k' = k ∨ t.wrote k' := by simp [wrote, write]

omit [DecidableEq Key] in
@[simp] theorem holds_hold (k k' : Key) (m : Mode) :
    (t.hold k m).holds k' ↔ (k' = k ∧ m ≠ .keyShare) ∨ t.holds k' := by
  constructor
  · rintro ⟨n, hn, hmem⟩
    rcases List.mem_cons.mp hmem with heq | hmem
    · cases heq
      exact Or.inl ⟨rfl, hn⟩
    · exact Or.inr ⟨n, hn, hmem⟩
  · rintro (⟨rfl, hm⟩ | ⟨n, hn, hmem⟩)
    · exact ⟨m, hm, List.mem_cons_self⟩
    · exact ⟨n, hn, List.mem_cons_of_mem _ hmem⟩

omit [DecidableEq Key] in
@[simp] theorem holds_write (k k' : Key) (m : Mode) (v : Option (Row k)) :
    (t.write k m v).holds k' ↔ (k' = k ∧ m ≠ .keyShare) ∨ t.holds k' :=
  t.holds_hold k k' m

omit [DecidableEq Key] in
theorem holds.mono {t t' : Tx Row} {k : Key} (h : t.holds k) (sub : t.held ⊆ t'.held) :
    t'.holds k := by
  obtain ⟨m, hm, hmem⟩ := h
  exact ⟨m, hm, sub hmem⟩

theorem visible_unwritten {k : Key} (h : ¬ t.wrote k) (db : Db Row) :
    (t.visible db).lookup k = db.lookup k := by
  obtain ⟨own, held⟩ := t
  induction own with
  | nil => rfl
  | cons p rest ih =>
    obtain ⟨k', v⟩ := p
    have hne : k ≠ k' := by
      intro heq
      exact h (by simp [wrote, heq])
    have hrest : ¬ Tx.wrote ⟨rest, held⟩ k := by
      intro hk
      exact h (by simpa [wrote, hne] using hk)
    change (set k' v (overlay rest db)).lookup k = db.lookup k
    rw [lookup_set_ne hne]
    exact ih hrest

/-- A row that the transaction wrote looks to it as it wrote it. -/
theorem visible_wrote {k : Key} (h : t.wrote k) (db db' : Db Row) :
    (t.visible db).lookup k = (t.visible db').lookup k := by
  obtain ⟨own, held⟩ := t
  induction own with
  | nil => exact absurd h (by simp [wrote])
  | cons p rest ih =>
    obtain ⟨k', v⟩ := p
    change (set k' v (overlay rest db)).lookup k = (set k' v (overlay rest db')).lookup k
    by_cases hk : k = k'
    · subst hk; simp
    · rw [lookup_set_ne hk, lookup_set_ne hk]
      exact ih (by simpa [wrote, hk] using h)

/-- What a transaction sees of a row depends on the committed row alone. -/
theorem visible_congr {k : Key} {db db' : Db Row} (h : db.lookup k = db'.lookup k) :
    (t.visible db).lookup k = (t.visible db').lookup k := by
  obtain ⟨own, held⟩ := t
  induction own with
  | nil => exact h
  | cons p rest ih =>
    obtain ⟨k', v⟩ := p
    change (set k' v (overlay rest db)).lookup k = (set k' v (overlay rest db')).lookup k
    by_cases hk : k = k'
    · subst hk; simp
    · rw [lookup_set_ne hk, lookup_set_ne hk]; exact ih

omit [DecidableEq Key] in
theorem covered_empty : ({} : Tx Row).Covered := by
  intro k hk
  exact absurd hk (wrote_empty k)

omit [DecidableEq Key] in
theorem Covered.hold {t : Tx Row} (h : t.Covered) (k : Key) (m : Mode) :
    (t.hold k m).Covered := by
  intro k' hk
  obtain ⟨n, hn, hheld⟩ := h k' hk
  exact ⟨n, hn, List.mem_cons_of_mem _ hheld⟩

omit [DecidableEq Key] in
theorem Covered.write {t : Tx Row} (h : t.Covered) (k : Key) {m : Mode} (hm : m.writes)
    (v : Option (Row k)) : (t.write k m v).Covered := by
  intro k' hk
  rcases (wrote_write t k k' m v).mp hk with rfl | hk
  · exact ⟨m, hm, List.mem_cons_self⟩
  · obtain ⟨n, hn, hheld⟩ := h k' hk
    exact ⟨n, hn, List.mem_cons_of_mem _ hheld⟩

omit [DecidableEq Key] in
/-- Committing a covered transaction leaves alone every row that another
transaction may have locked for more than its key. -/
theorem Covered.unwritten {t : Tx Row} (h : t.Covered) {k : Key} {m : Mode}
    (free : t.admits k m) (hm : m ≠ .keyShare) : ¬ t.wrote k := by
  intro hk
  obtain ⟨n, hn, hheld⟩ := h k hk
  have := free n hheld
  rw [writes_conflicts hn hm] at this
  cases this

end Tx
end RowStore
