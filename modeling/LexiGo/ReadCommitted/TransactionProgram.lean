import LexiGo.ReadCommitted.RowStore

/-! Programs that talk to the database statement by statement.
A program is one request: any number of transactions, one after the other, with
ordinary computation between the statements. Each constructor is one step that
other programs may come before or after. A statement that touches rows is
written with several of them: it takes its snapshot, waits for each row it has
chosen, and reads that row again once it holds it. -/
namespace TransactionProgram
open RowStore

variable {Key : Type} {Row : Key → Type} {Note α β : Type}

/-- `look` reads everything visible now, `lock` waits for a row, `write` waits
for a row and changes it, `choose` lets the environment supply a number (a
clock reading, a generated identifier, one of several rows). A commit ends the
transaction with what it sees at that moment; its notes are remarks for the
reader, and no program ever reads them. -/
inductive Prog (Row : Key → Type) (Note : Type) (α : Type) : Type
  | ret (a : α) : Prog Row Note α
  | look (next : Db Row → Prog Row Note α) : Prog Row Note α
  | lock (k : Key) (m : Mode) (next : Prog Row Note α) : Prog Row Note α
  | write (k : Key) (m : Mode) (v : Option (Row k)) (next : Prog Row Note α) : Prog Row Note α
  | commit (notes : Db Row → List Note) (next : Db Row → Prog Row Note α) : Prog Row Note α
  | rollback (next : Prog Row Note α) : Prog Row Note α
  | choose (next : Nat → Prog Row Note α) : Prog Row Note α

namespace Prog

def bind : Prog Row Note α → (α → Prog Row Note β) → Prog Row Note β
  | ret a, f => f a
  | look next, f => look fun db => (next db).bind f
  | lock k m next, f => lock k m (next.bind f)
  | write k m v next, f => write k m v (next.bind f)
  | commit notes next, f => commit notes fun db => (next db).bind f
  | rollback next, f => rollback (next.bind f)
  | choose next, f => choose fun n => (next n).bind f

instance : Monad (Prog Row Note) where
  pure := ret
  bind := bind

theorem pure_def (a : α) : (pure a : Prog Row Note α) = ret a := rfl

theorem bind_def (p : Prog Row Note α) (f : α → Prog Row Note β) : p >>= f = p.bind f := rfl

theorem bind_assoc {γ : Type} (p : Prog Row Note α) (f : α → Prog Row Note β)
    (g : β → Prog Row Note γ) : p >>= f >>= g = p >>= fun a => f a >>= g := by
  simp only [bind_def]
  induction p with
  | ret a => rfl
  | look next ih => exact congrArg look (funext ih)
  | lock k m next ih => exact congrArg (lock k m) ih
  | write k m v next ih => exact congrArg (write k m v) ih
  | commit notes next ih => exact congrArg (commit notes) (funext ih)
  | rollback next ih => exact congrArg rollback ih
  | choose next ih => exact congrArg choose (funext ih)

end Prog

variable [DecidableEq Key]

/-- A statement that only reads. -/
def select (f : Db Row → α) : Prog Row Note α := .look fun db => .ret (f db)

def lockRow (k : Key) (m : Mode) : Prog Row Note Unit := .lock k m (.ret ())

def writeRow (k : Key) (m : Mode) (v : Option (Row k)) : Prog Row Note Unit :=
  .write k m v (.ret ())

def commit (notes : List Note) : Prog Row Note Unit :=
  .commit (fun _ => notes) fun _ => .ret ()

/-- A query that is a transaction of its own: one snapshot, and it is over. -/
def query (f : Db Row → α) (notes : α → List Note) : Prog Row Note α :=
  .commit (fun db => notes (f db)) fun db => .ret (f db)

def rollback : Prog Row Note Unit := .rollback (.ret ())

def choose : Prog Row Note Nat := .choose .ret

/-- Leaving a function with its transaction still open rolls it back. -/
def leave (a : α) : Prog Row Note α := do
  rollback
  return a

/-- `if err != nil { return err }` -/
def andThen {ε : Type} (p : Prog Row Note (Except ε α)) (f : α → Prog Row Note (Except ε β)) :
    Prog Row Note (Except ε β) := do
  match ← p with
  | .error e => return .error e
  | .ok a => f a

/-- `SELECT … WHERE key = k AND p FOR <m>`: a row that no longer satisfies `p`
when the lock arrives is not returned. -/
def selectFor (k : Key) (m : Mode) (p : Row k → Bool) : Prog Row Note (Option (Row k)) := do
  let seen ← select fun db => db.lookup k
  if (seen.filter p).isSome then
    lockRow k m
    select fun db => (db.lookup k).filter p
  else
    return none

/-- `UPDATE` of the row with a given key, returning the row as it was. -/
def updateRow (k : Key) (m : Mode) (p : Row k → Bool) (g : Row k → Row k) :
    Prog Row Note (Option (Row k)) := do
  match ← selectFor k m p with
  | none => return none
  | some r =>
    writeRow k m (some (g r))
    return some r

/-- What `UPDATE` and `DELETE` do to the rows chosen in their snapshot: each is
locked, read again and changed to what `f` makes of it, unless `f` rejects it as
it is now. The result lists the rows changed. -/
def changeEach (m : Mode) (f : ∀ k, Row k → Option (Option (Row k))) :
    List Key → Prog Row Note (List Key)
  | [] => return []
  | k :: rest => do
    lockRow k m
    let now ← select fun db => db.lookup k
    match now.bind (f k) with
    | none => changeEach m f rest
    | some v =>
      writeRow k m v
      let done ← changeEach m f rest
      return k :: done

def updateRows (m : Mode) (p : ∀ k, Row k → Bool) (g : ∀ k, Row k → Row k) :
    List Key → Prog Row Note (List Key) :=
  changeEach m fun k r => if p k r then some (some (g k r)) else none

/-- `DELETE … WHERE p`, with the snapshot it takes. -/
def deleteWhere (p : ∀ k, Row k → Bool) : Prog Row Note (List Key) := do
  let seen ← select (rowsWhere p)
  changeEach .update (fun k r => if p k r then some none else none) seen

/-- `INSERT` of a row with a unique key: waits for whoever holds that key, then
succeeds unless a row is there. -/
def insertRow (k : Key) (r : Row k) : Prog Row Note Bool := do
  lockRow k .update
  let now ← select fun db => db.lookup k
  if now.isSome then
    return false
  else
    writeRow k .update (some r)
    return true

end TransactionProgram
