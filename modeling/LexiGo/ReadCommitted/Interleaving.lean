import LexiGo.ReadCommitted.TransactionProgram

/-! Any number of programs running against one database.
A scheduler picks which request arrives, which one takes its next step and
which one is lost. A step that needs a lock somebody else holds in a
conflicting mode cannot be taken. Only a commit changes what others see. -/
namespace Interleaving
open RowStore TransactionProgram

variable {Key : Type} [DecidableEq Key] {Row : Key → Type} {Note Op α : Type}

/-- The committed rows, and what the commits so far have noted, newest first,
each under the number of the request that committed. -/
structure World (Row : Key → Type) (Note : Type) where
  db : Db Row
  log : List (Nat × Note) := []

def World.publish (w : World Row Note) (i : Nat) (t : Tx Row) (notes : List Note) :
    World Row Note where
  db := t.visible w.db
  log := notes.map (fun n => (i, n)) ++ w.log

/-- One request: what is left of it, or `none` once it is lost to an error or a
crash. `born` is the world it found on arrival. -/
structure Proc (Row : Key → Type) (Note Op α : Type) where
  op : Op
  born : World Row Note
  tx : Tx Row
  code : Option (Prog Row Note α)

structure Config (Row : Key → Type) (Note Op α : Type) where
  world : World Row Note
  procs : List (Proc Row Note Op α) := []

inductive Action (Op : Type)
  | start (op : Op)
  | advance (i : Nat) (choice : Nat)
  | crash (i : Nat)

/-- No other request stands in the way of `i` locking `k`. -/
def grantable (c : Config Row Note Op α) (i : Nat) (k : Key) (m : Mode) : Bool :=
  c.procs.zipIdx.all fun (p, j) => j = i || p.tx.admits k m

theorem grantable_admits {c : Config Row Note Op α} {i j : Nat} {k : Key} {m : Mode}
    (h : grantable c i k m = true) (hj : j ≠ i) {p : Proc Row Note Op α}
    (hp : c.procs[j]? = some p) : p.tx.admits k m := by
  have hmem : (p, j) ∈ c.procs.zipIdx := List.mem_zipIdx_iff_getElem?.mpr hp
  have := List.all_eq_true.mp h (p, j) hmem
  simpa [hj] using this

namespace Config
variable (c : Config Row Note Op α)

def setProc (i : Nat) (p : Proc Row Note Op α) : Config Row Note Op α :=
  { c with procs := c.procs.set i p }

def spawn (program : Op → Prog Row Note α) (op : Op) : Config Row Note Op α :=
  { c with procs := c.procs ++ [⟨op, c.world, {}, some (program op)⟩] }

end Config

def advance (c : Config Row Note Op α) (i : Nat) (choice : Nat) (p : Proc Row Note Op α) :
    Prog Row Note α → Option (Config Row Note Op α)
  | .ret _ => none
  | .look next => some (c.setProc i { p with code := some (next (p.tx.visible c.world.db)) })
  | .lock k m next =>
    if grantable c i k m then
      some (c.setProc i { p with tx := p.tx.hold k m, code := some next })
    else none
  | .write k m v next =>
    if grantable c i k m && (m = .noKeyUpdate || m = .update) then
      some (c.setProc i { p with tx := p.tx.write k m v, code := some next })
    else none
  | .commit notes next =>
    let db := p.tx.visible c.world.db
    some { world := c.world.publish i p.tx (notes db),
           procs := c.procs.set i { p with tx := {}, code := some (next db) } }
  | .rollback next => some (c.setProc i { p with tx := {}, code := some next })
  | .choose next => some (c.setProc i { p with code := some (next choice) })

def step (program : Op → Prog Row Note α) (c : Config Row Note Op α) :
    Action Op → Option (Config Row Note Op α)
  | .start op => some (c.spawn program op)
  | .advance i choice =>
    match c.procs[i]? with
    | some p =>
      match p.code with
      | some code => advance c i choice p code
      | none => none
    | none => none
  | .crash i =>
    match c.procs[i]? with
    | some p => some (c.setProc i { p with tx := {}, code := none })
    | none => none

/-- The notes an action commits, and who commits them. -/
def published (c : Config Row Note Op α) : Action Op → Option (Nat × List Note)
  | .advance i _ =>
    match c.procs[i]? with
    | some ⟨_, _, tx, some (.commit notes _)⟩ => some (i, notes (tx.visible c.world.db))
    | _ => none
  | _ => none

/-- The answer of a request that has run to its end. -/
def Config.answer (c : Config Row Note Op α) (i : Nat) : Option α :=
  match c.procs[i]? with
  | some ⟨_, _, _, some (.ret a)⟩ => some a
  | _ => none

/-- Runs whose every commit satisfies `allow`. -/
inductive Run (program : Op → Prog Row Note α)
    (allow : Nat → List Note → World Row Note → World Row Note → Prop) :
    Config Row Note Op α → Config Row Note Op α → Prop
  | refl (c) : Run program allow c c
  | tail {c c₁ c₂} (a : Action Op) : Run program allow c c₁ → step program c₁ a = some c₂ →
      (∀ i notes, published c₁ a = some (i, notes) → allow i notes c₁.world c₂.world) →
      Run program allow c c₂

theorem Run.trans {program : Op → Prog Row Note α}
    {allow : Nat → List Note → World Row Note → World Row Note → Prop}
    {c c₁ c₂ : Config Row Note Op α} (h : Run program allow c c₁)
    (h' : Run program allow c₁ c₂) : Run program allow c c₂ := by
  induction h' with
  | refl => exact h
  | tail a _ hs ha ih => exact .tail a ih hs ha

theorem Run.weaken {program : Op → Prog Row Note α}
    {allow allow' : Nat → List Note → World Row Note → World Row Note → Prop}
    (himp : ∀ i notes w w', allow i notes w w' → allow' i notes w w')
    {c c' : Config Row Note Op α} (h : Run program allow c c') : Run program allow' c c' := by
  induction h with
  | refl => exact .refl _
  | tail a _ hs ha ih => exact .tail a ih hs fun i notes hp => himp _ _ _ _ (ha i notes hp)

/-- Follows a schedule, as far as its commits satisfy `allow`. -/
def exec (program : Op → Prog Row Note α)
    (allow : Nat → List Note → World Row Note → World Row Note → Prop)
    [∀ i notes w w', Decidable (allow i notes w w')] (c : Config Row Note Op α) :
    List (Action Op) → Option (Config Row Note Op α)
  | [] => some c
  | a :: rest => (step program c a).bind fun c' =>
    if ∀ p ∈ published c a, allow p.1 p.2 c.world c'.world then exec program allow c' rest else none

/-- Steps of request `i`, each with what it is given should it choose. -/
def steps (i : Nat) (choices : List Nat) : List (Action Op) := choices.map (.advance i)

theorem Run.of_exec {program : Op → Prog Row Note α}
    {allow : Nat → List Note → World Row Note → World Row Note → Prop}
    [∀ i notes w w', Decidable (allow i notes w w')] {c c' : Config Row Note Op α}
    (as : List (Action Op)) (h : exec program allow c as = some c') : Run program allow c c' := by
  induction as generalizing c with
  | nil =>
    cases h
    exact .refl _
  | cons a rest ih =>
    obtain ⟨c₁, hs, hrest⟩ := Option.bind_eq_some_iff.mp h
    by_cases ok : ∀ p ∈ published c a, allow p.1 p.2 c.world c₁.world
    · rw [if_pos ok] at hrest
      have first : Run program allow c c₁ :=
        .tail a (.refl c) hs (fun i notes hp => ok (i, notes) hp)
      exact first.trans (ih hrest)
    · rw [if_neg ok] at hrest
      cases hrest

/-- What one step makes of the request that takes it. -/
def Proc.next (p : Proc Row Note Op α) (db : Db Row) (choice : Nat) :
    Prog Row Note α → Proc Row Note Op α
  | .ret _ => p
  | .look next => { p with code := some (next (p.tx.visible db)) }
  | .lock k m next => { p with tx := p.tx.hold k m, code := some next }
  | .write k m v next => { p with tx := p.tx.write k m v, code := some next }
  | .commit _ next => { p with tx := {}, code := some (next (p.tx.visible db)) }
  | .rollback next => { p with tx := {}, code := some next }
  | .choose next => { p with code := some (next choice) }

def Proc.lose (p : Proc Row Note Op α) : Proc Row Note Op α := { p with tx := {}, code := none }

theorem advance_procs {c c' : Config Row Note Op α} {i choice : Nat} {p : Proc Row Note Op α}
    {code : Prog Row Note α} (hs : advance c i choice p code = some c') :
    c'.procs = c.procs.set i (p.next c.world.db choice code) := by
  cases code with
  | ret a => cases hs
  | look | rollback | choose | commit => cases hs; rfl
  | lock | write =>
    simp only [advance, Option.ite_none_right_eq_some] at hs
    cases hs.2
    rfl

omit [DecidableEq Key] in
theorem getElem?_set_cases {procs : List (Proc Row Note Op α)} {p q : Proc Row Note Op α}
    {i j : Nat} (h : (procs.set i q)[j]? = some p) :
    (j = i ∧ p = q) ∨ (j ≠ i ∧ procs[j]? = some p) := by
  by_cases hj : j = i
  · subst hj
    rw [List.getElem?_set] at h
    split_ifs at h <;> simp_all
  · rw [List.getElem?_set_ne (Ne.symm hj)] at h
    exact Or.inr ⟨hj, h⟩

/-- How a request came to be what it is after a step. -/
inductive Moved (program : Op → Prog Row Note α) (c : Config Row Note Op α) (j : Nat) :
    Proc Row Note Op α → Prop
  | same {p} : c.procs[j]? = some p → Moved program c j p
  | arrived (op : Op) : c.procs[j]? = none → Moved program c j ⟨op, c.world, {}, some (program op)⟩
  | went {p code} (choice : Nat) : c.procs[j]? = some p → p.code = some code →
      Moved program c j (p.next c.world.db choice code)
  | lost {p} : c.procs[j]? = some p → Moved program c j p.lose

theorem step_moved {program : Op → Prog Row Note α} {c c' : Config Row Note Op α} {a : Action Op}
    (hs : step program c a = some c') {j : Nat} {p' : Proc Row Note Op α}
    (hp : c'.procs[j]? = some p') : Moved program c j p' := by
  cases a with
  | start op =>
    cases hs
    by_cases hj : j < c.procs.length
    · exact .same (by simpa [Config.spawn, List.getElem?_append_left hj] using hp)
    · have hle := Nat.le_of_not_lt hj
      have hp : [(⟨op, c.world, {}, some (program op)⟩ : Proc Row Note Op α)][
          j - c.procs.length]? = some p' := by
        simpa [Config.spawn, List.getElem?_append_right hle] using hp
      have hmem := List.mem_of_getElem? hp
      rw [List.mem_singleton] at hmem
      subst hmem
      exact .arrived op (List.getElem?_eq_none hle)
  | advance i choice =>
    cases hq : c.procs[i]? with
    | none => simp [step, hq] at hs
    | some q =>
      cases hcode : q.code with
      | none => simp [step, hq, hcode] at hs
      | some code =>
        simp only [step, hq, hcode] at hs
        rw [advance_procs hs] at hp
        rcases getElem?_set_cases hp with ⟨rfl, rfl⟩ | ⟨-, hp⟩
        · exact .went choice hq hcode
        · exact .same hp
  | crash i =>
    cases hq : c.procs[i]? with
    | none => simp [step, hq] at hs
    | some q =>
      simp only [step, hq, Option.some.injEq] at hs
      subst hs
      rcases getElem?_set_cases hp with ⟨rfl, rfl⟩ | ⟨-, hp⟩
      · exact .lost hq
      · exact .same hp

/-- A property of single requests that their steps keep. -/
structure Local (program : Op → Prog Row Note α) (P : Proc Row Note Op α → Prop) : Prop where
  arrives : ∀ op w, P ⟨op, w, {}, some (program op)⟩
  goes : ∀ p code db choice, P p → p.code = some code → P (p.next db choice code)
  lost : ∀ p, P p → P p.lose

theorem Local.moved {program : Op → Prog Row Note α} {P : Proc Row Note Op α → Prop}
    (loc : Local program P) {c : Config Row Note Op α} (hc : ∀ (j : Nat) p, c.procs[j]? = some p → P p)
    {j : Nat} {p' : Proc Row Note Op α} (h : Moved program c j p') : P p' := by
  cases h with
  | same hp => exact hc j _ hp
  | arrived op => exact loc.arrives op _
  | went choice hp hcode => exact loc.goes _ _ _ choice (hc j _ hp) hcode
  | lost hp => exact loc.lost _ (hc j _ hp)

theorem Local.run {program : Op → Prog Row Note α} {P : Proc Row Note Op α → Prop}
    (loc : Local program P) {allow : Nat → List Note → World Row Note → World Row Note → Prop}
    {c c' : Config Row Note Op α} (h : Run program allow c c')
    (hc : ∀ (j : Nat) p, c.procs[j]? = some p → P p) :
    ∀ (j : Nat) p, c'.procs[j]? = some p → P p := by
  induction h with
  | refl => exact hc
  | tail a _ hs _ ih => exact fun j p hp => loc.moved ih (step_moved hs hp)

/-- The step with which a request reached the answer it gives. -/
theorem Run.answered {program : Op → Prog Row Note α}
    {allow : Nat → List Note → World Row Note → World Row Note → Prop}
    {c c' : Config Row Note Op α} (h : Run program allow c c') {j : Nat} {a : α}
    {p' : Proc Row Note Op α} (hn : c.answer j = none) (hp : c'.procs[j]? = some p')
    (ha : p'.code = some (.ret a)) :
    (∃ c₁ op, Run program allow c c₁ ∧ p' = ⟨op, c₁.world, {}, some (program op)⟩) ∨
    ∃ c₁ p code choice, Run program allow c c₁ ∧ c₁.procs[j]? = some p ∧ p.code = some code ∧
      (∀ b, code ≠ .ret b) ∧ p' = p.next c₁.world.db choice code := by
  induction h with
  | refl =>
    obtain ⟨op, born, tx, code⟩ := p'
    cases ha
    simp [Config.answer, hp] at hn
  | @tail c₁ c₂ act hrun hs _ ih =>
    cases step_moved hs hp with
    | same hq => exact ih hq
    | arrived op => exact .inl ⟨c₁, op, hrun, rfl⟩
    | @went p code choice hq hcode =>
      by_cases hret : ∃ b, code = .ret b
      · obtain ⟨b, rfl⟩ := hret
        exact ih hq
      · exact .inr ⟨c₁, p, code, choice, hrun, hq, hcode, fun b hb => hret ⟨b, hb⟩, rfl⟩
    | lost hq => cases ha

end Interleaving
