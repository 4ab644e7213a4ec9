import LexiGo.ReadCommitted.CommitNotes
import Mathlib.Logic.Relation

/-! Runs whose every step meets a condition on the configuration it is taken in, and
what one request comes to in them, wherever the others take the run between its
steps. A condition on commits alone does not say in which order the statements of
different requests come; this one can. -/
namespace GuidedRuns
open RowStore TransactionProgram Interleaving

variable {Key : Type} [DecidableEq Key] {Row : Key → Type} {Note Op α : Type}

section Runs
variable (program : Op → Prog Row Note α) (ok : Config Row Note Op α → Action Op → Prop)

/-- One step that meets the condition. -/
def Next (c c' : Config Row Note Op α) : Prop := ∃ a, step program c a = some c' ∧ ok c a

abbrev Reaches : Config Row Note Op α → Config Row Note Op α → Prop :=
  Relation.ReflTransGen (Next program ok)

/-- Request `i`, which asks for `op`, takes a step some time after `c`, with transaction
`t` open and `code` left to do. -/
structure Goes (i : Nat) (op : Op) (t : Tx Row) (code : Prog Row Note α) (c c₁ c₂ : Config Row Note Op α)
    (choice : Nat) : Prop where
  reaches : Reaches program ok c c₁
  stands : ∃ p, c₁.procs[i]? = some p ∧ p.op = op ∧ p.tx = t ∧ p.code = some code
  step : step program c₁ (.advance i choice) = some c₂
  ok : ok c₁ (.advance i choice)

/-- Whatever happens between the steps that are left, the answer will be right, and
stay so. -/
def Leads (i : Nat) (op : Op) (Q : α → Config Row Note Op α → Prop) :
    Prog Row Note α → Tx Row → Config Row Note Op α → Prop
  | .ret a, _, c => ∀ c', Reaches program ok c c' → Q a c'
  | .look next, t, c => ∀ c₁ c₂ choice, Goes program ok i op t (.look next) c c₁ c₂ choice →
    Leads i op Q (next (t.visible c₁.world.db)) t c₂
  | .lock k m next, t, c => ∀ c₁ c₂ choice, Goes program ok i op t (.lock k m next) c c₁ c₂ choice →
    Leads i op Q next (t.hold k m) c₂
  | .write k m v next, t, c => ∀ c₁ c₂ choice,
    Goes program ok i op t (.write k m v next) c c₁ c₂ choice → Leads i op Q next (t.write k m v) c₂
  | .commit notes next, t, c => ∀ c₁ c₂ choice,
    Goes program ok i op t (.commit notes next) c c₁ c₂ choice →
    Leads i op Q (next (t.visible c₁.world.db)) {} c₂
  | .rollback next, t, c => ∀ c₁ c₂ choice, Goes program ok i op t (.rollback next) c c₁ c₂ choice →
    Leads i op Q next {} c₂
  | .choose next, t, c => ∀ c₁ c₂ choice, Goes program ok i op t (.choose next) c c₁ c₂ choice →
    Leads i op Q (next choice) t c₂

end Runs

variable {program : Op → Prog Row Note α} {ok : Config Row Note Op α → Action Op → Prop}
variable {c c' c₁ c₂ : Config Row Note Op α} {i choice : Nat} {op : Op} {t : Tx Row}
variable {code : Prog Row Note α}

theorem Reaches.run (h : Reaches program ok c c') : Run program (fun _ _ _ _ => True) c c' := by
  induction h with
  | refl => exact .refl _
  | tail _ hnext ih =>
    obtain ⟨a, hs, -⟩ := hnext
    exact .tail a ih hs fun _ _ _ => trivial

/-- A schedule whose steps all pass a check that implies the condition. -/
def execIf (program : Op → Prog Row Note α) (check : Config Row Note Op α → Action Op → Bool)
    (c : Config Row Note Op α) : List (Action Op) → Option (Config Row Note Op α)
  | [] => some c
  | a :: rest => if check c a then (step program c a).bind fun c' => execIf program check c' rest
    else none

theorem Reaches.of_exec {check : Config Row Note Op α → Action Op → Bool}
    (himp : ∀ c a, check c a = true → ok c a) (as : List (Action Op))
    (h : execIf program check c as = some c') : Reaches program ok c c' := by
  induction as generalizing c with
  | nil =>
    cases h
    exact .refl
  | cons a rest ih =>
    unfold execIf at h
    split at h
    · rename_i hcheck
      obtain ⟨c₁, hs, hrest⟩ := Option.bind_eq_some_iff.1 h
      exact .head ⟨a, hs, himp c a hcheck⟩ (ih hrest)
    · cases h

/-- A step of request `i` makes of it what its code says, and the rest stays. -/
theorem advance_moves (hs : step program c (.advance i choice) = some c') :
    ∃ p code, c.procs[i]? = some p ∧ p.code = some code ∧
      c'.procs = c.procs.set i (p.next c.world.db choice code) := by
  cases hp : c.procs[i]? with
  | none => simp [step, hp] at hs
  | some p =>
    cases hcode : p.code with
    | none => simp [step, hp, hcode] at hs
    | some code =>
      simp only [step, hp, hcode] at hs
      exact ⟨p, code, rfl, hcode, advance_procs hs⟩

theorem Goes.after (h : Goes program ok i op t code c c₁ c₂ choice) :
    ∃ p, c₁.procs[i]? = some p ∧ p.op = op ∧ p.tx = t ∧
      c₂.procs[i]? = some (p.next c₁.world.db choice code) := by
  obtain ⟨p, hp, hop, ht, hcode⟩ := h.stands
  obtain ⟨q, code', hq, hcode', hprocs⟩ := advance_moves h.step
  cases hp.symm.trans hq
  cases hcode.symm.trans hcode'
  refine ⟨p, hp, hop, ht, ?_⟩
  rw [hprocs, List.getElem?_set_self (List.getElem?_eq_some_iff.1 hp).1]

theorem Goes.trans (h : Goes program ok i op t code c c₁ c₂ choice) : Reaches program ok c c₂ :=
  h.reaches.tail ⟨_, h.step, h.ok⟩

/-- A commit shows the others what its transaction saw. -/
theorem Goes.published {notes : Db Row → List Note} {next : Db Row → Prog Row Note α}
    (h : Goes program ok i op t (.commit notes next) c c₁ c₂ choice) :
    c₂.world.db = t.visible c₁.world.db := by
  obtain ⟨p, hp, -, rfl, hcode⟩ := h.stands
  have hs := h.step
  simp only [Interleaving.step, hp, hcode] at hs
  cases hs
  rfl

theorem Goes.later (h : Reaches program ok c c') (hg : Goes program ok i op t code c' c₁ c₂ choice) :
    Goes program ok i op t code c c₁ c₂ choice :=
  ⟨h.trans hg.reaches, hg.stands, hg.step, hg.ok⟩

variable {Q : α → Config Row Note Op α → Prop}

theorem Leads.later (h : Leads program ok i op Q code t c) (hr : Reaches program ok c c') :
    Leads program ok i op Q code t c' := by
  cases code with
  | ret a => exact fun c'' hr' => h c'' (hr.trans hr')
  | look | lock | write | commit | rollback | choose =>
    exact fun c₁ c₂ choice hg => h c₁ c₂ choice (hg.later hr)

/-- One step along the code. -/
theorem Leads.goes (h : Leads program ok i op Q code t c) {p : Proc Row Note Op α}
    (hp : c.procs[i]? = some p) (hop : p.op = op) (ht : p.tx = t) (hcode : p.code = some code)
    (hs : step program c (.advance i choice) = some c') (hok : ok c (.advance i choice)) :
    ∀ code', (p.next c.world.db choice code).code = some code' →
      Leads program ok i op Q code' (p.next c.world.db choice code).tx c' := by
  subst ht
  have hg : Goes program ok i op p.tx code c c c' choice :=
    ⟨.refl, ⟨p, hp, hop, rfl, hcode⟩, hs, hok⟩
  cases code with
  | ret a =>
    simp only [Interleaving.step, hp, hcode] at hs
    cases hs
  | look | lock | write | commit | rollback | choose =>
    rintro code' ⟨⟩
    exact h c c' choice hg

theorem leads_of_forall (hQ : ∀ a c, Q a c) : Leads program ok i op Q code t c := by
  induction code generalizing t c with
  | ret a => exact fun c' _ => hQ a c'
  | look next ih | commit notes next ih | choose next ih => exact fun _ _ _ _ => ih _
  | lock k m next ih | write k m v next ih | rollback next ih => exact fun _ _ _ _ => ih

/-- Another request than the one that takes the step is as it was, or has just arrived. -/
theorem step_others {a : Action Op} (hs : step program c a = some c') {j : Nat}
    {p' : Proc Row Note Op α} (hp : c'.procs[j]? = some p') (hj : ∀ choice, a ≠ .advance j choice) :
    c.procs[j]? = some p' ∨ p'.code = none ∨ ∃ op, p' = ⟨op, c.world, {}, some (program op)⟩ := by
  cases a with
  | start op =>
    cases step_moved hs hp with
    | same hq => exact .inl hq
    | arrived op => exact .inr (.inr ⟨op, rfl⟩)
    | lost hq => exact .inr (.inl rfl)
    | went choice hq hcode =>
      cases hs
      have hlt := (List.getElem?_eq_some_iff.1 hq).1
      rw [Config.spawn, List.getElem?_append_left hlt] at hp
      exact .inl hp
  | crash k =>
    cases hq : c.procs[k]? with
    | none => simp [step, hq] at hs
    | some q =>
      simp only [step, hq, Option.some.injEq] at hs
      subst hs
      rcases getElem?_set_cases hp with ⟨rfl, rfl⟩ | ⟨-, hp⟩
      · exact .inr (.inl rfl)
      · exact .inl hp
  | advance k choice =>
    obtain ⟨q, code, -, -, hprocs⟩ := advance_moves hs
    rw [hprocs] at hp
    rcases getElem?_set_cases hp with ⟨rfl, -⟩ | ⟨-, hp⟩
    · exact absurd rfl (hj choice)
    · exact .inl hp

/-- If every program leads to its answer from wherever it arrives, every request that
is under way does. -/
theorem leads_run {Q : Nat → Op → α → Config Row Note Op α → Prop} {c₀ : Config Row Note Op α}
    (hprogram : ∀ i op c, Reaches program ok c₀ c → Leads program ok i op (Q i op) (program op) {} c)
    (hempty : c₀.procs = []) (h : Reaches program ok c₀ c) :
    ∀ (i : Nat) (p : Proc Row Note Op α), c.procs[i]? = some p → ∀ code, p.code = some code →
      Leads program ok i p.op (Q i p.op) code p.tx c := by
  induction h with
  | refl =>
    intro i p hp
    rw [hempty] at hp
    cases hp
  | @tail c c' hreach hnext ih =>
    obtain ⟨a, hs, hok⟩ := hnext
    have hr : Reaches program ok c c' := .single ⟨a, hs, hok⟩
    intro j p' hp' code hcode
    by_cases hj : ∃ choice, a = .advance j choice
    · obtain ⟨choice, rfl⟩ := hj
      obtain ⟨p, q, hp, hq, hprocs⟩ := advance_moves hs
      rw [hprocs, List.getElem?_set_self (List.getElem?_eq_some_iff.1 hp).1] at hp'
      cases hp'
      have hop : (p.next c.world.db choice q).op = p.op := by cases q <;> rfl
      rw [hop]
      exact (ih j p hp q hq).goes hp rfl rfl hq hs hok code hcode
    · rcases step_others hs hp' (fun choice heq => hj ⟨choice, heq⟩) with hp | hnone | ⟨op, rfl⟩
      · exact (ih j p' hp code hcode).later hr
      · rw [hnone] at hcode
        cases hcode
      · cases hcode
        exact hprogram j op c' (hreach.trans hr)

end GuidedRuns
