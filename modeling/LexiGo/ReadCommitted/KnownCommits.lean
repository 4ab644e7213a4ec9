import LexiGo.ReadCommitted.ConfinedWrites

/-! What may be said of the answers once the commits are known. Where every program has
been shown to keep a contract, its commits need not be looked at a second time: they may
be assumed, together with whatever every commit keeps. -/
namespace KnownCommits
open RowStore TransactionProgram Interleaving CommitContract CommitNotes RunSoundness ConfinedWrites

variable {Key : Type} [DecidableEq Key] {Row : Key → Type} {Note Op α : Type}
variable {C : Contract Row Note} {J : World Row Note → Prop} {i : Nat} {t : Tx Row}
variable {w w' : World Row Note} {notes : List Note}

/-- The runs of a contract that are known to keep it, and to keep `J` with it. -/
def known (C : Contract Row Note) (J : World Row Note → Prop) : Contract Row Note where
  inv w := C.inv w ∧ J w
  step := C.step
  allow i notes w w' := C.allow i notes w w' ∧ C.inv w' ∧ J w' ∧ C.step i notes w w'

theorem publishes_known (h : (known C J).allow i notes w (w.publish i t notes)) :
    Publishes (known C J) i t notes w :=
  ⟨⟨h.2.1, h.2.2.1⟩, h.2.2.2, fun _ _ _ => trivial⟩

/-- A program whose answer is of no interest. -/
theorem wp_known (p : Prog Row Note α) : wp (known C J) i (fun _ _ _ => True) p t w := by
  induction p generalizing t w with
  | ret a => exact trivial
  | look next ih => exact fun v _ _ => ih _
  | lock k m next ih => exact fun v _ _ => ih
  | write k m v next ih => exact fun v _ _ _ => ih
  | commit notes next ih => exact fun v _ _ ha => ⟨publishes_known ha, ih _⟩
  | rollback next ih => exact ih
  | choose next ih => exact fun n => ih n

theorem run_known {program : Op → Prog Row Note α} {c c' : Config Row Note Op α}
    {post : Op → World Row Note → Nat → α → World Row Note → Prop}
    (sound : Sound C program post) (keeps : ∀ v v', Commits C v v' → J v → J v')
    (h : Run program C.allow c c') (safe : Safe C post c) (hJ : J c.world) :
    Run program (known C J).allow c c' ∧ J c'.world := by
  induction h with
  | refl => exact ⟨.refl _, hJ⟩
  | @tail c₁ c₂ a hrun hs ha ih =>
    obtain ⟨hknown, hJ₁⟩ := ih
    have safe₁ := (run_sound sound hrun safe).1
    rcases safe₁.commits hs ha with ⟨hnone, heq⟩ | ⟨i, notes, hpublished, hcommit⟩
    · refine ⟨.tail a hknown hs fun i notes hp => ?_, ?_⟩
      · cases hnone.symm.trans hp
      · rw [heq]
        exact hJ₁
    · have hJ₂ : J c₂.world := keeps _ _ ⟨i, notes, hcommit⟩ hJ₁
      refine ⟨.tail a hknown hs fun j notes' hp => ?_, hJ₂⟩
      cases hpublished.symm.trans hp
      exact ⟨hcommit.allow, hcommit.after, hJ₂, hcommit.step⟩

section Authors
variable {program : Op → Prog Row Note α} {c c' : Config Row Note Op α}
variable {allow : Nat → List Note → World Row Note → World Row Note → Prop}

omit [DecidableEq Key] in
theorem follows_confined {P : ∀ k, Option (Row k) → Prop} {N : List Note → Prop}
    {p : Prog Row Note α} (h : Confined P N p) (past : List Note) :
    Follows (fun notes _ => N notes) (fun _ _ => True) past p := by
  induction p generalizing past with
  | ret a => exact trivial
  | look next ih => exact fun db => ih db (h db) past
  | lock k m next ih => exact ih h past
  | write k m v next ih => exact ih h.2 past
  | commit notes next ih => exact fun db => ⟨(h db).1, ih db (h db).2 _⟩
  | rollback next ih => exact ih h past
  | choose next ih => exact fun n => ih n (h n) past

omit [DecidableEq Key] in
theorem noted_mem {N : List Note → Prop} {past : List Note} (h : Noted (fun notes _ => N notes) past)
    {n : Note} (hn : n ∈ past) : ∃ notes, N notes ∧ n ∈ notes := by
  induction h with
  | start => cases hn
  | @commit notes past hnotes _ ih =>
    rcases List.mem_append.1 hn with hn | hn
    · exact ⟨notes, hnotes, hn⟩
    · exact ih hn

/-- Behind every note in the log is a request that may leave it. -/
theorem run_authors {P : ∀ k, Option (Row k) → Prop} {N : Op → List Note → Prop}
    (hprogram : ∀ op, Confined P (N op) (program op)) (hstart : c.procs = [] ∧ c.world.log = [])
    (h : Run program allow c c') {entry : Nat × Note} (he : entry ∈ c'.world.log) :
    ∃ p notes, c'.procs[entry.1]? = some p ∧ N p.op notes ∧ entry.2 ∈ notes := by
  have start : Tracked (fun op notes _ => N op notes) (fun (_ : Op) _ (_ : α) => True) c := by
    refine ⟨?_, ?_, ?_⟩ <;> simp [hstart.1, hstart.2]
  have tracked := start.run (fun op => follows_confined (hprogram op) []) h
  have hlt := tracked.known entry he
  have hp : c'.procs[entry.1]? = some c'.procs[entry.1] := List.getElem?_eq_getElem hlt
  obtain ⟨notes, hnotes, hn⟩ := noted_mem (tracked.noted entry.1 _ hp) (mem_ownNotes.2 he)
  exact ⟨_, notes, hp, hnotes, hn⟩

/-- A request finds nothing of its own in the log when it arrives. -/
theorem run_silent (hstart : c.procs = [] ∧ c.world.log = []) (h : Run program allow c c') :
    ∀ (i : Nat) p, c'.procs[i]? = some p → ∀ n, (i, n) ∉ p.born.log := by
  have start : Tracked (fun (_ : Op) _ _ => True) (fun (_ : Op) _ (_ : α) => True) c := by
    refine ⟨?_, ?_, ?_⟩ <;> simp [hstart.1, hstart.2]
  have free : ∀ op, Follows (fun _ _ => True) (fun _ (_ : α) => True) [] (program op) := fun op =>
    follows_of_forall (fun _ _ => trivial) (fun _ _ => trivial) _
  induction h with
  | refl =>
    intro i p hp
    rw [hstart.1] at hp
    cases hp
  | @tail c₁ c₂ a hrun hs _ ih =>
    intro j p hp
    cases step_moved hs hp with
    | same hq => exact ih j p hq
    | arrived op hnone =>
      intro n hn
      have hlt := (start.run free hrun).known _ hn
      exact Nat.not_lt.2 (List.getElem?_eq_none_iff.1 hnone) hlt
    | @went q code choice hq _ =>
      have hborn : (q.next c₁.world.db choice code).born = q.born := by cases code <;> rfl
      rw [hborn]
      exact ih j q hq
    | @lost q hq => exact ih j q hq

/-- The request has answered, or it has been lost. -/
def Idle (c : Config Row Note Op α) (j : Nat) : Prop :=
  ∀ p, c.procs[j]? = some p → ∀ code, p.code = some code → ∃ a, code = .ret a

omit [DecidableEq Key] in
theorem idle_of_answer {a : α} {j : Nat} (ha : c.answer j = some a) : Idle c j := by
  intro p hp code hcode
  obtain ⟨op, born, tx, code'⟩ := p
  cases hcode
  unfold Config.answer at ha
  rw [hp] at ha
  cases code with
  | ret b => exact ⟨b, rfl⟩
  | _ => cases ha

/-- What a step writes to the log is by the request that it is a commit of. -/
theorem step_noted {a : Action Op} (hs : step program c a = some c') {entry : Nat × Note}
    (he : entry ∈ c'.world.log) (hnot : entry ∉ c.world.log) :
    ∃ p told next, c.procs[entry.1]? = some p ∧ p.code = some (.commit told next) := by
  cases a with
  | start op =>
    cases hs
    exact absurd he hnot
  | crash i =>
    cases hp : c.procs[i]? with
    | none => simp [Interleaving.step, hp] at hs
    | some p =>
      simp only [Interleaving.step, hp, Option.some.injEq] at hs
      subst hs
      exact absurd he hnot
  | advance i choice =>
    cases hp : c.procs[i]? with
    | none => simp [Interleaving.step, hp] at hs
    | some p =>
      cases hcode : p.code with
      | none => simp [Interleaving.step, hp, hcode] at hs
      | some code =>
        simp only [Interleaving.step, hp, hcode] at hs
        cases code with
        | ret a => cases hs
        | look | choose | rollback =>
          cases hs
          exact absurd he hnot
        | lock | write =>
          simp only [Interleaving.advance, Option.ite_none_right_eq_some] at hs
          cases hs.2
          exact absurd he hnot
        | commit told next =>
          cases hs
          rcases List.mem_append.1 he with he | he
          · obtain ⟨n, -, rfl⟩ := List.mem_map.1 he
            exact ⟨p, told, next, hp, hcode⟩
          · exact absurd he hnot

/-- An idle request does nothing more. -/
theorem step_idle {a : Action Op} (hs : step program c a = some c') {j : Nat}
    (hj : j < c.procs.length) (idle : Idle c j) :
    Idle c' j ∧ ∀ n, (j, n) ∈ c'.world.log → (j, n) ∈ c.world.log := by
  refine ⟨fun p' hp' code hcode => ?_, fun n hn => ?_⟩
  · cases step_moved hs hp' with
    | same hp => exact idle p' hp code hcode
    | arrived op hnone => exact absurd hj (Nat.not_lt.2 (List.getElem?_eq_none_iff.1 hnone))
    | went choice hp hc =>
      obtain ⟨a, rfl⟩ := idle _ hp _ hc
      exact idle _ hp code hcode
    | lost hp => cases hcode
  · by_contra hnot
    obtain ⟨p, told, next, hp, hcode⟩ := step_noted hs hn hnot
    obtain ⟨a, ha⟩ := idle p hp _ hcode
    cases ha

theorem step_born {a : Action Op} (hs : step program c a = some c') {j : Nat}
    {p : Proc Row Note Op α} (hp : c.procs[j]? = some p) :
    ∃ p', c'.procs[j]? = some p' ∧ p'.op = p.op ∧ p'.born = p.born := by
  obtain ⟨p', hp', hop⟩ := step_stays hs hp
  refine ⟨p', hp', hop, ?_⟩
  cases step_moved hs hp' with
  | same hq => cases hq.symm.trans hp; rfl
  | arrived op hnone => cases hnone.symm.trans hp
  | @went q code choice hq _ =>
    cases hq.symm.trans hp
    cases code <;> rfl
  | lost hq => cases hq.symm.trans hp; rfl

end Authors

/-- What another request has committed is later in the log. -/
theorem rely_log (h : Rely C i t w w') {e : Nat × Note} (he : e ∈ w.log) : e ∈ w'.log := by
  have stable : Stable C i t fun v => e ∈ v.log := by
    intro v v' ho hv
    obtain ⟨j, notes, -, hc⟩ := ho.author
    rw [hc.log]
    exact List.mem_append_right _ hv
  exact stable.rely h he

/-- The notes of a request are its own. -/
theorem rely_own (h : Rely C i t w w') {n : Note} (hn : (i, n) ∈ w'.log) : (i, n) ∈ w.log := by
  by_contra hnot
  have stable : Stable C i t fun v => (i, n) ∉ v.log := by
    intro v v' ho hv hmem
    obtain ⟨j, notes, hj, hc⟩ := ho.author
    rw [hc.log] at hmem
    rcases List.mem_append.1 hmem with hmem | hmem
    · obtain ⟨_, -, heq⟩ := List.mem_map.1 hmem
      exact hj (Prod.mk.inj heq).1
    · exact hv hmem
  exact stable.rely h hnot hn

end KnownCommits
