import LexiGo.ReadCommitted.CommitContract

/-! From the programs, one by one, to every run of all of them.
`Safe` is what a run keeps: the invariant of the committed state, no two
conflicting locks, and for every request in progress the `wp` of what it has
left to do. `run_sound` turns a run into the sequence of its commits. -/
namespace RunSoundness
open RowStore TransactionProgram Interleaving CommitContract

variable {Key : Type} [DecidableEq Key] {Row : Key → Type} {Note Op α : Type}
variable {C : Contract Row Note} {program : Op → Prog Row Note α}
variable {post : Op → World Row Note → Nat → α → World Row Note → Prop}
variable {i j : Nat} {t : Tx Row} {w w' : World Row Note} {c c' : Config Row Note Op α}

theorem Covered.rows (covered : t.Covered) {k : Key} {m : Mode} (free : t.admits k m)
    (hm : m ≠ .keyShare) (notes : List Note) :
    (w.publish i t notes).db.lookup k = w.db.lookup k :=
  t.visible_unwritten (covered.unwritten free hm) w.db

theorem wp_rely {Q : α → Tx Row → World Row Note → Prop} {p : Prog Row Note α}
    (stable : ∀ a t w w', Rely C i t w w' → Q a t w → Q a t w')
    (h : wp C i Q p t w) (hr : Rely C i t w w') : wp C i Q p t w' := by
  induction p generalizing t w w' with
  | ret a => exact stable _ _ _ _ hr h
  | look next _ => exact fun v hv hi => h v (hr.trans hv) hi
  | lock k m next _ => exact fun v hv hi => h v (hr.trans hv) hi
  | write k m v next _ => exact fun v hv hi => h v (hr.trans hv) hi
  | commit notes next _ => exact fun v hv hi => h v (hr.trans hv) hi
  | rollback next ih => exact ih h (hr.mono (fun p hp => absurd hp List.not_mem_nil))
  | choose next ih => exact fun n => ih n (h n) hr

/-- The answer of a request stays right however the others go on. -/
def Answers (C : Contract Row Note)
    (post : Op → World Row Note → Nat → α → World Row Note → Prop)
    (op : Op) (born : World Row Note) (i : Nat) : α → Tx Row → World Row Note → Prop :=
  fun a t w => ∀ w', Rely C i t w w' → C.inv w' → post op born i a w'

def Sound (C : Contract Row Note) (program : Op → Prog Row Note α)
    (post : Op → World Row Note → Nat → α → World Row Note → Prop) : Prop :=
  ∀ op i w, C.inv w → wp C i (Answers C post op w i) (program op) {} w

theorem Answers.rely {op : Op} {born : World Row Note} (a : α) (t : Tx Row)
    (w w' : World Row Note) (hr : Rely C i t w w') (h : Answers C post op born i a t w) :
    Answers C post op born i a t w' :=
  fun v hv hi => h v (hr.trans hv) hi

structure ProcSafe (C : Contract Row Note)
    (post : Op → World Row Note → Nat → α → World Row Note → Prop)
    (w : World Row Note) (i : Nat) (p : Proc Row Note Op α) : Prop where
  covered : p.tx.Covered
  left : ∀ code, p.code = some code → wp C i (Answers C post p.op p.born i) code p.tx w

structure Safe (C : Contract Row Note)
    (post : Op → World Row Note → Nat → α → World Row Note → Prop)
    (c : Config Row Note Op α) : Prop where
  inv : C.inv c.world
  procs : ∀ i p, c.procs[i]? = some p → ProcSafe C post c.world i p
  apart : ∀ (i j : Nat) (p q : Proc Row Note Op α), i ≠ j →
    c.procs[i]? = some p → c.procs[j]? = some q →
    ∀ k m, (k, m) ∈ q.tx.held → p.tx.admits k m

theorem ProcSafe.rely {p : Proc Row Note Op α} (h : ProcSafe C post w i p)
    (hr : Rely C i p.tx w w') : ProcSafe C post w' i p :=
  ⟨h.covered, fun code hc => wp_rely Answers.rely (h.left code hc) hr⟩

theorem safe_init (hw : C.inv w) : Safe C post (⟨w, []⟩ : Config Row Note Op α) :=
  ⟨hw, by simp, by simp⟩

/-- A step of one request that leaves the committed state alone. -/
theorem Safe.setProc (safe : Safe C post c) {p : Proc Row Note Op α}
    (hp : ProcSafe C post c.world i p)
    (mine : ∀ j q, j ≠ i → c.procs[j]? = some q → ∀ k m, (k, m) ∈ q.tx.held → p.tx.admits k m)
    (theirs : ∀ j q, j ≠ i → c.procs[j]? = some q → ∀ k m, (k, m) ∈ p.tx.held → q.tx.admits k m) :
    Safe C post (c.setProc i p) := by
  refine ⟨safe.inv, ?_, ?_⟩
  · intro j q hq
    rcases getElem?_set_cases hq with ⟨rfl, rfl⟩ | ⟨-, hq⟩
    · exact hp
    · exact safe.procs j q hq
  · intro a b q r hab hq hr
    rcases getElem?_set_cases hq with ⟨rfl, rfl⟩ | ⟨hai, hq⟩
    · rcases getElem?_set_cases hr with ⟨rfl, rfl⟩ | ⟨hbi, hr⟩
      · exact absurd rfl hab
      · exact mine b r hbi hr
    · rcases getElem?_set_cases hr with ⟨rfl, rfl⟩ | ⟨-, hr'⟩
      · exact theirs a q hai ‹_›
      · exact safe.apart a b q r hab ‹_› hr'

omit [DecidableEq Key] in
theorem admits_cons {k k' : Key} {m m' : Mode}
    (h : t.admits k' m') (hk : k = k' → m.conflicts m' = false) :
    ∀ n, (k', n) ∈ (k, m) :: t.held → n.conflicts m' = false := by
  intro n hn
  rcases List.mem_cons.mp hn with heq | hn
  · cases heq
    exact hk rfl
  · exact h n hn

/-- Taking a granted lock keeps the requests apart. -/
theorem Safe.hold (safe : Safe C post c) {p p' : Proc Row Note Op α}
    (hp : c.procs[i]? = some p) {k : Key} {m : Mode} (granted : grantable c i k m = true)
    (held : p'.tx.held = (k, m) :: p.tx.held) (hp' : ProcSafe C post c.world i p') :
    Safe C post (c.setProc i p') := by
  refine safe.setProc hp' ?_ ?_
  · intro j q hj hq k' m' hk'
    have admits := safe.apart i j p q (Ne.symm hj) hp hq k' m' hk'
    have free := grantable_admits granted hj hq
    intro n hn
    rw [held] at hn
    refine admits_cons admits ?_ n hn
    rintro rfl
    rw [conflicts_comm]
    exact free m' hk'
  · intro j q hj hq k' m' hk'
    rw [held] at hk'
    rcases List.mem_cons.mp hk' with heq | hk'
    · cases heq
      exact grantable_admits granted hj hq
    · exact safe.apart j i q p hj hq hp k' m' hk'

/-- Ending a transaction without a commit. -/
theorem Safe.drop (safe : Safe C post c) {p' : Proc Row Note Op α}
    (held : p'.tx.held = []) (hp' : ProcSafe C post c.world i p') :
    Safe C post (c.setProc i p') := by
  refine safe.setProc hp' ?_ ?_
  · intro j q _ _ k m _ n hn
    simp [held] at hn
  · intro j q _ _ k m hk
    simp [held] at hk

theorem Safe.publish (safe : Safe C post c) {p p' : Proc Row Note Op α} {notes : List Note}
    (hp : c.procs[i]? = some p) (pub : Publishes C i p.tx notes c.world)
    (ha : C.allow i notes c.world (c.world.publish i p.tx notes))
    (held : p'.tx.held = []) (hp' : ProcSafe C post (c.world.publish i p.tx notes) i p') :
    Safe C post ⟨c.world.publish i p.tx notes, c.procs.set i p'⟩ := by
  have covered := (safe.procs i p hp).covered
  have others : ∀ j q, j ≠ i → c.procs[j]? = some q →
      Other C j q.tx c.world (c.world.publish i p.tx notes) := by
    intro j q hj hq
    refine ⟨⟨i, notes, Ne.symm hj, safe.inv, pub.inv, pub.step, ha, rfl⟩, ?_, ?_⟩
    · intro k m hk hm
      exact Covered.rows covered (safe.apart i j p q (Ne.symm hj) hp hq k m hk) hm notes
    · intro k m hk
      exact pub.guard k m (safe.apart i j p q (Ne.symm hj) hp hq k m hk)
  refine ⟨pub.inv, ?_, ?_⟩
  · intro j q hq
    rcases getElem?_set_cases hq with ⟨rfl, rfl⟩ | ⟨hj, hq⟩
    · exact hp'
    · exact (safe.procs j q hq).rely (.single (others j q hj hq))
  · intro a b q r hab hq hr k m hk
    rcases getElem?_set_cases hq with ⟨rfl, rfl⟩ | ⟨hai, hq⟩
    · intro n hn
      simp [held] at hn
    · rcases getElem?_set_cases hr with ⟨rfl, rfl⟩ | ⟨hbi, hr⟩
      · simp [held] at hk
      · exact safe.apart a b q r hab hq hr k m hk

theorem Safe.spawn (sound : Sound C program post) (safe : Safe C post c) (op : Op) :
    Safe C post (c.spawn program op) := by
  have cases : ∀ j q, (c.spawn program op).procs[j]? = some q →
      c.procs[j]? = some q ∨ (q.tx = {} ∧ ProcSafe C post c.world j q) := by
    intro j q hq
    by_cases hj : j < c.procs.length
    · left
      simpa [Config.spawn, List.getElem?_append_left hj] using hq
    · right
      have hq : [(⟨op, c.world, {}, some (program op)⟩ : Proc Row Note Op α)][
          j - c.procs.length]? = some q := by
        simpa [Config.spawn, List.getElem?_append_right (Nat.le_of_not_lt hj)] using hq
      have hmem := List.mem_of_getElem? hq
      rw [List.mem_singleton] at hmem
      subst hmem
      refine ⟨rfl, Tx.covered_empty, ?_⟩
      rintro code ⟨⟩
      exact sound op j c.world safe.inv
  refine ⟨safe.inv, ?_, ?_⟩
  · intro j q hq
    rcases cases j q hq with hq | ⟨-, hq⟩
    · exact safe.procs j q hq
    · exact hq
  · intro a b q r hab hq hr k m hk
    rcases cases a q hq with hq | ⟨hq, -⟩
    · rcases cases b r hr with hr | ⟨hr, -⟩
      · exact safe.apart a b q r hab hq hr k m hk
      · simp [hr] at hk
    · intro n hn
      simp [hq] at hn

theorem Safe.advance (safe : Safe C post c) {p : Proc Row Note Op α} {code : Prog Row Note α}
    (hp : c.procs[i]? = some p) (hcode : p.code = some code) {choice : Nat}
    (hs : Interleaving.advance c i choice p code = some c')
    (allowed : ∀ notes next, code = .commit notes next →
      C.allow i (notes (p.tx.visible c.world.db)) c.world c'.world) :
    Safe C post c' := by
  have hproc := safe.procs i p hp
  have left := hproc.left code hcode
  cases code with
  | ret a => simp [Interleaving.advance] at hs
  | look next =>
    cases hs
    exact safe.setProc ⟨hproc.covered, by rintro _ ⟨⟩; exact left _ .refl safe.inv⟩
      (fun j q hj => safe.apart i j p q (Ne.symm hj) hp)
      (fun j q hj hq => safe.apart j i q p hj hq hp)
  | lock k m next =>
    simp only [Interleaving.advance, Option.ite_none_right_eq_some, Option.some.injEq] at hs
    obtain ⟨granted, rfl⟩ := hs
    refine safe.hold hp granted rfl ⟨hproc.covered.hold k m, ?_⟩
    rintro _ ⟨⟩
    exact left _ .refl safe.inv
  | write k m v next =>
    simp only [Interleaving.advance, Option.ite_none_right_eq_some, Option.some.injEq,
      Bool.and_eq_true, Bool.or_eq_true, decide_eq_true_eq] at hs
    obtain ⟨⟨granted, hm⟩, rfl⟩ := hs
    refine safe.hold hp granted rfl ⟨hproc.covered.write k hm v, ?_⟩
    rintro _ ⟨⟩
    exact left _ .refl safe.inv hm
  | commit notes next =>
    cases hs
    have ha := allowed notes next rfl
    obtain ⟨pub, rest⟩ := left _ .refl safe.inv ha
    refine safe.publish hp pub ha rfl ⟨Tx.covered_empty, ?_⟩
    rintro _ ⟨⟩
    exact rest
  | rollback next =>
    cases hs
    refine safe.drop rfl ⟨Tx.covered_empty, ?_⟩
    rintro _ ⟨⟩
    exact left
  | choose next =>
    cases hs
    exact safe.setProc ⟨hproc.covered, by rintro _ ⟨⟩; exact left choice⟩
      (fun j q hj => safe.apart i j p q (Ne.symm hj) hp)
      (fun j q hj hq => safe.apart j i q p hj hq hp)

theorem Safe.step (sound : Sound C program post) (safe : Safe C post c) {a : Action Op}
    (hs : Interleaving.step program c a = some c')
    (allowed : ∀ i notes, published c a = some (i, notes) → C.allow i notes c.world c'.world) :
    Safe C post c' := by
  cases a with
  | start op =>
    cases hs
    exact safe.spawn sound op
  | advance i choice =>
    cases hp : c.procs[i]? with
    | none => simp [Interleaving.step, hp] at hs
    | some p =>
      obtain ⟨op, born, tx, code⟩ := p
      cases code with
      | none => simp [Interleaving.step, hp] at hs
      | some code =>
        simp only [Interleaving.step, hp] at hs
        refine safe.advance hp rfl hs ?_
        rintro notes next rfl
        exact allowed i _ (by simp [published, hp])
  | crash i =>
    cases hp : c.procs[i]? with
    | none => simp [Interleaving.step, hp] at hs
    | some p =>
      simp only [Interleaving.step, hp, Option.some.injEq] at hs
      subst hs
      exact safe.drop rfl ⟨Tx.covered_empty, by simp⟩

/-- What one commit may do to the committed state, whoever commits. -/
def Commits (C : Contract Row Note) (w w' : World Row Note) : Prop :=
  ∃ i notes, Commit C i notes w w'

abbrev History (C : Contract Row Note) : World Row Note → World Row Note → Prop :=
  Relation.ReflTransGen (Commits C)

/-- Only a commit changes the committed state, and it keeps the contract. -/
theorem Safe.commits (safe : Safe C post c) {a : Action Op}
    (hs : Interleaving.step program c a = some c')
    (allowed : ∀ i notes, published c a = some (i, notes) → C.allow i notes c.world c'.world) :
    (published c a = none ∧ c'.world = c.world) ∨
      ∃ i notes, published c a = some (i, notes) ∧ Commit C i notes c.world c'.world := by
  cases a with
  | start op => cases hs; exact Or.inl ⟨rfl, rfl⟩
  | crash i =>
    cases hp : c.procs[i]? with
    | none => simp [Interleaving.step, hp] at hs
    | some p =>
      simp only [Interleaving.step, hp, Option.some.injEq] at hs
      subst hs
      exact Or.inl ⟨rfl, rfl⟩
  | advance i choice =>
    cases hp : c.procs[i]? with
    | none => simp [Interleaving.step, hp] at hs
    | some p =>
      obtain ⟨op, born, tx, code⟩ := p
      cases code with
      | none => simp [Interleaving.step, hp] at hs
      | some code =>
        simp only [Interleaving.step, hp] at hs
        simp only [published, hp] at allowed ⊢
        cases code with
        | ret a => cases hs
        | look | rollback | choose => cases hs; exact Or.inl ⟨rfl, rfl⟩
        | lock | write =>
          simp only [Interleaving.advance, Option.ite_none_right_eq_some] at hs
          cases hs.2
          exact Or.inl ⟨rfl, rfl⟩
        | commit notes next =>
          cases hs
          have ha := allowed i _ rfl
          obtain ⟨pub, -⟩ := (safe.procs i _ hp).left _ rfl _ .refl safe.inv ha
          exact Or.inr ⟨i, _, rfl, safe.inv, pub.inv, pub.step, ha, rfl⟩

/-- Every run of programs that keep the contract is a sequence of its commits,
and the answers given are right. -/
theorem run_sound (sound : Sound C program post) (h : Run program C.allow c c')
    (safe : Safe C post c) : Safe C post c' ∧ History C c.world c'.world := by
  induction h with
  | refl => exact ⟨safe, .refl⟩
  | tail a _ hs ha ih =>
    obtain ⟨hsafe, hist⟩ := ih
    refine ⟨hsafe.step sound hs ha, ?_⟩
    rcases hsafe.commits hs ha with ⟨-, heq⟩ | ⟨i, notes, -, hc⟩
    · rw [heq]
      exact hist
    · exact hist.tail ⟨i, notes, hc⟩

/-- What has happened since a request arrived is a history, too. -/
theorem run_born (sound : Sound C program post) (h : Run program C.allow c c')
    (safe : Safe C post c) (hc : ∀ (i : Nat) p, c.procs[i]? = some p → History C p.born c.world) :
    ∀ (i : Nat) p, c'.procs[i]? = some p → History C p.born c'.world := by
  induction h with
  | refl => exact hc
  | @tail c₁ c₂ a hrun hs ha ih =>
    have hsafe := (run_sound sound hrun safe).1
    have hist : History C c₁.world c₂.world := by
      rcases hsafe.commits hs ha with ⟨-, heq⟩ | ⟨i, notes, -, hcommit⟩
      · rw [heq]
      · exact .single ⟨i, notes, hcommit⟩
    intro j p hp
    cases step_moved hs hp with
    | same hq => exact (ih j p hq).trans hist
    | arrived op => exact hist
    | @went q code choice hq _ =>
      have hborn : (q.next c₁.world.db choice code).born = q.born := by cases code <;> rfl
      rw [hborn]
      exact (ih j q hq).trans hist
    | lost hq => exact (ih j _ hq).trans hist

/-- Whatever a request found when it arrived goes back to where the run began. -/
theorem run_origin (sound : Sound C program post) (h : Run program C.allow c c')
    (safe : Safe C post c) (hc : ∀ (i : Nat) p, c.procs[i]? = some p → History C c.world p.born) :
    ∀ (i : Nat) p, c'.procs[i]? = some p → History C c.world p.born := by
  induction h with
  | refl => exact hc
  | @tail c₁ c₂ a hrun hs ha ih =>
    have hist := (run_sound sound hrun safe).2
    intro j p hp
    cases step_moved hs hp with
    | same hq => exact ih j p hq
    | arrived op => exact hist
    | @went q code choice hq _ =>
      have hborn : (q.next c₁.world.db choice code).born = q.born := by cases code <;> rfl
      rw [hborn]
      exact ih j q hq
    | @lost q hq => exact ih j q hq

theorem Safe.answer (safe : Safe C post c) {p : Proc Row Note Op α} {a : α}
    (hp : c.procs[i]? = some p) (ha : c.answer i = some a) :
    post p.op p.born i a c.world := by
  obtain ⟨op, born, tx, code⟩ := p
  have hcode : code = some (.ret a) := by
    revert ha
    simp only [Config.answer, hp]
    split <;> simp_all
  exact (safe.procs i _ hp).left _ hcode c.world .refl safe.inv

/-- What the others do while a request waits is part of the history. -/
theorem rely_history (h : Rely C i t w w') : History C w w' :=
  Relation.ReflTransGen.mono (fun _ _ ho => by
    obtain ⟨j, notes, -, hc⟩ := ho.author
    exact ⟨j, notes, hc⟩) _ _ h

omit [DecidableEq Key] in
/-- What every commit of a history keeps, the whole history keeps. -/
theorem history_keeps {P : World Row Note → Prop} (h : History C w w')
    (keeps : ∀ v v', Commits C v v' → P v → P v') (hw : P w) : P w' := by
  induction h with
  | refl => exact hw
  | tail _ hstep ih => exact keeps _ _ hstep ih

end RunSoundness
