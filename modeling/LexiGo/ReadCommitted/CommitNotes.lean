import LexiGo.ReadCommitted.Interleaving
import LexiGo.ReadCommitted.WiderSchema

/-! What a request notes in the course of its commits, and how that goes together
with its answer. Nothing here looks at the rows: the shape of the program alone
decides, so it holds in every run, whatever the other requests do. -/
namespace CommitNotes
open RowStore TransactionProgram Interleaving

variable {Key : Type} [DecidableEq Key] {Row : Key → Type} {Note Op α β : Type}

/-- Each commit notes what `P` admits after the notes so far, newest first, and the
answer is one that `Q` admits after all of them. -/
def Follows (P : List Note → List Note → Prop) (Q : List Note → α → Prop) :
    List Note → Prog Row Note α → Prop
  | past, .ret a => Q past a
  | past, .look next => ∀ db, Follows P Q past (next db)
  | past, .lock _ _ next => Follows P Q past next
  | past, .write _ _ _ next => Follows P Q past next
  | past, .commit notes next => ∀ db, P (notes db) past ∧ Follows P Q (notes db ++ past) (next db)
  | past, .rollback next => Follows P Q past next
  | past, .choose next => ∀ n, Follows P Q past (next n)

variable {P : List Note → List Note → Prop} {Q : List Note → α → Prop} {past : List Note}

omit [DecidableEq Key] in
theorem follows_bind {Q : List Note → β → Prop} (p : Prog Row Note α) (f : α → Prog Row Note β) :
    Follows P Q past (p >>= f) ↔ Follows P (fun past a => Follows P Q past (f a)) past p := by
  rw [Prog.bind_def]
  induction p generalizing past with
  | ret a => exact Iff.rfl
  | look next ih => simp only [Prog.bind, Follows, ih]
  | lock k m next ih => simp only [Prog.bind, Follows, ih]
  | write k m v next ih => simp only [Prog.bind, Follows, ih]
  | commit notes next ih => simp only [Prog.bind, Follows, ih]
  | rollback next ih => simp only [Prog.bind, Follows, ih]
  | choose next ih => simp only [Prog.bind, Follows, ih]

omit [DecidableEq Key] in
@[simp] theorem follows_pure (a : α) :
    Follows P Q past (pure a : Prog Row Note α) ↔ Q past a := Iff.rfl

omit [DecidableEq Key] in
@[simp] theorem follows_commit {Q : List Note → Unit → Prop} (notes : List Note) :
    Follows P Q past (commit notes : Prog Row Note Unit) ↔ P notes past ∧ Q (notes ++ past) () := by
  constructor
  · intro h
    exact h ∅
  · exact fun h _ => h

omit [DecidableEq Key] in
@[simp] theorem follows_leave (a : α) :
    Follows P Q past (leave a : Prog Row Note α) ↔ Q past a := Iff.rfl

omit [DecidableEq Key] in
theorem follows_query (f : Db Row → α) (notes : α → List Note)
    (h : ∀ a, P (notes a) past ∧ Q (notes a ++ past) a) : Follows P Q past (query f notes) :=
  fun db => h (f db)

omit [DecidableEq Key] in
theorem follows_mono {Q' : List Note → α → Prop} {p : Prog Row Note α}
    (himp : ∀ past a, Q past a → Q' past a) (h : Follows P Q past p) : Follows P Q' past p := by
  induction p generalizing past with
  | ret a => exact himp _ _ h
  | look next ih => exact fun db => ih db (h db)
  | lock k m next ih => exact ih h
  | write k m v next ih => exact ih h
  | commit notes next ih => exact fun db => ⟨(h db).1, ih db (h db).2⟩
  | rollback next ih => exact ih h
  | choose next ih => exact fun n => ih n (h n)

omit [DecidableEq Key] in
theorem follows_weaken {P' : List Note → List Note → Prop} {p : Prog Row Note α}
    (himp : ∀ notes past, P notes past → P' notes past) (h : Follows P Q past p) :
    Follows P' Q past p := by
  induction p generalizing past with
  | ret a => exact h
  | look next ih => exact fun db => ih db (h db)
  | lock k m next ih => exact ih h
  | write k m v next ih => exact ih h
  | commit notes next ih => exact fun db => ⟨himp _ _ (h db).1, ih db (h db).2⟩
  | rollback next ih => exact ih h
  | choose next ih => exact fun n => ih n (h n)

omit [DecidableEq Key] in
theorem follows_of_forall (hP : ∀ notes past, P notes past) (hQ : ∀ past a, Q past a)
    (p : Prog Row Note α) : Follows P Q past p := by
  induction p generalizing past with
  | ret a => exact hQ _ a
  | look next ih => exact fun db => ih db
  | lock k m next ih => exact ih
  | write k m v next ih => exact ih
  | commit notes next ih => exact fun db => ⟨hP _ _, ih db⟩
  | rollback next ih => exact ih
  | choose next ih => exact fun n => ih n

/-- A part of a program without a commit. -/
def Quiet (p : Prog Row Note α) : Prop :=
  ∀ (P : List Note → List Note → Prop) (past : List Note), Follows P (fun past' _ => past' = past) past p

omit [DecidableEq Key] in
theorem follows_quiet {p : Prog Row Note α} {f : α → Prog Row Note β} {Q : List Note → β → Prop}
    (hp : Quiet p) (h : ∀ a, Follows P Q past (f a)) : Follows P Q past (p >>= f) := by
  rw [follows_bind]
  refine follows_mono ?_ (hp P past)
  rintro _ a rfl
  exact h a

namespace Quiet

omit [DecidableEq Key] in
theorem pure (a : α) : Quiet (pure a : Prog Row Note α) := fun _ _ => rfl

omit [DecidableEq Key] in
theorem select (f : Db Row → α) : Quiet (select f : Prog Row Note α) := fun _ _ _ => rfl

omit [DecidableEq Key] in
theorem lockRow (k : Key) (m : Mode) : Quiet (lockRow k m : Prog Row Note Unit) := fun _ _ => rfl

omit [DecidableEq Key] in
theorem writeRow (k : Key) (m : Mode) (v : Option (Row k)) :
    Quiet (writeRow k m v : Prog Row Note Unit) := fun _ _ => rfl

omit [DecidableEq Key] in
theorem choose : Quiet (choose : Prog Row Note Nat) := fun _ _ _ => rfl

omit [DecidableEq Key] in
theorem bind {p : Prog Row Note α} {f : α → Prog Row Note β} (hp : Quiet p)
    (hf : ∀ a, Quiet (f a)) : Quiet (p >>= f) :=
  fun P past => follows_quiet hp fun a => hf a P past

theorem selectFor (k : Key) (m : Mode) (p : Row k → Bool) :
    Quiet (selectFor k m p : Prog Row Note (Option (Row k))) := by
  refine .bind (.select _) fun seen => ?_
  split
  · exact .bind (.lockRow k m) fun _ => .select _
  · exact .pure _

theorem updateRow (k : Key) (m : Mode) (p : Row k → Bool) (g : Row k → Row k) :
    Quiet (updateRow k m p g : Prog Row Note (Option (Row k))) := by
  refine .bind (.selectFor k m p) fun found => ?_
  cases found with
  | none => exact .pure _
  | some r => exact .bind (.writeRow k m _) fun _ => .pure _

theorem insertRow (k : Key) (r : Row k) : Quiet (insertRow k r : Prog Row Note Bool) := by
  refine .bind (.lockRow k _) fun _ => .bind (.select _) fun now => ?_
  split
  · exact .pure _
  · exact .bind (.writeRow k _ _) fun _ => .pure _

theorem changeEach (m : Mode) (f : ∀ k, Row k → Option (Option (Row k))) (keys : List Key) :
    Quiet (changeEach m f keys : Prog Row Note (List Key)) := by
  induction keys with
  | nil => exact .pure _
  | cons k rest ih =>
    refine .bind (.lockRow k m) fun _ => .bind (.select _) fun now => ?_
    cases now.bind (f k) with
    | none => exact ih
    | some v => exact .bind (.writeRow k m v) fun _ => .bind ih fun _ => .pure _

omit [DecidableEq Key] in
theorem leave (a : α) : Quiet (leave a : Prog Row Note α) := fun _ _ => rfl

/-- A part without a commit has none in a wider schema either. -/
theorem lift {Extra : Type} {More : Extra → Type} {Note' : Type} {notes : List Note → List Note'}
    {p : Prog Row Note α} (hp : Quiet p) :
    Quiet (WiderSchema.lift notes p : Prog (WiderSchema.Both Row More) Note' α) := by
  intro P past
  have h := hp (fun _ _ => False) []
  generalize hpast : ([] : List Note) = before at h
  clear hp
  induction p with
  | ret a => exact rfl
  | look next ih => exact fun db => ih _ (h _)
  | lock k m next ih => exact ih h
  | write k m v next ih => exact ih h
  | commit told next => exact absurd (h ∅).1 not_false
  | rollback next ih => exact ih h
  | choose next ih => exact fun n => ih n (h n)

end Quiet

section Kept
variable {program : Op → Prog Row Note α}
variable {allow : Nat → List Note → World Row Note → World Row Note → Prop}
variable {c c' : Config Row Note Op α}

/-- Only the request that takes a step publishes with it. -/
theorem published_own {i choice j : Nat} {notes : List Note}
    (h : published c (.advance i choice) = some (j, notes)) : j = i := by
  simp only [published] at h
  split at h
  · cases h
    rfl
  · cases h

theorem step_log {a : Action Op} (hs : step program c a = some c') :
    c.world.log ⊆ c'.world.log := by
  cases a with
  | start op =>
    cases hs
    exact List.Subset.refl _
  | crash i =>
    cases hp : c.procs[i]? with
    | none => simp [Interleaving.step, hp] at hs
    | some p =>
      simp only [Interleaving.step, hp, Option.some.injEq] at hs
      subst hs
      exact List.Subset.refl _
  | advance i choice =>
    cases hp : c.procs[i]? with
    | none => simp [Interleaving.step, hp] at hs
    | some p =>
      cases hcode : p.code with
      | none => simp [Interleaving.step, hp, hcode] at hs
      | some code =>
        simp only [Interleaving.step, hp, hcode] at hs
        cases code with
        | ret a => cases hs
        | look | choose | rollback =>
          cases hs
          exact List.Subset.refl _
        | lock | write =>
          simp only [Interleaving.advance, Option.ite_none_right_eq_some] at hs
          cases hs.2
          exact List.Subset.refl _
        | commit notes next =>
          cases hs
          exact List.subset_append_right _ _

theorem step_stays {a : Action Op} (hs : step program c a = some c') {j : Nat}
    {p : Proc Row Note Op α} (hp : c.procs[j]? = some p) :
    ∃ p', c'.procs[j]? = some p' ∧ p'.op = p.op := by
  have hj : j < c.procs.length := (List.getElem?_eq_some_iff.1 hp).1
  have inPlace : ∀ {i : Nat} {q q' : Proc Row Note Op α}, c.procs[i]? = some q → q'.op = q.op →
      ∃ p', (c.procs.set i q')[j]? = some p' ∧ p'.op = p.op := by
    intro i q q' hq hop
    by_cases hij : i = j
    · subst hij
      cases hq.symm.trans hp
      exact ⟨q', by simp [hj], hop⟩
    · exact ⟨p, by rw [List.getElem?_set_ne hij]; exact hp, rfl⟩
  cases a with
  | start op =>
    cases hs
    exact ⟨p, by simpa [Config.spawn, List.getElem?_append_left hj] using hp, rfl⟩
  | crash i =>
    cases hq : c.procs[i]? with
    | none => simp [Interleaving.step, hq] at hs
    | some q =>
      simp only [Interleaving.step, hq, Option.some.injEq] at hs
      subst hs
      exact inPlace hq rfl
  | advance i choice =>
    cases hq : c.procs[i]? with
    | none => simp [Interleaving.step, hq] at hs
    | some q =>
      cases hcode : q.code with
      | none => simp [Interleaving.step, hq, hcode] at hs
      | some code =>
        simp only [Interleaving.step, hq, hcode] at hs
        rw [advance_procs hs]
        refine inPlace hq ?_
        cases code <;> rfl

theorem run_log (h : Run program allow c c') : c.world.log ⊆ c'.world.log := by
  induction h with
  | refl => exact List.Subset.refl _
  | tail a _ hs _ ih => exact List.Subset.trans ih (step_log hs)

theorem run_stays (h : Run program allow c c') {j : Nat} {p : Proc Row Note Op α}
    (hp : c.procs[j]? = some p) : ∃ p', c'.procs[j]? = some p' ∧ p'.op = p.op := by
  induction h with
  | refl => exact ⟨p, hp, rfl⟩
  | tail a _ hs _ ih =>
    obtain ⟨p₁, hp₁, hop₁⟩ := ih
    obtain ⟨p₂, hp₂, hop₂⟩ := step_stays hs hp₁
    exact ⟨p₂, hp₂, hop₂.trans hop₁⟩

end Kept

/-- The notes of request `i`, newest first. -/
def ownNotes (i : Nat) (log : List (Nat × Note)) : List Note :=
  (log.filter fun entry => entry.1 = i).map Prod.snd

theorem mem_ownNotes {i : Nat} {log : List (Nat × Note)} {n : Note} :
    n ∈ ownNotes i log ↔ (i, n) ∈ log := by
  simp [ownNotes]

theorem ownNotes_publish (i j : Nat) (notes : List Note) (log : List (Nat × Note)) :
    ownNotes i (notes.map (fun n => (j, n)) ++ log) =
      if j = i then notes ++ ownNotes i log else ownNotes i log := by
  unfold ownNotes
  rw [List.filter_append, List.map_append, List.filter_map, List.map_map]
  by_cases h : j = i <;> simp [h, Function.comp_def]

/-- The notes of the commits that a request has behind it. -/
inductive Noted (P : List Note → List Note → Prop) : List Note → Prop
  | start : Noted P []
  | commit {notes past : List Note} : P notes past → Noted P past → Noted P (notes ++ past)

variable {program : Op → Prog Row Note α}
variable {allow : Nat → List Note → World Row Note → World Row Note → Prop}
variable {P : Op → List Note → List Note → Prop} {Q : Op → List Note → α → Prop}
variable {c c' : Config Row Note Op α}

/-- Every request is where its own notes say that it is. -/
structure Tracked (P : Op → List Note → List Note → Prop) (Q : Op → List Note → α → Prop)
    (c : Config Row Note Op α) : Prop where
  known : ∀ entry ∈ c.world.log, entry.1 < c.procs.length
  noted : ∀ (i : Nat) p, c.procs[i]? = some p → Noted (P p.op) (ownNotes i c.world.log)
  left : ∀ (i : Nat) p code, c.procs[i]? = some p → p.code = some code →
    Follows (P p.op) (Q p.op) (ownNotes i c.world.log) code

omit [DecidableEq Key] in
theorem tracked_start (w : Db Row) : Tracked P Q (⟨⟨w, []⟩, []⟩ : Config Row Note Op α) :=
  ⟨by simp, by simp, by simp⟩

omit [DecidableEq Key] in
theorem ownNotes_unknown {log : List (Nat × Note)} {n : Nat} (h : ∀ entry ∈ log, entry.1 < n) :
    ownNotes n log = [] := by
  have : log.filter (fun entry => entry.1 = n) = [] := by
    refine List.filter_eq_nil_iff.2 fun entry he => ?_
    have := h entry he
    simp only [decide_eq_true_eq]
    omega
  simp [ownNotes, this]

omit [DecidableEq Key] in
/-- A step that commits nothing moves one request along its program. -/
theorem Tracked.move (h : Tracked P Q c) {i : Nat} {p p' : Proc Row Note Op α}
    (hp : c.procs[i]? = some p) (hop : p'.op = p.op)
    (hleft : ∀ code, p'.code = some code →
      Follows (P p.op) (Q p.op) (ownNotes i c.world.log) code) :
    Tracked P Q (c.setProc i p') := by
  refine ⟨?_, ?_, ?_⟩
  · simpa [Config.setProc] using h.known
  · intro j q hq
    rcases getElem?_set_cases hq with ⟨rfl, rfl⟩ | ⟨-, hq⟩
    · exact hop ▸ h.noted j p hp
    · exact h.noted j q hq
  · intro j q code hq hcode
    rcases getElem?_set_cases hq with ⟨rfl, rfl⟩ | ⟨-, hq⟩
    · exact hop ▸ hleft code hcode
    · exact h.left j q code hq hcode

theorem Tracked.publish (h : Tracked P Q c) {i : Nat} {p : Proc Row Note Op α}
    {notes : Db Row → List Note} {next : Db Row → Prog Row Note α}
    (hp : c.procs[i]? = some p) (hcode : p.code = some (.commit notes next)) (db : Db Row) :
    Tracked P Q ⟨c.world.publish i p.tx (notes db),
      c.procs.set i { p with tx := {}, code := some (next db) }⟩ := by
  obtain ⟨hnotes, hnext⟩ := h.left i p _ hp hcode db
  have hi : i < c.procs.length := (List.getElem?_eq_some_iff.1 hp).1
  refine ⟨?_, ?_, ?_⟩
  · intro entry he
    simp only [World.publish, List.mem_append, List.mem_map, List.length_set] at he ⊢
    rcases he with ⟨n, -, rfl⟩ | he
    · exact hi
    · exact h.known entry he
  · intro j q hq
    simp only [World.publish, ownNotes_publish]
    rcases getElem?_set_cases hq with ⟨rfl, rfl⟩ | ⟨hj, hq⟩
    · simpa using .commit hnotes (h.noted j p hp)
    · simpa [Ne.symm hj] using h.noted j q hq
  · intro j q code hq hq'
    simp only [World.publish, ownNotes_publish]
    rcases getElem?_set_cases hq with ⟨rfl, rfl⟩ | ⟨hj, hq⟩
    · cases hq'
      simpa using hnext
    · simpa [Ne.symm hj] using h.left j q code hq hq'

theorem Tracked.step (hprogram : ∀ op, Follows (P op) (Q op) [] (program op))
    (h : Tracked P Q c) {a : Action Op} (hs : step program c a = some c') : Tracked P Q c' := by
  cases a with
  | start op =>
    cases hs
    have hnew : ownNotes c.procs.length c.world.log = [] := ownNotes_unknown h.known
    have arrived : ∀ j q, (c.spawn program op).procs[j]? = some q → c.procs[j]? = some q ∨
        j = c.procs.length ∧ q = ⟨op, c.world, {}, some (program op)⟩ := by
      intro j q hq
      by_cases hj : j < c.procs.length
      · exact .inl (by simpa [Config.spawn, List.getElem?_append_left hj] using hq)
      · have hlast : j = c.procs.length := by
          have := (List.getElem?_eq_some_iff.1 hq).1
          simp [Config.spawn] at this
          omega
        subst hlast
        exact .inr ⟨rfl, by simpa [Config.spawn] using hq.symm⟩
    refine ⟨fun entry he => ?_, fun j q hq => ?_, fun j q code hq hcode => ?_⟩
    · have := h.known entry he
      simp only [Config.spawn, List.length_append, List.length_singleton]
      omega
    · rcases arrived j q hq with hq | ⟨rfl, rfl⟩
      · exact h.noted j q hq
      · simpa [Config.spawn, hnew] using Noted.start
    · rcases arrived j q hq with hq | ⟨rfl, rfl⟩
      · exact h.left j q code hq hcode
      · cases hcode
        simpa [Config.spawn, hnew] using hprogram op
  | crash i =>
    cases hp : c.procs[i]? with
    | none => simp [Interleaving.step, hp] at hs
    | some p =>
      simp only [Interleaving.step, hp, Option.some.injEq] at hs
      subst hs
      exact h.move hp rfl (by simp)
  | advance i choice =>
    cases hp : c.procs[i]? with
    | none => simp [Interleaving.step, hp] at hs
    | some p =>
      cases hcode : p.code with
      | none => simp [Interleaving.step, hp, hcode] at hs
      | some code =>
        simp only [Interleaving.step, hp, hcode] at hs
        have hleft := h.left i p code hp hcode
        cases code with
        | ret a => cases hs
        | look next | choose next =>
          cases hs
          exact h.move hp rfl (by rintro _ ⟨⟩; exact hleft _)
        | rollback next =>
          cases hs
          exact h.move hp rfl (by rintro _ ⟨⟩; exact hleft)
        | lock k m next | write k m v next =>
          simp only [Interleaving.advance, Option.ite_none_right_eq_some] at hs
          cases hs.2
          exact h.move hp rfl (by rintro _ ⟨⟩; exact hleft)
        | commit notes next =>
          cases hs
          exact h.publish hp hcode _

theorem Tracked.run (hprogram : ∀ op, Follows (P op) (Q op) [] (program op))
    (h : Tracked P Q c) (hrun : Run program allow c c') : Tracked P Q c' := by
  induction hrun with
  | refl => exact h
  | tail a _ hs _ ih => exact ih.step hprogram hs

theorem Tracked.published (h : Tracked P Q c) {a : Action Op} {i : Nat} {notes : List Note}
    (hpub : published c a = some (i, notes)) :
    ∃ p, c.procs[i]? = some p ∧ P p.op notes (ownNotes i c.world.log) := by
  cases a with
  | start op => cases hpub
  | crash j => cases hpub
  | advance j choice =>
    simp only [Interleaving.published] at hpub
    split at hpub
    · rename_i op born tx notes' next hp
      simp only [Option.some.injEq, Prod.mk.injEq] at hpub
      obtain ⟨rfl, rfl⟩ := hpub
      exact ⟨_, hp, (h.left j _ _ hp rfl _).1⟩
    · cases hpub

omit [DecidableEq Key] in
theorem Tracked.answer (h : Tracked P Q c) {i : Nat} {p : Proc Row Note Op α} {a : α}
    (hp : c.procs[i]? = some p) (ha : c.answer i = some a) :
    Q p.op (ownNotes i c.world.log) a := by
  obtain ⟨op, born, tx, code⟩ := p
  have hcode : code = some (.ret a) := by
    revert ha
    simp only [Config.answer, hp]
    split <;> simp_all
  exact h.left i _ _ hp hcode

end CommitNotes
