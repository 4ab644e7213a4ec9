import Mathlib

/-! The migrations that a replica runs when it starts. Replicas of any builds start, stop
and lose their connection at any moment; a lock of the database session lets one of them at
a time go through the files that it was built with. -/
namespace SchemaMigrations
open Function

abbrev Version := String
abbrev Replica := Nat

structure Entry where
  name : String
  isDir : Bool

def upSuffix : String := ".up.sql"

def hasSuffix (s part : String) : Bool := part.toList.isSuffixOf s.toList

def trimSuffix (s part : String) : String :=
  if hasSuffix s part then String.ofList (s.toList.take (s.toList.length - part.toList.length)) else s

/-- The versions in the order of the loop: the directory is sorted by name, and what is not a
file of the kind is passed over. -/
def versions (entries : List Entry) : List Version :=
  ((entries.insertionSort fun a b => a.name.toList ≤ b.name.toList).filter fun e =>
    !e.isDir && hasSuffix e.name upSuffix).map fun e => trimSuffix e.name upSuffix

variable {Schema : Type}

/-- `recorded` are the rows of `schema_migrations`; `executed` are the bodies that have been
committed and the builds that they came from, the latest one last. -/
structure Database (Schema : Type) where
  recorded : List Version
  schema : Schema
  executed : List (Replica × Version)

/-- Where the call of `Up` has come to. From `begun` on a transaction is open: its body has
been executed in `executed`, and its row has been inserted in `inserted`. -/
inductive Phase (Schema : Type)
  | waiting
  | locked
  | checking (rest : List Version)
  | begun (version : Version) (rest : List Version)
  | executed (version : Version) (rest : List Version) (schema : Schema)
  | inserted (version : Version) (rest : List Version) (schema : Schema)
  | returned (ok : Bool)

def Phase.holds : Phase Schema → Bool
  | .waiting | .returned _ => false
  | _ => true

structure Fleet (Schema : Type) where
  db : Database Schema
  lock : Option Replica
  phase : Replica → Phase Schema

def start (schema : Schema) : Fleet Schema := ⟨⟨[], schema, []⟩, none, fun _ => .waiting⟩

namespace Fleet

def move (fleet : Fleet Schema) (r : Replica) (phase : Phase Schema) : Fleet Schema :=
  { fleet with phase := update fleet.phase r phase }

/-- The session ends or unlocks, and an open transaction is rolled back. -/
def leave (fleet : Fleet Schema) (r : Replica) (ok : Bool) : Fleet Schema :=
  { fleet with lock := none, phase := update fleet.phase r (.returned ok) }

def commit (fleet : Fleet Schema) (r : Replica) (version : Version) (schema : Schema) : Fleet Schema :=
  { fleet with
    db := ⟨version :: fleet.db.recorded, schema, fleet.db.executed ++ [(r, version)]⟩ }

end Fleet

/-- `fail` is an error of a statement, a cancelled call or the end of the process, at any
moment; with `commitUnseen` the commit takes place and the replica does not learn of it. -/
inductive Action
  | acquire (r : Replica)
  | proceed (r : Replica)
  | fail (r : Replica)
  | commitUnseen (r : Replica)
  | restart (r : Replica)

variable (entries : Replica → List Entry) (body : Replica → Version → Schema → Option Schema)

/-- The next statement of a replica. -/
def proceed (fleet : Fleet Schema) (r : Replica) : Option (Fleet Schema) :=
  match fleet.phase r with
  | .waiting | .returned _ => none
  | .locked => some (fleet.move r (.checking (versions (entries r))))
  | .checking [] => some (fleet.leave r true)
  | .checking (version :: rest) =>
    if version ∈ fleet.db.recorded then some (fleet.move r (.checking rest))
    else some (fleet.move r (.begun version rest))
  | .begun version rest =>
    match body r version fleet.db.schema with
    | none => some (fleet.leave r false)
    | some schema => some (fleet.move r (.executed version rest schema))
  | .executed version rest schema =>
    if version ∈ fleet.db.recorded then some (fleet.leave r false)
    else some (fleet.move r (.inserted version rest schema))
  | .inserted version rest schema => some ((fleet.commit r version schema).move r (.checking rest))

def step (fleet : Fleet Schema) : Action → Option (Fleet Schema)
  | .acquire r =>
    match fleet.phase r, fleet.lock with
    | .waiting, none => some { fleet.move r .locked with lock := some r }
    | _, _ => none
  | .proceed r => proceed entries body fleet r
  | .fail r =>
    match fleet.phase r with
    | .waiting => some (fleet.move r (.returned false))
    | .returned _ => none
    | _ => some (fleet.leave r false)
  | .commitUnseen r =>
    match fleet.phase r with
    | .inserted version _ schema => some ((fleet.commit r version schema).leave r false)
    | _ => none
  | .restart r =>
    match fleet.phase r with
    | .returned _ => some (fleet.move r .waiting)
    | _ => none

def Reaches : Fleet Schema → Fleet Schema → Prop :=
  Relation.ReflTransGen fun fleet fleet' => ∃ a, step entries body fleet a = some fleet'

section Invariant
variable {entries : Replica → List Entry} {body : Replica → Version → Schema → Option Schema}
variable {fleet fleet' : Fleet Schema} {db db' : Database Schema} {r : Replica} {s₀ : Schema}

/-- The versions before `rest` have been recorded. -/
def Passed (entries : Replica → List Entry) (db : Database Schema) (r : Replica)
    (rest : List Version) : Prop :=
  ∃ past, versions (entries r) = past ++ rest ∧ ∀ version ∈ past, version ∈ db.recorded

/-- What a replica knows in each phase. -/
def Knows (entries : Replica → List Entry) (body : Replica → Version → Schema → Option Schema)
    (db : Database Schema) (r : Replica) : Phase Schema → Prop
  | .waiting | .locked | .returned false => True
  | .returned true => Passed entries db r []
  | .checking rest => Passed entries db r rest
  | .begun version rest => Passed entries db r (version :: rest) ∧ version ∉ db.recorded
  | .executed version rest schema | .inserted version rest schema =>
    Passed entries db r (version :: rest) ∧ version ∉ db.recorded ∧
      body r version db.schema = some schema

def replay (body : Replica → Version → Schema → Option Schema) (schema : Schema)
    (executed : List (Replica × Version)) : Option Schema :=
  executed.foldlM (fun schema e => body e.1 e.2 schema) schema

/-- Every migration has been committed once, together with its row. -/
structure Sound (body : Replica → Version → Schema → Option Schema) (s₀ : Schema)
    (db : Database Schema) : Prop where
  once : (db.executed.map Prod.snd).Nodup
  recorded : ∀ version, version ∈ db.recorded ↔ version ∈ db.executed.map Prod.snd
  schema : replay body s₀ db.executed = some db.schema

structure Kept (entries : Replica → List Entry) (body : Replica → Version → Schema → Option Schema)
    (s₀ : Schema) (fleet : Fleet Schema) : Prop where
  exclusive : ∀ r, (fleet.phase r).holds = true → fleet.lock = some r
  sound : Sound body s₀ fleet.db
  knows : ∀ r, Knows entries body fleet.db r (fleet.phase r)

theorem start_kept (s₀ : Schema) : Kept entries body s₀ (start s₀) := by
  refine ⟨fun r hr => ?_, ⟨List.nodup_nil, fun _ => Iff.rfl, rfl⟩, fun _ => trivial⟩
  cases hr

theorem Passed.mono {rest : List Version} (h : Passed entries db r rest)
    (hsub : db.recorded ⊆ db'.recorded) : Passed entries db' r rest := by
  obtain ⟨past, heq, hpast⟩ := h
  exact ⟨past, heq, fun version hv => hsub (hpast version hv)⟩

theorem Passed.next {version : Version} {rest : List Version}
    (h : Passed entries db r (version :: rest)) (hv : version ∈ db.recorded) :
    Passed entries db r rest := by
  obtain ⟨past, heq, hpast⟩ := h
  refine ⟨past ++ [version], by simp [heq], fun v hmem => ?_⟩
  rcases List.mem_append.1 hmem with hmem | hmem
  · exact hpast v hmem
  · rw [List.mem_singleton.1 hmem]
    exact hv

/-- Who does not hold the lock loses nothing by a commit of another. -/
theorem Knows.mono {phase : Phase Schema} (h : Knows entries body db r phase)
    (hfree : phase.holds = false) (hsub : db.recorded ⊆ db'.recorded) :
    Knows entries body db' r phase := by
  cases phase with
  | waiting => exact trivial
  | returned ok =>
    cases ok with
    | false => exact trivial
    | true => exact Passed.mono h hsub
  | _ => cases hfree

theorem Sound.commit (h : Sound body s₀ db) {version : Version} {schema : Schema}
    (hnew : version ∉ db.recorded) (hbody : body r version db.schema = some schema) :
    Sound body s₀ ⟨version :: db.recorded, schema, db.executed ++ [(r, version)]⟩ := by
  refine ⟨?_, fun v => ?_, ?_⟩
  · have hnot : version ∉ db.executed.map Prod.snd := fun hmem => hnew ((h.recorded version).2 hmem)
    rw [List.map_append, List.nodup_append]
    refine ⟨h.once, List.nodup_singleton _, fun a ha b hb => ?_⟩
    rw [List.mem_singleton.1 hb]
    rintro rfl
    exact hnot ha
  · simp only [List.mem_cons, List.map_append, List.mem_append, List.map_cons, List.map_nil,
      h.recorded, List.not_mem_nil, or_false]
    exact or_comm
  · have hschema : db.executed.foldlM (fun schema e => body e.1 e.2 schema) s₀ = some db.schema := h.schema
    simp [replay, List.foldlM_append, hschema, hbody]

theorem Kept.move (hk : Kept entries body s₀ fleet) {phase : Phase Schema}
    (hlock : phase.holds = true → fleet.lock = some r) (h : Knows entries body fleet.db r phase) :
    Kept entries body s₀ (fleet.move r phase) := by
  refine ⟨fun r' hr' => ?_, hk.sound, fun r' => ?_⟩ <;> by_cases heq : r' = r
  · subst heq
    exact hlock (by simpa [Fleet.move] using hr')
  · exact hk.exclusive r' (by simpa [Fleet.move, heq] using hr')
  · subst heq
    simpa [Fleet.move] using h
  · simpa [Fleet.move, heq] using hk.knows r'

theorem Kept.leave (hk : Kept entries body s₀ fleet) (hlock : fleet.lock = some r) {ok : Bool}
    (h : Knows entries body fleet.db r (.returned ok)) :
    Kept entries body s₀ (fleet.leave r ok) := by
  refine ⟨fun r' hr' => ?_, hk.sound, fun r' => ?_⟩ <;> by_cases heq : r' = r
  · subst heq
    simp [Fleet.leave, Phase.holds] at hr'
  · have hlock' := hk.exclusive r' (by simpa [Fleet.leave, heq] using hr')
    exact absurd (Option.some.inj (hlock'.symm.trans hlock)) heq
  · subst heq
    simpa [Fleet.leave] using h
  · simpa [Fleet.leave, heq] using hk.knows r'

/-- A commit of the holder of the lock, whose transaction is over with it. -/
theorem Kept.commit (hk : Kept entries body s₀ fleet) (hp : fleet.phase r = .locked)
    {version : Version} {schema : Schema} (hnew : version ∉ fleet.db.recorded)
    (hbody : body r version fleet.db.schema = some schema) :
    Kept entries body s₀ (fleet.commit r version schema) := by
  have hlock : fleet.lock = some r := hk.exclusive r (by rw [hp]; rfl)
  refine ⟨hk.exclusive, hk.sound.commit hnew hbody, fun r' => ?_⟩
  change Knows entries body _ r' (fleet.phase r')
  by_cases heq : r' = r
  · rw [heq, hp]
    exact trivial
  · refine (hk.knows r').mono ?_ fun v hv => List.mem_cons_of_mem _ hv
    by_contra hholds
    have hlock' := hk.exclusive r' (by simpa using hholds)
    exact heq (Option.some.inj (hlock'.symm.trans hlock))

theorem commit_move {version : Version} {schema : Schema} (phase : Phase Schema) :
    (fleet.commit r version schema).move r phase =
      ((fleet.move r .locked).commit r version schema).move r phase := by
  simp [Fleet.commit, Fleet.move]

theorem commit_leave {version : Version} {schema : Schema} (ok : Bool) :
    (fleet.commit r version schema).leave r ok =
      ((fleet.move r .locked).commit r version schema).leave r ok := by
  simp [Fleet.commit, Fleet.move, Fleet.leave]

/-- The transaction of the holder ends with its commit. -/
theorem Kept.committed (hk : Kept entries body s₀ fleet) {version : Version} {rest : List Version}
    {schema : Schema} (hp : fleet.phase r = .inserted version rest schema) :
    Kept entries body s₀ ((fleet.move r .locked).commit r version schema) ∧
      Passed entries ((fleet.move r .locked).commit r version schema).db r rest := by
  have hlock : fleet.lock = some r := hk.exclusive r (by rw [hp]; rfl)
  obtain ⟨passed, hnew, hbody⟩ : Knows entries body fleet.db r (.inserted version rest schema) :=
    hp ▸ hk.knows r
  have hk' : Kept entries body s₀ (fleet.move r .locked) := hk.move (fun _ => hlock) trivial
  refine ⟨hk'.commit (by simp [Fleet.move]) hnew hbody, ?_⟩
  refine Passed.next (passed.mono fun v hv => ?_) List.mem_cons_self
  exact List.mem_cons_of_mem _ hv

theorem proceed_kept (hk : Kept entries body s₀ fleet) (hs : proceed entries body fleet r = some fleet') :
    Kept entries body s₀ fleet' := by
  have know := hk.knows r
  have lock := hk.exclusive r
  cases hp : fleet.phase r with
  | waiting | returned => simp [proceed, hp] at hs
  | locked =>
    simp only [proceed, hp, Option.some.injEq] at hs
    subst hs
    exact hk.move (fun _ => lock (by rw [hp]; rfl)) ⟨[], rfl, by simp⟩
  | checking rest =>
    rw [hp] at know lock
    cases rest with
    | nil =>
      simp only [proceed, hp, Option.some.injEq] at hs
      subst hs
      exact hk.leave (lock rfl) know
    | cons version rest =>
      simp only [proceed, hp] at hs
      split at hs <;> cases hs
      · exact hk.move (fun _ => lock rfl) (Passed.next know ‹_›)
      · exact hk.move (fun _ => lock rfl) ⟨know, ‹_›⟩
  | begun version rest =>
    rw [hp] at know lock
    simp only [proceed, hp] at hs
    split at hs <;> cases hs
    · exact hk.leave (lock rfl) trivial
    · exact hk.move (fun _ => lock rfl) ⟨know.1, know.2, ‹_›⟩
  | executed version rest schema =>
    rw [hp] at know lock
    simp only [proceed, hp] at hs
    split at hs <;> cases hs
    · exact hk.leave (lock rfl) trivial
    · exact hk.move (fun _ => lock rfl) know
  | inserted version rest schema =>
    simp only [proceed, hp, Option.some.injEq] at hs
    subst hs
    obtain ⟨hk', passed⟩ := hk.committed hp
    rw [commit_move]
    refine hk'.move (fun _ => ?_) passed
    exact lock (by rw [hp]; rfl)

theorem step_kept {a : Action} (hk : Kept entries body s₀ fleet)
    (hs : step entries body fleet a = some fleet') : Kept entries body s₀ fleet' := by
  cases a with
  | proceed r => exact proceed_kept hk hs
  | acquire r =>
    simp only [step] at hs
    split at hs <;> cases hs
    have free : ∀ r', (fleet.phase r').holds = false := by
      intro r'
      by_contra hholds
      have hlock := hk.exclusive r' (by simpa using hholds)
      simp_all
    refine ⟨fun r' hr' => ?_, hk.sound, fun r' => ?_⟩ <;> by_cases heq : r' = r
    · rw [heq]
    · have hholds : (fleet.phase r').holds = true := by simpa [Fleet.move, heq] using hr'
      rw [free r'] at hholds
      cases hholds
    · subst heq
      simp [Fleet.move, Knows]
    · simpa [Fleet.move, heq] using hk.knows r'
  | fail r =>
    have lock := hk.exclusive r
    simp only [step] at hs
    cases hp : fleet.phase r with
    | waiting =>
      rw [hp] at hs
      cases hs
      exact hk.move (fun h => by cases h) trivial
    | returned ok =>
      rw [hp] at hs
      cases hs
    | _ =>
      rw [hp] at hs lock
      cases hs
      exact hk.leave (lock rfl) trivial
  | commitUnseen r =>
    simp only [step] at hs
    split at hs <;> cases hs
    rename_i hp
    rw [commit_leave]
    refine (hk.committed hp).1.leave ?_ trivial
    exact hk.exclusive r (by rw [hp]; rfl)
  | restart r =>
    simp only [step] at hs
    split at hs <;> cases hs
    exact hk.move (fun h => by cases h) trivial

theorem reaches_kept (h : Reaches entries body (start s₀) fleet) : Kept entries body s₀ fleet := by
  induction h with
  | refl => exact start_kept s₀
  | tail _ hstep ih =>
    obtain ⟨a, hs⟩ := hstep
    exact step_kept ih hs

/-- Whatever replicas start, fail and lose their commits: every migration is committed once,
by one of them, together with its row; the schema is what the bodies make of it in that
order; and a replica that starts up has found or made all of its migrations. -/
theorem migrations_once (h : Reaches entries body (start s₀) fleet) :
    (fleet.db.executed.map Prod.snd).Nodup ∧
      (∀ version, version ∈ fleet.db.recorded ↔ version ∈ fleet.db.executed.map Prod.snd) ∧
      replay body s₀ fleet.db.executed = some fleet.db.schema ∧
      (∀ r, fleet.phase r = .returned true → versions (entries r) ⊆ fleet.db.recorded) := by
  have hk := reaches_kept h
  refine ⟨hk.sound.once, hk.sound.recorded, hk.sound.schema, fun r hp version hv => ?_⟩
  obtain ⟨past, heq, hpast⟩ : Knows entries body fleet.db r (.returned true) := hp ▸ hk.knows r
  rw [heq, List.append_nil] at hv
  exact hpast version hv

section Order

/-- The next migration of a build that only adds to what the others have. -/
theorem prefix_next {L xs past rest : List Version} {version : Version} (hL : L.Nodup)
    (hxs : xs <+: L) (hpast : past ++ version :: rest <+: L) (hsub : past ⊆ xs)
    (hnew : version ∉ xs) : xs ++ [version] <+: L := by
  have hnext : past ++ [version] <+: L := by
    refine List.IsPrefix.trans ⟨rest, ?_⟩ hpast
    simp
  have hle : xs <+: past ++ [version] := by
    refine (List.prefix_or_prefix_of_prefix hxs hnext).resolve_right fun hlong => ?_
    exact hnew (hlong.subset (List.mem_append_right _ List.mem_cons_self))
  have hshort : xs <+: past := by
    refine (List.prefix_concat_iff.1 hle).resolve_left fun heq => hnew ?_
    rw [heq]
    exact List.mem_append_right _ List.mem_cons_self
  have hnodup : past.Nodup := hL.sublist ((List.prefix_append _ _).trans hnext).sublist
  have hlen : past.length ≤ xs.length := (hnodup.subperm hsub).length_le
  rw [hshort.eq_of_length_le hlen]
  exact hnext

/-- A step commits nothing, or the next migration of some replica. -/
theorem step_executed {a : Action} (hk : Kept entries body s₀ fleet)
    (hs : step entries body fleet a = some fleet') :
    fleet'.db = fleet.db ∨ ∃ r version rest, Passed entries fleet.db r (version :: rest) ∧
      version ∉ fleet.db.recorded ∧ fleet'.db.executed = fleet.db.executed ++ [(r, version)] := by
  have committing : ∀ {r version rest schema}, fleet.phase r = .inserted version rest schema →
      Passed entries fleet.db r (version :: rest) ∧ version ∉ fleet.db.recorded := by
    intro r version rest schema hp
    have know : Knows entries body fleet.db r (.inserted version rest schema) := hp ▸ hk.knows r
    exact ⟨know.1, know.2.1⟩
  cases a with
  | acquire r =>
    simp only [step] at hs
    split at hs <;> cases hs
    exact .inl rfl
  | fail r =>
    simp only [step] at hs
    split at hs <;> cases hs <;> exact .inl rfl
  | restart r =>
    simp only [step] at hs
    split at hs <;> cases hs
    exact .inl rfl
  | commitUnseen r =>
    simp only [step] at hs
    split at hs <;> cases hs
    rename_i hp
    exact .inr ⟨r, _, _, (committing hp).1, (committing hp).2, rfl⟩
  | proceed r =>
    simp only [step] at hs
    cases hp : fleet.phase r with
    | waiting | returned => simp [proceed, hp] at hs
    | locked =>
      simp only [proceed, hp] at hs
      cases hs
      exact .inl rfl
    | checking rest =>
      cases rest with
      | nil =>
        simp only [proceed, hp] at hs
        cases hs
        exact .inl rfl
      | cons version rest =>
        simp only [proceed, hp] at hs
        split at hs <;> cases hs <;> exact .inl rfl
    | begun version rest =>
      simp only [proceed, hp] at hs
      split at hs <;> cases hs <;> exact .inl rfl
    | executed version rest schema =>
      simp only [proceed, hp] at hs
      split at hs <;> cases hs <;> exact .inl rfl
    | inserted version rest schema =>
      simp only [proceed, hp] at hs
      cases hs
      exact .inr ⟨r, version, rest, (committing hp).1, (committing hp).2, rfl⟩

/-- Where each build has the migrations of one line up to some point, the database follows
the line: at any moment, it has been given the first of them, in their order. -/
theorem migrations_in_order {L : List Version} (hL : L.Nodup)
    (hbuilds : ∀ r, versions (entries r) <+: L) (h : Reaches entries body (start s₀) fleet) :
    fleet.db.executed.map Prod.snd <+: L ∧
      ∀ r, fleet.phase r = .returned true → versions (entries r) <+: fleet.db.executed.map Prod.snd := by
  have hline : fleet.db.executed.map Prod.snd <+: L := by
    induction h with
    | refl => exact List.nil_prefix
    | @tail fleet₁ fleet₂ hrun hstep ih =>
      obtain ⟨a, hs⟩ := hstep
      have hk := reaches_kept hrun
      rcases step_executed hk hs with heq | ⟨r, version, rest, ⟨past, hversions, hpast⟩, hnew, heq⟩
      · rw [heq]
        exact ih
      · rw [heq, List.map_append]
        refine prefix_next hL ih (hversions ▸ hbuilds r) (fun v hv => ?_) fun hmem => ?_
        · exact (hk.sound.recorded v).1 (hpast v hv)
        · exact hnew ((hk.sound.recorded version).2 hmem)
  refine ⟨hline, fun r hp => ?_⟩
  have hsub : versions (entries r) ⊆ fleet.db.executed.map Prod.snd := fun v hv =>
    ((reaches_kept h).sound.recorded v).1 ((migrations_once h).2.2.2 r hp hv)
  rcases List.prefix_or_prefix_of_prefix (hbuilds r) hline with hshort | hlong
  · exact hshort
  · have hnodup : (versions (entries r)).Nodup := hL.sublist (hbuilds r).sublist
    rw [hlong.eq_of_length_le (hnodup.subperm hsub).length_le]

end Order

end Invariant

section Example

/-- Two builds: the later one has one migration more. -/
def twoBuilds : Replica → List Entry
  | 0 => [⟨"000002_catalog.up.sql", false⟩, ⟨"000001_init.up.sql", false⟩]
  | _ => [⟨"000008_versions.down.sql", false⟩, ⟨"000001_init.up.sql", false⟩,
      ⟨"000008_versions.up.sql", false⟩, ⟨"000002_catalog.up.sql", false⟩]

def noted (_ : Replica) (version : Version) (schema : List Version) : Option (List Version) :=
  some (version :: schema)

def exec (fleet : Fleet (List Version)) : List Action → Option (Fleet (List Version))
  | [] => some fleet
  | a :: rest => (step twoBuilds noted fleet a).bind fun fleet' => exec fleet' rest

theorem reaches_exec {fleet fleet' : Fleet (List Version)} (as : List Action)
    (h : exec fleet as = some fleet') : Reaches twoBuilds noted fleet fleet' := by
  induction as generalizing fleet with
  | nil =>
    cases h
    exact .refl
  | cons a rest ih =>
    obtain ⟨fleet₁, hs, hrest⟩ := Option.bind_eq_some_iff.1 h
    exact .head ⟨a, hs⟩ (ih hrest)

/-- The old build loses its connection while it commits; the new one goes on from there. -/
def rollout : List Action :=
  [.acquire 0, .proceed 0, .proceed 0, .proceed 0, .proceed 0, .commitUnseen 0, .acquire 1] ++
    List.replicate 11 (.proceed 1)

def Phase.succeeded : Phase Schema → Bool
  | .returned ok => ok
  | _ => false

theorem returned_of_succeeded {phase : Phase Schema} (h : phase.succeeded = true) :
    phase = .returned true := by
  cases phase with
  | returned ok =>
    cases h
    rfl
  | _ => cases h

def line : List Version := ["000001_init", "000002_catalog", "000008_versions"]

theorem builds_in_line (r : Replica) : versions (twoBuilds r) <+: line := by
  have later : versions (twoBuilds 1) <+: line := by decide +kernel
  cases r with
  | zero => decide +kernel
  | succ n => exact later

theorem rollout_in_order : ∃ fleet, exec (start []) rollout = some fleet ∧
    fleet.db.executed = [(0, "000001_init"), (1, "000002_catalog"), (1, "000008_versions")] ∧
    fleet.db.executed.map Prod.snd <+: line ∧
    versions (twoBuilds 1) <+: fleet.db.executed.map Prod.snd := by
  have checked : (exec (start []) rollout).any (fun fleet =>
      decide (fleet.db.executed =
        [(0, "000001_init"), (1, "000002_catalog"), (1, "000008_versions")]) &&
        (fleet.phase 1).succeeded) = true := by
    decide +kernel
  obtain ⟨fleet, hfleet, hcheck⟩ := (Option.any_eq_true _ _).1 checked
  obtain ⟨hexecuted, hdone⟩ := Bool.and_eq_true_iff.1 hcheck
  have hline : line.Nodup := by decide +kernel
  have inOrder := migrations_in_order hline builds_in_line (reaches_exec _ hfleet)
  exact ⟨fleet, hfleet, of_decide_eq_true hexecuted, inOrder.1,
    inOrder.2 1 (returned_of_succeeded hdone)⟩

theorem rollout_once : ∃ fleet, exec (start []) rollout = some fleet ∧
    (fleet.db.executed.map Prod.snd).Nodup ∧
    versions (twoBuilds 1) ⊆ fleet.db.recorded := by
  have checked : (exec (start []) rollout).any (fun fleet => (fleet.phase 1).succeeded) = true := by
    decide +kernel
  obtain ⟨fleet, hfleet, hdone⟩ := (Option.any_eq_true _ _).1 checked
  have once := migrations_once (reaches_exec _ hfleet)
  exact ⟨fleet, hfleet, once.1, once.2.2.2 1 (returned_of_succeeded hdone)⟩

end Example

end SchemaMigrations
