import LexiGo.ReadCommitted.RowStore

/-! What becomes of a database when a row is deleted that others refer to. Each
foreign key says whether a row that refers to a deleted one is deleted with it or
loses the reference. Deleting a row leaves one event for each foreign key, in the
order in which the keys were created; an event is over once the rows that it finds
have been dealt with, and the rows that are deleted on the way leave their events
to the next round. -/
namespace ReferentialActions
open RowStore

variable {Key : Type} [DecidableEq Key] {Row : Key → Type}

inductive OnDelete (Row : Key → Type)
  | cascade
  | setNull (clear : ∀ k, Row k → Row k)

structure ForeignKey (Row : Key → Type) where
  target : ∀ k, Row k → Option Key
  onDelete : OnDelete Row

def ForeignKey.refers (fk : ForeignKey Row) (key : Key) (k : Key) (r : Row k) : Bool :=
  fk.target k r = some key

/-- To clear a reference takes it away, and brings no other. -/
structure Schema (Row : Key → Type) where
  foreignKeys : List (ForeignKey Row)
  check : ∀ k, Row k → Bool
  clears_own : ∀ fk ∈ foreignKeys, ∀ clear, fk.onDelete = .setNull clear →
    ∀ k r, fk.target k (clear k r) = none
  clears_only : ∀ fk ∈ foreignKeys, ∀ clear, fk.onDelete = .setNull clear →
    ∀ fk' ∈ foreignKeys, ∀ k r key, fk'.target k (clear k r) = some key → fk'.target k r = some key

abbrev Event (Row : Key → Type) := ForeignKey Row × Key

/-- The rows under `keys` become what `f` makes of them. -/
def amend (f : ∀ k, Row k → Option (Row k)) : List Key → Db Row → Db Row
  | [], db => db
  | k :: rest, db => amend f rest (set k ((db.lookup k).bind (f k)) db)

theorem lookup_amend {f : ∀ k, Row k → Option (Row k)} {keys : List Key} (h : keys.Nodup)
    (db : Db Row) (k : Key) :
    (amend f keys db).lookup k = if k ∈ keys then (db.lookup k).bind (f k) else db.lookup k := by
  induction keys generalizing db with
  | nil => rfl
  | cons k' rest ih =>
    obtain ⟨hk', hrest⟩ := List.nodup_cons.1 h
    rw [amend, ih hrest]
    by_cases heq : k = k'
    · subst heq
      simp [hk']
    · simp [heq, lookup_set_ne]

section Firing
variable (s : Schema Row)

/-- `none` once a row without the reference violates a constraint. -/
def fire (event : Event Row) (db : Db Row) : Option (Db Row × List Key) :=
  let referring := rowsWhere (event.1.refers event.2) db
  match event.1.onDelete with
  | .cascade => some (amend (fun _ _ => none) referring db, referring)
  | .setNull clear =>
    if referring.all fun k => (db.lookup k).all fun r => s.check k (clear k r) then
      some (amend (fun k r => some (clear k r)) referring db, [])
    else none

def triggers (k : Key) : List (Event Row) := s.foreignKeys.map fun fk => (fk, k)

def round : List (Event Row) → Db Row → Option (Db Row × List (Event Row))
  | [], db => some (db, [])
  | event :: rest, db =>
    (fire s event db).bind fun (db₁, gone) =>
      (round rest db₁).map fun (db₂, later) => (db₂, gone.flatMap (triggers s) ++ later)

/-- What an event makes of one row. -/
inductive Fate (event : Event Row) (k : Key) (gone : List Key) :
    Option (Row k) → Option (Row k) → Prop
  | untouched {v : Option (Row k)} : (∀ r, v = some r → event.1.target k r ≠ some event.2) →
      k ∉ gone → Fate event k gone v v
  | deleted {r : Row k} : event.1.target k r = some event.2 → event.1.onDelete = .cascade →
      k ∈ gone → Fate event k gone (some r) none
  | cleared {r : Row k} {clear : ∀ k, Row k → Row k} : event.1.target k r = some event.2 →
      event.1.onDelete = .setNull clear → s.check k (clear k r) = true → k ∉ gone →
      Fate event k gone (some r) (some (clear k r))

variable {s} {event : Event Row} {db db' : Db Row} {gone : List Key}

theorem fire_fate (h : fire s event db = some (db', gone)) (k : Key) :
    Fate s event k gone (db.lookup k) (db'.lookup k) := by
  have hnodup := rowsWhere_nodup (event.1.refers event.2) db
  have hmem := @mem_rowsWhere _ _ _ (event.1.refers event.2) db k
  unfold fire at h
  generalize rowsWhere (event.1.refers event.2) db = referring at h hnodup hmem
  by_cases hk : k ∈ referring
  · obtain ⟨r, hr, hrefers⟩ := hmem.1 hk
    have htarget : event.1.target k r = some event.2 := by simpa [ForeignKey.refers] using hrefers
    cases hdelete : event.1.onDelete with
    | cascade =>
      simp only [hdelete] at h
      cases h
      rw [lookup_amend hnodup, if_pos hk, hr]
      exact .deleted htarget hdelete hk
    | setNull clear =>
      simp only [hdelete] at h
      split at h
      · rename_i hall
        cases h
        have hcheck := List.all_eq_true.1 hall k hk
        rw [hr, Option.all_some] at hcheck
        rw [lookup_amend hnodup, if_pos hk, hr]
        exact .cleared htarget hdelete hcheck List.not_mem_nil
      · cases h
  · have hfree : ∀ r, db.lookup k = some r → event.1.target k r ≠ some event.2 := by
      intro r hr htarget
      exact hk (hmem.2 ⟨r, hr, by simpa [ForeignKey.refers] using htarget⟩)
    cases hdelete : event.1.onDelete with
    | cascade =>
      simp only [hdelete] at h
      cases h
      rw [lookup_amend hnodup, if_neg hk]
      exact .untouched hfree hk
    | setNull clear =>
      simp only [hdelete] at h
      split at h
      · cases h
        rw [lookup_amend hnodup, if_neg hk]
        exact .untouched hfree List.not_mem_nil
      · cases h

theorem fire_refused (h : fire s event db = none) : ∃ clear k r, event.1.onDelete = .setNull clear ∧
    db.lookup k = some r ∧ event.1.target k r = some event.2 ∧ s.check k (clear k r) = false := by
  unfold fire at h
  cases hdelete : event.1.onDelete with
  | cascade =>
    simp only [hdelete] at h
    cases h
  | setNull clear =>
    simp only [hdelete] at h
    split at h
    · cases h
    · rename_i hall
      rw [List.all_eq_true] at hall
      push Not at hall
      obtain ⟨k, hk, hcheck⟩ := hall
      obtain ⟨r, hr, hrefers⟩ := mem_rowsWhere.1 hk
      refine ⟨clear, k, r, rfl, hr, by simpa [ForeignKey.refers] using hrefers, ?_⟩
      simpa [hr] using hcheck

/-- A row as it is after it has lost some of its references. -/
inductive Reduced (s : Schema Row) (k : Key) (r : Row k) : Row k → Prop
  | refl : Reduced s k r r
  | clear {r' : Row k} {fk : ForeignKey Row} {clear : ∀ k, Row k → Row k} {key : Key} :
      Reduced s k r r' → fk ∈ s.foreignKeys → fk.onDelete = .setNull clear →
      fk.target k r' = some key → s.check k (clear k r') = true → Reduced s k r (clear k r')

omit [DecidableEq Key] in
theorem Reduced.trans {k : Key} {r r' r'' : Row k} (h : Reduced s k r r')
    (h' : Reduced s k r' r'') : Reduced s k r r'' := by
  induction h' with
  | refl => exact h
  | clear _ hmem hclear htarget hcheck ih => exact .clear ih hmem hclear htarget hcheck

omit [DecidableEq Key] in
theorem Reduced.target {k key : Key} {r r' : Row k} (h : Reduced s k r r') {fk : ForeignKey Row}
    (hfk : fk ∈ s.foreignKeys) (htarget : fk.target k r' = some key) :
    fk.target k r = some key := by
  induction h with
  | refl => exact htarget
  | clear _ hmem hclear _ _ ih => exact ih (s.clears_only _ hmem _ hclear _ hfk _ _ _ htarget)

omit [DecidableEq Key] in
theorem Reduced.check {k : Key} {r r' : Row k} (h : Reduced s k r r') (hr : s.check k r = true) :
    s.check k r' = true := by
  cases h with
  | refl => exact hr
  | clear _ _ _ _ hcheck => exact hcheck

omit [DecidableEq Key] in
/-- A row whose references may not be cleared stays what it is. -/
theorem Reduced.eq_of_fixed {k : Key} {r r' : Row k} (h : Reduced s k r r')
    (fixed : ∀ fk ∈ s.foreignKeys, ∀ clear key, fk.onDelete = .setNull clear →
      fk.target k r = some key → s.check k (clear k r) = false) : r' = r := by
  induction h with
  | refl => rfl
  | clear _ hmem hclear htarget hcheck ih =>
    subst ih
    rw [fixed _ hmem _ _ hclear htarget] at hcheck
    cases hcheck

/-- What a list of events makes of the rows, and the events that it leaves. -/
structure Rounded (s : Schema Row) (events : List (Event Row)) (db db' : Db Row)
    (later : List (Event Row)) : Prop where
  survives : ∀ k r', db'.lookup k = some r' → ∃ r, db.lookup k = some r ∧ Reduced s k r r'
  untouched : ∀ k, (∀ event ∈ events, ∀ r, db.lookup k = some r →
    event.1.target k r ≠ some event.2) → db'.lookup k = db.lookup k
  released : ∀ event ∈ events, ∀ k r', db'.lookup k = some r' → event.1.target k r' ≠ some event.2
  removed : ∀ k r, db.lookup k = some r → db'.lookup k = none →
    ∃ event ∈ events, event.1.onDelete = .cascade ∧ event.1.target k r = some event.2
  later : ∀ event, event ∈ later ↔ event.1 ∈ s.foreignKeys ∧ (db.lookup event.2).isSome ∧
    db'.lookup event.2 = none

omit [DecidableEq Key] in
theorem mem_triggers {k : Key} : event ∈ triggers s k ↔ event.1 ∈ s.foreignKeys ∧ event.2 = k := by
  simp only [triggers, List.mem_map]
  constructor
  · rintro ⟨fk, hfk, rfl⟩
    exact ⟨hfk, rfl⟩
  · rintro ⟨hfk, rfl⟩
    exact ⟨event.1, hfk, rfl⟩

theorem round_cons {rest later : List (Event Row)}
    (h : round s (event :: rest) db = some (db', later)) :
    ∃ db₁ gone later', fire s event db = some (db₁, gone) ∧ round s rest db₁ = some (db', later') ∧
      later = gone.flatMap (triggers s) ++ later' := by
  simp only [round, Option.bind_eq_some_iff, Option.map_eq_some_iff, Prod.exists, Prod.mk.injEq] at h
  obtain ⟨db₁, gone, hfire, db₂, later', hround, rfl, rfl⟩ := h
  exact ⟨db₁, gone, later', hfire, hround, rfl⟩

theorem Rounded.cons {db₁ : Db Row} {rest later : List (Event Row)}
    (hmem : event.1 ∈ s.foreignKeys) (hrest : ∀ event ∈ rest, event.1 ∈ s.foreignKeys)
    (fate : ∀ k, Fate s event k gone (db.lookup k) (db₁.lookup k))
    (h : Rounded s rest db₁ db' later) :
    Rounded s (event :: rest) db db' (gone.flatMap (triggers s) ++ later) where
  survives k r' hr' := by
    obtain ⟨r₁, hr₁, hreduced⟩ := h.survives k r' hr'
    have hfate := fate k
    rw [hr₁] at hfate
    generalize db.lookup k = v at hfate ⊢
    cases hfate with
    | untouched _ _ => exact ⟨r₁, rfl, hreduced⟩
    | @cleared r clear htarget hdelete hcheck _ =>
      exact ⟨r, rfl, Reduced.trans (.clear .refl hmem hdelete htarget hcheck) hreduced⟩
  untouched k hfree := by
    have hfate := fate k
    have hhead := hfree event List.mem_cons_self
    have hlater : ∀ event ∈ rest, ∀ r, db.lookup k = some r → event.1.target k r ≠ some event.2 :=
      fun event hevent => hfree event (List.mem_cons_of_mem _ hevent)
    have hsame : db₁.lookup k = db.lookup k := by
      generalize db.lookup k = v, db₁.lookup k = v₁ at hfate hhead ⊢
      cases hfate with
      | untouched _ _ => rfl
      | deleted htarget _ _ => exact absurd htarget (hhead _ rfl)
      | cleared htarget _ _ _ => exact absurd htarget (hhead _ rfl)
    rw [h.untouched k (by rw [hsame]; exact hlater), hsame]
  released event' hevent' k r' hr' htarget := by
    rcases List.mem_cons.1 hevent' with rfl | hevent'
    · obtain ⟨r₁, hr₁, hreduced⟩ := h.survives k r' hr'
      have htarget₁ := hreduced.target hmem htarget
      have hfate := fate k
      rw [hr₁] at hfate
      generalize db.lookup k = v at hfate
      cases hfate with
      | untouched hfree _ => exact hfree _ rfl htarget₁
      | cleared _ hdelete _ _ =>
        rw [s.clears_own _ hmem _ hdelete] at htarget₁
        cases htarget₁
    · exact h.released event' hevent' k r' hr' htarget
  removed k r hr hnone := by
    have hfate := fate k
    rw [hr] at hfate
    generalize hv₁ : db₁.lookup k = v₁ at hfate
    cases hfate with
    | untouched _ _ =>
      obtain ⟨event', hevent', hcascade, htarget⟩ := h.removed k r hv₁ hnone
      exact ⟨event', List.mem_cons_of_mem _ hevent', hcascade, htarget⟩
    | deleted htarget hcascade _ => exact ⟨event, List.mem_cons_self, hcascade, htarget⟩
    | @cleared _ clear _ hdelete _ _ =>
      obtain ⟨event', hevent', hcascade, htarget⟩ := h.removed k _ hv₁ hnone
      exact ⟨event', List.mem_cons_of_mem _ hevent', hcascade,
        s.clears_only _ hmem _ hdelete _ (hrest event' hevent') _ _ _ htarget⟩
  later event' := by
    have hfate := fate event'.2
    have hgone : db₁.lookup event'.2 = none → db'.lookup event'.2 = none := by
      intro hnone
      cases hr' : db'.lookup event'.2 with
      | none => rfl
      | some r' =>
        obtain ⟨r, hr, -⟩ := h.survives _ r' hr'
        rw [hnone] at hr
        cases hr
    have hmem' : event' ∈ gone.flatMap (triggers s) ↔
        event'.1 ∈ s.foreignKeys ∧ event'.2 ∈ gone := by
      simp only [List.mem_flatMap, mem_triggers]
      constructor
      · rintro ⟨k, hk, hfk, rfl⟩
        exact ⟨hfk, hk⟩
      · exact fun hevent => ⟨event'.2, hevent.2, hevent.1, rfl⟩
    rw [List.mem_append, h.later, hmem']
    generalize db.lookup event'.2 = v, db₁.lookup event'.2 = v₁ at hfate hgone ⊢
    cases hfate with
    | untouched _ hnot => simp [hnot]
    | deleted _ _ hin => simp [hin, hgone rfl]
    | cleared _ _ _ hnot => simp [hnot]

theorem round_spec {events later : List (Event Row)} (hevents : ∀ event ∈ events, event.1 ∈ s.foreignKeys)
    (h : round s events db = some (db', later)) : Rounded s events db db' later := by
  induction events generalizing db later with
  | nil =>
    cases h
    refine ⟨fun k r' hr' => ⟨r', hr', .refl⟩, fun _ _ => rfl, fun _ h => (by cases h), ?_, ?_⟩
    · intro k r hr hnone
      rw [hr] at hnone
      cases hnone
    · intro event
      cases db'.lookup event.2 <;> simp
  | cons event rest ih =>
    obtain ⟨db₁, gone, later', hfire, hround, rfl⟩ := round_cons h
    have hrest : ∀ event ∈ rest, event.1 ∈ s.foreignKeys :=
      fun event hevent => hevents event (List.mem_cons_of_mem _ hevent)
    exact (ih hrest hround).cons (hevents event List.mem_cons_self) hrest (fire_fate hfire)

theorem round_append (xs ys : List (Event Row)) : round s (xs ++ ys) db =
    (round s xs db).bind fun (db₁, later) =>
      (round s ys db₁).map fun (db₂, later') => (db₂, later ++ later') := by
  induction xs generalizing db with
  | nil =>
    cases hys : round s ys db <;> simp [round, hys]
  | cons event rest ih =>
    simp only [List.cons_append, round]
    cases fire s event db with
    | none => rfl
    | some fired =>
      obtain ⟨db₁, gone⟩ := fired
      simp only [Option.bind_some, ih]
      cases round s rest db₁ with
      | none => rfl
      | some rounded =>
        obtain ⟨db₂, later⟩ := rounded
        cases hys : round s ys db₂ <;> simp [hys]

/-- Some row can not do without its reference. -/
def Stuck (s : Schema Row) (db : Db Row) (event : Event Row) : Prop :=
  ∃ clear k r r', event.1.onDelete = .setNull clear ∧ db.lookup k = some r ∧ Reduced s k r r' ∧
    event.1.target k r' = some event.2 ∧ s.check k (clear k r') = false

theorem round_refused {events : List (Event Row)} (hevents : ∀ event ∈ events, event.1 ∈ s.foreignKeys)
    (h : round s events db = none) : ∃ event ∈ events, Stuck s db event := by
  induction events generalizing db with
  | nil => cases h
  | cons event rest ih =>
    have hmem := hevents event List.mem_cons_self
    cases hfire : fire s event db with
    | none =>
      obtain ⟨clear, k, r, hdelete, hr, htarget, hcheck⟩ := fire_refused hfire
      exact ⟨event, List.mem_cons_self, clear, k, r, r, hdelete, hr, .refl, htarget, hcheck⟩
    | some fired =>
      obtain ⟨db₁, gone⟩ := fired
      have hrest : round s rest db₁ = none := by
        rw [round, hfire] at h
        simpa using h
      obtain ⟨event', hevent', clear, k, r₁, r', hdelete, hr₁, hreduced, hstuck⟩ :=
        ih (fun event hevent => hevents event (List.mem_cons_of_mem _ hevent)) hrest
      refine ⟨event', List.mem_cons_of_mem _ hevent', clear, k, ?_⟩
      have hfate := fire_fate hfire k
      rw [hr₁] at hfate
      generalize db.lookup k = v at hfate ⊢
      cases hfate with
      | untouched _ _ => exact ⟨r₁, r', hdelete, rfl, hreduced, hstuck⟩
      | @cleared r clear' htarget hclear hcheck _ =>
        exact ⟨r, r', hdelete, rfl, Reduced.trans (.clear .refl hmem hclear htarget hcheck) hreduced,
          hstuck⟩

/-- An event that finds such a row before the row is gone fails. -/
theorem round_stuck {xs ys : List (Event Row)} {clear : ∀ k, Row k → Row k} {k : Key} {r : Row k}
    (hxs : ∀ event ∈ xs, event.1 ∈ s.foreignKeys) (hdelete : event.1.onDelete = .setNull clear)
    (hr : db.lookup k = some r) (htarget : event.1.target k r = some event.2)
    (hcheck : s.check k (clear k r) = false)
    (hfree : ∀ event ∈ xs, event.1.target k r ≠ some event.2) :
    round s (xs ++ event :: ys) db = none := by
  rw [round_append]
  cases hround : round s xs db with
  | none => rfl
  | some rounded =>
    obtain ⟨db₁, later⟩ := rounded
    have hr₁ : db₁.lookup k = some r := by
      rw [(round_spec hxs hround).untouched k fun event hevent r' hr' => ?_, hr]
      cases hr.symm.trans hr'
      exact hfree event hevent
    have hfire : fire s event db₁ = none := by
      cases hfire : fire s event db₁ with
      | none => rfl
      | some fired =>
        have hfate := fire_fate (Prod.eta fired ▸ hfire) k
        rw [hr₁] at hfate
        generalize fired.1.lookup k = v at hfate
        cases hfate with
        | untouched hnot _ => exact absurd htarget (hnot r rfl)
        | deleted _ hcascade _ =>
          rw [hdelete] at hcascade
          cases hcascade
        | cleared _ hclear hok _ =>
          rw [hdelete] at hclear
          cases hclear
          rw [hcheck] at hok
          cases hok
    simp [round, hfire]

end Firing

section Settling
variable (s : Schema Row)

/-- Rounds, until one leaves no events. Every other one has deleted a row. -/
def settle : Nat → List (Event Row) → Db Row → Option (Db Row)
  | 0, _, _ => none
  | fuel + 1, events, db =>
    (round s events db).bind fun (db', later) =>
      if later.isEmpty then some db' else settle fuel later db'

def deleteRow (k : Key) (db : Db Row) : Option (Db Row) :=
  settle s (db.keys.length + 1) (triggers s k) (set k none db)

/-- The rows that go with `root`. -/
inductive Doomed (root : Key) (db : Db Row) : Key → Prop
  | root : Doomed root db root
  | cascade {fk : ForeignKey Row} {key k : Key} {r : Row k} : Doomed root db key →
      fk ∈ s.foreignKeys → fk.onDelete = .cascade → db.lookup k = some r →
      fk.target k r = some key → Doomed root db k

variable {s} {db₀ db db' : Db Row} {root : Key} {events later : List (Event Row)} {fuel : Nat}

/-- What is known of the rows and the events between two rounds. -/
structure Settling (s : Schema Row) (root : Key) (db₀ db : Db Row) (events : List (Event Row)) :
    Prop where
  keys : ∀ event ∈ events, event.1 ∈ s.foreignKeys
  doomed : ∀ event ∈ events, Doomed s root db₀ event.2
  origin : ∀ k r', db.lookup k = some r' → ∃ r, db₀.lookup k = some r ∧ Reduced s k r r'

theorem Settling.next (h : Settling s root db₀ db events)
    (hround : Rounded s events db db' later) : Settling s root db₀ db' later where
  keys event hevent := ((hround.later event).1 hevent).1
  doomed event hevent := by
    obtain ⟨-, hsome, hnone⟩ := (hround.later event).1 hevent
    obtain ⟨r', hr'⟩ := Option.isSome_iff_exists.1 hsome
    obtain ⟨event', hevent', hcascade, htarget⟩ := hround.removed _ r' hr' hnone
    obtain ⟨r, hr, hreduced⟩ := h.origin _ r' hr'
    exact .cascade (h.doomed event' hevent') (h.keys event' hevent') hcascade hr
      (hreduced.target (h.keys event' hevent') htarget)
  origin k r'' hr'' := by
    obtain ⟨r', hr', hreduced'⟩ := hround.survives k r'' hr''
    obtain ⟨r, hr, hreduced⟩ := h.origin k r' hr'
    exact ⟨r, hr, hreduced.trans hreduced'⟩

/-- What has become of the rows once no events are left. -/
structure Settled (s : Schema Row) (root : Key) (db₀ db db' : Db Row) (events : List (Event Row)) :
    Prop where
  survives : ∀ k r', db'.lookup k = some r' → ∃ r, db.lookup k = some r ∧ Reduced s k r r'
  released : ∀ event ∈ events, ∀ k r', db'.lookup k = some r' → event.1.target k r' ≠ some event.2
  clean : ∀ key, (db.lookup key).isSome → db'.lookup key = none → ∀ fk ∈ s.foreignKeys,
    ∀ k r', db'.lookup k = some r' → fk.target k r' ≠ some key
  doomed : ∀ k r, db.lookup k = some r → db'.lookup k = none → Doomed s root db₀ k

theorem Settling.removed (h : Settling s root db₀ db events) (hround : Rounded s events db db' later)
    {k : Key} {r : Row k} (hr : db.lookup k = some r) (hnone : db'.lookup k = none) :
    Doomed s root db₀ k := by
  obtain ⟨event, hevent, hcascade, htarget⟩ := hround.removed k r hr hnone
  obtain ⟨r₀, hr₀, hreduced⟩ := h.origin k r hr
  exact .cascade (h.doomed event hevent) (h.keys event hevent) hcascade hr₀
    (hreduced.target (h.keys event hevent) htarget)

theorem settle_spec (h : Settling s root db₀ db events) (hs : settle s fuel events db = some db') :
    Settled s root db₀ db db' events := by
  induction fuel generalizing events db with
  | zero => cases hs
  | succ fuel ih =>
    simp only [settle, Option.bind_eq_some_iff, Prod.exists] at hs
    obtain ⟨db₁, later, hround, hrest⟩ := hs
    have hrounded := round_spec h.keys hround
    split at hrest
    · rename_i hempty
      cases hrest
      rw [List.isEmpty_iff] at hempty
      subst hempty
      refine ⟨hrounded.survives, hrounded.released, fun key hsome hnone fk hfk k r' hr' _ => ?_,
        fun k r hr hnone => h.removed hrounded hr hnone⟩
      cases (hrounded.later (fk, key)).2 ⟨hfk, hsome, hnone⟩
    · have hrest := ih (h.next hrounded) hrest
      refine ⟨fun k r' hr' => ?_, fun event hevent k r' hr' htarget => ?_,
        fun key hsome hnone fk hfk k r' hr' => ?_, fun k r hr hnone => ?_⟩
      · obtain ⟨r₁, hr₁, hreduced₁⟩ := hrest.survives k r' hr'
        obtain ⟨r, hr, hreduced⟩ := hrounded.survives k r₁ hr₁
        exact ⟨r, hr, hreduced.trans hreduced₁⟩
      · obtain ⟨r₁, hr₁, hreduced₁⟩ := hrest.survives k r' hr'
        exact hrounded.released event hevent k r₁ hr₁ (hreduced₁.target (h.keys event hevent) htarget)
      · cases hfound : db₁.lookup key with
        | none =>
          exact hrest.released (fk, key) ((hrounded.later (fk, key)).2 ⟨hfk, hsome, hfound⟩) k r' hr'
        | some _ => exact hrest.clean key (by simp [hfound]) hnone fk hfk k r' hr'
      · cases hfound : db₁.lookup k with
        | none => exact h.removed hrounded hr hfound
        | some r₁ => exact hrest.doomed k r₁ hfound hnone

/-- A round that leaves events has deleted a row. -/
theorem Rounded.shrinks (h : Rounded s events db db' later) (hlater : later ≠ []) :
    db'.keys.length < db.keys.length := by
  obtain ⟨event, hevent⟩ := List.exists_mem_of_ne_nil _ hlater
  obtain ⟨-, hsome, hnone⟩ := (h.later event).1 hevent
  have hsub : db'.keys ⊆ db.keys := by
    intro k hk
    obtain ⟨r', hr'⟩ := mem_keys_iff.1 hk
    obtain ⟨r, hr, -⟩ := h.survives k r' hr'
    exact mem_keys_of_lookup hr
  have hin : event.2 ∈ db.keys := mem_keys_iff.2 (Option.isSome_iff_exists.1 hsome)
  have hout : event.2 ∉ db'.keys := by
    intro hk
    obtain ⟨r', hr'⟩ := mem_keys_iff.1 hk
    rw [hnone] at hr'
    cases hr'
  have hcons : event.2 :: db'.keys ⊆ db.keys := List.cons_subset.2 ⟨hin, hsub⟩
  have hnodup : (event.2 :: db'.keys).Nodup := List.nodup_cons.2 ⟨hout, db'.keys_nodup⟩
  exact (List.subperm_of_subset hnodup hcons).length_le

/-- As long as there are more rounds than rows, what fails is the first round or one
of the others. -/
theorem settle_none (hkeys : ∀ event ∈ events, event.1 ∈ s.foreignKeys)
    (hfuel : db.keys.length < fuel + 1) (hs : settle s (fuel + 1) events db = none) :
    (∃ event ∈ events, Stuck s db event) ∨ ∃ db' later, Rounded s events db db' later ∧
      settle s fuel later db' = none ∧ db'.keys.length < fuel := by
  cases hround : round s events db with
  | none => exact .inl (round_refused hkeys hround)
  | some rounded =>
    obtain ⟨db', later⟩ := rounded
    have hrounded := round_spec hkeys hround
    rw [settle, hround, Option.bind_some] at hs
    dsimp only at hs
    split at hs
    · cases hs
    · rename_i hlater
      have hshrinks := hrounded.shrinks fun heq => hlater (by simp [heq])
      exact .inr ⟨db', later, hrounded, hs, by omega⟩

theorem Stuck.before {event : Event Row} (h : Stuck s db' event)
    (hround : Rounded s events db db' later) : Stuck s db event := by
  obtain ⟨clear, k, r₁, r', hdelete, hr₁, hreduced₁, hstuck⟩ := h
  obtain ⟨r, hr, hreduced⟩ := hround.survives k r₁ hr₁
  exact ⟨clear, k, r, r', hdelete, hr, hreduced.trans hreduced₁, hstuck⟩

theorem settle_refused (h : Settling s root db₀ db events) (hfuel : db.keys.length < fuel)
    (hs : settle s fuel events db = none) :
    ∃ event, event.1 ∈ s.foreignKeys ∧ Doomed s root db₀ event.2 ∧ Stuck s db event := by
  induction fuel generalizing events db with
  | zero => exact absurd hfuel (Nat.not_lt_zero _)
  | succ fuel ih =>
    rcases settle_none h.keys hfuel hs with ⟨event, hevent, hstuck⟩ | ⟨db', later, hround, hs, hfuel⟩
    · exact ⟨event, h.keys event hevent, h.doomed event hevent, hstuck⟩
    · obtain ⟨event, hmem, hdoomed, hstuck⟩ := ih (h.next hround) hfuel hs
      exact ⟨event, hmem, hdoomed, hstuck.before hround⟩

theorem settling_delete (k : Key) (db : Db Row) :
    Settling s k db (set k none db) (triggers s k) where
  keys event hevent := (mem_triggers.1 hevent).1
  doomed event hevent := by
    rw [(mem_triggers.1 hevent).2]
    exact .root
  origin k' r' hr' := by
    by_cases heq : k' = k
    · subst heq
      rw [lookup_set_self] at hr'
      cases hr'
    · rw [lookup_set_ne heq] at hr'
      exact ⟨r', hr', .refl⟩

/-- What is left after a deletion that went through: nothing in it refers to anything
that is gone. -/
structure Deleted (s : Schema Row) (k : Key) (db db' : Db Row) : Prop where
  gone : db'.lookup k = none
  survives : ∀ k' r', db'.lookup k' = some r' → ∃ r, db.lookup k' = some r ∧ Reduced s k' r r'
  clean : ∀ key, key = k ∨ (db.lookup key).isSome → db'.lookup key = none →
    ∀ fk ∈ s.foreignKeys, ∀ k' r', db'.lookup k' = some r' → fk.target k' r' ≠ some key
  doomed : ∀ k' r, db.lookup k' = some r → db'.lookup k' = none → Doomed s k db k'

theorem deleteRow_spec {k : Key} (h : deleteRow s k db = some db') : Deleted s k db db' := by
  have hsettled := settle_spec (settling_delete k db) h
  have hgone : db'.lookup k = none := by
    cases hfound : db'.lookup k with
    | none => rfl
    | some r' =>
      obtain ⟨r, hr, -⟩ := hsettled.survives k r' hfound
      rw [lookup_set_self] at hr
      cases hr
  have hother : ∀ k' r, (set k none db).lookup k' = some r → k' ≠ k ∧ db.lookup k' = some r := by
    intro k' r hr
    by_cases heq : k' = k
    · subst heq
      rw [lookup_set_self] at hr
      cases hr
    · rw [lookup_set_ne heq] at hr
      exact ⟨heq, hr⟩
  refine ⟨hgone, fun k' r' hr' => ?_, fun key hkey hnone fk hfk => ?_, fun k' r hr hnone => ?_⟩
  · obtain ⟨r, hr, hreduced⟩ := hsettled.survives k' r' hr'
    exact ⟨r, (hother k' r hr).2, hreduced⟩
  · by_cases heq : key = k
    · subst heq
      exact hsettled.released (fk, key) (mem_triggers.2 ⟨hfk, rfl⟩)
    · have hsome : ((set k none db).lookup key).isSome := by
        rw [lookup_set_ne heq]
        exact hkey.resolve_left heq
      exact hsettled.clean key hsome hnone fk hfk
  · by_cases heq : k' = k
    · subst heq
      exact .root
    · exact hsettled.doomed k' r (by rw [lookup_set_ne heq, hr]) hnone

theorem length_keys_delete (k : Key) (db : Db Row) : (set k none db).keys.length ≤ db.keys.length := by
  change (db.erase k).keys.length ≤ _
  rw [AList.keys_erase]
  exact List.length_erase_le

theorem deleteRow_refused {k : Key} (h : deleteRow s k db = none) :
    ∃ event, event.1 ∈ s.foreignKeys ∧ Doomed s k db event.2 ∧ Stuck s (set k none db) event :=
  settle_refused (settling_delete k db) (Nat.lt_succ_of_le (length_keys_delete k db)) h

end Settling

section Statements
variable (s : Schema Row)

def resolves (k : Key) (r : Row k) (db : Db Row) : Bool :=
  s.foreignKeys.all fun fk => (fk.target k r).all fun key => key = k || (db.lookup key).isSome

/-- A statement about one row; those about several are sequences of these. -/
inductive Statement (Row : Key → Type)
  | insert (k : Key) (r : Row k)
  | update (k : Key) (r : Row k)
  | delete (k : Key)

def execute : Statement Row → Db Row → Option (Db Row)
  | .insert k r, db =>
    if (db.lookup k).isNone && s.check k r && resolves s k r db then some (set k (some r) db) else none
  | .update k r, db =>
    if (db.lookup k).isSome && s.check k r && resolves s k r db then some (set k (some r) db) else none
  | .delete k, db => deleteRow s k db

def executeAll : List (Statement Row) → Db Row → Option (Db Row)
  | [], db => some db
  | statement :: rest, db => (execute s statement db).bind (executeAll rest)

/-- The states that statements can lead to. -/
inductive Reached : Db Row → Prop
  | empty : Reached ∅
  | step {db db' : Db Row} {statement : Statement Row} : Reached db →
      execute s statement db = some db' → Reached db'

/-- Every row satisfies the constraints, and refers to rows that are there. -/
structure Legal (db : Db Row) : Prop where
  checks : ∀ k r, db.lookup k = some r → s.check k r = true
  resolved : ∀ fk ∈ s.foreignKeys, ∀ k r key, db.lookup k = some r → fk.target k r = some key →
    (db.lookup key).isSome

variable {s} {db db' : Db Row}

theorem Legal.set {k : Key} {r : Row k} (h : Legal s db) (hcheck : s.check k r = true)
    (hresolves : resolves s k r db = true) : Legal s (RowStore.set k (some r) db) where
  checks k' r' hr' := by
    by_cases heq : k' = k
    · subst heq
      rw [lookup_set_self] at hr'
      cases hr'
      exact hcheck
    · rw [lookup_set_ne heq] at hr'
      exact h.checks k' r' hr'
  resolved fk hfk k' r' key hr' htarget := by
    by_cases hkey : key = k
    · subst hkey
      simp
    · rw [lookup_set_ne hkey]
      by_cases heq : k' = k
      · subst heq
        rw [lookup_set_self] at hr'
        cases hr'
        have := List.all_eq_true.1 hresolves fk hfk
        simpa [htarget, hkey] using this
      · rw [lookup_set_ne heq] at hr'
        exact h.resolved fk hfk k' r' key hr' htarget

/-- To change rows, and no reference in them, is allowed as far as the constraints go. -/
theorem Legal.amend {f : ∀ k, Row k → Option (Row k)} {keys : List Key} (h : Legal s db)
    (hkeys : keys.Nodup) (hf : ∀ k r, ∃ r', f k r = some r' ∧
      (s.check k r = true → s.check k r' = true) ∧
      ∀ fk ∈ s.foreignKeys, fk.target k r' = fk.target k r) :
    Legal s (ReferentialActions.amend f keys db) := by
  have hrow : ∀ k r', (ReferentialActions.amend f keys db).lookup k = some r' →
      ∃ r, db.lookup k = some r ∧ (s.check k r = true → s.check k r' = true) ∧
        ∀ fk ∈ s.foreignKeys, fk.target k r' = fk.target k r := by
    intro k r' hr'
    rw [lookup_amend hkeys] at hr'
    split at hr'
    · obtain ⟨r, hr, hfr⟩ := Option.bind_eq_some_iff.1 hr'
      obtain ⟨r₀, hr₀, hkept⟩ := hf k r
      cases hfr.symm.trans hr₀
      exact ⟨r, hr, hkept⟩
    · exact ⟨r', hr', id, fun _ _ => rfl⟩
  have hthere : ∀ k, (db.lookup k).isSome → ((ReferentialActions.amend f keys db).lookup k).isSome := by
    intro k hsome
    obtain ⟨r, hr⟩ := Option.isSome_iff_exists.1 hsome
    obtain ⟨r₀, hr₀, -⟩ := hf k r
    rw [lookup_amend hkeys, hr, Option.bind_some, hr₀]
    split <;> rfl
  refine ⟨fun k r' hr' => ?_, fun fk hfk k r' key hr' htarget => ?_⟩
  · obtain ⟨r, hr, hcheck, -⟩ := hrow k r' hr'
    exact hcheck (h.checks k r hr)
  · obtain ⟨r, hr, -, htargets⟩ := hrow k r' hr'
    rw [htargets fk hfk] at htarget
    exact hthere key (h.resolved fk hfk k r key hr htarget)

theorem Deleted.legal {k : Key} (h : Deleted s k db db') (hdb : Legal s db) : Legal s db' where
  checks k' r' hr' := by
    obtain ⟨r, hr, hreduced⟩ := h.survives k' r' hr'
    exact hreduced.check (hdb.checks k' r hr)
  resolved fk hfk k' r' key hr' htarget := by
    obtain ⟨r, hr, hreduced⟩ := h.survives k' r' hr'
    have hthere := hdb.resolved fk hfk k' r key hr (hreduced.target hfk htarget)
    cases hfound : db'.lookup key with
    | some _ => rfl
    | none => exact absurd htarget (h.clean key (.inr hthere) hfound fk hfk k' r' hr')

theorem execute_legal {statement : Statement Row} (hdb : Legal s db)
    (h : execute s statement db = some db') : Legal s db' := by
  cases statement with
  | insert k r =>
    simp only [execute] at h
    split at h
    · rename_i hok
      cases h
      simp only [Bool.and_eq_true] at hok
      exact hdb.set hok.1.2 hok.2
    · cases h
  | update k r =>
    simp only [execute] at h
    split at h
    · rename_i hok
      cases h
      simp only [Bool.and_eq_true] at hok
      exact hdb.set hok.1.2 hok.2
    · cases h
  | delete k => exact (deleteRow_spec h).legal hdb

theorem Reached.legal (h : Reached s db) : Legal s db := by
  induction h with
  | empty => exact ⟨fun k r hr => (by cases hr), fun fk _ k r key hr => (by cases hr)⟩
  | step _ hstep ih => exact execute_legal ih hstep

theorem Reached.all {statements : List (Statement Row)} (h : Reached s db)
    (hs : executeAll s statements db = some db') : Reached s db' := by
  induction statements generalizing db with
  | nil =>
    cases hs
    exact h
  | cons statement rest ih =>
    simp only [executeAll, Option.bind_eq_some_iff] at hs
    obtain ⟨db₁, hstep, hrest⟩ := hs
    exact ih (.step h hstep) hrest

end Statements

end ReferentialActions
