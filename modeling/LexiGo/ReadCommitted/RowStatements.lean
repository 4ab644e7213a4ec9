import LexiGo.ReadCommitted.RunSoundness

/-! How the statements of a program meet their `wp`.
One rule for each kind of statement, stated at the moment it is over: what was
read holds now and is locked, everything before it has been left to the others. -/
namespace RowStatements
open RowStore TransactionProgram Interleaving CommitContract

variable {Key : Type} [DecidableEq Key] {Row : Key → Type} {Note α β : Type}
variable {C : Contract Row Note} {i : Nat} {t : Tx Row} {w w' w'' : World Row Note}

theorem rely_hold {k : Key} {m : Mode} (h : Rely C i (t.hold k m) w w') : Rely C i t w w' :=
  h.mono fun _ hp => List.mem_cons_of_mem _ hp

theorem rely_write {k : Key} {m : Mode} {v : Option (Row k)}
    (h : Rely C i (t.write k m v) w w') : Rely C i t w w' :=
  h.mono fun _ hp => List.mem_cons_of_mem _ hp

@[simp] theorem wp_select {Q : α → Tx Row → World Row Note → Prop} (f : Db Row → α) :
    wp C i Q (select f) t w ↔
      ∀ w', Rely C i t w w' → C.inv w' → Q (f (t.visible w'.db)) t w' := Iff.rfl

@[simp] theorem wp_lockRow {Q : Unit → Tx Row → World Row Note → Prop} (k : Key) (m : Mode) :
    wp C i Q (lockRow k m) t w ↔
      ∀ w', Rely C i t w w' → C.inv w' → Q () (t.hold k m) w' := Iff.rfl

@[simp] theorem wp_writeRow {Q : Unit → Tx Row → World Row Note → Prop} (k : Key) (m : Mode)
    (v : Option (Row k)) :
    wp C i Q (writeRow k m v) t w ↔
      ∀ w', Rely C i t w w' → C.inv w' → m.writes → Q () (t.write k m v) w' := Iff.rfl

@[simp] theorem wp_commit {Q : Unit → Tx Row → World Row Note → Prop} (notes : List Note) :
    wp C i Q (commit notes) t w ↔
      ∀ w', Rely C i t w w' → C.inv w' → C.allow i notes w' (w'.publish i t notes) →
        Publishes C i t notes w' ∧ Q () {} (w'.publish i t notes) := Iff.rfl

/-- A query of its own reads and ends in one step. -/
@[simp] theorem wp_query {Q : α → Tx Row → World Row Note → Prop} (f : Db Row → α)
    (notes : α → List Note) :
    wp C i Q (query f notes) t w ↔
      ∀ w', Rely C i t w w' → C.inv w' →
        C.allow i (notes (f (t.visible w'.db))) w'
          (w'.publish i t (notes (f (t.visible w'.db)))) →
        Publishes C i t (notes (f (t.visible w'.db))) w' ∧
          Q (f (t.visible w'.db)) {} (w'.publish i t (notes (f (t.visible w'.db)))) := Iff.rfl

@[simp] theorem wp_rollback {Q : Unit → Tx Row → World Row Note → Prop} :
    wp C i Q rollback t w ↔ Q () {} w := Iff.rfl

@[simp] theorem wp_choose {Q : Nat → Tx Row → World Row Note → Prop} :
    wp C i Q choose t w ↔ ∀ n, Q n t w := Iff.rfl

@[simp] theorem wp_leave {Q : α → Tx Row → World Row Note → Prop} (a : α) :
    wp C i Q (leave a) t w ↔ Q a {} w := Iff.rfl

def Misses (t : Tx Row) (w : World Row Note) (k : Key) (p : Row k → Bool) : Prop :=
  ∀ r, (t.visible w.db).lookup k = some r → p r = false

/-- The row that `selectFor` returns satisfies the condition now, and is locked. -/
theorem wp_selectFor {k : Key} {m : Mode} {p : Row k → Bool}
    {Q : Option (Row k) → Tx Row → World Row Note → Prop}
    (missing : ∀ w', Rely C i t w w' → C.inv w' → Misses t w' k p → Q none t w')
    (rejected : ∀ w', Rely C i t w w' → C.inv w' → Misses t w' k p → Q none (t.hold k m) w')
    (found : ∀ w' r, Rely C i t w w' → C.inv w' → (t.visible w'.db).lookup k = some r →
      p r = true → Q (some r) (t.hold k m) w') :
    wp C i Q (selectFor k m p) t w := by
  unfold selectFor
  rw [wp_bind, wp_select]
  intro w₁ hr₁ hi₁
  split_ifs with hseen
  · rw [wp_bind, wp_lockRow]
    intro w₂ hr₂ hi₂
    rw [wp_select]
    intro w₃ hr₃ hi₃
    have hr := (hr₁.trans hr₂).trans (rely_hold hr₃)
    rw [Tx.visible_hold]
    cases hrow : (t.visible w₃.db).lookup k with
    | none => exact rejected w₃ hr hi₃ (by simp [Misses, hrow])
    | some r =>
      by_cases hp : p r = true
      · simpa [Option.filter, hp] using found w₃ r hr hi₃ hrow hp
      · simpa [Option.filter, hp] using rejected w₃ hr hi₃ (by simpa [Misses, hrow] using hp)
  · refine missing w₁ hr₁ hi₁ fun r hr => ?_
    simpa [hr, Option.filter] using hseen

/-- The outcome of changing the rows `keys` one by one, seen from its end: `done`
are the rows changed, each is what `f` makes of the row as it is now, and every
candidate is locked, so that none of this depends on when it happened. -/
structure Changed (C : Contract Row Note) (i : Nat) (m : Mode)
    (f : ∀ k, Row k → Option (Option (Row k))) (keys done : List Key)
    (t : Tx Row) (w : World Row Note) (t' : Tx Row) (w' : World Row Note) : Prop where
  rely : Rely C i t w w'
  held : ∀ p ∈ t.held, p ∈ t'.held
  locked : ∀ k ∈ keys, (k, m) ∈ t'.held
  chosen : ∀ k ∈ done, k ∈ keys
  wrote : ∀ k, t'.wrote k ↔ t.wrote k ∨ k ∈ done
  same : ∀ k, k ∉ done → ∀ db, (t'.visible db).lookup k = (t.visible db).lookup k
  changed : ∀ k ∈ done, ∃ r v, (t.visible w'.db).lookup k = some r ∧ f k r = some v ∧
    ∀ db, (t'.visible db).lookup k = v
  kept : ∀ k ∈ keys, k ∉ done → ∀ r, (t.visible w'.db).lookup k = some r → f k r = none

theorem Changed.nil {m : Mode} {f : ∀ k, Row k → Option (Option (Row k))} :
    Changed C i m f [] [] t w t w :=
  ⟨.refl, fun _ h => h, by simp, by simp, by simp, fun _ _ _ => rfl, by simp, by simp⟩

/-- A candidate that is no longer there, or no longer qualifies. -/
theorem Changed.skip {m : Mode} {f : ∀ k, Row k → Option (Option (Row k))} {k : Key}
    {keys done : List Key} {t' : Tx Row} {w₁ : World Row Note} (hm : m ≠ .keyShare)
    (hk : k ∉ keys) (before : Rely C i t w w₁)
    (hrow : ((t.visible w₁.db).lookup k).bind (f k) = none)
    (h : Changed C i m f keys done (t.hold k m) w₁ t' w') :
    Changed C i m f (k :: keys) done t w t' w' := by
  have hheld : (k, m) ∈ (t.hold k m).held := List.mem_cons_self
  have now : (t.visible w'.db).lookup k = (t.visible w₁.db).lookup k :=
    t.visible_congr (h.rely.row hheld hm)
  refine ⟨before.trans (rely_hold h.rely), ?_, ?_, ?_, h.wrote, h.same, h.changed, ?_⟩
  · exact fun p hp => h.held p (List.mem_cons_of_mem _ hp)
  · intro k' hk'
    rcases List.mem_cons.mp hk' with rfl | hk'
    · exact h.held _ hheld
    · exact h.locked k' hk'
  · exact fun k' hk' => List.mem_cons_of_mem _ (h.chosen k' hk')
  · intro k' hk' hdone r hr
    rcases List.mem_cons.mp hk' with rfl | hk'
    · rw [← now, hr] at hrow
      exact hrow
    · exact h.kept k' hk' hdone r hr

/-- A candidate that is changed. -/
theorem Changed.cons {m : Mode} {f : ∀ k, Row k → Option (Option (Row k))} {k : Key}
    {r : Row k} {v : Option (Row k)} {keys done : List Key} {t' : Tx Row}
    {w₁ : World Row Note} (hm : m ≠ .keyShare) (hk : k ∉ keys) (before : Rely C i t w w₁)
    (hrow : (t.visible w₁.db).lookup k = some r) (hf : f k r = some v)
    (h : Changed C i m f keys done ((t.hold k m).write k m v) w₁ t' w') :
    Changed C i m f (k :: keys) (k :: done) t w t' w' := by
  have hheld : (k, m) ∈ ((t.hold k m).write k m v).held := List.mem_cons_self
  have now : (t.visible w'.db).lookup k = (t.visible w₁.db).lookup k :=
    t.visible_congr (h.rely.row hheld hm)
  have hdone : k ∉ done := fun hk' => hk (h.chosen k hk')
  have apart : ∀ k', k' ≠ k → ∀ db, ((((t.hold k m).write k m v).visible db).lookup k') =
      (t.visible db).lookup k' := by
    intro k' hne db
    simp [lookup_set_ne hne]
  refine ⟨before.trans (rely_hold (rely_write h.rely)), ?_, ?_, ?_, ?_, ?_, ?_, ?_⟩
  · exact fun p hp => h.held p (List.mem_cons_of_mem _ (List.mem_cons_of_mem _ hp))
  · intro k' hk'
    rcases List.mem_cons.mp hk' with rfl | hk'
    · exact h.held _ hheld
    · exact h.locked k' hk'
  · intro k' hk'
    rcases List.mem_cons.mp hk' with rfl | hk'
    · exact List.mem_cons_self
    · exact List.mem_cons_of_mem _ (h.chosen k' hk')
  · intro k'
    rw [h.wrote, Tx.wrote_write, Tx.wrote_hold, List.mem_cons]
    tauto
  · intro k' hk' db
    have hne : k' ≠ k := fun heq => hk' (heq ▸ List.mem_cons_self)
    rw [h.same k' (fun hk => hk' (List.mem_cons_of_mem _ hk)), apart k' hne]
  · intro k' hk'
    rcases List.mem_cons.mp hk' with rfl | hk'
    · refine ⟨r, v, now.trans hrow, hf, fun db => ?_⟩
      rw [h.same _ hdone]
      simp
    · have hne : k' ≠ k := fun heq => hdone (heq ▸ hk')
      obtain ⟨r', v', hr', hf', hv'⟩ := h.changed k' hk'
      exact ⟨r', v', (apart k' hne _) ▸ hr', hf', hv'⟩
  · intro k' hk' hnot r' hr'
    have hne : k' ≠ k := fun heq => hnot (heq ▸ List.mem_cons_self)
    have hk' : k' ∈ keys := (List.mem_cons.mp hk').resolve_left hne
    exact h.kept k' hk' (fun hd => hnot (List.mem_cons_of_mem _ hd)) r'
      ((apart k' hne _).trans hr')

theorem wp_changeEach {m : Mode} {f : ∀ k, Row k → Option (Option (Row k))} (hm : m.writes)
    (keys : List Key) (nodup : keys.Nodup) {Q : List Key → Tx Row → World Row Note → Prop}
    (h : ∀ done t' w', Changed C i m f keys done t w t' w' → Q done t' w') :
    wp C i Q (changeEach m f keys) t w := by
  have hne : m ≠ .keyShare := by rcases hm with rfl | rfl <;> simp
  induction keys generalizing t w Q with
  | nil => exact h [] t w .nil
  | cons k keys ih =>
    obtain ⟨hk, nodup⟩ := List.nodup_cons.mp nodup
    unfold changeEach
    rw [wp_bind, wp_lockRow]
    intro w₁ hr₁ _
    rw [wp_bind, wp_select]
    intro w₂ hr₂ _
    have before := hr₁.trans (rely_hold hr₂)
    rw [Tx.visible_hold]
    cases hrow : ((t.visible w₂.db).lookup k).bind (f k) with
    | none =>
      refine ih nodup fun done t' w' hc => ?_
      exact h done t' w' (.skip hne hk before hrow hc)
    | some v =>
      obtain ⟨r, hr, hf⟩ := Option.bind_eq_some_iff.mp hrow
      simp only [wp_bind, wp_writeRow, wp_pure]
      intro w₃ hr₃ _ _
      have now : (t.visible w₃.db).lookup k = some r :=
        (t.visible_congr (hr₃.row List.mem_cons_self hne)).trans hr
      refine ih nodup fun done t' w' hc => ?_
      exact h (k :: done) t' w' (.cons hne hk (before.trans (rely_hold hr₃)) now hf hc)

/-- What a row becomes under `f`, for the rows chosen. -/
def outcome (f : ∀ k, Row k → Option (Option (Row k))) (keys : List Key) (k : Key) (r : Row k) :
    Option (Row k) :=
  if k ∈ keys then (f k r).getD (some r) else some r

theorem bind_outcome_update (p : ∀ k, Row k → Bool) (g : ∀ k, Row k → Row k)
    (keys : List Key) (k : Key) (o : Option (Row k)) :
    o.bind (outcome (fun k r => if p k r then some (some (g k r)) else none) keys k) =
      o.map fun r => if k ∈ keys ∧ p k r = true then g k r else r := by
  cases o with
  | none => rfl
  | some r => by_cases hk : k ∈ keys <;> by_cases hp : p k r = true <;> simp [outcome, hk, hp]

theorem bind_outcome_delete (p : ∀ k, Row k → Bool) (keys : List Key) (k : Key)
    (o : Option (Row k)) :
    o.bind (outcome (fun k r => if p k r then some none else none) keys k) =
      o.filter fun r => ¬ (k ∈ keys ∧ p k r = true) := by
  cases o with
  | none => rfl
  | some r => by_cases hk : k ∈ keys <;> by_cases hp : p k r = true <;> simp [outcome, Option.filter, hk, hp]

/-- The changes apply to the rows as they are when the transaction commits. -/
theorem Changed.visible {m : Mode} {f : ∀ k, Row k → Option (Option (Row k))}
    {keys done : List Key} {t' : Tx Row} (h : Changed C i m f keys done t w t' w')
    {db : Db Row} (now : ∀ k ∈ keys, db.lookup k = w'.db.lookup k) (k : Key) :
    (t'.visible db).lookup k = ((t.visible db).lookup k).bind (outcome f keys k) := by
  by_cases hk : k ∈ keys
  · have before : (t.visible db).lookup k = (t.visible w'.db).lookup k :=
      t.visible_congr (now k hk)
    by_cases hdone : k ∈ done
    · obtain ⟨r, v, hr, hf, hv⟩ := h.changed k hdone
      rw [hv, before, hr]
      simp [outcome, hk, hf]
    · rw [h.same k hdone, before]
      cases hr : (t.visible w'.db).lookup k with
      | none => rfl
      | some r => simp [outcome, hk, h.kept k hk hdone r hr]
  · have hdone : k ∉ done := fun hd => hk (h.chosen k hd)
    rw [h.same k hdone]
    cases hr : (t.visible db).lookup k with
    | none => rfl
    | some r => simp [outcome, hk]

/-- Every candidate is locked, so a commit finds it as the statement left it. -/
theorem Changed.settled {m : Mode} {f : ∀ k, Row k → Option (Option (Row k))}
    {keys done : List Key} {t' : Tx Row} (hm : m.writes)
    (h : Changed C i m f keys done t w t' w') (later : Rely C i t' w' w'') :
    ∀ k ∈ keys, w''.db.lookup k = w'.db.lookup k :=
  fun k hk => later.row (h.locked k hk) (by rcases hm with rfl | rfl <;> simp)

/-- If no row comes to satisfy `p` behind the statement's back, none is left
when the transaction commits. -/
theorem wp_deleteWhere {p : ∀ k, Row k → Bool} {Q : List Key → Tx Row → World Row Note → Prop}
    (back : ∀ w₁ w₂, Rely C i t w₁ w₂ → ∀ k r, (t.visible w₂.db).lookup k = some r →
      p k r = true → ∃ r₀, (t.visible w₁.db).lookup k = some r₀ ∧ p k r₀ = true)
    (h : ∀ done t' w', Rely C i t w w' → t.held ⊆ t'.held →
      (∀ w₂, Rely C i t' w' w₂ → ∀ k, (t'.visible w₂.db).lookup k =
        ((t.visible w₂.db).lookup k).filter fun r => !p k r) → Q done t' w') :
    wp C i Q (deleteWhere p) t w := by
  unfold deleteWhere
  rw [wp_bind, wp_select]
  intro w₁ hr₁ _
  refine wp_changeEach (Or.inr rfl) _ (rowsWhere_nodup _ _) fun done t' w' hc => ?_
  refine h done t' w' (hr₁.trans hc.rely) hc.held fun w₂ later k => ?_
  rw [hc.visible (hc.settled (Or.inr rfl) later), bind_outcome_delete]
  cases hr : (t.visible w₂.db).lookup k with
  | none => rfl
  | some r =>
    by_cases hp : p k r = true
    · have seen := mem_rowsWhere.mpr (back w₁ w₂ (hc.rely.trans (later.mono hc.held)) k r hr hp)
      simp [Option.filter, hp, seen]
    · simp [Option.filter, hp]

theorem wp_insertRow {k : Key} {r : Row k} {Q : Bool → Tx Row → World Row Note → Prop}
    (taken : ∀ w' r', Rely C i t w w' → C.inv w' → (t.visible w'.db).lookup k = some r' →
      Q false (t.hold k .update) w')
    (free : ∀ w', Rely C i t w w' → C.inv w' → (t.visible w'.db).lookup k = none →
      Q true ((t.hold k .update).write k .update (some r)) w') :
    wp C i Q (insertRow k r) t w := by
  unfold insertRow
  rw [wp_bind, wp_lockRow]
  intro w₁ hr₁ _
  rw [wp_bind, wp_select]
  intro w₂ hr₂ hi₂
  have before := hr₁.trans (rely_hold hr₂)
  rw [Tx.visible_hold]
  cases hrow : (t.visible w₂.db).lookup k with
  | some r' => simpa using taken w₂ r' before hi₂ hrow
  | none =>
    simp only [Option.isSome_none, Bool.false_eq_true, if_false, wp_bind, wp_writeRow, wp_pure]
    intro w₃ hr₃ hi₃ _
    have now : (t.visible w₃.db).lookup k = none :=
      (t.visible_congr (hr₃.row List.mem_cons_self (by simp))).trans hrow
    exact free w₃ (before.trans (rely_hold hr₃)) hi₃ now

theorem wp_updateRow {k : Key} {m : Mode} {p : Row k → Bool} {g : Row k → Row k}
    {Q : Option (Row k) → Tx Row → World Row Note → Prop} (hm : m.writes)
    (missing : ∀ w', Rely C i t w w' → C.inv w' → Misses t w' k p → Q none t w')
    (rejected : ∀ w', Rely C i t w w' → C.inv w' → Misses t w' k p → Q none (t.hold k m) w')
    (found : ∀ w' r, Rely C i t w w' → C.inv w' → (t.visible w'.db).lookup k = some r →
      p r = true → Q (some r) ((t.hold k m).write k m (some (g r))) w') :
    wp C i Q (updateRow k m p g) t w := by
  have hne : m ≠ .keyShare := by rcases hm with rfl | rfl <;> simp
  unfold updateRow
  rw [wp_bind]
  refine wp_selectFor missing rejected fun w₁ r hr₁ _ hrow hp => ?_
  simp only [wp_bind, wp_writeRow, wp_pure]
  intro w₂ hr₂ hi₂ _
  have now : (t.visible w₂.db).lookup k = some r :=
    (t.visible_congr (hr₂.row List.mem_cons_self hne)).trans hrow
  exact found w₂ r (hr₁.trans (rely_hold hr₂)) hi₂ now hp

/-- Updating a row that the transaction has found and locked before. -/
theorem wp_updateRow_locked {k : Key} {m : Mode} {p : Row k → Bool} {g : Row k → Row k} {r : Row k}
    {Q : Option (Row k) → Tx Row → World Row Note → Prop} (hm : m.writes) (held : t.holds k)
    (hrow : (t.visible w.db).lookup k = some r) (hp : p r = true)
    (found : ∀ w', Rely C i t w w' → C.inv w' →
      Q (some r) ((t.hold k m).write k m (some (g r))) w') :
    wp C i Q (updateRow k m p g) t w := by
  have now : ∀ w', Rely C i t w w' → (t.visible w'.db).lookup k = some r :=
    fun w' hr => (t.visible_congr (hr.kept held rfl)).trans hrow
  have never : ∀ w', Rely C i t w w' → ¬ Misses t w' k p := by
    intro w' hr hmiss
    have := hmiss r (now w' hr)
    simp [hp] at this
  refine wp_updateRow hm ?_ ?_ ?_
  · exact fun w' hr _ hmiss => absurd hmiss (never w' hr)
  · exact fun w' hr _ hmiss => absurd hmiss (never w' hr)
  · intro w' r' hr hi hrow' _
    cases (now w' hr).symm.trans hrow'
    exact found w' hr hi

/-- Whatever a program answers, its commits keep the contract and it leaves no
transaction open. -/
def Transactional (C : Contract Row Note) (p : Prog Row Note α) : Prop :=
  ∀ i w, wp C i (fun _ t _ => t = {}) p {} w

theorem Transactional.pure (a : α) : Transactional C (pure a : Prog Row Note α) :=
  fun _ _ => rfl

theorem Transactional.choose : Transactional C (choose : Prog Row Note Nat) :=
  fun _ _ _ => rfl

theorem Transactional.select (f : Db Row → α) : Transactional C (select f : Prog Row Note α) :=
  fun _ _ _ _ _ => rfl

theorem Transactional.bind {p : Prog Row Note α} {f : α → Prog Row Note β}
    (hp : Transactional C p) (hf : ∀ a, Transactional C (f a)) : Transactional C (p >>= f) := by
  intro i w
  rw [wp_bind]
  refine wp_mono ?_ (hp i w)
  rintro a t w' rfl
  exact hf a i w'

end RowStatements
