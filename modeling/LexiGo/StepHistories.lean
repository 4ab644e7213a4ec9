import Mathlib.Data.List.Basic

/-! Histories of a machine that takes one step for each command: what each single
step keeps, or breaks at once, decides what holds along the whole history. -/
namespace StepHistories

variable {σ α : Type} (step : σ → α → σ)

/-- Every state of the history, the first one included, satisfies `P`. -/
def Always (P : σ → Prop) : σ → List α → Prop
  | s, [] => P s
  | s, a :: rest => P s ∧ Always P (step s a) rest

/-- Every command is allowed in the state in which it comes. -/
def EachStep (ok : σ → α → Prop) : σ → List α → Prop
  | _, [] => True
  | s, a :: rest => ok s a ∧ EachStep ok (step s a) rest

instance decidableEachStep (ok : σ → α → Prop) [∀ s a, Decidable (ok s a)] :
    ∀ s history, Decidable (EachStep step ok s history)
  | _, [] => isTrue trivial
  | s, a :: rest =>
    have := decidableEachStep ok (step s a) rest
    inferInstanceAs (Decidable (ok s a ∧ EachStep step ok (step s a) rest))

variable {step} {P Inv : σ → Prop} {ok : σ → α → Prop}

theorem always_start {s : σ} {history : List α} (h : Always step P s history) : P s := by
  cases history with
  | nil => exact h
  | cons a rest => exact h.1

/-- A command keeps `P` exactly when it is allowed, so `P` holds throughout exactly
when every command is. `Inv` is what no command breaks. -/
theorem always_iff_eachStep (hinv : ∀ s a, Inv s → Inv (step s a))
    (hstep : ∀ s a, Inv s → P s → (P (step s a) ↔ ok s a)) {s : σ} (hi : Inv s) (hs : P s)
    (history : List α) : Always step P s history ↔ EachStep step ok s history := by
  induction history generalizing s with
  | nil => simp [Always, EachStep, hs]
  | cons a rest ih =>
    constructor
    · intro h
      have hnext : P (step s a) := always_start h.2
      exact ⟨(hstep s a hi hs).1 hnext, (ih (hinv s a hi) hnext).1 h.2⟩
    · intro h
      have hnext : P (step s a) := (hstep s a hi hs).2 h.1
      exact ⟨hs, (ih (hinv s a hi) hnext).2 h.2⟩

/-- Where a history ends. -/
def replay (step : σ → α → σ) (s : σ) (history : List α) : σ := history.foldl step s

@[simp] theorem replay_nil (s : σ) : replay step s [] = s := rfl

@[simp] theorem replay_cons (s : σ) (a : α) (rest : List α) :
    replay step s (a :: rest) = replay step (step s a) rest := rfl

/-- What no command breaks holds in the end. -/
theorem replay_keeps (hinv : ∀ s a, Inv s → Inv (step s a)) {s : σ} (hi : Inv s) (history : List α) :
    Inv (replay step s history) := by
  induction history generalizing s with
  | nil => exact hi
  | cons a rest ih => exact ih (hinv s a hi)

theorem replay_append (s : σ) (history rest : List α) :
    replay step s (history ++ rest) = replay step (replay step s history) rest :=
  List.foldl_append

theorem eachStep_append {s : σ} {history rest : List α} :
    EachStep step ok s (history ++ rest) ↔
      EachStep step ok s history ∧ EachStep step ok (replay step s history) rest := by
  induction history generalizing s with
  | nil => simp [EachStep]
  | cons a history ih => rw [List.cons_append, EachStep, EachStep, ih, replay_cons, and_assoc]

/-- What no allowed command breaks holds in the end, if every command is allowed. -/
theorem replay_keeps_each (hinv : ∀ s a, Inv s → ok s a → Inv (step s a)) {s : σ} (hi : Inv s)
    {history : List α} (h : EachStep step ok s history) : Inv (replay step s history) := by
  induction history generalizing s with
  | nil => exact hi
  | cons a rest ih => exact ih (hinv s a hi h.1) h.2

/-- Two machines side by side, of which the second is spared some of the commands. -/
theorem replay_filter {R : σ → σ → Prop} {spared : α → Bool}
    (hboth : ∀ s t a, R s t → spared a = false → R (step s a) (step t a))
    (hone : ∀ s t a, R s t → spared a = true → R (step s a) t) {s t : σ} (h : R s t)
    (history : List α) :
    R (replay step s history) (replay step t (history.filter fun a => !spared a)) := by
  induction history generalizing s t with
  | nil => exact h
  | cons a rest ih =>
    by_cases ha : spared a = true
    · rw [List.filter_cons_of_neg (by simp [ha])]
      exact ih (hone s t a h ha)
    · rw [Bool.not_eq_true] at ha
      rw [List.filter_cons_of_pos (by simp [ha])]
      exact ih (hboth s t a h ha)

/-- Conditions that amount to the same wherever `Inv` holds do so along a history. -/
theorem eachStep_congr {good : σ → α → Prop} (hinv : ∀ s a, Inv s → Inv (step s a))
    (h : ∀ s a, Inv s → (good s a ↔ ok s a)) {s : σ} (hi : Inv s) (history : List α) :
    EachStep step good s history ↔ EachStep step ok s history := by
  induction history generalizing s with
  | nil => exact Iff.rfl
  | cons a rest ih => exact and_congr (h s a hi) (ih (hinv s a hi))

/-- What is written down along a history, command by command. -/
def recorded {β : Type} (step : σ → α → σ) (note : σ → α → List β) : σ → List α → List β
  | _, [] => []
  | s, a :: rest => note s a ++ recorded step note (step s a) rest

theorem recorded_append {β : Type} (note : σ → α → List β) (s : σ) (history rest : List α) :
    recorded step note s (history ++ rest) =
      recorded step note s history ++ recorded step note (replay step s history) rest := by
  induction history generalizing s with
  | nil => rfl
  | cons a history ih => rw [List.cons_append, recorded, recorded, ih, replay_cons, List.append_assoc]

/-- A machine that follows another one writes down the same. -/
theorem recorded_follow {τ γ β : Type} {step' : τ → γ → τ} {note : σ → α → List β}
    {note' : τ → γ → List β} (view : σ → τ) (translate : α → γ)
    (hstep : ∀ s a, Inv s → ok s a → Inv (step s a) ∧ view (step s a) = step' (view s) (translate a))
    (hnote : ∀ s a, Inv s → ok s a → note s a = note' (view s) (translate a)) {s : σ} (hi : Inv s)
    {history : List α} (h : EachStep step ok s history) :
    view (replay step s history) = replay step' (view s) (history.map translate) ∧
      recorded step note s history = recorded step' note' (view s) (history.map translate) := by
  induction history generalizing s with
  | nil => exact ⟨rfl, rfl⟩
  | cons a rest ih =>
    obtain ⟨hnext, hview⟩ := hstep s a hi h.1
    obtain ⟨hreplay, hrecorded⟩ := ih hnext h.2
    rw [List.map_cons, replay_cons, replay_cons, recorded, recorded, hnote s a hi h.1, ← hview]
    exact ⟨hreplay, congrArg _ hrecorded⟩

end StepHistories
