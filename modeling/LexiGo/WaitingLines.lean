import LexiGo.StepHistories
import Mathlib.Data.List.Induction
import Mathlib.Data.List.Nodup

/-! A waiting line: what comes joins at the end, what has a reason to leave leaves from
wherever it stands, and the first one is served for as long as it is first. -/
namespace WaitingLines
open StepHistories

variable {α : Type}

/-- One joins, or all with some property leave. -/
inductive Move (α : Type)
  | join (x : α)
  | leave (p : α → Bool)

def move (line : List α) : Move α → List α
  | .join x => line ++ [x]
  | .leave p => line.filter fun x => !p x

/-- The one that joins, if any does. -/
def Move.joins : Move α → List α
  | .join x => [x]
  | .leave _ => []

def joined (moves : List (Move α)) : List α := moves.flatMap Move.joins

/-- The one whose turn comes with a move. -/
def turn [DecidableEq α] (line : List α) (m : Move α) : List α :=
  if (move line m).head? = line.head? then [] else (move line m).head?.toList

section Staying

theorem joined_concat (moves : List (Move α)) (m : Move α) :
    joined (moves ++ [m]) = joined moves ++ m.joins := by
  rw [joined, List.flatMap_append, List.flatMap_singleton, joined]

theorem replay_concat (moves : List (Move α)) (m : Move α) :
    replay move [] (moves ++ [m]) = move (replay move [] moves) m := by
  rw [replay_append, replay_cons, replay_nil]

theorem line_sublist (moves : List (Move α)) : (replay move [] moves).Sublist (joined moves) := by
  induction moves using List.reverseRecOn with
  | nil => exact List.Sublist.refl _
  | append_singleton moves m ih =>
    rw [replay_concat, joined_concat]
    cases m with
    | join x => exact ih.append (List.Sublist.refl _)
    | leave p => exact List.Sublist.trans List.filter_sublist (ih.trans (List.sublist_append_left _ _))

theorem joined_split {moves : List (Move α)} {x : α} (h : x ∈ joined moves) :
    ∃ before after, moves = before ++ .join x :: after := by
  obtain ⟨m, hm, hx⟩ := List.mem_flatMap.1 h
  cases m with
  | join y =>
    rw [List.mem_singleton.1 hx]
    exact List.append_of_mem hm
  | leave p => cases hx

/-- Whoever joined and had no reason to leave since is still there. -/
theorem stays_or_left {moves : List (Move α)} {x : α} (h : x ∈ joined moves) :
    x ∈ replay move [] moves ∨
      ∃ before after p, moves = before ++ .join x :: after ∧ .leave p ∈ after ∧ p x = true := by
  induction moves using List.reverseRecOn with
  | nil => cases h
  | append_singleton moves m ih =>
    rw [joined_concat, List.mem_append] at h
    rw [replay_concat]
    rcases h with h | h
    · rcases ih h with hthere | ⟨before, after, p, rfl, hleft, hp⟩
      · cases m with
        | join y => exact .inl (List.mem_append_left _ hthere)
        | leave p =>
          by_cases hp : p x = true
          · obtain ⟨before, after, rfl⟩ := joined_split h
            refine .inr ⟨before, after ++ [.leave p], p, by simp, ?_, hp⟩
            exact List.mem_append_right _ List.mem_cons_self
          · exact .inl (List.mem_filter.2 ⟨hthere, by simp [hp]⟩)
      · exact .inr ⟨before, after ++ [m], p, by simp, List.mem_append_left _ hleft, hp⟩
    · cases m with
      | join y =>
        rw [List.mem_singleton.1 h]
        exact .inl (List.mem_append_right _ List.mem_cons_self)
      | leave p => cases h

end Staying

section Serving

variable [DecidableEq α]

/-- Those whose turn came, in the order in which it came. -/
def served (moves : List (Move α)) : List α := recorded move turn [] moves

theorem served_concat (moves : List (Move α)) (m : Move α) :
    served (moves ++ [m]) = served moves ++ turn (replay move [] moves) m := by
  rw [served, recorded_append, recorded, recorded, List.append_nil, served]

theorem turn_same {line : List α} {m : Move α} (h : (move line m).head? = line.head?) :
    turn line m = [] := if_pos h

theorem turn_other {line : List α} {m : Move α} (h : (move line m).head? ≠ line.head?) :
    turn line m = (move line m).head?.toList := if_neg h

/-- What a move does to a line in which nobody stands twice: the one in front has been served
last, and those served and those who wait came in this order. -/
theorem serving_step {line done came : List α} (hnodup : line.Nodup)
    (horder : (done ++ line.tail).Sublist came) (hlast : ∀ x ∈ line.head?, done.getLast? = some x)
    (m : Move α) :
    (done ++ turn line m ++ (move line m).tail).Sublist (came ++ m.joins) ∧
      ∀ x ∈ (move line m).head?, (done ++ turn line m).getLast? = some x := by
  cases m with
  | join x =>
    cases line with
    | nil =>
      rw [turn_other (by simp [move])]
      constructor
      · simpa [move, Move.joins] using horder
      · simp [move]
    | cons first rest =>
      rw [turn_same (by simp [move])]
      constructor
      · have hjoin := horder.append (List.Sublist.refl [x])
        simpa [move, Move.joins] using hjoin
      · simpa [move] using hlast
  | leave p =>
    rw [Move.joins, List.append_nil]
    cases line with
    | nil =>
      rw [turn_same rfl]
      exact ⟨by simpa [move] using horder, nofun⟩
    | cons first rest =>
      have hfresh : first ∉ rest := (List.nodup_cons.1 hnodup).1
      have hstay : (rest.filter fun y => !p y).Sublist rest := List.filter_sublist
      by_cases hp : p first = true
      · have hmove : move (first :: rest) (.leave p) = rest.filter fun y => !p y := by
          simp [move, hp]
        have hother : (move (first :: rest) (.leave p)).head? ≠ (first :: rest).head? := by
          rw [hmove]
          exact fun hhead => hfresh (hstay.subset (List.mem_of_head? hhead))
        rw [turn_other hother, hmove]
        cases hnext : rest.filter fun y => !p y with
        | nil =>
          refine ⟨?_, nofun⟩
          simpa using List.Sublist.trans (List.sublist_append_left _ _) horder
        | cons second others =>
          rw [hnext] at hstay
          constructor
          · have hwait := List.Sublist.trans ((List.Sublist.refl done).append hstay) horder
            simpa using hwait
          · simp
      · have hmove : move (first :: rest) (.leave p) = first :: rest.filter fun y => !p y := by
          simp [move, hp]
        rw [turn_same (by rw [hmove]; rfl), hmove, List.append_nil]
        exact ⟨List.Sublist.trans ((List.Sublist.refl done).append hstay) horder, hlast⟩

/-- If nobody joins twice, everybody's turn comes in the order of joining and once at most, and
the one who stands in front is the one whose turn came last. -/
theorem served_in_order {moves : List (Move α)} (hnodup : (joined moves).Nodup) :
    (served moves ++ (replay move [] moves).tail).Sublist (joined moves) ∧
      ∀ x ∈ (replay move [] moves).head?, (served moves).getLast? = some x := by
  induction moves using List.reverseRecOn with
  | nil => exact ⟨List.Sublist.refl _, nofun⟩
  | append_singleton moves m ih =>
    rw [joined_concat] at hnodup ⊢
    have hbefore : (joined moves).Nodup := hnodup.sublist (List.sublist_append_left _ _)
    obtain ⟨horder, hlast⟩ := ih hbefore
    rw [replay_concat, served_concat]
    exact serving_step (hbefore.sublist (line_sublist moves)) horder hlast m

end Serving

end WaitingLines
