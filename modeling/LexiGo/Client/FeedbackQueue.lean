import LexiGo.JsText
import LexiGo.Text.DecimalDigits
import LexiGo.WaitingLines

/-! The feedback that the client shows: banners side by side, and toasts one at a time. The
active toast and the queue behind it are one waiting line, of which the active toast is the
first. -/
namespace FeedbackQueue
open StepHistories WaitingLines

inductive FeedbackCategory
  | blockingError | error | success | info
  deriving DecidableEq

inductive FeedbackPresentation
  | banner | toast
  deriving DecidableEq

inductive FeedbackLiveMode
  | assertive | polite
  deriving DecidableEq

inductive FeedbackRole
  | alert | status
  deriving DecidableEq

structure FeedbackInput where
  category : FeedbackCategory
  title : Option String
  message : String
  key : Option String
  deriving DecidableEq

structure FeedbackPolicy where
  presentation : FeedbackPresentation
  role : FeedbackRole
  live : FeedbackLiveMode
  dismissible : Bool
  autoDismiss : Bool
  deriving DecidableEq

structure FeedbackItem extends FeedbackInput, FeedbackPolicy where
  id : String
  durationMs : Option Nat
  deriving DecidableEq

structure FeedbackState where
  banners : List FeedbackItem
  activeToast : Option FeedbackItem
  toastQueue : List FeedbackItem
  deriving DecidableEq

inductive FeedbackActionState
  | publish (item : FeedbackItem)
  | dismiss (id : String)
  | clearKey (key : String)
  deriving DecidableEq

def initialFeedbackState : FeedbackState := ⟨[], none, []⟩

def minToastDurationMs : Nat := 5000
def maxToastDurationMs : Nat := 12000
def characterReadingTimeMs : Nat := 45

def feedbackPolicy : FeedbackCategory → FeedbackPolicy
  | .blockingError => ⟨.banner, .alert, .assertive, false, false⟩
  | .error => ⟨.toast, .status, .polite, true, true⟩
  | .success => ⟨.toast, .status, .polite, true, true⟩
  | .info => ⟨.toast, .status, .polite, true, true⟩

/-- A toast stays for as long as it takes to read. -/
def feedbackDurationMs (input : FeedbackInput) : Option Nat :=
  if (feedbackPolicy input.category).autoDismiss then
    let textLength := JsText.length (JsText.trim (input.title.getD "" ++ " " ++ input.message))
    some (min maxToastDurationMs
      (max minToastDurationMs (minToastDurationMs + textLength * characterReadingTimeMs)))
  else none

def createFeedbackItem (id : String) (input : FeedbackInput) : FeedbackItem where
  toFeedbackInput := input
  toFeedbackPolicy := feedbackPolicy input.category
  id := id
  durationMs := feedbackDurationMs input

def advanceToast (state : FeedbackState) : FeedbackState :=
  match state.toastQueue with
  | [] => { state with activeToast := none, toastQueue := [] }
  | activeToast :: toastQueue => { state with activeToast := some activeToast, toastQueue := toastQueue }

/-- A banner takes the place of one with the same key; the empty key is none. -/
def publishBanner (state : FeedbackState) (item : FeedbackItem) : FeedbackState :=
  if item.key.getD "" = "" then { state with banners := state.banners ++ [item] }
  else
    match state.banners.findIdx? fun banner => banner.key = item.key with
    | none => { state with banners := state.banners ++ [item] }
    | some existingIndex => { state with banners := state.banners.set existingIndex item }

def dismissToast (state : FeedbackState) (id : String) : FeedbackState :=
  if state.activeToast.map (·.id) = some id then advanceToast state
  else { state with toastQueue := state.toastQueue.filter fun item => item.id ≠ id }

def feedbackReducer (state : FeedbackState) : FeedbackActionState → FeedbackState
  | .publish item =>
    if item.presentation = .banner then publishBanner state item
    else if state.activeToast = none then { state with activeToast := some item }
    else { state with toastQueue := state.toastQueue ++ [item] }
  | .dismiss id =>
    if state.banners.any fun banner => banner.id = id then
      { state with banners := state.banners.filter fun banner => banner.id ≠ id }
    else dismissToast state id
  | .clearKey key =>
    let banners := state.banners.filter fun item => item.key ≠ some key
    let queued := state.toastQueue.filter fun item => item.key ≠ some key
    if (state.activeToast.bind fun toast => toast.key) ≠ some key then
      { state with banners := banners, toastQueue := queued }
    else ⟨banners, queued.head?, queued.tail⟩

/-- The items that are published along a history, and the toasts among them. -/
def published (history : List FeedbackActionState) : List FeedbackItem :=
  history.filterMap fun
    | .publish item => some item
    | _ => none

def publishedToasts (history : List FeedbackActionState) : List FeedbackItem :=
  (published history).filter fun item => item.presentation ≠ .banner

/-- The toast that a step makes the active one. -/
def activates (state : FeedbackState) (action : FeedbackActionState) : List FeedbackItem :=
  if (feedbackReducer state action).activeToast = state.activeToast then []
  else (feedbackReducer state action).activeToast.toList

/-- The toasts that have been active along a history, in their order. -/
def activated (history : List FeedbackActionState) : List FeedbackItem :=
  recorded feedbackReducer activates initialFeedbackState history

/-- An action that takes an item away. -/
def removes (item : FeedbackItem) : FeedbackActionState → Prop
  | .publish _ => False
  | .dismiss id => item.id = id
  | .clearKey key => item.key = some key

section Line

/-- The toasts of a state, in the order in which they are shown. -/
def line (state : FeedbackState) : List FeedbackItem := state.activeToast.toList ++ state.toastQueue

/-- What an action is for the toasts. -/
def toastMove : FeedbackActionState → Move FeedbackItem
  | .publish item => if item.presentation = .banner then .leave fun _ => false else .join item
  | .dismiss id => .leave fun item => item.id = id
  | .clearKey key => .leave fun item => item.key = some key

def ids (state : FeedbackState) : List String := (state.banners ++ line state).map (·.id)

/-- Nobody waits behind nothing, no id stands twice, and no key has two banners. -/
structure Consistent (state : FeedbackState) : Prop where
  idle : state.activeToast = none → state.toastQueue = []
  distinct : (ids state).Nodup
  single : ∀ key, key ≠ "" → (state.banners.map (·.key)).count (some key) ≤ 1

/-- What is published is not known by an id that is in use. -/
def Fresh (state : FeedbackState) : FeedbackActionState → Prop
  | .publish item => item.id ∉ ids state
  | _ => True

variable {state : FeedbackState}

theorem line_head (h : Consistent state) : (line state).head? = state.activeToast := by
  unfold line
  cases hactive : state.activeToast with
  | none => rw [h.idle hactive]; rfl
  | some toast => rfl

theorem line_tail (h : Consistent state) : (line state).tail = state.toastQueue := by
  unfold line
  cases hactive : state.activeToast with
  | none => rw [h.idle hactive]; rfl
  | some toast => rfl

/-- An action that adds nothing keeps a state consistent. -/
theorem Consistent.less {state' : FeedbackState} (h : Consistent state)
    (hidle : state'.activeToast = none → state'.toastQueue = [])
    (hbanners : state'.banners.Sublist state.banners)
    (hline : (line state').Sublist (line state)) : Consistent state' where
  idle := hidle
  distinct := h.distinct.sublist ((hbanners.append hline).map _)
  single := fun key hkey => Nat.le_trans ((hbanners.map _).count_le _) (h.single key hkey)

theorem publishBanner_line (state : FeedbackState) (item : FeedbackItem) :
    line (publishBanner state item) = line state ∧
      (publishBanner state item).activeToast = state.activeToast ∧
      (publishBanner state item).toastQueue = state.toastQueue := by
  unfold publishBanner
  split
  · exact ⟨rfl, rfl, rfl⟩
  · split <;> exact ⟨rfl, rfl, rfl⟩

/-- A banner comes last, unless there is one of the same key whose place it takes. -/
theorem publishBanner_banners (state : FeedbackState) (item : FeedbackItem) :
    ((publishBanner state item).banners = state.banners ++ [item] ∧
        ∀ key, key ≠ "" → item.key = some key → some key ∉ state.banners.map (·.key)) ∨
      ∃ i, ∃ h : i < state.banners.length,
        (publishBanner state item).banners = state.banners.set i item ∧
          state.banners[i].key = item.key := by
  unfold publishBanner
  split
  · next hnone =>
    refine .inl ⟨rfl, fun key hkey hitem => ?_⟩
    rw [hitem] at hnone
    exact absurd hnone hkey
  · split
    · next hnone =>
      refine .inl ⟨rfl, fun key hkey hitem hmem => ?_⟩
      obtain ⟨banner, hbanner, heq⟩ := List.mem_map.1 hmem
      have hother := List.findIdx?_eq_none_iff.1 hnone banner hbanner
      rw [heq, hitem] at hother
      simp at hother
    · next i hfound =>
      obtain ⟨hi, hkey, -⟩ := List.findIdx?_eq_some_iff_getElem.1 hfound
      exact .inr ⟨i, hi, rfl, of_decide_eq_true hkey⟩

theorem published_banner (h : Consistent state) {item : FeedbackItem} (hfresh : item.id ∉ ids state) :
    Consistent (publishBanner state item) := by
  obtain ⟨hline, hactive, hqueue⟩ := publishBanner_line state item
  constructor
  · rw [hactive, hqueue]
    exact h.idle
  · rw [ids, hline]
    rcases publishBanner_banners state item with ⟨hbanners, -⟩ | ⟨i, hi, hbanners, -⟩
    · rw [hbanners, List.append_assoc, List.singleton_append, List.map_append, List.map_cons,
        List.nodup_middle, ← List.map_append]
      exact List.nodup_cons.2 ⟨hfresh, h.distinct⟩
    · rw [hbanners, ← List.set_append_left _ _ hi, List.map_set]
      exact h.distinct.set hfresh
  · intro key hkey
    rcases publishBanner_banners state item with ⟨hbanners, hnew⟩ | ⟨i, hi, hbanners, hsame⟩
    · rw [hbanners, List.map_append, List.count_append, List.map_singleton]
      by_cases hitem : item.key = some key
      · rw [List.count_eq_zero.2 (hnew key hkey hitem), hitem, List.count_singleton_self]
      · rw [List.count_singleton, if_neg (by simpa using hitem)]
        exact h.single key hkey
    · have hkeys : (state.banners.set i item).map (·.key) = state.banners.map (·.key) := by
        refine List.ext_getElem (by simp) fun j _ _ => ?_
        rw [List.getElem_map, List.getElem_map, List.getElem_set]
        split
        · next heq => simp [← heq, hsame]
        · rfl
      rw [hbanners, hkeys]
      exact h.single key hkey

theorem published_toast (h : Consistent state) {item : FeedbackItem} (hfresh : item.id ∉ ids state)
    (htoast : item.presentation ≠ .banner) :
    Consistent (feedbackReducer state (.publish item)) ∧
      line (feedbackReducer state (.publish item)) = line state ++ [item] := by
  have hline : line (feedbackReducer state (.publish item)) = line state ++ [item] := by
    dsimp only [feedbackReducer]
    rw [if_neg htoast]
    split
    · next hactive =>
      unfold line
      rw [hactive, h.idle hactive]
      rfl
    · exact (List.append_assoc _ _ _).symm
  have hbanners : (feedbackReducer state (.publish item)).banners = state.banners := by
    dsimp only [feedbackReducer]
    rw [if_neg htoast]
    split <;> rfl
  refine ⟨⟨?_, ?_, ?_⟩, hline⟩
  · dsimp only [feedbackReducer]
    rw [if_neg htoast]
    split
    · exact fun hnone => absurd hnone nofun
    · next hactive => exact fun hnone => absurd hnone hactive
  · rw [ids, hline, hbanners, ← List.append_assoc, List.map_append, List.nodup_append]
    refine ⟨h.distinct, List.nodup_singleton _, ?_⟩
    rintro id hid _ hitem rfl
    rw [List.map_singleton, List.mem_singleton] at hitem
    exact hfresh (hitem ▸ hid)
  · rw [hbanners]
    exact h.single

/-- A list in which the first element alone has an id, once that element is away. -/
theorem filter_rest {toast : FeedbackItem} {rest : List FeedbackItem}
    (h : ((toast :: rest).map (·.id)).Nodup) : (rest.filter fun item => item.id ≠ toast.id) = rest := by
  rw [List.filter_eq_self]
  intro item hitem
  rw [List.map_cons, List.nodup_cons] at h
  exact decide_eq_true fun heq => h.1 (List.mem_map.2 ⟨item, hitem, heq⟩)

theorem line_distinct (h : Consistent state) : ((line state).map (·.id)).Nodup := by
  have hall := h.distinct
  rw [ids, List.map_append] at hall
  exact hall.of_append_right

theorem advanceToast_line (state : FeedbackState) : line (advanceToast state) = state.toastQueue := by
  unfold advanceToast
  cases state.toastQueue <;> rfl

theorem advanceToast_idle (state : FeedbackState) (h : (advanceToast state).activeToast = none) :
    (advanceToast state).toastQueue = [] := by
  unfold advanceToast at h ⊢
  cases hqueue : state.toastQueue with
  | nil => rfl
  | cons next rest =>
    rw [hqueue] at h
    cases h

theorem dismissed_toast (h : Consistent state) (id : String) :
    line (dismissToast state id) = (line state).filter fun item => item.id ≠ id := by
  have hdistinct := line_distinct h
  unfold dismissToast
  by_cases hid : state.activeToast.map (·.id) = some id
  · rw [if_pos hid, advanceToast_line]
    obtain ⟨toast, hactive, rfl⟩ := Option.map_eq_some_iff.1 hid
    unfold line at hdistinct ⊢
    rw [hactive] at hdistinct ⊢
    have hrest := filter_rest hdistinct
    rw [Option.toList_some, List.singleton_append, List.filter_cons_of_neg (by simp)]
    exact hrest.symm
  · rw [if_neg hid]
    unfold line
    rw [List.filter_append]
    cases hactive : state.activeToast with
    | none => rfl
    | some toast =>
      rw [hactive] at hid
      have hother : toast.id ≠ id := fun heq => hid (congrArg some heq)
      simp [hother]

theorem cleared_toasts (state : FeedbackState) (key : String) :
    line (feedbackReducer state (.clearKey key)) =
      (line state).filter fun item => item.key ≠ some key := by
  dsimp only [feedbackReducer]
  unfold line
  rw [List.filter_append]
  cases hactive : state.activeToast with
  | none => rfl
  | some toast =>
    by_cases hkey : toast.key = some key
    · rw [if_neg (by simpa using hkey)]
      cases state.toastQueue.filter fun item => item.key ≠ some key <;> simp [hkey]
    · rw [if_pos (by simpa using hkey)]
      simp [hkey]

theorem dismissToast_consistent (h : Consistent state) (id : String) :
    Consistent (dismissToast state id) := by
  refine h.less ?_ ?_ ?_
  · unfold dismissToast
    split
    · exact advanceToast_idle state
    · intro hnone
      rw [h.idle hnone]
      rfl
  · unfold dismissToast advanceToast
    split
    · split <;> exact List.Sublist.refl _
    · exact List.Sublist.refl _
  · rw [dismissed_toast h]
    exact List.filter_sublist

/-- The dismissal of a banner concerns no toast. -/
theorem dismissed_banner (h : Consistent state) {id : String}
    (hbanner : (state.banners.any fun banner => banner.id = id) = true) :
    (line state).filter (fun item => item.id ≠ id) = line state := by
  obtain ⟨banner, hmem, hid⟩ := List.any_eq_true.1 hbanner
  rw [List.filter_eq_self]
  intro toast htoast
  refine decide_eq_true fun heq => ?_
  have hall := h.distinct
  rw [ids, List.map_append, List.nodup_append] at hall
  exact hall.2.2 banner.id (List.mem_map_of_mem hmem) toast.id (List.mem_map_of_mem htoast)
    ((of_decide_eq_true hid).trans heq.symm)

theorem dismiss_step (h : Consistent state) (id : String) :
    Consistent (feedbackReducer state (.dismiss id)) ∧
      line (feedbackReducer state (.dismiss id)) = (line state).filter fun item => item.id ≠ id := by
  dsimp only [feedbackReducer]
  split
  · next hbanner =>
    refine ⟨h.less h.idle List.filter_sublist (List.Sublist.refl _), ?_⟩
    exact (dismissed_banner h hbanner).symm
  · exact ⟨dismissToast_consistent h id, dismissed_toast h id⟩

theorem clear_step (h : Consistent state) (key : String) :
    Consistent (feedbackReducer state (.clearKey key)) := by
  refine h.less ?_ ?_ ?_
  · dsimp only [feedbackReducer]
    split
    · intro hnone
      rw [h.idle hnone]
      rfl
    · intro hnone
      rw [List.head?_eq_none_iff] at hnone
      rw [hnone]
      rfl
  · dsimp only [feedbackReducer]
    split <;> exact List.filter_sublist
  · rw [cleared_toasts]
    exact List.filter_sublist

/-- For the toasts, an action is a move of their waiting line. -/
theorem line_step (state : FeedbackState) (action : FeedbackActionState) (h : Consistent state)
    (hfresh : Fresh state action) :
    Consistent (feedbackReducer state action) ∧
      line (feedbackReducer state action) = move (line state) (toastMove action) := by
  cases action with
  | publish item =>
    by_cases hbanner : item.presentation = .banner
    · have hreducer : feedbackReducer state (.publish item) = publishBanner state item := if_pos hbanner
      rw [hreducer, toastMove, if_pos hbanner, (publishBanner_line state item).1]
      exact ⟨published_banner h hfresh, by simp [move]⟩
    · rw [toastMove, if_neg hbanner]
      exact published_toast h hfresh hbanner
  | dismiss id =>
    obtain ⟨hconsistent, hline⟩ := dismiss_step h id
    exact ⟨hconsistent, by simpa [toastMove, move] using hline⟩
  | clearKey key =>
    exact ⟨clear_step h key, by simpa [toastMove, move] using cleared_toasts state key⟩

theorem activates_turn (state : FeedbackState) (action : FeedbackActionState) (h : Consistent state)
    (hfresh : Fresh state action) : activates state action = turn (line state) (toastMove action) := by
  obtain ⟨hnext, hline⟩ := line_step state action h hfresh
  rw [turn, ← hline, line_head hnext, line_head h, activates]

theorem step_banners (state : FeedbackState) (action : FeedbackActionState) {banner : FeedbackItem}
    (hmem : banner ∈ (feedbackReducer state action).banners) :
    banner ∈ state.banners ∨ action = .publish banner := by
  cases action with
  | publish item =>
    dsimp only [feedbackReducer] at hmem
    split at hmem
    · rcases publishBanner_banners state item with ⟨hbanners, -⟩ | ⟨i, hi, hbanners, -⟩
      · rw [hbanners, List.mem_append, List.mem_singleton] at hmem
        exact hmem.imp_right fun heq => by rw [heq]
      · rw [hbanners] at hmem
        exact (List.mem_or_eq_of_mem_set hmem).imp_right fun heq => by rw [heq]
    · split at hmem <;> exact .inl hmem
  | dismiss id =>
    dsimp only [feedbackReducer, dismissToast, advanceToast] at hmem
    split at hmem
    · exact .inl (List.mem_of_mem_filter hmem)
    · split at hmem
      · split at hmem <;> exact .inl hmem
      · exact .inl hmem
  | clearKey key =>
    dsimp only [feedbackReducer] at hmem
    split at hmem <;> exact .inl (List.mem_of_mem_filter hmem)

theorem step_line (state : FeedbackState) (action : FeedbackActionState) (h : Consistent state)
    (hfresh : Fresh state action) {toast : FeedbackItem}
    (hmem : toast ∈ line (feedbackReducer state action)) :
    toast ∈ line state ∨ action = .publish toast := by
  rw [(line_step state action h hfresh).2] at hmem
  cases action with
  | publish item =>
    dsimp only [toastMove] at hmem
    split at hmem
    · exact .inl (List.mem_of_mem_filter hmem)
    · rw [move, List.mem_append, List.mem_singleton] at hmem
      exact hmem.imp_right fun heq => by rw [heq]
  | dismiss id => exact .inl (List.mem_of_mem_filter hmem)
  | clearKey key => exact .inl (List.mem_of_mem_filter hmem)

/-- What was in use before or is published now is all that is in use after an action. -/
theorem ids_step (state : FeedbackState) (action : FeedbackActionState) (h : Consistent state)
    (hfresh : Fresh state action) {id : String} (hid : id ∈ ids (feedbackReducer state action)) :
    id ∈ ids state ∨ ∃ item, action = .publish item ∧ item.id = id := by
  obtain ⟨item, hitem, rfl⟩ := List.mem_map.1 hid
  rcases List.mem_append.1 hitem with hbanner | hline
  · rcases step_banners state action hbanner with hbefore | hnew
    · exact .inl (List.mem_map_of_mem (List.mem_append_left _ hbefore))
    · exact .inr ⟨item, hnew, rfl⟩
  · rcases step_line state action h hfresh hline with hbefore | hnew
    · exact .inl (List.mem_map_of_mem (List.mem_append_right _ hbefore))
    · exact .inr ⟨item, hnew, rfl⟩

end Line

section Histories

theorem published_cons (action : FeedbackActionState) (rest : List FeedbackActionState) :
    published (action :: rest) = published [action] ++ published rest := by
  have happend : published ([action] ++ rest) = published [action] ++ published rest :=
    List.filterMap_append
  exact happend

theorem mem_published {item : FeedbackItem} {history : List FeedbackActionState} :
    item ∈ published history ↔ .publish item ∈ history := by
  constructor
  · intro h
    obtain ⟨action, haction, hitem⟩ := List.mem_filterMap.1 h
    cases action with
    | publish published =>
      cases hitem
      exact haction
    | dismiss id => cases hitem
    | clearKey key => cases hitem
  · exact fun h => List.mem_filterMap.2 ⟨_, h, rfl⟩

/-- Ids that are published once only, and were not in use before, are fresh when they come. -/
theorem eachStep_fresh {state : FeedbackState} {history : List FeedbackActionState}
    (h : Consistent state) (hunused : ∀ item ∈ published history, item.id ∉ ids state)
    (hnodup : ((published history).map (·.id)).Nodup) :
    EachStep feedbackReducer Fresh state history := by
  induction history generalizing state with
  | nil => exact trivial
  | cons action rest ih =>
    rw [published_cons] at hunused hnodup
    rw [List.map_append, List.nodup_append] at hnodup
    have hfresh : Fresh state action := by
      cases action with
      | publish item => exact hunused item (List.mem_append_left _ List.mem_cons_self)
      | dismiss id => exact trivial
      | clearKey key => exact trivial
    refine ⟨hfresh, ih (line_step state action h hfresh).1 ?_ hnodup.2.1⟩
    intro item hitem hid
    rcases ids_step state action h hfresh hid with hbefore | ⟨first, rfl, hsame⟩
    · exact hunused item (List.mem_append_right _ hitem) hbefore
    · exact hnodup.2.2 first.id List.mem_cons_self item.id (List.mem_map_of_mem hitem) hsame

theorem consistent_initial : Consistent initialFeedbackState where
  idle := fun _ => rfl
  distinct := List.nodup_nil
  single := fun _ _ => Nat.zero_le _

/-- The toasts that are published are those that join the line. -/
theorem joined_moves (history : List FeedbackActionState) :
    joined (history.map toastMove) = publishedToasts history := by
  induction history with
  | nil => rfl
  | cons action rest ih =>
    have htoasts : publishedToasts (action :: rest) = publishedToasts [action] ++ publishedToasts rest := by
      rw [publishedToasts, published_cons, List.filter_append, publishedToasts, publishedToasts]
    rw [htoasts, ← ih, List.map_cons, joined, List.flatMap_cons, joined]
    congr 1
    cases action with
    | publish item => by_cases hbanner : item.presentation = .banner <;>
        simp [toastMove, publishedToasts, published, Move.joins, hbanner]
    | dismiss id => rfl
    | clearKey key => rfl

/-- The line of toasts goes through the moves of a history, and serves those who become active. -/
theorem history_line {history : List FeedbackActionState}
    (hnodup : ((published history).map (·.id)).Nodup) :
    Consistent (replay feedbackReducer initialFeedbackState history) ∧
      line (replay feedbackReducer initialFeedbackState history) =
        replay move [] (history.map toastMove) ∧
      activated history = served (history.map toastMove) := by
  have hfresh := eachStep_fresh consistent_initial (fun _ _ => List.not_mem_nil) hnodup
  obtain ⟨hline, hserved⟩ :=
    recorded_follow line toastMove line_step activates_turn consistent_initial hfresh
  have hkeeps : ∀ state action, Consistent state → Fresh state action →
      Consistent (feedbackReducer state action) :=
    fun state action h hfresh => (line_step state action h hfresh).1
  exact ⟨replay_keeps_each hkeeps consistent_initial hfresh, hline, hserved⟩

/-- An item was taken away at some time after it was published. -/
def Removed (item : FeedbackItem) (history : List FeedbackActionState) : Prop :=
  ∃ before after action, history = before ++ .publish item :: after ∧ action ∈ after ∧
    removes item action

theorem toastMove_join {action : FeedbackActionState} {toast : FeedbackItem}
    (h : toastMove action = .join toast) : action = .publish toast := by
  cases action with
  | publish item =>
    dsimp only [toastMove] at h
    split at h
    · cases h
    · rw [Move.join.inj h]
  | dismiss id => cases h
  | clearKey key => cases h

theorem toastMove_leave {action : FeedbackActionState} {p : FeedbackItem → Bool} {toast : FeedbackItem}
    (h : toastMove action = .leave p) (hp : p toast = true) : removes toast action := by
  cases action with
  | publish item =>
    dsimp only [toastMove] at h
    split at h
    · cases h
      cases hp
    · cases h
  | dismiss id =>
    cases h
    have hid : toast.id = id := of_decide_eq_true hp
    exact hid
  | clearKey key =>
    cases h
    have hkey : toast.key = some key := of_decide_eq_true hp
    exact hkey

theorem removed_of_left {history : List FeedbackActionState} {toast : FeedbackItem}
    {before after : List (Move FeedbackItem)} {p : FeedbackItem → Bool}
    (hsplit : history.map toastMove = before ++ .join toast :: after) (hleft : .leave p ∈ after)
    (hp : p toast = true) : Removed toast history := by
  obtain ⟨before', rest, rfl, rfl, hrest⟩ := List.map_eq_append_iff.1 hsplit
  obtain ⟨action, after', rfl, hjoin, rfl⟩ := List.map_eq_cons_iff.1 hrest
  obtain ⟨last, hlast, hleave⟩ := List.mem_map.1 hleft
  rw [toastMove_join hjoin]
  exact ⟨before', after', last, rfl, hlast, toastMove_leave hleave hp⟩

/-- What holds of a state that a history leads to. -/
structure Kept (history : List FeedbackActionState) (state : FeedbackState) : Prop where
  idle : state.activeToast = none → state.toastQueue = []
  /-- The toasts that were or will be active come in the order of publication. -/
  inOrder : (activated history ++ state.toastQueue).Sublist (publishedToasts history)
  once : ((activated history ++ state.toastQueue).map (·.id)).Nodup
  /-- The active toast is the one that became active last. -/
  active : ∀ toast ∈ state.activeToast, (activated history).getLast? = some toast
  /-- A published toast is active or waits, unless it was taken away. -/
  notLost : ∀ toast ∈ publishedToasts history,
    toast ∈ state.activeToast.toList ++ state.toastQueue ∨ Removed toast history
  distinct : ((state.banners ++ (state.activeToast.toList ++ state.toastQueue)).map (·.id)).Nodup
  single : ∀ key, key ≠ "" → (state.banners.map (·.key)).count (some key) ≤ 1

theorem kept_of_fresh {history : List FeedbackActionState}
    (hfresh : ((published history).map (·.id)).Nodup) :
    Kept history (replay feedbackReducer initialFeedbackState history) := by
  obtain ⟨hconsistent, hline, hactivated⟩ := history_line hfresh
  have hnodup : ((publishedToasts history).map (·.id)).Nodup :=
    hfresh.sublist (List.filter_sublist.map _)
  have hjoined : (joined (history.map toastMove)).Nodup := by
    rw [joined_moves]
    exact hnodup.of_map
  obtain ⟨horder, hlast⟩ := served_in_order hjoined
  rw [← hline, ← hactivated] at horder hlast
  rw [line_tail hconsistent, joined_moves] at horder
  rw [line_head hconsistent] at hlast
  refine ⟨hconsistent.idle, horder, hnodup.sublist (horder.map _), hlast, ?_, hconsistent.distinct,
    hconsistent.single⟩
  intro toast htoast
  rw [← joined_moves] at htoast
  rcases stays_or_left htoast with hstays | ⟨before, after, p, hsplit, hleft, hp⟩
  · rw [← hline] at hstays
    exact .inl hstays
  · exact .inr (removed_of_left hsplit hleft hp)

/-- If every id is fresh when it is published, everything is kept from the first action on. -/
theorem history_kept (history : List FeedbackActionState)
    (hfresh : ((published history).map (·.id)).Nodup) :
    ∀ soFar, soFar <+: history → Kept soFar (replay feedbackReducer initialFeedbackState soFar) := by
  rintro soFar ⟨rest, rfl⟩
  have happend : published (soFar ++ rest) = published soFar ++ published rest :=
    List.filterMap_append
  rw [happend, List.map_append] at hfresh
  exact kept_of_fresh hfresh.of_append_left

/-- Two toasts with a banner between them, and the first of them dismissed. -/
def threeItems : List FeedbackActionState :=
  [.publish (createFeedbackItem "a" ⟨.success, none, "done", none⟩),
    .publish (createFeedbackItem "b" ⟨.blockingError, none, "down", some "net"⟩),
    .publish (createFeedbackItem "c" ⟨.info, none, "note", some "note"⟩), .dismiss "a"]

theorem threeItems_kept :
    ((published threeItems).map (·.id)).Nodup ∧
      ∀ soFar, soFar <+: threeItems → Kept soFar (replay feedbackReducer initialFeedbackState soFar) :=
  ⟨by decide, history_kept threeItems (by decide)⟩

end Histories

section Center

open DecimalDigits

/-- What the components of the page call. -/
inductive FeedbackCommand
  | publish (input : FeedbackInput)
  | dismiss (id : String)
  | clearKey (key : String)

/-- The component that holds the state and numbers what is published. -/
structure FeedbackCenter where
  sequence : Nat
  state : FeedbackState

def feedbackId (sequence : Nat) : String := "feedback-" ++ String.ofList (decimal sequence)

def dispatched (center : FeedbackCenter) : FeedbackCommand → FeedbackActionState
  | .publish input => .publish (createFeedbackItem (feedbackId (center.sequence + 1)) input)
  | .dismiss id => .dismiss id
  | .clearKey key => .clearKey key

def command (center : FeedbackCenter) (c : FeedbackCommand) : FeedbackCenter where
  sequence :=
    match c with
    | .publish _ => center.sequence + 1
    | _ => center.sequence
  state := feedbackReducer center.state (dispatched center c)

/-- The actions that come of the calls. -/
def actions (center : FeedbackCenter) (commands : List FeedbackCommand) : List FeedbackActionState :=
  recorded command (fun center c => [dispatched center c]) center commands

theorem actions_cons (center : FeedbackCenter) (c : FeedbackCommand) (rest : List FeedbackCommand) :
    actions center (c :: rest) = dispatched center c :: actions (command center c) rest := rfl

theorem command_state (center : FeedbackCenter) (commands : List FeedbackCommand) :
    (replay command center commands).state =
      replay feedbackReducer center.state (actions center commands) := by
  induction commands generalizing center with
  | nil => rfl
  | cons c rest ih => exact ih (command center c)

theorem feedbackId_inj {m n : Nat} (h : feedbackId m = feedbackId n) : m = n := by
  have hdigits : decimal m = decimal n := by
    rw [← String.toList_inj, feedbackId, feedbackId, String.toList_append, String.toList_append] at h
    have hdigits := List.append_cancel_left h
    rwa [String.toList_ofList, String.toList_ofList] at hdigits
  rw [← value_decimal m, hdigits, value_decimal]

/-- The numbers go up, so no id comes twice. -/
theorem actions_fresh (center : FeedbackCenter) (commands : List FeedbackCommand) :
    ((published (actions center commands)).map (·.id)).Nodup ∧
      ∀ item ∈ published (actions center commands), ∃ n, center.sequence < n ∧ item.id = feedbackId n := by
  induction commands generalizing center with
  | nil => exact ⟨List.nodup_nil, nofun⟩
  | cons c rest ih =>
    obtain ⟨hnodup, hlater⟩ := ih (command center c)
    rw [actions_cons, published_cons]
    cases c with
    | publish input =>
      constructor
      · refine List.nodup_cons.2 ⟨fun hmem => ?_, hnodup⟩
        obtain ⟨item, hitem, hid⟩ := List.mem_map.1 hmem
        obtain ⟨n, hn, hitemId⟩ := hlater item hitem
        have hsame : n = center.sequence + 1 := feedbackId_inj (hitemId.symm.trans hid)
        dsimp only [command] at hn
        omega
      · intro item hitem
        rcases List.mem_cons.1 hitem with rfl | hitem
        · exact ⟨center.sequence + 1, Nat.lt_succ_self _, rfl⟩
        · obtain ⟨n, hn, hid⟩ := hlater item hitem
          exact ⟨n, Nat.lt_of_succ_lt hn, hid⟩
    | dismiss id => exact ⟨hnodup, hlater⟩
    | clearKey key => exact ⟨hnodup, hlater⟩

/-- Whatever the components call, the feedback that they publish is kept. -/
theorem center_kept (commands : List FeedbackCommand) :
    Kept (actions ⟨0, initialFeedbackState⟩ commands)
      (replay command ⟨0, initialFeedbackState⟩ commands).state := by
  rw [command_state]
  exact kept_of_fresh (actions_fresh _ commands).1

end Center

end FeedbackQueue
