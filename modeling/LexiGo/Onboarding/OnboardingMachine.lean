import LexiGo.Onboarding.OnboardingService
import Mathlib.Logic.Function.Basic

/-! The onboarding as a state machine: what each request makes of the committed
preferences, diagnostic items and learned words when it commits. -/
namespace OnboardingMachine
open RowStore Scheduler OnboardingSchema OnboardingRepository Function
open LearningSchema (UserId WordId UserWordRow WordRow)

@[ext] structure Onboarding where
  preferences : UserId → Option PreferenceRow
  item : UserId → Nat → Option DiagnosticRow
  userWord : UserId → WordId → Option UserWordRow
  word : WordId → Option WordRow

def view (db : OnboardingDb) : Onboarding where
  preferences u := preferencesOf u db
  item u position := diagnosticAt u position db
  userWord u w := db.lookup (userWordKey u w)
  word w := wordAt w db

namespace Onboarding
variable (m : Onboarding)

def state (u : UserId) : OnboardingState :=
  (m.preferences u).elim .notStarted PreferenceRow.onboardingState

def putPreferences (u : UserId) (r : PreferenceRow) : Onboarding :=
  { m with preferences := update m.preferences u (some r) }

def putItem (u : UserId) (position : Nat) (r : DiagnosticRow) : Onboarding :=
  { m with item := update m.item u (update (m.item u) position (some r)) }

def putUserWord (u : UserId) (w : WordId) (r : UserWordRow) : Onboarding :=
  { m with userWord := update m.userWord u (update (m.userWord u) w (some r)) }

/-- The items of a user are these words, in this order, and none is marked. -/
def putItems (u : UserId) (words : List WordId) : Onboarding :=
  { m with item := update m.item u fun position => (words[position]?).map fun w => { wordId := w } }

/-- The word is gone, and with it every item that asks about it. -/
def withoutWord (w : WordId) : Onboarding :=
  { m with
    item := fun u position => (m.item u position).filter fun r => r.wordId ≠ w
    word := update m.word w none }

/-- What is left of the learned words when a word goes. -/
def Left (w : WordId) (rows : UserId → WordId → Option UserWordRow) : Prop :=
  ∀ u w', rows u w' = m.userWord u w' ∨ w' = w ∧ rows u w' = none

/-- The marked words of a user that are still new are where their marks put them. -/
def initialized (u : UserId) (marks : List (WordId × DiagnosticSelfMark)) (now : Instant) :
    Onboarding :=
  { m with userWord := update m.userWord u fun w => (m.userWord u w).map (initialRow marks now w) }

/-- All items of the user are marked, and these are their words with the marks. -/
structure Marked (u : UserId) (marks : List (WordId × DiagnosticSelfMark)) : Prop where
  all : ∀ position r, m.item u position = some r →
    ∃ marking, r.marking = some marking ∧ (r.wordId, marking.selfMark) ∈ marks
  back : ∀ w mark, (w, mark) ∈ marks → ∃ position r marking,
    m.item u position = some r ∧ r.wordId = w ∧ r.marking = some marking ∧ marking.selfMark = mark
  nonempty : marks ≠ []
  nodup : (marks.map Prod.fst).Nodup

end Onboarding

/-- What the learning loop does beside the onboarding: no word that it has anything to
do with is new afterwards. -/
structure Learned (m m' : Onboarding) : Prop where
  preferences : m'.preferences = m.preferences
  item : m'.item = m.item
  word : m'.word = m.word
  userWord : ∀ u w, m'.userWord u w = m.userWord u w ∨
    ∃ r, m'.userWord u w = some r ∧ r.status ≠ .new

/-- One commit. -/
inductive Step : Note → Onboarding → Onboarding → Prop
  | started {m u words now r} : m.state u ≠ .inProgress → m.state u ≠ .completed →
      r = (m.preferences u).getD {} → words ≠ [] → words.length ≤ 12 → words.Nodup →
      (∀ w ∈ words, (m.word w).isSome = true ∧ (m.userWord u w).isSome = true) →
      Step (.started u words) m ((m.putPreferences u (r.begin now)).putItems u words)
  | startKept {m u} : m.state u = .inProgress ∨ m.state u = .completed → Step (.startKept u) m m
  | marked {m u position r selfMark now} : m.state u = .inProgress →
      m.item u position = some r → r.marking = none →
      (∀ position' r', position' < position → m.item u position' = some r' → isMarked r' = true) →
      Step (.marked u r.wordId selfMark) m (m.putItem u position (r.mark selfMark now))
  | completed {m u r marks now} : m.state u = .inProgress → m.preferences u = some r →
      m.Marked u marks →
      Step (.completed u) m ((m.initialized u marks now).putPreferences u (r.complete now))
  | completeKept {m u} : m.state u = .completed → Step (.completeKept u) m m
  | skipped {m u r now} : m.state u ≠ .completed → r = (m.preferences u).getD {} →
      Step (.skipped u) m (m.putPreferences u (r.skip now))
  | skipKept {m u} : m.state u = .completed → Step (.skipKept u) m m
  | goalSet {m u goal r} : r = (m.preferences u).getD {} →
      Step (.goalSet u goal) m (m.putPreferences u { r with dailyGoal := goal })
  | wordDeleted {m u w rows} : m.Left w rows →
      Step (.wordDeleted u w) m { m.withoutWord w with userWord := rows }

/-- What is so of the diagnostic of every user: its items are marked in their order. -/
structure Sound (m : Onboarding) : Prop where
  ordered : ∀ u p p' r r', m.item u p = some r → m.item u p' = some r' → p < p' →
    isMarked r' = true → isMarked r = true
  distinct : ∀ u p p' r r', m.item u p = some r → m.item u p' = some r' →
    r.wordId = r'.wordId → p = p'
  bounded : ∀ u p r, m.item u p = some r → p < 12
  words : ∀ u p r, m.item u p = some r → (m.word r.wordId).isSome = true
  learned : ∀ u p r, m.item u p = some r → (m.userWord u r.wordId).isSome = true
  finished : ∀ u p r, m.state u = .completed → m.item u p = some r → isMarked r = true

theorem sound_of_none {m : Onboarding} (h : ∀ u p, m.item u p = none) : Sound m where
  ordered u p p' r r' hr := by cases (h u p).symm.trans hr
  distinct u p p' r r' hr := by cases (h u p).symm.trans hr
  bounded u p r hr := by cases (h u p).symm.trans hr
  words u p r hr := by cases (h u p).symm.trans hr
  learned u p r hr := by cases (h u p).symm.trans hr
  finished u p r _ hr := by cases (h u p).symm.trans hr

section Puts
variable {m : Onboarding} {u u' : UserId} {p p' : Nat} {r r' : DiagnosticRow} {w : WordId}

theorem putPreferences_state (row : PreferenceRow) :
    (m.putPreferences u row).state u' = if u' = u then row.onboardingState else m.state u' := by
  by_cases h : u' = u
  · subst h
    simp [Onboarding.state, Onboarding.putPreferences]
  · simp [Onboarding.state, Onboarding.putPreferences, h]

theorem putItem_item : (m.putItem u p r).item u' p' = some r' ↔
    (u' = u ∧ p' = p ∧ r' = r) ∨ (¬ (u' = u ∧ p' = p) ∧ m.item u' p' = some r') := by
  by_cases hu : u' = u
  · subst hu
    by_cases hp : p' = p
    · subst hp
      simp [Onboarding.putItem, eq_comm]
    · simp [Onboarding.putItem, hp]
  · simp [Onboarding.putItem, hu]

theorem putItems_item {words : List WordId} : (m.putItems u words).item u' p = some r ↔
    (u' = u ∧ ∃ w, words[p]? = some w ∧ r = { wordId := w }) ∨ (u' ≠ u ∧ m.item u' p = some r) := by
  by_cases hu : u' = u
  · subst hu
    simp [Onboarding.putItems, eq_comm]
  · simp [Onboarding.putItems, hu]

theorem withoutWord_item : (m.withoutWord w).item u p = some r ↔ m.item u p = some r ∧ r.wordId ≠ w := by
  simp [Onboarding.withoutWord, Option.filter_eq_some_iff]

theorem initialized_isSome {marks : List (WordId × DiagnosticSelfMark)} {now : Instant} :
    ((m.initialized u marks now).userWord u' w).isSome = (m.userWord u' w).isSome := by
  by_cases hu : u' = u
  · subst hu
    simp [Onboarding.initialized]
  · simp [Onboarding.initialized, hu]

end Puts

variable {m m' : Onboarding} {n : Note}

theorem started_sound {u : UserId} {words : List WordId} {row : PreferenceRow} {now : Instant}
    (h : Sound m) (hlength : words.length ≤ 12) (hnodup : words.Nodup)
    (hwords : ∀ w ∈ words, (m.word w).isSome = true ∧ (m.userWord u w).isSome = true) :
    Sound ((m.putPreferences u (row.begin now)).putItems u words) := by
  have mine : ∀ {p r}, ((m.putPreferences u (row.begin now)).putItems u words).item u p = some r →
      ∃ w, words[p]? = some w ∧ r = { wordId := w } := by
    intro p r hr
    rcases putItems_item.1 hr with ⟨-, hw⟩ | ⟨hne, -⟩
    · exact hw
    · exact absurd rfl hne
  have theirs : ∀ {u' p r}, u' ≠ u →
      ((m.putPreferences u (row.begin now)).putItems u words).item u' p = some r →
      m.item u' p = some r := by
    intro u' p r hne hr
    rcases putItems_item.1 hr with ⟨rfl, -⟩ | ⟨-, hr⟩
    · exact absurd rfl hne
    · exact hr
  refine ⟨?_, ?_, ?_, ?_, ?_, ?_⟩
  · intro u' p p' r r' hr hr' hlt hmarked
    by_cases hu : u' = u
    · subst hu
      obtain ⟨w, -, rfl⟩ := mine hr'
      cases hmarked
    · exact h.ordered u' p p' r r' (theirs hu hr) (theirs hu hr') hlt hmarked
  · intro u' p p' r r' hr hr' heq
    by_cases hu : u' = u
    · subst hu
      obtain ⟨w, hw, rfl⟩ := mine hr
      obtain ⟨w', hw', rfl⟩ := mine hr'
      have heq : w = w' := heq
      subst heq
      obtain ⟨hp, hwp⟩ := List.getElem?_eq_some_iff.1 hw
      obtain ⟨hp', hwp'⟩ := List.getElem?_eq_some_iff.1 hw'
      exact (hnodup.getElem_inj_iff).1 (hwp.trans hwp'.symm)
    · exact h.distinct u' p p' r r' (theirs hu hr) (theirs hu hr') heq
  · intro u' p r hr
    by_cases hu : u' = u
    · subst hu
      obtain ⟨w, hw, -⟩ := mine hr
      have hlt := (List.getElem?_eq_some_iff.1 hw).1
      omega
    · exact h.bounded u' p r (theirs hu hr)
  · intro u' p r hr
    by_cases hu : u' = u
    · subst hu
      obtain ⟨w, hw, rfl⟩ := mine hr
      exact (hwords w (List.mem_of_getElem? hw)).1
    · exact h.words u' p r (theirs hu hr)
  · intro u' p r hr
    by_cases hu : u' = u
    · subst hu
      obtain ⟨w, hw, rfl⟩ := mine hr
      exact (hwords w (List.mem_of_getElem? hw)).2
    · exact h.learned u' p r (theirs hu hr)
  · intro u' p r hstate hr
    by_cases hu : u' = u
    · subst hu
      change (m.putPreferences u' (row.begin now)).state u' = _ at hstate
      rw [putPreferences_state, if_pos rfl] at hstate
      cases hstate
    · change (m.putPreferences u (row.begin now)).state u' = _ at hstate
      rw [putPreferences_state, if_neg hu] at hstate
      exact h.finished u' p r hstate (theirs hu hr)

theorem marked_sound {u : UserId} {position : Nat} {r : DiagnosticRow}
    {selfMark : DiagnosticSelfMark} {now : Instant} (h : Sound m) (hr : m.item u position = some r)
    (hbefore : ∀ position' r', position' < position → m.item u position' = some r' →
      isMarked r' = true) : Sound (m.putItem u position (r.mark selfMark now)) := by
  -- whatever was there is there as it was, except for the mark
  have back : ∀ {u' p r'}, (m.putItem u position (r.mark selfMark now)).item u' p = some r' →
      ∃ r₀, m.item u' p = some r₀ ∧ r₀.wordId = r'.wordId ∧ (isMarked r₀ = true → isMarked r' = true) := by
    intro u' p r' hr'
    rcases putItem_item.1 hr' with ⟨rfl, rfl, rfl⟩ | ⟨-, hr'⟩
    · exact ⟨r, hr, rfl, fun _ => rfl⟩
    · exact ⟨r', hr', rfl, id⟩
  refine ⟨?_, ?_, ?_, ?_, ?_, ?_⟩
  · intro u' p p' r₁ r₂ h₁ h₂ hlt hmarked
    obtain ⟨r₀, hr₀, -, hkept⟩ := back h₁
    rcases putItem_item.1 h₂ with ⟨rfl, rfl, -⟩ | ⟨-, h₂⟩
    · exact hkept (hbefore p r₀ hlt hr₀)
    · exact hkept (h.ordered u' p p' r₀ r₂ hr₀ h₂ hlt hmarked)
  · intro u' p p' r₁ r₂ h₁ h₂ heq
    obtain ⟨s₁, hs₁, hw₁, -⟩ := back h₁
    obtain ⟨s₂, hs₂, hw₂, -⟩ := back h₂
    exact h.distinct u' p p' s₁ s₂ hs₁ hs₂ (hw₁.trans (heq.trans hw₂.symm))
  · intro u' p r' hr'
    obtain ⟨r₀, hr₀, -, -⟩ := back hr'
    exact h.bounded u' p r₀ hr₀
  · intro u' p r' hr'
    obtain ⟨r₀, hr₀, hw, -⟩ := back hr'
    rw [← hw]
    exact h.words u' p r₀ hr₀
  · intro u' p r' hr'
    obtain ⟨r₀, hr₀, hw, -⟩ := back hr'
    rw [← hw]
    exact h.learned u' p r₀ hr₀
  · intro u' p r' hstate hr'
    obtain ⟨r₀, hr₀, -, hkept⟩ := back hr'
    exact hkept (h.finished u' p r₀ hstate hr₀)

/-- A change of the preferences that completes nothing. -/
theorem putPreferences_sound {u : UserId} {row : PreferenceRow} (h : Sound m)
    (hfinished : row.onboardingState = .completed → m.state u = .completed ∨
      ∀ p r, m.item u p = some r → isMarked r = true) : Sound (m.putPreferences u row) := by
  refine ⟨h.ordered, h.distinct, h.bounded, h.words, h.learned, ?_⟩
  intro u' p r hstate hr
  rw [putPreferences_state] at hstate
  split at hstate
  · rename_i heq
    subst heq
    rcases hfinished hstate with hdone | hall
    · exact h.finished u' p r hdone hr
    · exact hall p r hr
  · exact h.finished u' p r hstate hr

theorem initialized_sound {u : UserId} {marks : List (WordId × DiagnosticSelfMark)} {now : Instant}
    (h : Sound m) : Sound (m.initialized u marks now) := by
  refine ⟨h.ordered, h.distinct, h.bounded, h.words, ?_, h.finished⟩
  intro u' p r hr
  rw [initialized_isSome]
  exact h.learned u' p r hr

theorem withoutWord_sound {w : WordId} {rows : UserId → WordId → Option UserWordRow} (h : Sound m)
    (hleft : m.Left w rows) : Sound { m.withoutWord w with userWord := rows } := by
  have back : ∀ {u p r}, (m.withoutWord w).item u p = some r → m.item u p = some r ∧ r.wordId ≠ w :=
    fun hr => withoutWord_item.1 hr
  refine ⟨?_, ?_, ?_, ?_, ?_, ?_⟩
  · exact fun u p p' r r' hr hr' => h.ordered u p p' r r' (back hr).1 (back hr').1
  · exact fun u p p' r r' hr hr' => h.distinct u p p' r r' (back hr).1 (back hr').1
  · exact fun u p r hr => h.bounded u p r (back hr).1
  · intro u p r hr
    obtain ⟨hr, hne⟩ := back hr
    change (update m.word w none r.wordId).isSome = true
    rw [update_of_ne hne]
    exact h.words u p r hr
  · intro u p r hr
    obtain ⟨hr, hne⟩ := back hr
    rcases hleft u r.wordId with hsame | ⟨heq, -⟩
    · change (rows u r.wordId).isSome = true
      rw [hsame]
      exact h.learned u p r hr
    · exact absurd heq hne
  · exact fun u p r hstate hr => h.finished u p r hstate (back hr).1

theorem getD_state (u : UserId) : ((m.preferences u).getD {}).onboardingState = m.state u := by
  unfold Onboarding.state
  cases m.preferences u <;> rfl

theorem Step.sound (h : Step n m m') (hm : Sound m) : Sound m' := by
  cases h with
  | started _ _ _ _ hlength hnodup hwords => exact started_sound hm hlength hnodup hwords
  | startKept | completeKept | skipKept => exact hm
  | marked _ hr _ hbefore => exact marked_sound hm hr hbefore
  | completed _ _ hmarked =>
    refine putPreferences_sound (initialized_sound hm) fun _ => .inr ?_
    intro p r hr
    obtain ⟨marking, hmarking, -⟩ := hmarked.all p r hr
    rw [isMarked, hmarking]
    rfl
  | skipped => exact putPreferences_sound hm (by rintro ⟨⟩)
  | goalSet hr =>
    subst hr
    exact putPreferences_sound hm fun hstate => .inl (by rw [← getD_state]; exact hstate)
  | wordDeleted hleft => exact withoutWord_sound hm hleft

theorem Learned.state (h : Learned m m') (u : UserId) : m'.state u = m.state u := by
  rw [Onboarding.state, h.preferences]
  rfl

theorem Learned.sound (h : Learned m m') (hm : Sound m) : Sound m' := by
  refine ⟨?_, ?_, ?_, ?_, ?_, ?_⟩
  · rw [h.item]
    exact hm.ordered
  · rw [h.item]
    exact hm.distinct
  · rw [h.item]
    exact hm.bounded
  · rw [h.item, h.word]
    exact hm.words
  · intro u p r hr
    rw [h.item] at hr
    rcases h.userWord u r.wordId with hsame | ⟨row, hrow, -⟩
    · rw [hsame]
      exact hm.learned u p r hr
    · rw [hrow]
      rfl
  · intro u p r hstate hr
    rw [h.item] at hr
    rw [h.state] at hstate
    exact hm.finished u p r hstate hr

/-- The user whose onboarding a request has to itself when it commits this. -/
def exclusive : Note → Option UserId
  | .started u _ | .startKept u | .marked u _ _ | .completed u | .completeKept u | .skipped u
  | .skipKept u => some u
  | .goalSet _ _ | .wordDeleted _ _ | .learned _ => none

/-- Nobody else moves the onboarding of a user, and what others take away are items. -/
structure Untouched (u : UserId) (m m' : Onboarding) : Prop where
  state : m'.state u = m.state u
  items : ∀ p r, m'.item u p = some r → m.item u p = some r

theorem Untouched.of_eq {u : UserId} (hp : m'.preferences u = m.preferences u)
    (hi : m'.item u = m.item u) : Untouched u m m' := by
  refine ⟨?_, ?_⟩
  · rw [Onboarding.state, hp]
    rfl
  · intro p r hr
    rwa [hi] at hr

theorem Step.untouched {u : UserId} (h : Step n m m') (hu : exclusive n ≠ some u) :
    Untouched u m m' := by
  cases h with
  | startKept | completeKept | skipKept => exact .of_eq rfl rfl
  | @started _ u' words now r =>
    have hne : u ≠ u' := fun heq => hu (heq ▸ rfl)
    exact .of_eq (update_of_ne hne _ _) (update_of_ne hne _ _)
  | @marked _ u' =>
    have hne : u ≠ u' := fun heq => hu (heq ▸ rfl)
    exact .of_eq rfl (update_of_ne hne _ _)
  | @completed _ u' | @skipped _ u' =>
    have hne : u ≠ u' := fun heq => hu (heq ▸ rfl)
    exact .of_eq (update_of_ne hne _ _) rfl
  | goalSet hr =>
    subst hr
    refine ⟨?_, fun _ _ hr => hr⟩
    rw [putPreferences_state]
    split
    · rename_i heq
      subst heq
      exact getD_state u
    · rfl
  | wordDeleted => exact ⟨rfl, fun p r hr => (withoutWord_item.1 hr).1⟩

theorem Learned.untouched (h : Learned m m') (u : UserId) : Untouched u m m' :=
  .of_eq (congrFun h.preferences u) (congrFun h.item u)

/-- The word and the rows of those who learned it are still there. -/
structure WordStays (w : WordId) (m m' : Onboarding) : Prop where
  word : (m.word w).isSome = true → (m'.word w).isSome = true
  userWord : ∀ u, (m.userWord u w).isSome = true → (m'.userWord u w).isSome = true

theorem Step.wordStays {w : WordId} (h : Step n m m') (hw : ∀ u, n ≠ .wordDeleted u w) :
    WordStays w m m' := by
  cases h with
  | started | startKept | marked | completeKept | skipped | skipKept | goalSet =>
    exact ⟨id, fun _ => id⟩
  | @completed _ u =>
    refine ⟨id, fun u' hrow => ?_⟩
    change ((m.initialized u _ _).userWord u' w).isSome = true
    rw [initialized_isSome]
    exact hrow
  | @wordDeleted _ u w' rows hleft =>
    have hne : w ≠ w' := fun heq => hw u (heq ▸ rfl)
    refine ⟨?_, ?_⟩
    · intro hword
      change (update m.word w' none w).isSome = true
      rwa [update_of_ne hne]
    · intro u' hrow
      change (rows u' w).isSome = true
      rcases hleft u' w with hsame | ⟨heq, -⟩
      · rwa [hsame]
      · exact absurd heq hne

theorem Learned.wordStays (h : Learned m m') (w : WordId) : WordStays w m m' := by
  refine ⟨fun hword => by rwa [h.word], fun u hrow => ?_⟩
  rcases h.userWord u w with hsame | ⟨r, hr, -⟩
  · rwa [hsame]
  · rw [hr]
    rfl

/-- Nobody has come to be asked about the word. -/
def NoNewItem (w : WordId) (m m' : Onboarding) : Prop :=
  ∀ u p r, m'.item u p = some r → r.wordId = w → ∃ r₀, m.item u p = some r₀ ∧ r₀.wordId = w

theorem Step.noNewItem {w : WordId} (h : Step n m m')
    (hw : ∀ u words, n = .started u words → w ∉ words) : NoNewItem w m m' := by
  intro u p r hr hrw
  cases h with
  | startKept | completeKept | skipKept | completed | skipped | goalSet => exact ⟨r, hr, hrw⟩
  | @started _ u' words =>
    rcases putItems_item.1 hr with ⟨rfl, w', hw', rfl⟩ | ⟨-, hr⟩
    · cases hrw
      exact absurd (List.mem_of_getElem? hw') (hw _ words rfl)
    · exact ⟨r, hr, hrw⟩
  | marked _ hr₀ =>
    rcases putItem_item.1 hr with ⟨rfl, rfl, rfl⟩ | ⟨-, hr⟩
    · exact ⟨_, hr₀, hrw⟩
    · exact ⟨r, hr, hrw⟩
  | wordDeleted => exact ⟨r, (withoutWord_item.1 hr).1, hrw⟩

theorem Learned.noNewItem (h : Learned m m') (w : WordId) : NoNewItem w m m' := by
  intro u p r hr hrw
  rw [h.item] at hr
  exact ⟨r, hr, hrw⟩

/-- Whoever has learned the word, if it is there at all. -/
def Known (m : Onboarding) (u : UserId) (w : WordId) : Prop :=
  (m.word w).isSome = true → (m.userWord u w).isSome = true

theorem Step.known {u : UserId} {w : WordId} (h : Step n m m') (hk : Known m u w) :
    Known m' u w := by
  by_cases hw : ∃ u', n = .wordDeleted u' w
  · obtain ⟨u', rfl⟩ := hw
    cases h with
    | wordDeleted =>
      intro hword
      change (update m.word w none w).isSome = true at hword
      rw [update_self] at hword
      cases hword
  · have stays := h.wordStays (w := w) fun u' heq => hw ⟨u', heq⟩
    intro hword
    refine stays.userWord u (hk ?_)
    cases h with
    | started | startKept | marked | completed | completeKept | skipped | skipKept | goalSet =>
      exact hword
    | @wordDeleted _ u' w' =>
      have hne : w ≠ w' := fun heq => hw ⟨u', heq ▸ rfl⟩
      change (update m.word w' none w).isSome = true at hword
      rwa [update_of_ne hne] at hword

theorem Learned.known {u : UserId} {w : WordId} (h : Learned m m') (hk : Known m u w) :
    Known m' u w := by
  intro hword
  rw [h.word] at hword
  exact (h.wordStays w).userWord u (hk hword)

/-- No row of this kind is new. -/
def NotNew (m : Onboarding) (u : UserId) (w : WordId) : Prop :=
  ∀ r, m.userWord u w = some r → r.status ≠ .new

/-- A row that is not new stays as it is when a diagnostic is completed. -/
theorem initialRow_kept {marks : List (WordId × DiagnosticSelfMark)} {now : Instant} {w : WordId}
    {r : UserWordRow} (h : r.status ≠ .new) : initialRow marks now w r = r := by
  rw [initialRow, if_neg h]

theorem Step.notNew {u : UserId} {w : WordId} (h : Step n m m') (hn : NotNew m u w) :
    NotNew m' u w := by
  cases h with
  | started | startKept | marked | completeKept | skipped | skipKept | goalSet => exact hn
  | @completed _ u' _ marks now =>
    intro r hr
    by_cases hu : u = u'
    · subst hu
      change (update m.userWord u _ u w) = some r at hr
      rw [update_self, Option.map_eq_some_iff] at hr
      obtain ⟨r₀, hr₀, rfl⟩ := hr
      rw [initialRow_kept (hn r₀ hr₀)]
      exact hn r₀ hr₀
    · change (update m.userWord u' _ u w) = some r at hr
      rw [update_of_ne hu] at hr
      exact hn r hr
  | wordDeleted hleft =>
    intro r hr
    rcases hleft u w with hsame | ⟨-, hgone⟩
    · exact hn r (hsame.symm.trans hr)
    · cases hgone.symm.trans hr

theorem Learned.notNew {u : UserId} {w : WordId} (h : Learned m m') (hn : NotNew m u w) :
    NotNew m' u w := by
  intro r hr
  rcases h.userWord u w with hsame | ⟨r', hr', hstatus⟩
  · exact hn r (hsame.symm.trans hr)
  · cases hr'.symm.trans hr
    exact hstatus

/-- What one commit of any request does. -/
inductive Moves : List Note → Onboarding → Onboarding → Prop
  | learned {s s' : Onboarding} (told : List LearningSchema.Note) :
      Learned s s' → Moves (told.map .learned) s s'
  | stepped {note : Note} {s s' : Onboarding} : Step note s s' → Moves [note] s s'

namespace Moves
variable {notes : List Note} {u : UserId} {w : WordId}

theorem sound (h : Moves notes m m') (hm : Sound m) : Sound m' := by
  cases h with
  | learned told h => exact h.sound hm
  | stepped h => exact h.sound hm

theorem known (h : Moves notes m m') (hk : Known m u w) : Known m' u w := by
  cases h with
  | learned told h => exact h.known hk
  | stepped h => exact h.known hk

theorem notNew (h : Moves notes m m') (hn : NotNew m u w) : NotNew m' u w := by
  cases h with
  | learned told h => exact h.notNew hn
  | stepped h => exact h.notNew hn

/-- Words come from nowhere here. -/
theorem word_back (h : Moves notes m m') (hw : (m'.word w).isSome = true) :
    (m.word w).isSome = true := by
  cases h with
  | learned told h => rwa [h.word] at hw
  | stepped h =>
    cases h with
    | started | startKept | marked | completed | completeKept | skipped | skipKept | goalSet =>
      exact hw
    | @wordDeleted _ _ w' _ _ =>
      change (update m.word w' none w).isSome = true at hw
      by_cases heq : w = w'
      · rw [heq, update_self] at hw
        cases hw
      · rwa [update_of_ne heq] at hw

end Moves

/-- What a commit may make of the state of a user. -/
inductive Follows : OnboardingState → OnboardingState → Prop
  | same {s : OnboardingState} : Follows s s
  | started {s : OnboardingState} : s = .notStarted ∨ s = .skipped → Follows s .inProgress
  | completed : Follows .inProgress .completed
  | skipped {s : OnboardingState} : s ≠ .completed → Follows s .skipped

theorem Step.state_follows (h : Step n m m') (u : UserId) : Follows (m.state u) (m'.state u) := by
  by_cases hu : exclusive n = some u
  · cases h with
    | startKept | completeKept | skipKept => exact .same
    | marked => exact .same
    | started hnot hnever =>
      cases hu
      change Follows (m.state u) ((m.putPreferences u _).state u)
      rw [putPreferences_state, if_pos rfl]
      refine .started ?_
      cases hs : m.state u with
      | notStarted => exact .inl rfl
      | skipped => exact .inr rfl
      | inProgress => exact absurd hs hnot
      | completed => exact absurd hs hnever
    | completed hstate =>
      cases hu
      change Follows (m.state u) ((m.putPreferences u _).state u)
      rw [putPreferences_state, if_pos rfl, hstate]
      exact .completed
    | skipped hstate =>
      cases hu
      rw [putPreferences_state, if_pos rfl]
      exact .skipped hstate
    | goalSet | wordDeleted => cases hu
  · rw [(h.untouched hu).state]
    exact .same

theorem Moves.state_follows {notes : List Note} (h : Moves notes m m') (u : UserId) :
    Follows (m.state u) (m'.state u) := by
  cases h with
  | learned told h =>
    rw [h.state]
    exact .same
  | stepped h => exact h.state_follows u

theorem Moves.completed_kept {notes : List Note} {u : UserId} (h : Moves notes m m')
    (hu : m.state u = .completed) : m'.state u = .completed := by
  have hfollows := h.state_follows u
  rw [hu] at hfollows
  generalize m'.state u = s at hfollows ⊢
  cases hfollows with
  | same => rfl
  | started hs => rcases hs with hs | hs <;> cases hs
  | skipped hs => exact absurd rfl hs

/-- What a commit is that completes a diagnostic. -/
theorem Moves.completed_inv {notes : List Note} {u : UserId} (h : Moves notes m m')
    (hu : .completed u ∈ notes) : ∃ r marks now, m.state u = .inProgress ∧
      m.preferences u = some r ∧ m.Marked u marks ∧
      m' = (m.initialized u marks now).putPreferences u (r.complete now) := by
  cases h with
  | learned told h =>
    obtain ⟨note, -, heq⟩ := List.mem_map.1 hu
    cases heq
  | stepped h =>
    obtain rfl := List.mem_singleton.1 hu
    cases h with
    | completed hstate hr hmarked => exact ⟨_, _, _, hstate, hr, hmarked, rfl⟩

/-- Only a deletion touches the items of a diagnostic that is completed. -/
theorem Moves.completed_items {notes : List Note} {u : UserId} {p : Nat} {s : DiagnosticRow}
    (h : Moves notes m m') (hu : m.state u = .completed) (hs : m'.item u p = some s) :
    m.item u p = some s := by
  cases h with
  | learned told h => rwa [h.item] at hs
  | @stepped n _ _ h =>
    by_cases hn : exclusive n = some u
    · cases h with
      | startKept | completed | completeKept | skipped | skipKept => exact hs
      | started _ hnever =>
        cases hn
        exact absurd hu hnever
      | marked hstate =>
        cases hn
        cases hstate.symm.trans hu
      | goalSet | wordDeleted => cases hn
    · exact (h.untouched hn).items p s hs

section Replacing
variable {u : UserId} {r r' : PreferenceRow}

theorem putPreferences_self (h : m.preferences u = some r) : m.putPreferences u r = m := by
  unfold Onboarding.putPreferences
  rw [← h, update_eq_self]

theorem putPreferences_twice :
    (m.putPreferences u r).putPreferences u r' = m.putPreferences u r' := by
  unfold Onboarding.putPreferences
  rw [update_idem]

/-- One item after the other, from a position on. -/
def lay (m : Onboarding) (u : UserId) : Nat → List WordId → Onboarding
  | _, [] => m
  | position, w :: rest => lay (m.putItem u position { wordId := w }) u (position + 1) rest

theorem putItems_putItem (words : List WordId) (w : WordId) :
    (m.putItems u words).putItem u words.length { wordId := w } = m.putItems u (words ++ [w]) := by
  unfold Onboarding.putItem Onboarding.putItems
  rw [Onboarding.mk.injEq]
  refine ⟨rfl, ?_, rfl, rfl⟩
  dsimp only
  rw [update_self, update_idem]
  congr 1
  funext position
  by_cases hp : position = words.length
  · subst hp
    simp
  · rw [update_of_ne hp]
    rcases Nat.lt_or_ge position words.length with hlt | hge
    · rw [List.getElem?_append_left hlt]
    · rw [List.getElem?_eq_none hge, List.getElem?_eq_none]
      rw [List.length_append, List.length_singleton]
      omega

theorem lay_putItems (words rest : List WordId) :
    lay (m.putItems u words) u words.length rest = m.putItems u (words ++ rest) := by
  induction rest generalizing words with
  | nil => rw [List.append_nil, lay]
  | cons w rest ih =>
    have hlength : words.length + 1 = (words ++ [w]).length := by simp
    rw [lay, putItems_putItem, hlength, ih, List.append_assoc, List.singleton_append]

end Replacing

section Initializing
variable {u : UserId} {w : WordId} {mark : DiagnosticSelfMark} {now : Instant}
variable {marks : List (WordId × DiagnosticSelfMark)} {r : UserWordRow}

/-- A word that none of the marks is for. -/
theorem initialRow_unmarked (hw : w ∉ marks.map Prod.fst) : initialRow marks now w r = r := by
  unfold initialRow
  split
  · have hnone : (marks.find? fun mark => mark.1 = w) = none := by
      rw [List.find?_eq_none]
      intro mark hmark heq
      exact hw (List.mem_map.2 ⟨mark, hmark, of_decide_eq_true heq⟩)
    rw [hnone]
    rfl
  · rfl

theorem initialized_nil : m.initialized u [] now = m := by
  unfold Onboarding.initialized
  have hrows : (fun w => (m.userWord u w).map (initialRow [] now w)) = m.userWord u := by
    funext w
    have hsame : initialRow [] now w = id := funext fun r => initialRow_unmarked List.not_mem_nil
    rw [hsame, Option.map_id_apply]
  rw [hrows, update_eq_self]

theorem initialRow_append_other {w' : WordId} (hw : w' ≠ w) :
    initialRow (marks ++ [(w, mark)]) now w' r = initialRow marks now w' r := by
  have hfind : ((marks ++ [(w, mark)]).find? fun mark => mark.1 = w') =
      marks.find? fun mark => mark.1 = w' := by
    rw [List.find?_append, List.find?_singleton, if_neg (by simpa using hw.symm), Option.or_none]
  unfold initialRow
  rw [hfind]

theorem initialRow_append_self (hw : w ∉ marks.map Prod.fst) (hr : r.status = .new) :
    initialRow (marks ++ [(w, mark)]) now w r =
      (diagnosticInitializationForMark mark).elim r fun policy => policy.apply now r := by
  have hnone : (marks.find? fun mark => mark.1 = w) = none := by
    rw [List.find?_eq_none]
    intro mark hmark heq
    exact hw (List.mem_map.2 ⟨mark, hmark, of_decide_eq_true heq⟩)
  unfold initialRow
  rw [if_pos hr, List.find?_append, hnone, List.find?_singleton, if_pos (by simp)]
  rfl

/-- A mark that says nothing, or is for a word that is not new, changes nothing. -/
theorem initialized_skip (hw : w ∉ marks.map Prod.fst)
    (hskip : diagnosticInitializationForMark mark = none ∨ NotNew m u w) :
    m.initialized u (marks ++ [(w, mark)]) now = m.initialized u marks now := by
  unfold Onboarding.initialized
  rw [Onboarding.mk.injEq]
  refine ⟨rfl, rfl, congrArg _ (funext fun w' => ?_), rfl⟩
  cases hr : m.userWord u w' with
  | none => rfl
  | some r =>
    rw [Option.map_some, Option.map_some]
    congr 1
    by_cases heq : w' = w
    · subst heq
      by_cases hnew : r.status = .new
      · rcases hskip with hnone | hold
        · rw [initialRow_append_self hw hnew, hnone, initialRow_unmarked hw]
          rfl
        · exact absurd hnew (hold r hr)
      · rw [initialRow_kept hnew, initialRow_kept hnew]
    · exact initialRow_append_other heq

theorem initialized_put {policy : DiagnosticInitialization} (hw : w ∉ marks.map Prod.fst)
    (hr : m.userWord u w = some r) (hnew : r.status = .new)
    (hpolicy : diagnosticInitializationForMark mark = some policy) :
    (m.initialized u marks now).putUserWord u w (policy.apply now r) =
      m.initialized u (marks ++ [(w, mark)]) now := by
  unfold Onboarding.putUserWord Onboarding.initialized
  rw [Onboarding.mk.injEq]
  refine ⟨rfl, rfl, ?_, rfl⟩
  dsimp only
  rw [update_self, update_idem]
  congr 1
  funext w'
  by_cases heq : w' = w
  · subst heq
    rw [update_self, hr, Option.map_some, initialRow_append_self hw hnew, hpolicy]
    rfl
  · rw [update_of_ne heq]
    congr 1
    funext r'
    exact (initialRow_append_other heq).symm

end Initializing

end OnboardingMachine
