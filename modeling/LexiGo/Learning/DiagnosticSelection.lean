import LexiGo.DistinctKeys
import LexiGo.Scenarios.ScenarioRepository

/-! The words that the diagnostic of the onboarding asks about: a few of each class first,
then what is left in the order of the candidates. -/
namespace DiagnosticSelection
open DistinctKeys GoText
open scoped List
open ScenarioRepository (toLower contains)

structure DiagnosticCandidate where
  wordId : Int
  kind : String
  lemmaText : String
  phonetic : String
  partOfSpeech : String
  topic : String
  deriving DecidableEq

variable (unicode : Unicode)

def isTechnicalDiagnosticTopic (topic : String) : Bool :=
  let normalized := toLower unicode (trimSpace topic)
  normalized = "data engineering" || normalized = "backend development" ||
    contains normalized "technical"

/-- One pass over the candidates, which adds at most `max` of them to the `selected` ones
and their word ids to those `seen`. -/
def take (limit : Nat) (fits : DiagnosticCandidate → Bool) :
    Nat → List DiagnosticCandidate → List DiagnosticCandidate × List Int →
      List DiagnosticCandidate × List Int
  | _, [], s => s
  | max, candidate :: rest, (selected, seen) =>
    if limit ≤ selected.length || max = 0 then (selected, seen)
    else if candidate.wordId ∈ seen || !fits candidate then take limit fits max rest (selected, seen)
    else
      take limit fits (max - 1) rest (selected ++ [candidate], candidate.wordId :: seen)

def isPhrase (candidate : DiagnosticCandidate) : Bool := candidate.kind = "phrase"

def isTechnical (candidate : DiagnosticCandidate) : Bool :=
  isTechnicalDiagnosticTopic unicode candidate.topic

def hasPartOfSpeech (name : String) (candidate : DiagnosticCandidate) : Bool :=
  unicode.equalFold candidate.partOfSpeech name

def selectDiagnosticCandidates (candidates : List DiagnosticCandidate) (limit : Int) :
    List DiagnosticCandidate :=
  if limit ≤ 0 ∨ candidates.length = 0 then []
  else
    let limit := if limit > candidates.length then candidates.length else limit.toNat
    let s := take limit isPhrase 2 candidates ([], [])
    let s := take limit (isTechnical unicode) 2 candidates s
    let s := take limit (hasPartOfSpeech unicode "noun") 2 candidates s
    let s := take limit (hasPartOfSpeech unicode "verb") 2 candidates s
    let s := take limit (hasPartOfSpeech unicode "adjective") 2 candidates s
    let s := take limit (fun _ => true) (limit - s.1.length) candidates s
    s.1

/-- The classes that have a quota, in their order. -/
def classes : List (DiagnosticCandidate → Bool) :=
  [isPhrase, isTechnical unicode, hasPartOfSpeech unicode "noun", hasPartOfSpeech unicode "verb",
    hasPartOfSpeech unicode "adjective"]

/-- The members of a class whose words are not among the `chosen` candidates' words, one
for each word. -/
def nextMembers (candidates chosen : List DiagnosticCandidate)
    (fits : DiagnosticCandidate → Bool) : List DiagnosticCandidate :=
  unseen (·.wordId) (chosen.map (·.wordId)) (candidates.filter fits)

/-- Each class in its turn adds its first two members, as far as there are places left,
and then the candidates that remain fill up the places. -/
def Fills (candidates : List DiagnosticCandidate) (places : Nat) :
    List (DiagnosticCandidate → Bool) → List DiagnosticCandidate → List DiagnosticCandidate → Prop
  | [], chosen, result =>
    result = chosen ++ (nextMembers candidates chosen fun _ => true).take (places - chosen.length)
  | fits :: rest, chosen, result =>
    Fills candidates places rest
      (chosen ++ (nextMembers candidates chosen fits).take (min 2 (places - chosen.length))) result

variable {unicode}

/-- What a pass adds. -/
theorem take_members (limit : Nat) (fits : DiagnosticCandidate → Bool)
    (l : List DiagnosticCandidate) : ∀ (max : Nat) (selected : List DiagnosticCandidate)
    (seen : List Int), (∀ i, i ∈ seen ↔ i ∈ selected.map (·.wordId)) →
    (take limit fits max l (selected, seen)).1 = selected ++
      (unseen (·.wordId) (selected.map (·.wordId)) (l.filter fits)).take
        (min max (limit - selected.length)) ∧
    ∀ i, i ∈ (take limit fits max l (selected, seen)).2 ↔
      i ∈ (take limit fits max l (selected, seen)).1.map (·.wordId) := by
  induction l with
  | nil =>
    intro max selected seen hseen
    exact ⟨by simp [take, unseen], hseen⟩
  | cons candidate l ih =>
    intro max selected seen hseen
    rw [take]
    by_cases hfull : (decide (limit ≤ selected.length) || decide (max = 0)) = true
    · rw [if_pos hfull]
      have hnone : min max (limit - selected.length) = 0 := by
        simp only [Bool.or_eq_true, decide_eq_true_eq] at hfull
        omega
      exact ⟨by rw [hnone, List.take_zero, List.append_nil], hseen⟩
    rw [if_neg hfull]
    simp only [Bool.or_eq_true, decide_eq_true_eq, not_or] at hfull
    by_cases hskip : (decide (candidate.wordId ∈ seen) || !fits candidate) = true
    · rw [if_pos hskip]
      have hsame : unseen (·.wordId) (selected.map (·.wordId)) ((candidate :: l).filter fits) =
          unseen (·.wordId) (selected.map (·.wordId)) (l.filter fits) := by
        by_cases hfits : fits candidate = true
        · have hmem : candidate.wordId ∈ selected.map (·.wordId) := by
            rw [← hseen]
            simpa [hfits] using hskip
          rw [List.filter_cons_of_pos hfits, unseen, if_pos hmem]
        · rw [List.filter_cons_of_neg hfits]
      rw [hsame]
      exact ih max selected seen hseen
    · rw [if_neg hskip]
      simp only [Bool.or_eq_true, decide_eq_true_eq, not_or, Bool.not_eq_true', Bool.not_eq_false]
        at hskip
      have hseen' : ∀ i, i ∈ candidate.wordId :: seen ↔
          i ∈ (selected ++ [candidate]).map (·.wordId) := by
        intro i
        rw [List.map_append, List.mem_append, List.mem_cons, hseen i]
        simp [or_comm]
      obtain ⟨hadds, hids⟩ := ih (max - 1) (selected ++ [candidate]) _ hseen'
      refine ⟨?_, hids⟩
      have hnot : candidate.wordId ∉ selected.map (·.wordId) := mt (hseen _).2 hskip.1
      have hnext : unseen (·.wordId) ((selected ++ [candidate]).map (·.wordId)) (l.filter fits) =
          unseen (·.wordId) (candidate.wordId :: selected.map (·.wordId)) (l.filter fits) :=
        unseen_congr _ fun i => by simp [or_comm]
      have hroom : min max (limit - selected.length) =
          min (max - 1) (limit - (selected ++ [candidate]).length) + 1 := by
        rw [List.length_append, List.length_singleton]
        omega
      rw [hadds, hnext, List.filter_cons_of_pos hskip.2, unseen, if_neg hnot, hroom,
        List.take_succ_cons, List.append_assoc, List.singleton_append]

/-- What has been selected so far: candidates, and no word twice. -/
structure Chosen (candidates chosen : List DiagnosticCandidate) : Prop where
  offered : ∀ c ∈ chosen, c ∈ candidates
  distinct : (chosen.map (·.wordId)).Nodup

theorem nextMembers_offered {candidates chosen : List DiagnosticCandidate}
    {fits : DiagnosticCandidate → Bool} {c : DiagnosticCandidate}
    (h : c ∈ nextMembers candidates chosen fits) : c ∈ candidates ∧ fits c = true :=
  List.mem_filter.1 ((unseen_sublist _ _).subset h)

theorem Chosen.add {candidates chosen : List DiagnosticCandidate}
    (h : Chosen candidates chosen) (fits : DiagnosticCandidate → Bool) (n : Nat) :
    Chosen candidates (chosen ++ (nextMembers candidates chosen fits).take n) := by
  refine ⟨?_, ?_⟩
  · intro c hc
    rcases List.mem_append.1 hc with hc | hc
    · exact h.offered c hc
    · exact (nextMembers_offered (List.mem_of_mem_take hc)).1
  · rw [List.map_append, List.nodup_append]
    refine ⟨h.distinct, ?_, ?_⟩
    · exact ((List.take_sublist _ _).map _).nodup (unseen_nodup _ _)
    · rintro i hi j hj rfl
      obtain ⟨c, hc, rfl⟩ := List.mem_map.1 hj
      exact unseen_fresh _ c (List.mem_of_mem_take hc) hi

theorem Chosen.ids_subset {candidates chosen : List DiagnosticCandidate}
    (h : Chosen candidates chosen) :
    chosen.map (·.wordId) ⊆ candidates.map (·.wordId) := by
  intro i hi
  obtain ⟨c, hc, rfl⟩ := List.mem_map.1 hi
  exact List.mem_map_of_mem (h.offered c hc)

/-- There are not more words left than candidates not chosen. -/
theorem Chosen.room {candidates chosen : List DiagnosticCandidate}
    (h : Chosen candidates chosen) (fits : DiagnosticCandidate → Bool) :
    (nextMembers candidates chosen fits).length + chosen.length ≤ candidates.length := by
  have hall := h.add fits (nextMembers candidates chosen fits).length
  rw [List.take_length] at hall
  have hle := (hall.distinct.subperm hall.ids_subset).length_le
  simp only [List.length_map, List.length_append] at hle
  omega

/-- The limit may be cut down to the number of candidates. -/
theorem Chosen.take_limit {candidates chosen : List DiagnosticCandidate}
    (h : Chosen candidates chosen) (fits : DiagnosticCandidate → Bool) (max limit : Nat) :
    (nextMembers candidates chosen fits).take
        (min max (min limit candidates.length - chosen.length)) =
      (nextMembers candidates chosen fits).take (min max (limit - chosen.length)) := by
  have hroom := h.room fits
  rw [List.take_eq_take_iff]
  omega

/-- All the passes one after the other. -/
theorem passes_fill {candidates : List DiagnosticCandidate} {limit : Nat}
    (ps : List (DiagnosticCandidate → Bool)) :
    ∀ (s : List DiagnosticCandidate × List Int), Chosen candidates s.1 →
      (∀ i, i ∈ s.2 ↔ i ∈ s.1.map (·.wordId)) →
      let s' := ps.foldl
        (fun s fits => take (min limit candidates.length) fits 2 candidates s) s
      Fills candidates limit ps s.1 (take (min limit candidates.length) (fun _ => true)
        (min limit candidates.length - s'.1.length) candidates s').1 := by
  induction ps with
  | nil =>
    rintro ⟨selected, seen⟩ hchosen hseen
    have hlast := (take_members (min limit candidates.length) (fun _ => true) candidates
      (min limit candidates.length - selected.length) selected seen hseen).1
    rw [Nat.min_self] at hlast
    refine hlast.trans (congrArg (selected ++ ·) ?_)
    have hroom : (nextMembers candidates selected fun _ => true).length + selected.length ≤
        candidates.length := hchosen.room _
    refine List.take_eq_take_iff.2 ?_
    change min _ (nextMembers candidates selected fun _ => true).length =
      min (limit - selected.length) (nextMembers candidates selected fun _ => true).length
    omega
  | cons fits ps ih =>
    rintro ⟨selected, seen⟩ hchosen hseen
    obtain ⟨hadds, hids⟩ := take_members (min limit candidates.length) fits candidates 2
      selected seen hseen
    have hnext := hadds.trans (congrArg (selected ++ ·) (hchosen.take_limit fits 2 limit))
    have hlater := ih (take (min limit candidates.length) fits 2 candidates (selected, seen))
      (hnext ▸ hchosen.add fits _) hids
    rw [hnext] at hlater
    exact hlater

theorem select_fills (candidates : List DiagnosticCandidate) (limit : Int) :
    Fills candidates limit.toNat (classes unicode) []
      (selectDiagnosticCandidates unicode candidates limit) := by
  unfold selectDiagnosticCandidates
  by_cases hnone : limit ≤ 0 ∨ candidates.length = 0
  · rw [if_pos hnone]
    have hempty : ∀ (n : Nat) (fits : DiagnosticCandidate → Bool),
        (nextMembers candidates [] fits).take (min n limit.toNat) = [] := by
      intro n fits
      rcases hnone with hlimit | hlength
      · rw [show min n limit.toNat = 0 by omega, List.take_zero]
      · rw [List.length_eq_zero_iff.1 hlength]
        exact List.take_nil
    have hrest := hempty limit.toNat fun _ => true
    rw [Nat.min_self] at hrest
    simp [classes, Fills, hempty, hrest]
  · rw [if_neg hnone]
    have hlimit : (if limit > candidates.length then candidates.length else limit.toNat) =
        min limit.toNat candidates.length := by
      split <;> omega
    rw [hlimit]
    exact passes_fill (classes unicode) ([], []) ⟨fun c hc => absurd hc List.not_mem_nil,
      List.nodup_nil⟩ fun i => Iff.rfl

theorem Fills.chosen {candidates result : List DiagnosticCandidate} {places : Nat}
    {ps : List (DiagnosticCandidate → Bool)} : ∀ {chosen : List DiagnosticCandidate},
    Chosen candidates chosen → Fills candidates places ps chosen result →
      Chosen candidates result ∧ chosen <+: result := by
  induction ps with
  | nil =>
    rintro chosen hchosen rfl
    exact ⟨hchosen.add _ _, List.prefix_append _ _⟩
  | cons fits ps ih =>
    intro chosen hchosen hfills
    obtain ⟨hresult, hbegins⟩ := ih (hchosen.add fits _) hfills
    exact ⟨hresult, (List.prefix_append _ _).trans hbegins⟩

/-- The places are filled as far as there are words. -/
theorem Fills.size {candidates result : List DiagnosticCandidate} {places : Nat}
    {ps : List (DiagnosticCandidate → Bool)} : ∀ {chosen : List DiagnosticCandidate},
    Chosen candidates chosen → chosen.length ≤ places → Fills candidates places ps chosen result →
      result.length = min places (candidates.map (·.wordId)).dedup.length := by
  induction ps with
  | nil =>
    rintro chosen hchosen hroom rfl
    have hall := hchosen.add (fun _ => true) (nextMembers candidates chosen fun _ => true).length
    rw [List.take_length] at hall
    have hwords : (candidates.map (·.wordId)).dedup.Perm
        ((chosen ++ nextMembers candidates chosen fun _ => true).map (·.wordId)) := by
      refine (List.perm_ext_iff_of_nodup (List.nodup_dedup _) hall.distinct).2 fun i => ?_
      rw [List.mem_dedup]
      refine ⟨fun hi => ?_, fun hi => hall.ids_subset hi⟩
      obtain ⟨c, hc, rfl⟩ := List.mem_map.1 hi
      rw [List.map_append, List.mem_append]
      exact unseen_covers _ _ (List.mem_filter.2 ⟨hc, rfl⟩)
    rw [hwords.length_eq, List.length_append, List.length_map, List.length_append, List.length_take]
    omega
  | cons fits ps ih =>
    intro chosen hchosen hroom hfills
    refine ih (hchosen.add fits _) ?_ hfills
    rw [List.length_append, List.length_take]
    omega

/-- A class with a quota is left without a candidate only where others have its words. -/
theorem Fills.represents {candidates result : List DiagnosticCandidate} {places : Nat}
    {ps : List (DiagnosticCandidate → Bool)} : ∀ {chosen : List DiagnosticCandidate},
    Chosen candidates chosen → chosen.length + 2 * ps.length ≤ places →
    Fills candidates places ps chosen result → ∀ p ∈ ps,
      (∃ c ∈ result, p c = true) ∨
        ∀ c ∈ candidates, p c = true → c.wordId ∈ result.map (·.wordId) := by
  induction ps with
  | nil => exact fun _ _ _ p hp => absurd hp List.not_mem_nil
  | cons fits ps ih =>
    intro chosen hchosen hroom hfills p hp
    rw [List.length_cons] at hroom
    rcases List.mem_cons.1 hp with rfl | hp
    · obtain ⟨-, hbegins⟩ := Fills.chosen (hchosen.add p _) hfills
      cases hnext : nextMembers candidates chosen p with
      | nil =>
        right
        intro c hc hpc
        have hmem : c.wordId ∈ chosen.map (·.wordId) ∨
            c.wordId ∈ (nextMembers candidates chosen p).map (·.wordId) :=
          unseen_covers _ _ (List.mem_filter.2 ⟨hc, hpc⟩)
        rw [hnext, List.map_nil] at hmem
        have hbefore := hmem.resolve_right List.not_mem_nil
        exact (((List.prefix_append _ _).trans hbegins).map _).subset hbefore
      | cons c rest =>
        left
        have hc : p c = true := (nextMembers_offered (hnext ▸ List.mem_cons_self)).2
        refine ⟨c, hbegins.subset (List.mem_append_right _ ?_), hc⟩
        obtain ⟨n, hn⟩ : ∃ n, min 2 (places - chosen.length) = n + 1 := ⟨1, by omega⟩
        rw [hnext, hn, List.take_succ_cons]
        exact List.mem_cons_self
    · refine ih (hchosen.add fits _) ?_ hfills p hp
      rw [List.length_append, List.length_take]
      omega

/-- The selection: every class in its turn gives its first two words, what remains fills the
places, no word is selected twice, and with ten places no class goes without a candidate
unless all its words are there by other candidates. -/
theorem select_meets_quotas (candidates : List DiagnosticCandidate) (limit : Int) :
    let selection := selectDiagnosticCandidates unicode candidates limit
    Fills candidates limit.toNat (classes unicode) [] selection ∧
    (selection.map (·.wordId)).Nodup ∧
    selection.length = min limit.toNat (candidates.map (·.wordId)).dedup.length ∧
    (10 ≤ limit → ∀ p ∈ classes unicode,
      (∃ c ∈ selection, p c = true) ∨
        ∀ c ∈ candidates, p c = true → c.wordId ∈ selection.map (·.wordId)) := by
  intro selection
  have hfills : Fills candidates limit.toNat (classes unicode) [] selection := select_fills _ _
  have hnone : Chosen candidates [] := ⟨fun c hc => absurd hc List.not_mem_nil, List.nodup_nil⟩
  refine ⟨hfills, (Fills.chosen hnone hfills).1.distinct, Fills.size hnone (Nat.zero_le _) hfills,
    fun hlimit => Fills.represents hnone ?_ hfills⟩
  change 0 + 2 * 5 ≤ limit.toNat
  omega

/-- Two entries of one word, in different classes. -/
def twoEntries : List DiagnosticCandidate :=
  [⟨1, "phrase", "look up", "", "phrase", "Daily life"⟩,
    ⟨1, "word", "look", "", "noun", "Daily life"⟩]

theorem noun_without_candidate :
    (∃ c ∈ twoEntries, hasPartOfSpeech ascii "noun" c = true) ∧
    ¬∃ c ∈ selectDiagnosticCandidates ascii twoEntries 10, hasPartOfSpeech ascii "noun" c = true := by
  have hselected : selectDiagnosticCandidates ascii twoEntries 10 =
      [⟨1, "phrase", "look up", "", "phrase", "Daily life"⟩] := by decide +kernel
  rw [hselected]
  decide +kernel

end DiagnosticSelection
