import LexiGo.Text.CodeUnits

/-! The lines of a calendar file. A text is escaped before it goes into a line, and a line is
folded into physical lines; a reader unfolds and unescapes. -/
namespace CalendarText
open CodeUnits

abbrev cr : UInt16 := 13
abbrev lf : UInt16 := 10
abbrev space : UInt16 := 32
abbrev tab : UInt16 := 9
abbrev backslash : UInt16 := 92
abbrev semicolon : UInt16 := 59
abbrev comma : UInt16 := 44

/-- Every occurrence of one unit replaced. -/
def replaceUnit (unit : UInt16) (replacement text : List UInt16) : List UInt16 :=
  text.flatMap fun u => if u = unit then replacement else [u]

/-- Every match of `/\r?\n/` replaced. -/
def replaceBreaks (replacement : List UInt16) : List UInt16 → List UInt16
  | [] => []
  | [u] => if u = lf then replacement else [u]
  | u :: v :: rest =>
    if u = cr ∧ v = lf then replacement ++ replaceBreaks replacement rest
    else if u = lf then replacement ++ replaceBreaks replacement (v :: rest)
    else u :: replaceBreaks replacement (v :: rest)

def escapeICalendarText (value : List UInt16) : List UInt16 :=
  replaceUnit comma [backslash, comma]
    (replaceUnit semicolon [backslash, semicolon]
      (replaceBreaks [backslash, 110] (replaceUnit backslash [backslash, backslash] value)))

/-- The physical lines that are done, the one that is being filled, and its octets. -/
structure Folding where
  folded : List (List UInt16)
  current : List UInt16
  currentBytes : Nat

def foldStep (s : Folding) (character : List UInt16) : Folding :=
  let characterBytes := width character
  let limit := if s.folded.length = 0 then 75 else 74
  if s.current ≠ [] ∧ limit < s.currentBytes + characterBytes then
    ⟨s.folded ++ [s.current], space :: character, 1 + characterBytes⟩
  else ⟨s.folded, s.current ++ character, s.currentBytes + characterBytes⟩

def foldICalendarLine (line : List UInt16) : List (List UInt16) :=
  let s := (characters line).foldl foldStep ⟨[], [], 0⟩
  s.folded ++ [s.current]

section Reading

/-- What a reader makes of physical lines: a line break with a space or a tab behind it goes. -/
def unfoldLines : List UInt16 → List UInt16
  | u :: v :: w :: rest =>
    if u = cr ∧ v = lf ∧ (w = space ∨ w = tab) then unfoldLines rest else u :: unfoldLines (v :: w :: rest)
  | short => short

/-- What a reader makes of an escaped text. -/
def unescape : List UInt16 → List UInt16
  | u :: v :: rest =>
    if u = backslash then (if v = 110 ∨ v = 78 then lf else v) :: unescape rest
    else u :: unescape (v :: rest)
  | short => short

def joinLines (lines : List (List UInt16)) : List UInt16 := [cr, lf].intercalate lines

end Reading

/-- The units that may end a line. -/
def isLineBreak (u : UInt16) : Bool := u = cr || u = lf

/-- A text whose line breaks are all written as a line feed. -/
def normalizeBreaks (text : List UInt16) : List UInt16 := replaceBreaks [lf] text

section Folds

/-- The physical lines that hold the given parts of a line. -/
def physicalLines : List (List (List UInt16)) → List (List UInt16)
  | [] => []
  | part :: rest => part.flatten :: rest.map fun part => space :: part.flatten

theorem physicalLines_concat (parts : List (List (List UInt16))) (last : List (List UInt16)) :
    physicalLines (parts ++ [last]) =
      physicalLines parts ++ [if parts = [] then last.flatten else space :: last.flatten] := by
  cases parts with
  | nil => rfl
  | cons part rest => simp [physicalLines]

theorem physicalLines_length (parts : List (List (List UInt16))) :
    (physicalLines parts).length = parts.length := by
  cases parts with
  | nil => rfl
  | cons part rest => simp [physicalLines]

/-- The octets of a part, with the space that stands before it unless it comes first. -/
def partOctets (n : Nat) (part : List (List UInt16)) : Nat :=
  (if n = 0 then 0 else 1) + (part.map width).sum

/-- What the loop has made of the code points so far: the parts that are done and the last one. -/
structure Filled (s : Folding) (parts : List (List (List UInt16))) (last : List (List UInt16)) :
    Prop where
  folded : s.folded = physicalLines parts
  current : s.current = if parts = [] then last.flatten else space :: last.flatten
  bytes : s.currentBytes = partOctets parts.length last
  empty : s.current = [] → s.currentBytes = 0
  fits : s.currentBytes ≤ if parts.length = 0 then 75 else 74
  done : ∀ n part, parts[n]? = some part → partOctets n part ≤ 75
  begun : ∀ part ∈ parts.head?, part.flatten ≠ []

theorem filled_initial : Filled ⟨[], [], 0⟩ [] [] where
  folded := rfl
  current := rfl
  bytes := rfl
  empty := fun _ => rfl
  fits := Nat.zero_le _
  done := nofun
  begun := nofun

theorem Filled.all {s : Folding} {parts : List (List (List UInt16))} {last : List (List UInt16)}
    (h : Filled s parts last) (n : Nat) (part : List (List UInt16))
    (hpart : (parts ++ [last])[n]? = some part) : partOctets n part ≤ 75 := by
  by_cases hn : n < parts.length
  · rw [List.getElem?_append_left hn] at hpart
    exact h.done n part hpart
  · rw [List.getElem?_append_right (by omega), List.getElem?_singleton] at hpart
    split at hpart
    · cases hpart
      have hend : n = parts.length := by omega
      have hfits := h.fits
      rw [hend, ← h.bytes]
      split at hfits <;> omega
    · cases hpart

theorem foldStep_filled {s : Folding} {parts : List (List (List UInt16))}
    {last : List (List UInt16)} (h : Filled s parts last) {character : List UInt16}
    (hne : character ≠ []) :
    ∃ parts' last', Filled (foldStep s character) parts' last' ∧
      parts'.flatten ++ last' = parts.flatten ++ last ++ [character] := by
  have hwidth := width_le character
  have hlength : s.folded.length = parts.length := by rw [h.folded, physicalLines_length]
  unfold foldStep
  dsimp only
  rw [hlength]
  by_cases hfull : s.current ≠ [] ∧
      (if parts.length = 0 then 75 else 74) < s.currentBytes + width character
  · rw [if_pos hfull]
    refine ⟨parts ++ [last], [character], ?_, by simp⟩
    constructor
    · rw [physicalLines_concat, ← h.current, ← h.folded]
    · simp
    · simp [partOctets]
    · simp
    · rw [List.length_append, List.length_singleton, if_neg (by omega)]
      dsimp only
      omega
    · exact h.all
    · cases hparts : parts with
      | nil =>
        have hcurrent := h.current
        rw [if_pos hparts] at hcurrent
        intro part hpart
        cases hpart
        exact hcurrent ▸ hfull.1
      | cons first rest =>
        have hbegun := h.begun
        rw [hparts] at hbegun
        exact hbegun
  · rw [if_neg hfull]
    refine ⟨parts, last ++ [character], ?_, by simp⟩
    constructor
    · exact h.folded
    · rw [h.current]
      split <;> simp
    · rw [h.bytes]
      simp [partOctets, Nat.add_assoc]
    · intro hempty
      exact absurd (List.append_eq_nil_iff.1 hempty).2 hne
    · dsimp only
      by_cases hcurrent : s.current = []
      · have hzero := h.empty hcurrent
        split <;> omega
      · have hle : ¬ (if parts.length = 0 then 75 else 74) < s.currentBytes + width character :=
          fun hlt => hfull ⟨hcurrent, hlt⟩
        omega
    · exact h.done
    · exact h.begun

theorem fold_filled {characters : List (List UInt16)} (hne : ∀ c ∈ characters, c ≠ []) {s : Folding}
    {parts : List (List (List UInt16))} {last : List (List UInt16)} (h : Filled s parts last) :
    ∃ parts' last', Filled (characters.foldl foldStep s) parts' last' ∧
      parts'.flatten ++ last' = parts.flatten ++ last ++ characters := by
  induction characters generalizing s parts last with
  | nil => exact ⟨parts, last, h, by simp⟩
  | cons character rest ih =>
    obtain ⟨parts₁, last₁, hstep, hflatten⟩ := foldStep_filled h (hne character List.mem_cons_self)
    obtain ⟨parts', last', hfilled, hall⟩ := ih (fun c hc => hne c (List.mem_cons_of_mem _ hc)) hstep
    exact ⟨parts', last', hfilled, by rw [hall, hflatten]; simp⟩

/-- The physical lines of a line hold its code points in their order, in parts that are short
enough. -/
theorem fold_parts (line : List UInt16) :
    ∃ parts, foldICalendarLine line = physicalLines parts ∧ parts ≠ [] ∧
      parts.flatten = characters line ∧ (∀ n part, parts[n]? = some part → partOctets n part ≤ 75) ∧
      ∀ part ∈ parts.head?, part.flatten = [] → line = [] := by
  obtain ⟨parts, last, h, hflatten⟩ :=
    fold_filled (fun c hc => characters_ne_nil hc) filled_initial
  refine ⟨parts ++ [last], ?_, by simp, by simpa using hflatten, ?_, ?_⟩
  · unfold foldICalendarLine
    dsimp only
    rw [physicalLines_concat, ← h.current, ← h.folded]
  · exact h.all
  · intro part hpart hempty
    cases hparts : parts with
    | nil =>
      rw [hparts] at hpart hflatten
      cases hpart
      have hline : characters line = last := by simpa using hflatten.symm
      rw [← characters_flatten line, hline, hempty]
    | cons first rest =>
      have hbegun := h.begun
      rw [hparts] at hbegun hpart
      exact absurd hempty (hbegun part hpart)

theorem part_within {line : List UInt16} {parts : List (List (List UInt16))}
    (h : parts.flatten = characters line) {part : List (List UInt16)} (hpart : part ∈ parts) :
    part <:+: characters line := h ▸ List.infix_of_mem_flatten hpart

theorem octets_space (text : List UInt16) : octets (space :: text) = 1 + octets text := by
  rw [octets, characters_cons (by decide), List.map_cons, List.sum_cons, octets]
  rfl

theorem physicalLines_octets {line : List UInt16} {parts : List (List (List UInt16))}
    (h : parts.flatten = characters line)
    (hfit : ∀ n part, parts[n]? = some part → partOctets n part ≤ 75) :
    ∀ l ∈ physicalLines parts, octets l ≤ 75 := by
  intro l hl
  cases parts with
  | nil => cases hl
  | cons first rest =>
    rcases List.mem_cons.1 hl with rfl | hl
    · rw [octets_within (part_within h List.mem_cons_self)]
      have hfirst := hfit 0 first rfl
      simpa [partOctets] using hfirst
    · obtain ⟨part, hpart, rfl⟩ := List.mem_map.1 hl
      obtain ⟨n, hn⟩ := List.mem_iff_getElem?.1 hpart
      rw [octets_space, octets_within (part_within h (List.mem_cons_of_mem _ hpart))]
      have hlater := hfit (n + 1) part (by rw [List.getElem?_cons_succ, hn])
      simpa [partOctets] using hlater

end Folds

section Unfolds

theorem unfoldLines_cons {u : UInt16} {rest : List UInt16}
    (h : u = cr → ∀ v ∈ rest.head?, v ≠ lf) : unfoldLines (u :: rest) = u :: unfoldLines rest := by
  match rest with
  | [] => rfl
  | [v] => rfl
  | v :: w :: rest =>
    rw [unfoldLines, if_neg]
    rintro ⟨hcr, hlf, -⟩
    exact h hcr v rfl hlf

/-- Without a line feed there is nothing to unfold. -/
theorem unfoldLines_plain {text : List UInt16} (h : lf ∉ text) (rest : List UInt16)
    (hrest : ∀ v ∈ rest.head?, v ≠ lf) : unfoldLines (text ++ rest) = text ++ unfoldLines rest := by
  induction text with
  | nil => rfl
  | cons u text ih =>
    obtain ⟨-, htext⟩ := not_or.1 (mt List.mem_cons.2 h)
    rw [List.cons_append, unfoldLines_cons, ih htext, List.cons_append]
    intro _ v hv
    cases text with
    | nil => exact hrest v hv
    | cons w text =>
      cases hv
      exact fun heq => htext (heq ▸ List.mem_cons_self)

theorem unfoldLines_break (rest : List UInt16) :
    unfoldLines (cr :: lf :: space :: rest) = unfoldLines rest := by
  rw [unfoldLines, if_pos ⟨rfl, rfl, .inl rfl⟩]

/-- The lines behind the first come with the break before them. -/
theorem joinLines_cons (first : List UInt16) (rest : List (List UInt16)) :
    joinLines (first :: rest) = first ++ rest.flatMap fun l => cr :: lf :: l := by
  induction rest generalizing first with
  | nil => simp [joinLines, List.intercalate]
  | cons second rest ih =>
    have htail : joinLines (first :: second :: rest) = first ++ ([cr, lf] ++ joinLines (second :: rest)) := by
      simp [joinLines, List.intercalate, List.intersperse]
    rw [htail, ih]
    simp

theorem head_broken (others : List (List (List UInt16))) {rest : List UInt16}
    (hrest : ∀ v ∈ rest.head?, v ≠ lf) :
    ∀ v ∈ ((others.flatMap fun part => cr :: lf :: space :: part.flatten) ++ rest).head?, v ≠ lf := by
  cases others with
  | nil => exact hrest
  | cons part others =>
    intro v hv
    cases hv
    decide

theorem unfoldLines_broken {others : List (List (List UInt16))} (h : lf ∉ others.flatten.flatten)
    {rest : List UInt16} (hrest : ∀ v ∈ rest.head?, v ≠ lf) :
    unfoldLines ((others.flatMap fun part => cr :: lf :: space :: part.flatten) ++ rest) =
      others.flatten.flatten ++ unfoldLines rest := by
  induction others with
  | nil => rfl
  | cons part others ih =>
    rw [List.flatten_cons, List.flatten_append, List.mem_append, not_or] at h
    rw [List.flatMap_cons, List.append_assoc, List.cons_append, List.cons_append, List.cons_append,
      unfoldLines_break, unfoldLines_plain h.1 _ (head_broken others hrest), ih h.2,
      List.flatten_cons, List.flatten_append, List.append_assoc]

/-- The parts come together again, whatever follows them. -/
theorem unfoldLines_physical {parts : List (List (List UInt16))} (hne : parts ≠ [])
    (h : lf ∉ parts.flatten.flatten) {rest : List UInt16} (hrest : ∀ v ∈ rest.head?, v ≠ lf) :
    unfoldLines (joinLines (physicalLines parts) ++ rest) =
      parts.flatten.flatten ++ unfoldLines rest := by
  cases parts with
  | nil => exact absurd rfl hne
  | cons first others =>
    rw [List.flatten_cons, List.flatten_append, List.mem_append, not_or] at h
    rw [physicalLines, joinLines_cons, List.flatMap_map, List.append_assoc,
      unfoldLines_plain h.1 _ (head_broken others hrest), unfoldLines_broken h.2 hrest,
      List.flatten_cons, List.flatten_append, List.append_assoc]

theorem unfold_fold {line : List UInt16} (h : lf ∉ line) {rest : List UInt16}
    (hrest : ∀ v ∈ rest.head?, v ≠ lf) :
    unfoldLines (joinLines (foldICalendarLine line) ++ rest) = line ++ unfoldLines rest := by
  obtain ⟨parts, hfold, hne, hflatten, -, -⟩ := fold_parts line
  have hline : parts.flatten.flatten = line := by rw [hflatten, characters_flatten]
  rw [hfold, unfoldLines_physical hne (hline ▸ h) hrest, hline]

theorem fold_octets (line : List UInt16) : ∀ l ∈ foldICalendarLine line, octets l ≤ 75 := by
  obtain ⟨parts, hfold, -, hflatten, hfit, -⟩ := fold_parts line
  rw [hfold]
  exact physicalLines_octets hflatten hfit

/-- The code points of the physical lines, without the spaces in front, are those of the line. -/
def Unsplit (line : List UInt16) (physical : List (List UInt16)) : Prop :=
  ∃ (first : List UInt16) (rest : List (List UInt16)), physical = first :: rest.map (space :: ·) ∧
    characters first ++ rest.flatMap characters = characters line

theorem fold_unsplit (line : List UInt16) : Unsplit line (foldICalendarLine line) := by
  obtain ⟨parts, hfold, hne, hflatten, -, -⟩ := fold_parts line
  cases parts with
  | nil => exact absurd rfl hne
  | cons first others =>
    refine ⟨first.flatten, others.map List.flatten, ?_, ?_⟩
    · rw [hfold, physicalLines, List.map_map]
      rfl
    · have hfirst := characters_within (part_within hflatten List.mem_cons_self)
      have hothers : (others.map List.flatten).flatMap characters = others.flatten := by
        rw [List.flatMap_map, List.flatMap_def]
        refine congrArg List.flatten ?_
        have hsame : ∀ part ∈ others, characters part.flatten = id part := fun part hpart =>
          characters_within (part_within hflatten (List.mem_cons_of_mem _ hpart))
        rw [List.map_congr_left hsame, List.map_id]
      rw [hfirst, hothers, ← hflatten, List.flatten_cons]

end Unfolds

section Escapes

variable {replacement : List UInt16}

theorem replaceBreaks_feed (text : List UInt16) :
    replaceBreaks replacement (lf :: text) = replacement ++ replaceBreaks replacement text := by
  cases text with
  | nil => simp [replaceBreaks]
  | cons v rest => rw [replaceBreaks, if_neg fun h => absurd h.1 (by decide), if_pos rfl]

theorem replaceBreaks_pair (text : List UInt16) :
    replaceBreaks replacement (cr :: lf :: text) = replacement ++ replaceBreaks replacement text := by
  rw [replaceBreaks, if_pos ⟨rfl, rfl⟩]

theorem replaceBreaks_other {u : UInt16} {text : List UInt16} (hu : u ≠ lf)
    (h : u = cr → ∀ v ∈ text.head?, v ≠ lf) :
    replaceBreaks replacement (u :: text) = u :: replaceBreaks replacement text := by
  cases text with
  | nil => simp [replaceBreaks, hu]
  | cons v rest => rw [replaceBreaks, if_neg fun hpair => h hpair.1 v rfl hpair.2, if_neg hu]

/-- Texts as the replacement meets them: a break of either kind, or another unit. -/
theorem breaks_induction {P : List UInt16 → Prop} (empty : P [])
    (pair : ∀ text, P text → P (cr :: lf :: text)) (feed : ∀ text, P text → P (lf :: text))
    (other : ∀ u text, u ≠ lf → (u = cr → ∀ v ∈ text.head?, v ≠ lf) → P text → P (u :: text))
    (text : List UInt16) : P text := by
  fun_induction replaceBreaks [] text with
  | case1 => exact empty
  | case2 => exact feed [] empty
  | case3 u hu => exact other u [] hu (fun _ => nofun) empty
  | case4 u v rest hpair ih =>
    obtain ⟨rfl, rfl⟩ := hpair
    exact pair rest ih
  | case5 v rest hpair ih => exact feed (v :: rest) ih
  | case6 u v rest hpair hu ih =>
    refine other u (v :: rest) hu (fun hcr w hw hlf => ?_) ih
    cases hw
    exact hpair ⟨hcr, hlf⟩

/-- What becomes of a unit whose text has its line breaks written as a line feed. -/
def escapeUnit (u : UInt16) : List UInt16 :=
  if u = backslash then [backslash, backslash]
  else if u = lf then [backslash, 110]
  else if u = semicolon then [backslash, semicolon]
  else if u = comma then [backslash, comma]
  else [u]

theorem replaceUnit_cons (unit u : UInt16) (text : List UInt16) :
    replaceUnit unit replacement (u :: text) =
      (if u = unit then replacement else [u]) ++ replaceUnit unit replacement text := rfl

theorem head_doubled {text : List UInt16} (h : ∀ v ∈ text.head?, v ≠ lf) :
    ∀ v ∈ (replaceUnit backslash [backslash, backslash] text).head?, v ≠ lf := by
  cases text with
  | nil => exact h
  | cons w rest =>
    intro v hv
    rw [replaceUnit_cons] at hv
    split at hv
    · cases hv
      decide
    · cases hv
      exact h w rfl

/-- The order of the replacements does not show: the breaks are not touched by the first one. -/
theorem breaks_doubled (text : List UInt16) :
    replaceBreaks replacement (replaceUnit backslash [backslash, backslash] text) =
      (normalizeBreaks text).flatMap fun u =>
        if u = backslash then [backslash, backslash] else if u = lf then replacement else [u] := by
  unfold normalizeBreaks
  induction text using breaks_induction with
  | empty => rfl
  | pair text ih =>
    rw [replaceUnit_cons, replaceUnit_cons, if_neg (by decide), if_neg (by decide),
      List.singleton_append, List.singleton_append, replaceBreaks_pair, replaceBreaks_pair, ih]
    rfl
  | feed text ih =>
    rw [replaceUnit_cons, if_neg (by decide), List.singleton_append, replaceBreaks_feed,
      replaceBreaks_feed, ih]
    rfl
  | other u text hu hcr ih =>
    rw [replaceUnit_cons, replaceBreaks_other hu hcr, List.flatMap_cons, ← ih]
    by_cases hslash : u = backslash
    · rw [if_pos hslash, if_pos hslash, List.cons_append, List.cons_append, List.nil_append,
        replaceBreaks_other (by decide) (fun h => absurd h (by decide)),
        replaceBreaks_other (by decide) (fun h => absurd h (by decide))]
      rfl
    · rw [if_neg hslash, if_neg hslash, if_neg hu, List.singleton_append, List.singleton_append,
        replaceBreaks_other hu fun h => head_doubled (hcr h)]

theorem escape_eq (text : List UInt16) :
    escapeICalendarText text = (normalizeBreaks text).flatMap escapeUnit := by
  unfold escapeICalendarText
  rw [breaks_doubled, replaceUnit, replaceUnit, List.flatMap_assoc, List.flatMap_assoc]
  refine congrArg (fun f => (normalizeBreaks text).flatMap f) (funext fun u => ?_)
  unfold escapeUnit
  by_cases hslash : u = backslash
  · subst hslash
    decide
  · by_cases hfeed : u = lf
    · subst hfeed
      decide
    · by_cases hsemi : u = semicolon
      · subst hsemi
        decide
      · by_cases hcomma : u = comma
        · subst hcomma
          decide
        · simp [hslash, hfeed, hsemi, hcomma]

theorem unescape_escaped (v : UInt16) (rest : List UInt16) :
    unescape (backslash :: v :: rest) = (if v = 110 ∨ v = 78 then lf else v) :: unescape rest := by
  rw [unescape, if_pos rfl]

theorem unescape_plain {u : UInt16} (h : u ≠ backslash) (rest : List UInt16) :
    unescape (u :: rest) = u :: unescape rest := by
  cases rest with
  | nil => rfl
  | cons v rest => rw [unescape, if_neg h]

theorem unescape_unit (u : UInt16) (rest : List UInt16) :
    unescape (escapeUnit u ++ rest) = u :: unescape rest := by
  unfold escapeUnit
  split
  · next h => rw [h]; exact unescape_escaped _ _
  · next hslash =>
    split
    · next h => rw [h]; exact unescape_escaped _ _
    · split
      · next h => rw [h]; exact unescape_escaped _ _
      · split
        · next h => rw [h]; exact unescape_escaped _ _
        · exact unescape_plain hslash rest

theorem unescape_escape (text : List UInt16) :
    unescape (escapeICalendarText text) = normalizeBreaks text := by
  rw [escape_eq]
  induction normalizeBreaks text with
  | nil => rfl
  | cons u rest ih => rw [List.flatMap_cons, unescape_unit, ih]

/-- Every carriage return of a text is followed by a line feed. -/
def Paired (text : List UInt16) : Prop :=
  ∀ before after, text = before ++ cr :: after → after.head? = some lf

theorem paired_cons (u : UInt16) (text : List UInt16) :
    Paired (u :: text) ↔ (u = cr → text.head? = some lf) ∧ Paired text := by
  constructor
  · intro h
    refine ⟨fun hu => h [] text (by rw [hu]; rfl), fun before after heq => ?_⟩
    exact h (u :: before) after (by rw [heq]; rfl)
  · rintro ⟨hfirst, hrest⟩ before after heq
    cases before with
    | nil =>
      cases heq
      exact hfirst rfl
    | cons w before =>
      cases heq
      exact hrest before after rfl

/-- The carriage returns that are left are those that no line feed follows. -/
theorem normalizeBreaks_return (text : List UInt16) : cr ∉ normalizeBreaks text ↔ Paired text := by
  unfold normalizeBreaks
  induction text using breaks_induction with
  | empty => exact iff_of_true List.not_mem_nil fun before after h => by simp at h
  | pair text ih =>
    have hne : cr ≠ lf := by decide
    rw [replaceBreaks_pair, paired_cons, paired_cons, ← ih]
    simp [hne, hne.symm]
  | feed text ih =>
    have hne : cr ≠ lf := by decide
    rw [replaceBreaks_feed, paired_cons, ← ih]
    simp [hne, hne.symm]
  | other u text hu hcr ih =>
    rw [replaceBreaks_other hu hcr, paired_cons, ← ih, List.mem_cons, not_or]
    refine and_congr_left fun _ => ⟨fun h heq => absurd heq.symm h, fun h heq => ?_⟩
    exact hcr heq.symm lf (h heq.symm) rfl

/-- Of the breaks only a carriage return gets through, as itself. -/
theorem escapeUnit_break {u v : UInt16} (hv : v ∈ escapeUnit u) (hbreak : isLineBreak v = true) :
    u = cr := by
  have hcases : v = cr ∨ v = lf := by simpa [isLineBreak] using hbreak
  have hbackslash : v ≠ backslash := by rcases hcases with rfl | rfl <;> decide
  unfold escapeUnit at hv
  split at hv
  · exact absurd hv (by simp [hbackslash])
  · split at hv
    · rcases hcases with rfl | rfl <;> exact absurd hv (by decide)
    · next hfeed =>
      split at hv
      · rcases hcases with rfl | rfl <;> exact absurd hv (by decide)
      · split at hv
        · rcases hcases with rfl | rfl <;> exact absurd hv (by decide)
        · rw [List.mem_singleton] at hv
          rw [hv] at hcases
          exact hcases.resolve_right hfeed

theorem escape_breaks (text : List UInt16) :
    (∀ u ∈ escapeICalendarText text, isLineBreak u = false) ↔ Paired text := by
  rw [escape_eq, ← normalizeBreaks_return]
  constructor
  · intro hnone hmem
    have hreturn := hnone cr (List.mem_flatMap.2 ⟨cr, hmem, by decide⟩)
    exact absurd hreturn (by decide)
  · intro hmem u hu
    obtain ⟨w, hw, huw⟩ := List.mem_flatMap.1 hu
    rw [Bool.eq_false_iff]
    intro hbreak
    rw [escapeUnit_break huw hbreak] at hw
    exact hmem hw

/-- No line feed is left in any case. -/
theorem escape_feed (text : List UInt16) : lf ∉ escapeICalendarText text := by
  rw [escape_eq]
  intro hmem
  obtain ⟨w, -, hw⟩ := List.mem_flatMap.1 hmem
  have hreturn := escapeUnit_break hw (by decide)
  rw [hreturn] at hw
  exact absurd hw (by decide)

end Escapes

/-- What is expected of a line that is folded and of a text that is escaped. -/
structure Invertible (line text : List UInt16) : Prop where
  unfolds : lf ∉ line → unfoldLines (joinLines (foldICalendarLine line)) = line
  short : ∀ physical ∈ foldICalendarLine line, octets physical ≤ 75
  unsplit : Unsplit line (foldICalendarLine line)
  unbroken : ∀ u ∈ escapeICalendarText text, isLineBreak u = false
  unescapes : unescape (escapeICalendarText text) = normalizeBreaks text

/-- All of it holds exactly of the texts without a carriage return of its own. -/
theorem invertible_iff (line text : List UInt16) : Invertible line text ↔ Paired text := by
  rw [← escape_breaks]
  constructor
  · exact fun h => h.unbroken
  · intro hunbroken
    refine ⟨fun hline => ?_, fold_octets line, fold_unsplit line, hunbroken, unescape_escape text⟩
    have hunfold : unfoldLines (joinLines (foldICalendarLine line) ++ []) = line ++ unfoldLines [] :=
      unfold_fold hline nofun
    simpa [unfoldLines] using hunfold

/-- A carriage return alone stays in the escaped text. -/
theorem loneReturn_raw : ¬ Invertible [] [cr] := by
  intro h
  exact absurd (h.unbroken cr (by decide)) (by decide)

section Files

/-- A calendar file: the content lines, each folded, and a line break behind every physical line. -/
def calendarText (lines : List (List UInt16)) : List UInt16 :=
  joinLines (lines.flatMap foldICalendarLine) ++ [cr, lf]

theorem joinLines_terminated {lines : List (List UInt16)} (hne : lines ≠ []) :
    joinLines lines ++ [cr, lf] = lines.flatMap (· ++ [cr, lf]) := by
  cases lines with
  | nil => exact absurd rfl hne
  | cons first rest =>
    rw [joinLines_cons]
    induction rest generalizing first with
    | nil => simp
    | cons second rest ih =>
      have hrest := ih second (List.cons_ne_nil _ _)
      have hsplit : (first :: second :: rest).flatMap (· ++ [cr, lf]) =
          first ++ [cr, lf] ++ (second :: rest).flatMap (· ++ [cr, lf]) := List.flatMap_cons
      rw [hsplit, ← hrest]
      simp

theorem fold_ne_nil (line : List UInt16) : foldICalendarLine line ≠ [] := by
  unfold foldICalendarLine
  simp

theorem calendarText_lines {lines : List (List UInt16)} (hne : lines ≠ []) :
    calendarText lines = lines.flatMap fun line => joinLines (foldICalendarLine line) ++ [cr, lf] := by
  have hphysical : lines.flatMap foldICalendarLine ≠ [] := by
    cases lines with
    | nil => exact absurd rfl hne
    | cons first rest => simp [fold_ne_nil]
  rw [calendarText, joinLines_terminated hphysical, List.flatMap_assoc]
  refine congrArg (fun f => lines.flatMap f) (funext fun line => ?_)
  exact (joinLines_terminated (fold_ne_nil line)).symm

/-- A content line that can be told from the continuation of another one. -/
structure ContentLine (line : List UInt16) : Prop where
  unbroken : lf ∉ line
  begins : ∀ u ∈ line.head?, u ≠ space ∧ u ≠ tab

/-- The first physical line begins as the line does. -/
theorem fold_head (line : List UInt16) (rest : List UInt16) :
    ∀ u ∈ (joinLines (foldICalendarLine line) ++ cr :: rest).head?, u ∈ line.head? ∨ u = cr := by
  obtain ⟨parts, hfold, hne, hflatten, -, hempty⟩ := fold_parts line
  cases parts with
  | nil => exact absurd rfl hne
  | cons first others =>
    rw [hfold, physicalLines, joinLines_cons, List.flatMap_map, List.append_assoc]
    intro u hu
    have hline : first.flatten ++ others.flatten.flatten = line := by
      rw [← characters_flatten line, ← hflatten, List.flatten_cons, List.flatten_append]
    cases hfirst : first.flatten with
    | nil =>
      rw [hfirst] at hu
      cases others with
      | nil =>
        cases hu
        exact .inr rfl
      | cons part others =>
        cases hu
        exact .inr rfl
    | cons v tail =>
      rw [hfirst] at hu hline
      cases hu
      rw [← hline]
      exact .inl rfl

theorem unfoldLines_end {rest : List UInt16} (h : ∀ u ∈ rest.head?, u ≠ space ∧ u ≠ tab) :
    unfoldLines (cr :: lf :: rest) = cr :: lf :: unfoldLines rest := by
  cases rest with
  | nil => rfl
  | cons w rest =>
    obtain ⟨hspace, htab⟩ := h w rfl
    rw [unfoldLines, if_neg fun hbreak => hbreak.2.2.elim hspace htab,
      unfoldLines_cons fun h => absurd h (by decide)]

/-- A reader of the file finds the content lines, each with its end. -/
theorem calendarText_unfolds {lines : List (List UInt16)} (hne : lines ≠ [])
    (h : ∀ line ∈ lines, ContentLine line) :
    unfoldLines (calendarText lines) = lines.flatMap (· ++ [cr, lf]) := by
  rw [calendarText_lines hne]
  clear hne
  induction lines with
  | nil => rfl
  | cons line rest ih =>
    obtain ⟨hline, hrest⟩ := List.forall_mem_cons.1 h
    have hnext : ∀ u ∈ (rest.flatMap fun line =>
        joinLines (foldICalendarLine line) ++ [cr, lf]).head?, u ≠ space ∧ u ≠ tab := by
      cases rest with
      | nil => exact nofun
      | cons next others =>
        intro u hu
        rw [List.flatMap_cons, List.append_assoc] at hu
        rcases fold_head next _ u hu with hbegins | rfl
        · exact (hrest next List.mem_cons_self).begins u hbegins
        · decide
    rw [List.flatMap_cons, List.flatMap_cons, List.append_assoc, List.append_assoc, List.cons_append,
      List.cons_append, List.nil_append, unfold_fold hline.unbroken (fun v hv => by cases hv; decide),
      unfoldLines_end hnext, ih hrest]
    rfl

end Files

end CalendarText
