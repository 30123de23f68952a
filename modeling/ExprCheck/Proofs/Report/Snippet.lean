import ExprCheck.Report
import ExprCheck.Proofs.OpTree
import ExprCheck.Proofs.Program.Faults
/-! The line that a report points at. A span counts bytes. A report counts characters, and in it
other characters than line feeds end lines too. So it points at the line with the character that has
the number of the span's first byte. Main statements: exactly when that is the line of the span, and
that it is in plain sources. -/
namespace ExprCheck.Snippet

/-! ## The lines of a source -/

/-- Of the lines but the last, the number of those that `n` characters reach the end of. -/
def linesEnded : List (List Char) → Nat → Nat
  | text :: next :: rest, n =>
      if text.length ≤ n then linesEnded (next :: rest) (n - text.length) + 1 else 0
  | _, _ => 0

theorem linesEnded_mono {m n : Nat} (texts : List (List Char)) (le : m ≤ n) :
    linesEnded texts m ≤ linesEnded texts n := by
  fun_induction linesEnded texts m generalizing n with
  | case1 text next rest m reaches ih =>
    have below := ih (n := n - text.length) (by omega)
    rw [linesEnded, if_pos (by omega)]
    omega
  | case2 => exact Nat.zero_le _
  | case3 => exact Nat.zero_le _

theorem flatten_lineTexts (cs : List Char) : (lineTexts cs).flatten = cs := by
  fun_induction lineTexts cs with
  | case1 => rfl
  | case2 rest ih => simp [ih]
  | case3 c rest notBoth ends ih => simp [ih]
  | case4 c rest notBoth inside none ih =>
    rw [none] at ih
    simp [← ih]
  | case5 c rest notBoth inside line lines some ih =>
    rw [some] at ih
    simp [← ih]

theorem mem_numberLines {index offset : Nat} {texts : List (List Char)} {l : SourceLine}
    (mem : l ∈ numberLines index offset texts) :
    ∃ before behind, texts = before ++ l.text :: behind ∧ l.index = index + before.length ∧
      l.offset = offset + before.flatten.length := by
  induction texts generalizing index offset with
  | nil => cases mem
  | cons text rest ih =>
    rcases List.mem_cons.mp mem with rfl | later
    · exact ⟨[], rest, rfl, rfl, rfl⟩
    · obtain ⟨before, behind, rfl, number, start⟩ := ih later
      refine ⟨text :: before, behind, rfl, ?_, ?_⟩
      · rw [number, List.length_cons]
        omega
      · rw [start, List.flatten_cons, List.length_append, Nat.add_assoc]

/-- An offset up to the end of the lines is on the line whose number is that of the lines that end
in front of it. It is in front of the end of its line, unless that is the last line. -/
theorem locate?_numberLines {texts : List (List Char)} (index offset : Nat) {n : Nat}
    (nonempty : texts ≠ []) (inside : n ≤ texts.flatten.length) :
    ∃ l ∈ numberLines index offset texts,
      locate? (numberLines index offset texts) (offset + n) = some l ∧
      l.index = index + linesEnded texts n ∧ l.offset ≤ offset + n ∧
      (offset + n < l.stop ∨ l.stop = offset + texts.flatten.length) := by
  induction texts generalizing index offset n with
  | nil => exact absurd rfl nonempty
  | cons text rest ih =>
    cases rest with
    | nil =>
      have reached : offset + n ≤ offset + text.length := by simpa using inside
      refine ⟨⟨index, offset, text⟩, by simp [numberLines], if_pos reached, by simp [linesEnded],
        by simp, .inr ?_⟩
      simp [SourceLine.stop]
    | cons next rest =>
      rw [List.flatten_cons, List.length_append] at inside
      by_cases reaches : text.length ≤ n
      · obtain ⟨l, mem, found, number, start, stop⟩ :=
          ih (index + 1) (offset + text.length) (n := n - text.length) (by simp) (by omega)
        have behind : offset + text.length + (n - text.length) = offset + n := by omega
        rw [behind] at found start stop
        have passed : ¬ offset + n < offset + text.length := by omega
        refine ⟨l, List.mem_cons_of_mem _ mem, (if_neg passed).trans found, ?_, start, ?_⟩
        · rw [number, linesEnded, if_pos reaches]
          omega
        · rw [List.flatten_cons, List.length_append]
          omega
      · have held : offset + n < offset + text.length := by omega
        refine ⟨⟨index, offset, text⟩, by simp [numberLines], if_pos held, ?_, by simp, .inl held⟩
        rw [linesEnded, if_neg reaches, Nat.add_zero]

theorem locate?_numberLines_eq_none {texts : List (List Char)} (index offset : Nat) {n : Nat}
    (outside : texts = [] ∨ texts.flatten.length < n) :
    locate? (numberLines index offset texts) (offset + n) = none := by
  induction texts generalizing index offset n with
  | nil => rfl
  | cons text rest ih =>
    replace outside := outside.resolve_left (by simp)
    rw [List.flatten_cons, List.length_append] at outside
    cases rest with
    | nil =>
      have beyond : ¬ offset + n ≤ offset + text.length := by omega
      exact if_neg beyond
    | cons next rest =>
      have beyond : ¬ offset + n < offset + text.length := by omega
      have behind : offset + text.length + (n - text.length) = offset + n := by omega
      have below := ih (index + 1) (offset + text.length) (n := n - text.length) (.inr (by omega))
      rw [behind] at below
      exact (if_neg beyond).trans below

theorem lineTexts_eq_nil {source : String} : lineTexts source.toList = [] ↔ source = "" := by
  constructor
  · intro empty
    have chars := flatten_lineTexts source.toList
    rw [empty] at chars
    exact String.toList_eq_nil_iff.mp chars.symm
  · rintro rfl
    rfl

theorem length_flatten_lineTexts (source : String) :
    (lineTexts source.toList).flatten.length = source.length := by
  rw [flatten_lineTexts, String.length_toList]

section SourceLines

variable {source : String} {l m : SourceLine} {offset : Nat}

theorem mem_sourceLines (mem : l ∈ sourceLines source) :
    ∃ before behind, lineTexts source.toList = before ++ l.text :: behind ∧
      l.index = before.length ∧ l.offset = before.flatten.length := by
  obtain ⟨before, behind, parts, number, start⟩ := mem_numberLines mem
  rw [Nat.zero_add] at number start
  exact ⟨before, behind, parts, number, start⟩

theorem eq_of_index_eq (hl : l ∈ sourceLines source) (hm : m ∈ sourceLines source)
    (same : l.index = m.index) : l = m := by
  obtain ⟨before, behind, parts, number, start⟩ := mem_sourceLines hl
  obtain ⟨before', behind', parts', number', start'⟩ := mem_sourceLines hm
  have lengths : before.length = before'.length := by omega
  obtain ⟨rfl, rest⟩ := List.append_inj (parts.symm.trans parts') lengths
  have texts : l.text = m.text := (List.cons.inj rest).1
  have offsets : l.offset = m.offset := by omega
  cases l
  cases m
  simp_all

theorem stop_le (mem : l ∈ sourceLines source) : l.stop ≤ source.length := by
  obtain ⟨before, behind, parts, -, start⟩ := mem_sourceLines mem
  rw [← length_flatten_lineTexts, parts, SourceLine.stop, start, List.flatten_append,
    List.flatten_cons, List.length_append, List.length_append]
  omega

theorem count_feed_le_one (cs : List Char) : ∀ line ∈ lineTexts cs, line.count '\n' ≤ 1 := by
  fun_induction lineTexts cs with
  | case1 => simp
  | case2 rest ih => simpa using ih
  | case3 c rest notBoth ends ih => simpa [List.count_singleton] using ⟨by split <;> omega, ih⟩
  | case4 c rest notBoth inside none ih =>
    simp only [List.mem_singleton, forall_eq, List.count_singleton]
    split <;> omega
  | case5 c rest notBoth inside line lines some ih =>
    have other : c ≠ '\n' := by
      rintro rfl
      exact inside rfl
    rw [some] at ih
    simpa [List.count_cons_of_ne other] using ih

theorem count_feed_flatten {lines : List (List Char)}
    (one : ∀ line ∈ lines, line.count '\n' ≤ 1) :
    lines.flatten.count '\n' = lines.countP fun line => '\n' ∈ line := by
  induction lines with
  | nil => rfl
  | cons line lines ih =>
    have atMost := one line List.mem_cons_self
    rw [List.flatten_cons, List.count_append, List.countP_cons,
      ih fun line mem => one line (List.mem_cons_of_mem _ mem)]
    by_cases mem : '\n' ∈ line
    · have positive := List.count_pos_iff.mpr mem
      simp only [mem, decide_true, if_true]
      omega
    · simp [mem, List.count_eq_zero_of_not_mem mem]

theorem count_feed_take_iff (mem : l ∈ sourceLines source) :
    (source.toList.take l.offset).count '\n' = l.index ↔
      ∀ line ∈ (lineTexts source.toList).take l.index, '\n' ∈ line := by
  obtain ⟨before, behind, parts, number, start⟩ := mem_sourceLines mem
  have one : ∀ line ∈ before, line.count '\n' ≤ 1 := by
    intro line inFront
    refine count_feed_le_one source.toList line ?_
    rw [parts]
    exact List.mem_append_left _ inFront
  have chars : source.toList = before.flatten ++ (l.text :: behind).flatten := by
    rw [← List.flatten_append, ← parts, flatten_lineTexts]
  rw [parts, chars, start, number, List.take_left, List.take_left, count_feed_flatten one,
    List.countP_eq_length]
  simp

/-- The line of a character of the source, or the last line for the offset behind all characters. -/
structure Holds (source : String) (offset : Nat) (l : SourceLine) : Prop where
  mem : l ∈ sourceLines source
  index : l.index = linesEnded (lineTexts source.toList) offset
  start : l.offset ≤ offset
  stop : offset < l.stop ∨ l.stop = source.length

theorem exists_locate? (nonempty : source ≠ "") (inside : offset ≤ source.length) :
    ∃ l, locate? (sourceLines source) offset = some l ∧ Holds source offset l := by
  have located := locate?_numberLines (n := offset) 0 0 (mt lineTexts_eq_nil.mp nonempty)
    (by rwa [length_flatten_lineTexts])
  simp only [Nat.zero_add, length_flatten_lineTexts] at located
  obtain ⟨l, mem, found, index, start, stop⟩ := located
  exact ⟨l, found, mem, index, start, stop⟩

theorem locate?_eq_none (outside : source = "" ∨ source.length < offset) :
    locate? (sourceLines source) offset = none := by
  have outside : lineTexts source.toList = [] ∨
      (lineTexts source.toList).flatten.length < offset := by
    rwa [lineTexts_eq_nil, length_flatten_lineTexts]
  have none := locate?_numberLines_eq_none 0 0 outside
  rwa [Nat.zero_add] at none

end SourceLines

/-! ## Rows -/

def Row.text (row : Row) : String :=
  String.join (row.map Piece.text)

/-- The header of a report. -/
def header (gap : Nat) (path : String) (line column : Nat) : String :=
  spaces gap ++ "╭─[" ++ path ++ ":" ++ toString line ++ ":" ++ toString column ++ "]"

/-- The line with its number is a row. -/
def Shows (report : List Row) (l : SourceLine) : Prop :=
  ∃ width gutter label, numberedMargin width l ++ gutter ++ lineRow label l ∈ report

/-- The header, right below the headline, names the line, and the line is shown: it has this number
in the report, and line feeds in front of it give it this number in the source. -/
structure PointsAt (report : List Row) (path source : String) (line : Nat) : Prop where
  named : ∃ gap column, report[1]?.map Row.text = some (header gap path line column)
  shown : ∃ l ∈ sourceLines source, l.index + 1 = line ∧
    (source.toList.take l.offset).count '\n' + 1 = line ∧ Shows report l

theorem line_eq_of_header_eq {gap gap' line line' column column' : Nat} {path : String}
    (same : header gap path line column = header gap' path line' column') : line = line' := by
  have noColon (n : Nat) : ':' ∉ (toString n).toList := by
    intro mem
    rw [Nat.toString_eq_repr, Nat.toList_repr] at mem
    have digit := Nat.isDigit_of_mem_toDigits (by decide) (by decide) mem
    cases digit
  have noCorner (n : Nat) : '╭' ∉ List.replicate n ' ' := by
    intro mem
    cases List.eq_of_mem_replicate mem
  have corner : "╭─[".toList = ['╭', '─', '['] := by decide
  have colon : ":".toList = [':'] := by decide
  have chars := congrArg String.toList same
  simp only [header, spaces, String.toList_append, String.toList_ofList, corner, colon,
    List.append_assoc, List.cons_append, List.nil_append] at chars
  -- Blanks end at the corner, and a number at the colon.
  obtain ⟨-, -, behind⟩ :=
    OpTree.eq_of_append_cons_eq chars (fun _ => noCorner gap') (fun _ => noCorner gap)
  simp only [List.cons.injEq, true_and, List.append_cancel_left_eq] at behind
  obtain ⟨numbers, -, -⟩ :=
    OpTree.eq_of_append_cons_eq behind (fun _ => noColon line') (fun _ => noColon line)
  rw [Nat.toString_eq_repr, Nat.toString_eq_repr, Nat.toList_repr, Nat.toList_repr] at numbers
  have same := congrArg (Nat.ofDigitChars 10 · 0) numbers
  simpa only [Nat.ofDigitChars_ten_toDigits] using same

theorem Shows.of_subset {report report' : List Row} {l : SourceLine} (shows : Shows report l)
    (sub : report ⊆ report') : Shows report' l := by
  obtain ⟨width, gutter, label, mem⟩ := shows
  exact ⟨width, gutter, label, sub mem⟩

def Numbered (row : Row) : Prop :=
  ∃ width l rest, row = numberedMargin width l ++ rest

theorem Shows.numbered {report : List Row} {l : SourceLine} (shows : Shows report l) :
    ∃ row ∈ report, Numbered row := by
  obtain ⟨width, gutter, label, mem⟩ := shows
  exact ⟨_, mem, width, l, gutter ++ lineRow label l, List.append_assoc _ _ _⟩

theorem Numbered.third {row : Row} (numbered : Numbered row) : row[2]? = some (plain " ") := by
  obtain ⟨width, l, rest, rfl⟩ := numbered
  rfl

theorem not_numbered_bareMargin (width : Nat) (bar : String) (rest : Row) :
    ¬ Numbered (bareMargin width bar ++ rest) := by
  rintro ⟨width', l, rest', same⟩
  simp [bareMargin, numberedMargin, plain, marginColor, skippedColor] at same

theorem not_numbered_headRow (d : Diagnostic) : ¬ Numbered (headRow d) := by
  intro numbered
  cases numbered.third

theorem shows_bracketRows (width : Nat) (label : Label) {l : SourceLine} {lines : List SourceLine}
    (gap : Bool) (mem : l ∈ lines) (starts : l.contains label.start = true) :
    Shows (bracketRows width label gap lines) l := by
  have later {head : SourceLine} {rest : List SourceLine} (mem : l ∈ head :: rest)
      (notFirst : ¬ head.contains label.start = true) : l ∈ rest := by
    rcases List.mem_cons.mp mem with rfl | later
    · exact absurd starts notFirst
    · exact later
  fun_induction bracketRows width label gap lines with
  | case1 => cases mem
  | case2 gap head rest first ih =>
    rcases List.mem_cons.mp mem with rfl | below
    · exact ⟨width, _, label, List.mem_cons_self⟩
    · exact (ih below).of_subset (List.subset_cons_self _ _)
  | case3 gap head rest notFirst last length ih =>
    exact (ih (later mem notFirst)).of_subset (List.subset_append_right _ _)
  | case4 head rest notFirst notLast ih => exact ih (later mem notFirst)
  | case5 gap head rest notFirst notLast noGap ih =>
    exact (ih (later mem notFirst)).of_subset (List.subset_cons_self _ _)

theorem shows_inlineRows (width : Nat) {label : Label} {l : SourceLine}
    (whole : l.offset ≤ label.start ∧ label.stop ≤ l.stop) :
    Shows (inlineRows width label l) l := by
  rw [inlineRows, if_pos whole]
  refine ⟨width, [], label, ?_⟩
  rw [List.append_nil]
  exact List.mem_cons_self

theorem whole_of_numbered {width : Nat} {label : Label} {l : SourceLine} {row : Row}
    (mem : row ∈ inlineRows width label l) (numbered : Numbered row) :
    l.offset ≤ label.start ∧ label.stop ≤ l.stop := by
  by_contra cut
  rw [inlineRows, if_neg cut, List.mem_singleton] at mem
  subst mem
  exact not_numbered_bareMargin width "│" [] (by rwa [List.append_nil])

theorem header_bodyRows (path : String) (lines : List SourceLine) (label : Label)
    (first last : SourceLine) (remarks : List (String × String)) :
    (bodyRows path lines label first last remarks)[0]?.map Row.text =
      some (header ((toString (last.index + 1)).length + 2) path (first.index + 1)
        (label.start - first.offset + 1)) := by
  have corner : "╭─[" = "╭" ++ "─" ++ "[" := by decide
  simp only [header, corner]
  simp [bodyRows, Row.text, plain, String.join, String.append_assoc]
  rfl

section Body

variable (path : String) (lines : List SourceLine) (label : Label) {first last : SourceLine}
  (remarks : List (String × String))

theorem bracketRows_subset (several : first.index ≠ last.index) :
    bracketRows (toString (last.index + 1)).length label false
        (lines.filter fun l => first.index ≤ l.index && l.index ≤ last.index) ⊆
      bodyRows path lines label first last remarks := by
  have multi : (first.index != last.index) = true := by simp [several]
  intro row mem
  simp only [bodyRows, multi, if_true, List.mem_append]
  exact .inl (.inl (.inr mem))

theorem inlineRows_subset (one : first.index = last.index) :
    inlineRows (toString (last.index + 1)).length label first ⊆
      bodyRows path lines label first last remarks := by
  have single : (first.index != last.index) = false := by simp [one]
  intro row mem
  simp only [bodyRows, single, List.mem_append]
  exact .inl (.inl (.inr mem))

theorem mem_inlineRows_of_numbered (one : first.index = last.index) {row : Row}
    (mem : row ∈ bodyRows path lines label first last remarks) (numbered : Numbered row) :
    row ∈ inlineRows (toString (last.index + 1)).length label first := by
  have single : (first.index != last.index) = false := by simp [one]
  simp only [bodyRows, single, List.mem_append] at mem
  rcases mem with ((corner | inner) | foot) | close
  · have third := numbered.third
    rcases List.mem_pair.mp corner with rfl | rfl <;> cases third
  · exact inner
  · simp only [List.mem_flatten, List.mem_map] at foot
    obtain ⟨_, ⟨remark, -, rfl⟩, member⟩ := foot
    rcases List.mem_pair.mp member with rfl | rfl
    · exact absurd numbered (not_numbered_bareMargin _ _ _)
    · rw [List.append_assoc] at numbered
      exact absurd numbered (not_numbered_bareMargin _ _ _)
  · have third := numbered.third
    rw [List.mem_singleton.mp close] at third
    cases third

variable {source : String} {path lines label remarks}

theorem index_le (startHeld : Holds source label.start first)
    (lastHeld : Holds source label.last last) : first.index ≤ last.index := by
  rw [startHeld.index, lastHeld.index]
  exact linesEnded_mono _ (Nat.le_max_right _ _)

theorem shows_first (startHeld : Holds source label.start first)
    (lastHeld : Holds source label.last last) (inside : label.last ≤ source.length)
    (drawn : label.stop ≤ source.length ∨ first.index ≠ last.index) :
    Shows (bodyRows path (sourceLines source) label first last remarks) first := by
  have stopLe : label.stop ≤ label.last + 1 := by
    rw [Label.last]
    omega
  have startLe : label.start ≤ label.last := Nat.le_max_right _ _
  by_cases one : first.index = last.index
  · obtain rfl := eq_of_index_eq startHeld.mem lastHeld.mem one
    have cut := drawn.resolve_right (fun several => several rfl)
    have whole : first.offset ≤ label.start ∧ label.stop ≤ first.stop := by
      have := startHeld.start
      rcases lastHeld.stop with before | final <;> omega
    exact (shows_inlineRows _ whole).of_subset (inlineRows_subset _ _ _ _ rfl)
  · -- The start is in front of the end of its line, for else it is the end of the source.
    have before : label.start < first.stop := by
      rcases startHeld.stop with before | final
      · exact before
      · by_contra behind
        have same : label.start = label.last := by omega
        exact one (by rw [startHeld.index, lastHeld.index, ← same])
    have starts : first.contains label.start = true := by
      simp [SourceLine.contains, startHeld.start, before]
    have shown : first ∈ (sourceLines source).filter fun l =>
        first.index ≤ l.index && l.index ≤ last.index := by
      simp [startHeld.mem, index_le startHeld lastHeld]
    exact (shows_bracketRows _ label false shown starts).of_subset
      (bracketRows_subset _ _ _ _ one)

theorem drawn_of_numbered (startHeld : Holds source label.start first) {row : Row}
    (mem : row ∈ bodyRows path lines label first last remarks) (numbered : Numbered row) :
    label.stop ≤ source.length ∨ first.index ≠ last.index := by
  by_cases one : first.index = last.index
  · left
    have inner := mem_inlineRows_of_numbered _ _ _ _ one mem numbered
    exact (whole_of_numbered inner numbered).2.trans (stop_le startHeld.mem)
  · exact .inr one

theorem pointsAt_body_iff (d : Diagnostic) (startHeld : Holds source label.start first)
    (lastHeld : Holds source label.last last) (inside : label.last ≤ source.length) (n : Nat) :
    PointsAt (headRow d :: bodyRows path (sourceLines source) label first last remarks) path
        source n ↔
      (label.stop ≤ source.length ∨ first.index ≠ last.index) ∧ n = first.index + 1 ∧
        ∀ line ∈ (lineTexts source.toList).take (n - 1), '\n' ∈ line := by
  have names := header_bodyRows path (sourceLines source) label first last remarks
  constructor
  · rintro ⟨⟨gap, column, named⟩, l, mem, lineIs, feeds, shows⟩
    have same := names.symm.trans named
    obtain ⟨row, rowMem, numbered⟩ := shows.numbered
    have member := (List.mem_cons.mp rowMem).resolve_left
      (fun head => not_numbered_headRow d (head ▸ numbered))
    refine ⟨drawn_of_numbered startHeld member numbered, ?_, ?_⟩
    · exact (line_eq_of_header_eq (Option.some.inj same)).symm
    · rw [← lineIs, Nat.add_sub_cancel]
      exact (count_feed_take_iff mem).mp (by omega)
  · rintro ⟨drawn, rfl, feeds⟩
    rw [Nat.add_sub_cancel] at feeds
    have counted := (count_feed_take_iff startHeld.mem).mpr feeds
    exact ⟨⟨_, _, names⟩, first, startHeld.mem, rfl, congrArg (· + 1) counted,
      (shows_first startHeld lastHeld inside drawn).of_subset (List.subset_cons_self _ _)⟩

end Body

/-! ## Reports -/

/-- The label of a span can be drawn: it ends in the source, or one character behind it if the end
of the source is on another line than the start of the label. -/
def Drawn (source : String) (span : Span) : Prop :=
  source ≠ "" ∧ (span.stop ≤ source.length ∨ span.stop = source.length + 1 ∧
    linesEnded (lineTexts source.toList) span.start <
      linesEnded (lineTexts source.toList) source.length)

theorem drawn_iff {source : String} {span : Span} {last : Nat} (order : span.start ≤ span.stop)
    (lastIs : last = max (span.stop - 1) span.start) :
    Drawn source span ↔ source ≠ "" ∧ last ≤ source.length ∧ (span.stop ≤ source.length ∨
      linesEnded (lineTexts source.toList) span.start ≠
        linesEnded (lineTexts source.toList) last) := by
  have mono {m n : Nat} (le : m ≤ n) := linesEnded_mono (lineTexts source.toList) le
  constructor
  · rintro ⟨nonempty, stop | ⟨stop, several⟩⟩
    · exact ⟨nonempty, by omega, .inl stop⟩
    · have before : span.start < source.length := by
        by_contra behind
        have := mono (Nat.le_of_not_lt behind)
        omega
      have lastEq : last = source.length := by omega
      exact ⟨nonempty, by omega, .inr (by rw [lastEq]; exact several.ne)⟩
  · rintro ⟨nonempty, inside, stop | several⟩
    · exact ⟨nonempty, .inl stop⟩
    · refine ⟨nonempty, ?_⟩
      by_cases stop : span.stop ≤ source.length
      · exact .inl stop
      · have lastEq : last = source.length := by omega
        have order := mono (show span.start ≤ source.length by omega)
        rw [lastEq] at several
        exact .inr ⟨by omega, by omega⟩

section Rows

variable {path source : String} {d : Diagnostic} {span : Span}

theorem start_labelOf (ends : span.EndsBy source.utf8ByteSize) :
    (labelOf source d span).start = span.start := by
  simp [labelOf, Nat.min_eq_left ends.1, Nat.min_eq_left ends.2]

theorem stop_labelOf (ends : span.EndsBy source.utf8ByteSize) :
    (labelOf source d span).stop = span.stop := by
  simp [labelOf, Nat.min_eq_left ends.2]

theorem rows_of_outside
    (outside : source = "" ∨ source.length < (labelOf source d span).last) :
    rows path source d span = [headRow d] := by
  have none := locate?_eq_none outside
  cases start : locate? (sourceLines source) (labelOf source d span).start <;>
    simp [rows, start, none]

theorem exists_rows_of_inside (path : String) (nonempty : source ≠ "")
    (start : (labelOf source d span).start ≤ source.length)
    (inside : (labelOf source d span).last ≤ source.length) :
    ∃ first last, Holds source (labelOf source d span).start first ∧
      Holds source (labelOf source d span).last last ∧
      rows path source d span = headRow d ::
        bodyRows path (sourceLines source) (labelOf source d span) first last (remarks d) := by
  obtain ⟨first, startFound, startHeld⟩ := exists_locate? nonempty start
  obtain ⟨last, lastFound, lastHeld⟩ := exists_locate? nonempty inside
  refine ⟨first, last, startHeld, lastHeld, ?_⟩
  simp only [rows, startFound, lastFound]

/-- A report points at the line that holds the character with the number of the first byte of the
span, if it points at any. -/
theorem pointsAt_rows_iff (ends : span.EndsBy source.utf8ByteSize) (n : Nat) :
    PointsAt (rows path source d span) path source n ↔
      Drawn source span ∧ n = linesEnded (lineTexts source.toList) span.start + 1 ∧
        ∀ line ∈ (lineTexts source.toList).take (n - 1), '\n' ∈ line := by
  have starts := start_labelOf (d := d) ends
  have stops := stop_labelOf (d := d) ends
  have lastIs : (labelOf source d span).last = max (span.stop - 1) span.start := by
    rw [Label.last, starts, stops]
  rw [drawn_iff ends.1 lastIs]
  by_cases outside : source = "" ∨ source.length < (labelOf source d span).last
  · rw [rows_of_outside outside]
    constructor
    · rintro ⟨⟨gap, column, named⟩, -⟩
      cases named
    · rintro ⟨⟨nonempty, inside, -⟩, -⟩
      rcases outside with empty | beyond
      · exact absurd empty nonempty
      · omega
  · obtain ⟨nonempty, inside⟩ := not_or.mp outside
    have inside := Nat.le_of_not_lt inside
    obtain ⟨first, last, startHeld, lastHeld, parts⟩ :=
      exists_rows_of_inside path nonempty (by omega) inside
    rw [parts, pointsAt_body_iff d startHeld lastHeld inside, startHeld.index, lastHeld.index,
      starts, stops]
    simp [nonempty, inside]

/-- What stands in front of a span decides: as many lines of the report have to end by the character
with the number of the first byte as there are line feeds in front of that byte, and each of them
with a line feed. -/
theorem pointsAt_lineOf_iff {front text back : List Char}
    (cut : source.toList = front ++ text ++ back)
    (spanIs : span = ⟨byteLength front, byteLength (front ++ text)⟩) :
    PointsAt (rows path source d span) path source (lineOf source span.start) ↔
      Drawn source span ∧ linesEnded (lineTexts source.toList) span.start = front.count '\n' ∧
        ∀ line ∈ (lineTexts source.toList).take (front.count '\n'), '\n' ∈ line := by
  have marks : span.Marks source text := ⟨front, back, cut, spanIs⟩
  have ends : span.EndsBy source.utf8ByteSize := by
    refine ⟨?_, marks.inside⟩
    rw [spanIs, Lexeme.byteLength_append]
    exact Nat.le_add_right _ _
  have line : lineOf source span.start = front.count '\n' + 1 := by
    rw [spanIs]
    exact lineOf_byteLength (by rw [cut, List.append_assoc])
  rw [pointsAt_rows_iff ends, line, Nat.add_right_cancel_iff, Nat.add_sub_cancel,
    eq_comm (a := front.count '\n')]

end Rows

/-- A report with a source is made of these rows. They point at the line of the span exactly if the
label is drawn and the lines that the report counts by characters are those that line feeds end in
front of the span's first byte. -/
theorem pointsAt_line_iff {r : Reporter} {d : Diagnostic} {path source : String}
    {front text back : List Char} {span : Span} (attached : r.source? = some (path, source))
    (cut : source.toList = front ++ text ++ back)
    (spanIs : span = ⟨byteLength front, byteLength (front ++ text)⟩)
    (marked : d.span? = some span) :
    r.render d = String.join ((rows path source d span).map (Row.render r.snippetColors)) ∧
      (PointsAt (rows path source d span) path source (lineOf source span.start) ↔
        Drawn source span ∧ linesEnded (lineTexts source.toList) span.start = front.count '\n' ∧
          ∀ line ∈ (lineTexts source.toList).take (front.count '\n'), '\n' ∈ line) := by
  constructor
  · simp [Reporter.render, attached, marked, render]
  · exact pointsAt_lineOf_iff cut spanIs

/-- One character of two bytes in front moves a report on by one character, which is still on the
line of the span here. -/
theorem pointsAt_line_oneWide :
    PointsAt (rows "p" "'é'\nx\ny\n" ⟨.error, "m", none, some ⟨5, 6⟩, none, [], []⟩ ⟨5, 6⟩) "p"
      "'é'\nx\ny\n" (lineOf "'é'\nx\ny\n" 5) := by
  have cut : "'é'\nx\ny\n".toList = "'é'\n".toList ++ ['x'] ++ "\ny\n".toList := by decide
  have spanIs :
      (⟨5, 6⟩ : Span) = ⟨byteLength "'é'\n".toList, byteLength ("'é'\n".toList ++ ['x'])⟩ := by
    decide
  have report := pointsAt_line_iff (r := ⟨some ("p", "'é'\nx\ny\n"), false, false⟩)
    (d := ⟨.error, "m", none, some ⟨5, 6⟩, none, [], []⟩) rfl cut spanIs rfl
  exact report.2.mpr ⟨⟨by decide, .inl (by decide)⟩, by decide, by decide⟩

/-- Two of them move it to the line below: the span is on line 2, and the header names line 3. -/
theorem not_pointsAt_twoWide :
    (⟨7, 8⟩ : Span).Marks "'éé'\nx\ny\n" ['x'] ∧ lineOf "'éé'\nx\ny\n" 7 = 2 ∧
      ∀ d, ¬ PointsAt (rows "p" "'éé'\nx\ny\n" d ⟨7, 8⟩) "p" "'éé'\nx\ny\n" 2 ∧
        ∃ gap column, (rows "p" "'éé'\nx\ny\n" d ⟨7, 8⟩)[1]?.map Row.text =
          some (header gap "p" 3 column) := by
  have ends : (⟨7, 8⟩ : Span).EndsBy "'éé'\nx\ny\n".utf8ByteSize := ⟨by decide, by decide⟩
  refine ⟨⟨"'éé'\n".toList, "\ny\n".toList, by decide, by decide⟩, by decide, fun d => ⟨?_, ?_⟩⟩
  · rw [pointsAt_rows_iff ends]
    rintro ⟨-, line, -⟩
    exact absurd line (by decide)
  · have below : PointsAt (rows "p" "'éé'\nx\ny\n" d ⟨7, 8⟩) "p" "'éé'\nx\ny\n" 3 :=
      (pointsAt_rows_iff ends 3).mpr ⟨⟨by decide, .inl (by decide)⟩, by decide, by decide⟩
    exact below.named

/-! ## Plain sources -/

theorem linesEnded_cons_zero {line : List Char} (lines : List (List Char)) (some : line ≠ []) :
    linesEnded (line :: lines) 0 = 0 := by
  cases lines <;> simp [linesEnded, some]

theorem linesEnded_zero (cs : List Char) : linesEnded (lineTexts cs) 0 = 0 := by
  fun_cases lineTexts cs with
  | case1 => rfl
  | _ => exact linesEnded_cons_zero _ (List.cons_ne_nil _ _)

theorem lineTexts_of_inside {c : Char} (cs : List Char) (inside : isLineEnd c = false) :
    lineTexts (c :: cs) =
      match lineTexts cs with
      | [] => [[c]]
      | line :: lines => (c :: line) :: lines := by
  have notReturn : c ≠ '\r' := by
    rintro rfl
    cases inside
  rw [lineTexts]
  · cases lineTexts cs <;> simp [inside]
  · intro rest same
    exact absurd same notReturn

theorem linesEnded_of_inside {c : Char} (cs : List Char) (n : Nat) (inside : isLineEnd c = false) :
    linesEnded (lineTexts (c :: cs)) (n + 1) = linesEnded (lineTexts cs) n := by
  rw [lineTexts_of_inside cs inside]
  cases lineTexts cs with
  | nil => rfl
  | cons line lines => cases lines <;> simp [linesEnded]

theorem linesEnded_of_feed {cs : List Char} (n : Nat) (some : cs ≠ []) :
    linesEnded (lineTexts ('\n' :: cs)) (n + 1) = linesEnded (lineTexts cs) n + 1 := by
  have lines : lineTexts cs ≠ [] := by
    intro none
    exact some (by rw [← flatten_lineTexts cs, none, List.flatten_nil])
  obtain ⟨next, rest, parts⟩ := List.exists_cons_of_ne_nil lines
  have feed : lineTexts ('\n' :: cs) = ['\n'] :: lineTexts cs := rfl
  rw [feed, parts]
  simp [linesEnded]

theorem linesEnded_plain {front rest : List Char}
    (feeds : ∀ c ∈ front, isLineEnd c = true → c = '\n')
    (followed : front.getLast? = some '\n' → rest ≠ []) :
    linesEnded (lineTexts (front ++ rest)) front.length = front.count '\n' := by
  induction front with
  | nil => exact linesEnded_zero rest
  | cons c front ih =>
    have below : linesEnded (lineTexts (front ++ rest)) front.length = front.count '\n' := by
      refine ih (fun c mem => feeds c (List.mem_cons_of_mem _ mem)) fun last => followed ?_
      rw [List.getLast?_cons, last]
      rfl
    by_cases feed : c = '\n'
    · subst feed
      have some : front ++ rest ≠ [] := by
        intro none
        obtain ⟨rfl, rfl⟩ := List.append_eq_nil_iff.mp none
        exact followed rfl rfl
      rw [List.cons_append, List.length_cons, linesEnded_of_feed _ some, below,
        List.count_cons_self]
    · have inside : isLineEnd c = false :=
        Bool.eq_false_iff.mpr fun ends => feed (feeds c List.mem_cons_self ends)
      rw [List.cons_append, List.length_cons, linesEnded_of_inside _ _ inside, below,
        List.count_cons_of_ne feed]

theorem feeds_plain {front : List Char} (rest : List Char)
    (feeds : ∀ c ∈ front, isLineEnd c = true → c = '\n') :
    ∀ line ∈ (lineTexts (front ++ rest)).take (front.count '\n'), '\n' ∈ line := by
  induction front with
  | nil => simp
  | cons c front ih =>
    have below := ih fun c mem => feeds c (List.mem_cons_of_mem _ mem)
    by_cases feed : c = '\n'
    · subst feed
      have lines : lineTexts ('\n' :: (front ++ rest)) = ['\n'] :: lineTexts (front ++ rest) := rfl
      rw [List.cons_append, lines, List.count_cons_self, List.take_succ_cons, List.forall_mem_cons]
      exact ⟨List.mem_singleton_self _, below⟩
    · have inside : isLineEnd c = false :=
        Bool.eq_false_iff.mpr fun ends => feed (feeds c List.mem_cons_self ends)
      rw [List.cons_append, lineTexts_of_inside _ inside, List.count_cons_of_ne feed]
      cases parts : lineTexts (front ++ rest) with
      | nil =>
        have none : front ++ rest = [] := by
          rw [← flatten_lineTexts (front ++ rest), parts, List.flatten_nil]
        obtain ⟨rfl, rfl⟩ := List.append_eq_nil_iff.mp none
        simp
      | cons line lines =>
        rw [parts] at below
        cases number : front.count '\n' with
        | zero => simp
        | succ k =>
          rw [number, List.take_succ_cons, List.forall_mem_cons] at below
          rw [List.take_succ_cons, List.forall_mem_cons]
          exact ⟨List.mem_cons_of_mem _ below.1, below.2⟩

theorem byteLength_of_narrow {cs : List Char} (narrow : ∀ c ∈ cs, c.utf8Size = 1) :
    byteLength cs = cs.length := by
  induction cs with
  | nil => rfl
  | cons c cs ih =>
    rw [byteLength, narrow c List.mem_cons_self, List.length_cons,
      ih fun c mem => narrow c (List.mem_cons_of_mem _ mem), Nat.add_comm]

/-- A report points at the line of its span where only line feeds end lines in front of it and all
characters up to its end are one byte long. The place behind the line feed at the end of a source
is on no line of a report. -/
theorem pointsAt_line_of_plain {path source : String} {d : Diagnostic}
    {front text back : List Char} {span : Span} (nonempty : source ≠ "")
    (cut : source.toList = front ++ text ++ back)
    (spanIs : span = ⟨byteLength front, byteLength (front ++ text)⟩)
    (narrow : ∀ c ∈ front ++ text, c.utf8Size = 1)
    (feeds : ∀ c ∈ front, isLineEnd c = true → c = '\n')
    (followed : front.getLast? = some '\n' → text ++ back ≠ []) :
    PointsAt (rows path source d span) path source (lineOf source span.start) := by
  have start : span.start = front.length := by
    rw [spanIs]
    exact byteLength_of_narrow fun c mem => narrow c (List.mem_append_left _ mem)
  have stop : span.stop = (front ++ text).length := by
    rw [spanIs]
    exact byteLength_of_narrow narrow
  have length : source.length = (front ++ text).length + back.length := by
    rw [← String.length_toList, cut, List.length_append]
  rw [pointsAt_lineOf_iff cut spanIs, start, cut, List.append_assoc,
    linesEnded_plain feeds followed]
  exact ⟨⟨nonempty, .inl (by omega)⟩, rfl, feeds_plain _ feeds⟩

end ExprCheck.Snippet
