import ScriptKit.Editor.Document
import ScriptKit.Proofs.ErrorOrder
import ScriptKit.Proofs.Lexemes

/-!
# The lines that diagnostics mark

The lines of errors are counted by line feeds, those of an editor by all line breaks. The two counts
agree in front of an error: what stands there can be scanned, so a break in it is a line feed or a
carriage return, and a carriage return is one break with the line feed behind it. So each diagnostic
marks the line in which the stray character or the token stands that the error is about. An error
about the end of the text is marked in the last line if that is unfinished, and else behind all
lines.
-/

set_option autoImplicit false

namespace ScriptKit

open Token

namespace Text

/-! ## Lines up to a place -/

/-- Each carriage return is directly followed by a line feed. -/
def PairedReturns (text : List Char) : Prop :=
  ∀ i < text.length, text[i]? = some '\r' → text[i + 1]? = some '\n'

instance (text : List Char) : Decidable (PairedReturns text) :=
  inferInstanceAs (Decidable (∀ i < text.length, text[i]? = some '\r' → text[i + 1]? = some '\n'))

variable {begun front part rest : List Char} {c : Char}

/-- Carriage returns are still paired without the first character. -/
theorem PairedReturns.tail (h : PairedReturns (c :: rest)) : PairedReturns rest := by
  intro i hi hreturn
  exact h (i + 1) (Nat.succ_lt_succ hi) hreturn

/-- Returns are paired in front of a place where no line feed stands. -/
theorem PairedReturns.of_append (h : PairedReturns (front ++ rest))
    (hrest : rest.head? ≠ some '\n') : PairedReturns front := by
  intro i hi hreturn
  have hlt : i < (front ++ rest).length := by
    rw [List.length_append]
    omega
  have hnext := h i hlt (by rw [List.getElem?_append_left hi, hreturn])
  by_cases hlast : i + 1 = front.length
  · rw [List.getElem?_append_right (by omega), hlast, Nat.sub_self,
      ← List.head?_eq_getElem?] at hnext
    exact absurd hnext hrest
  · rwa [List.getElem?_append_left (by omega)] at hnext

/-- No character of a lexeme breaks a line. -/
theorem isLineBreak_eq_false (h : isLetter c = true ∨ isFigure c = true ∨ isMarkChar c = true) :
    isLineBreak c = false := by
  rw [isLetter_iff, isFigure_iff, isMarkChar_iff] at h
  rcases h with h | h | h
  · simp [isLineBreak]
    omega
  · simp [isLineBreak]
    omega
  · have hall : ∀ mark ∈ ['=', '(', ')', '{', '}', ';', '+', '-', '*', '/', '%', '<', '>'],
        isLineBreak mark = false := by simp [isLineBreak]
    exact hall c h

/-- A break among the characters that can be scanned is a line feed or a carriage return. -/
theorem eq_of_isLineBreak (hbreak : isLineBreak c = true) (h : isForeign c = false) :
    c = '\n' ∨ c = '\r' := by
  have hlexeme : ¬ (isLetter c = true ∨ isFigure c = true ∨ isMarkChar c = true) := by
    intro hc
    rw [isLineBreak_eq_false hc] at hbreak
    cases hbreak
  have hseparates : separates c = true := by
    by_contra hne
    rw [← Bool.not_eq_true, isForeign_iff] at h
    simp_all
  simp only [separates, Bool.or_eq_true, decide_eq_true_eq] at hseparates
  rcases hseparates with ((rfl | rfl) | rfl) | rfl
  · cases hbreak
  · cases hbreak
  · exact .inr rfl
  · exact .inl rfl

/-- A break of one character ends the line, and the next one is begun with nothing. -/
theorem linesFrom_break (hreturn : c ≠ '\r') (h : isLineBreak c = true) :
    linesFrom begun (c :: rest) = ⟨begun.reverse, [c]⟩ :: linesFrom [] rest := by
  rw [linesFrom, if_pos h]
  intro after hc
  exact absurd hc hreturn

/-- Any other character goes on with the line. -/
theorem linesFrom_cons_of_unbroken (h : isLineBreak c = false) :
    linesFrom begun (c :: rest) = linesFrom (c :: begun) rest := by
  rw [linesFrom, if_neg (by simp [h])]
  rintro after rfl
  exact absurd h (by decide)

/-- What has no break goes into the line that is begun. -/
theorem linesFrom_append_of_unbroken (h : ∀ c ∈ part, isLineBreak c = false) :
    linesFrom begun (part ++ rest) = linesFrom (part.reverse ++ begun) rest := by
  induction part generalizing begun with
  | nil => rfl
  | cons c part ih =>
    rw [List.forall_mem_cons] at h
    rw [List.cons_append, linesFrom_cons_of_unbroken h.1, ih h.2]
    simp

/-- A line that is begun goes on to its end. -/
theorem exists_linesFrom_eq_cons (hbegun : begun ≠ []) (rest : List Char) :
    ∃ line after more, linesFrom begun rest = line :: after ∧
      line.text = begun.reverse ++ more := by
  fun_induction linesFrom begun rest with
  | case1 begun hempty => exact absurd (List.isEmpty_iff.mp hempty) hbegun
  | case2 begun hempty => exact ⟨_, _, [], rfl, rfl⟩
  | case3 begun rest ih => exact ⟨_, _, ['\r', '\n'], rfl, rfl⟩
  | case4 begun c rest hmatch hbreak ih => exact ⟨_, _, [c], rfl, rfl⟩
  | case5 begun c rest hmatch hbreak ih =>
    obtain ⟨line, after, more, hlines, htext⟩ := ih (List.cons_ne_nil c begun)
    exact ⟨line, after, c :: more, hlines, by simp [htext]⟩

/-- Up to the place behind `front` the lines `before` are finished, as many as there are line feeds,
and the line of that place is begun with `column`. -/
structure Reaches (begun front : List Char) (before : List Line) (column : List Char) : Prop where
  linesFrom_append : ∀ rest,
    linesFrom begun (front ++ rest) = before ++ linesFrom column.reverse rest
  length_eq : before.length = front.count '\n'
  text_eq : begun.reverse ++ front = before.flatMap Line.text ++ column
  ending_ne : ∀ line ∈ before, line.ending ≠ []

/-- One line more in front. -/
theorem Reaches.cons_line {column : List Char} {before : List Line}
    (h : Reaches [] front before column) (ending : List Char) (hcount : ending.count '\n' = 1)
    (hlines : ∀ rest,
      linesFrom begun (ending ++ rest) = ⟨begun.reverse, ending⟩ :: linesFrom [] rest) :
    Reaches begun (ending ++ front) (⟨begun.reverse, ending⟩ :: before) column where
  linesFrom_append := by
    intro rest
    rw [List.append_assoc, hlines, h.linesFrom_append, List.cons_append]
  length_eq := by
    rw [List.length_cons, h.length_eq, List.count_append, hcount, Nat.add_comm]
  text_eq := by
    have htext := h.text_eq
    rw [List.reverse_nil, List.nil_append] at htext
    simp [Line.text, htext]
  ending_ne := by
    rw [List.forall_mem_cons]
    refine ⟨?_, h.ending_ne⟩
    rintro rfl
    simp at hcount

/-- A place is reached if what stands in front of it can be scanned and has only paired returns. -/
theorem exists_reaches (begun : List Char) (hfront : ∀ c ∈ front, isForeign c = false)
    (hpaired : PairedReturns front) : ∃ before column, Reaches begun front before column := by
  -- The recursion of the lines is followed on the part in front of the place alone.
  fun_induction linesFrom begun front with
  | case1 begun hempty => exact ⟨[], begun.reverse, by simp, rfl, by simp, by simp⟩
  | case2 begun hempty => exact ⟨[], begun.reverse, by simp, rfl, by simp, by simp⟩
  | case3 begun tail ih =>
    rw [List.forall_mem_cons, List.forall_mem_cons] at hfront
    obtain ⟨before, column, hreaches⟩ := ih hfront.2.2 hpaired.tail.tail
    exact ⟨_, column, hreaches.cons_line ['\r', '\n'] (by decide) fun rest => rfl⟩
  | case4 begun c tail hmatch hbreak ih =>
    rw [List.forall_mem_cons] at hfront
    have hc : c = '\n' := by
      rcases eq_of_isLineBreak hbreak hfront.1 with hc | rfl
      · exact hc
      · have hnext := hpaired 0 (by simp) rfl
        rw [List.getElem?_cons_succ, ← List.head?_eq_getElem?] at hnext
        obtain ⟨rest, rfl⟩ := List.head?_eq_some_iff.mp hnext
        exact absurd rfl (hmatch rest rfl)
    subst hc
    obtain ⟨before, column, hreaches⟩ := ih hfront.2 hpaired.tail
    exact ⟨_, column, hreaches.cons_line ['\n'] (by decide) fun rest =>
      linesFrom_break (by decide) hbreak⟩
  | case5 begun c tail hmatch hbreak ih =>
    rw [Bool.not_eq_true] at hbreak
    rw [List.forall_mem_cons] at hfront
    obtain ⟨before, column, hreaches⟩ := ih hfront.2 hpaired.tail
    have hc : c ≠ '\n' := by
      rintro rfl
      exact absurd hbreak (by decide)
    refine ⟨before, column, ?_, ?_, ?_, hreaches.ending_ne⟩
    · intro rest
      rw [List.cons_append, linesFrom_cons_of_unbroken hbreak, hreaches.linesFrom_append]
    · rw [hreaches.length_eq, List.count_cons_of_ne hc]
    · rw [← hreaches.text_eq]
      simp

/-- Whatever stands around the characters, they stand in one line. -/
def InOneLine (part : List Char) : Prop :=
  ∀ begun rest, ∃ line after more, linesFrom begun (part ++ rest) = line :: after ∧
    line.text = begun.reverse ++ part ++ more

/-- Characters without a break among them stand in one line. -/
theorem inOneLine_of_unbroken (hpart : part ≠ []) (h : ∀ c ∈ part, isLineBreak c = false) :
    InOneLine part := by
  intro begun rest
  have hbegun : part.reverse ++ begun ≠ [] := by simp [hpart]
  obtain ⟨line, after, more, hlines, htext⟩ := exists_linesFrom_eq_cons hbegun rest
  refine ⟨line, after, more, ?_, ?_⟩
  · rw [linesFrom_append_of_unbroken h, hlines]
  · rw [htext, List.reverse_append, List.reverse_reverse]

/-- A single character that is no carriage return stands in one line, which it may end. -/
theorem inOneLine_singleton (hc : c ≠ '\r') : InOneLine [c] := by
  cases hbreak : isLineBreak c with
  | false => exact inOneLine_of_unbroken (by simp) (by simpa using hbreak)
  | true =>
    intro begun rest
    exact ⟨_, _, [], linesFrom_break hc hbreak, by simp [Line.text]⟩

/-- A lexeme stands in one line. -/
theorem inOneLine_lexeme (segment : Segment) : InOneLine segment.lexeme :=
  inOneLine_of_unbroken segment.isLexeme.ne_nil fun c hmem =>
    isLineBreak_eq_false (segment.isLexeme.forall_mem c hmem)

end Text

namespace Program

/-- A program without tokens has no errors. -/
theorem errors_eq_nil_of_tokens_eq_nil (file : Option String) {tokens : TokenList}
    (h : tokens.tokens = []) : (ofTokens file tokens).errors = [] := by
  have hstop : (Cursor.start file tokens).isAtEnd = true := by
    simp [Cursor.isAtEnd, Cursor.start, h]
  have hout : Walk.outcome Grammar.program (Cursor.start file tokens) =
      ([], Cursor.start file tokens) := Grammar.outcome_declarations_of_stop hstop
  rw [errors_ofTokens, hout]
  rfl

end Program

/-! ## Marked lines -/

namespace Editor

open Text

/-- The stretch is the whole line in which `part` stands, behind `front`. -/
def MarksLine (lines : List Line) (front part : List Char) (range : Stretch) : Prop :=
  ∃ before line after column more, lines = before ++ line :: after ∧
    front = before.flatMap Line.text ++ column ∧ line.text = column ++ part ++ more ∧
    range = ⟨before.length, line.content.length⟩

/-- The stretch is the last line if that has no break, and else it is empty and behind all lines. -/
def MarksEnd (lines : List Line) (range : Stretch) : Prop :=
  ∃ before line, lines = before ++ [line] ∧
    (line.ending = [] ∧ range = ⟨before.length, line.content.length⟩ ∨
      line.ending ≠ [] ∧ range = ⟨lines.length, 0⟩)

variable {front part rest : List Char}

/-- The line with as many lines in front of it as there are line feeds in front of a place is the
line of that place. -/
theorem marksLine_wholeLine (hfront : ∀ c ∈ front, isForeign c = false)
    (hpaired : PairedReturns front) (hpart : InOneLine part) :
    MarksLine (linesFrom [] (front ++ (part ++ rest))) front part
      (wholeLine (linesFrom [] (front ++ (part ++ rest))) (front.count '\n')) := by
  obtain ⟨before, column, hreaches⟩ := exists_reaches [] hfront hpaired
  obtain ⟨line, after, more, hlines, htext⟩ := hpart column.reverse rest
  rw [List.reverse_reverse] at htext
  rw [hreaches.linesFrom_append, hlines, ← hreaches.length_eq]
  refine ⟨before, line, after, column, more, rfl, hreaches.text_eq, htext, ?_⟩
  simp [wholeLine]

/-- The line with as many lines in front of it as there are line feeds in a text is its last line,
if that has no break. -/
theorem marksEnd_wholeLine (hne : front ≠ []) (hfront : ∀ c ∈ front, isForeign c = false)
    (hpaired : PairedReturns front) :
    MarksEnd (linesFrom [] front) (wholeLine (linesFrom [] front) (front.count '\n')) := by
  obtain ⟨before, column, hreaches⟩ := exists_reaches [] hfront hpaired
  have hlines := hreaches.linesFrom_append []
  rw [List.append_nil] at hlines
  rw [hlines, ← hreaches.length_eq]
  by_cases hcolumn : column = []
  · subst hcolumn
    have hbefore : before ≠ [] := by
      rintro rfl
      exact hne hreaches.text_eq
    refine ⟨before.dropLast, before.getLast hbefore, ?_, .inr ⟨?_, ?_⟩⟩
    · simp [linesFrom, List.dropLast_append_getLast hbefore]
    · exact hreaches.ending_ne _ (List.getLast_mem hbefore)
    · simp [linesFrom, wholeLine]
  · exact ⟨before, ⟨column, []⟩, by simp [linesFrom, hcolumn],
      .inl ⟨rfl, by simp [linesFrom, hcolumn, wholeLine]⟩⟩

/-- The diagnostic tells of the error and marks the line in which its token stands, which is the
lexeme with the index of the error, or the end of the text. -/
structure Points (lines : List Line) (s : Segmentation) (error : SyntaxError)
    (diagnostic : Diagnostic) : Prop where
  message_eq : diagnostic.message = (error.report (some "<document>")).message
  marksLine : ∀ token, error.found = some token → ∃ before segment after,
    s.segments = before ++ segment :: after ∧ before.length = error.index ∧
      token.text = String.ofList segment.lexeme ∧
      MarksLine lines (before.flatMap Segment.text ++ segment.gap) segment.lexeme diagnostic.range
  marksEnd : error.found = none → MarksEnd lines diagnostic.range

section Points

variable {s : Segmentation} {error : SyntaxError} {token : Token}

/-- The token that an error names is a lexeme of the text, and the line of the error is that of the
lexeme. -/
theorem exists_segment_of_located (h : error.Located s.tokens) (hfound : error.found = some token) :
    ∃ before segment after, s.segments = before ++ segment :: after ∧
      before.length = error.index ∧ token.text = String.ofList segment.lexeme ∧
      error.line = 1 + (before.flatMap Segment.text ++ segment.gap).count '\n' := by
  have hlt : error.index < s.tokens.tokens.length := by
    have hle := h.index_le
    have hend := mt h.atEnd_iff.mpr (by simp [SyntaxError.atEnd, hfound])
    omega
  have htoken : s.tokens.tokens[error.index]? = some token := by
    have heq := h.found_eq
    rw [TokenList.withEnd, List.getElem?_append_left (by simpa using hlt), List.getElem?_map,
      hfound, Option.map_eq_some_iff] at heq
    obtain ⟨found, hsome, heq⟩ := heq
    rw [hsome, heq]
  have hline : token.line = error.line := by
    have heq := h.line_eq
    rw [TokenList.lines, List.getElem?_append_left (by simpa using hlt), List.getElem?_map,
      htoken] at heq
    exact Option.some.inj heq
  have hsegment := htoken
  rw [Segmentation.tokens, Segment.getElem?_tokensFrom, Option.map_eq_some_iff] at hsegment
  obtain ⟨segment, hsegment, rfl⟩ := hsegment
  obtain ⟨hindex, hsegment⟩ := List.getElem?_eq_some_iff.mp hsegment
  refine ⟨s.segments.take error.index, segment, s.segments.drop (error.index + 1), ?_, ?_, rfl,
    hline.symm⟩
  · rw [← hsegment, ← List.drop_eq_getElem_cons hindex, List.take_append_drop]
  · rw [List.length_take]
    omega

/-- An error about the end of the text is on the line on which the text ends. -/
theorem line_eq_of_located (h : error.Located s.tokens) (hfound : error.found = none) :
    error.line = 1 + s.text.count '\n' := by
  have hindex := h.atEnd_iff.mp (by simp [SyntaxError.atEnd, hfound])
  have hline := h.line_eq
  rw [hindex, TokenList.lines, List.getElem?_append_right (by simp)] at hline
  simpa [Segmentation.tokens] using hline.symm

/-- The diagnostic for an error that names its token points at the token. -/
theorem points_diagnosticFor (hpaired : PairedReturns s.text) (hne : s.text ≠ [])
    (h : error.Located s.tokens) :
    Points (linesFrom [] s.text) s error
      (diagnosticFor (linesFrom [] s.text) error.line (error.report (some "<document>"))) where
  message_eq := rfl
  marksLine := by
    intro token hfound
    obtain ⟨before, segment, after, hsplit, hindex, htoken, hline⟩ :=
      exists_segment_of_located h hfound
    refine ⟨before, segment, after, hsplit, hindex, htoken, ?_⟩
    have htext : s.text = (before.flatMap Segment.text ++ segment.gap) ++
        (segment.lexeme ++ Segment.join after s.last) := by
      simp [Segmentation.text, Segment.join, hsplit, Segment.text]
    have hfront : ∀ c ∈ before.flatMap Segment.text ++ segment.gap, isForeign c = false := by
      intro c hmem
      apply s.isForeign_eq_false
      rw [htext]
      exact List.mem_append_left _ hmem
    have hhead : (segment.lexeme ++ Segment.join after s.last).head? ≠ some '\n' := by
      obtain ⟨c, rest, hlexeme, hc⟩ := segment.exists_lexeme_eq_cons
      rw [hlexeme]
      rintro heq
      rw [Option.some.inj heq] at hc
      exact absurd hc (by decide)
    rw [htext] at hpaired ⊢
    rw [diagnosticFor, hline, Nat.add_sub_cancel_left]
    exact marksLine_wholeLine hfront (hpaired.of_append hhead) (inOneLine_lexeme segment)
  marksEnd := by
    intro hfound
    rw [diagnosticFor, line_eq_of_located h hfound, Nat.add_sub_cancel_left]
    exact marksEnd_wholeLine hne (fun c hmem => s.isForeign_eq_false hmem) hpaired

end Points

variable {text : String}

/-- A text that cannot be scanned has one diagnostic, which tells of the stray character. -/
theorem diagnostics_of_stray {stray : StrayCharacter} (h : TokenList.ofText text = .error stray) :
    diagnostics text =
      [diagnosticFor (lines text) stray.line (stray.report (some "<document>"))] := by
  simp only [diagnostics, Program.ofText, h, Except.map]

/-- A text that can be scanned has a diagnostic for each syntax error, in order. -/
theorem diagnostics_of_program {program : Program}
    (h : Program.ofText (some "<document>") text = .ok program) :
    diagnostics text = program.errors.map fun error =>
      diagnosticFor (lines text) error.line (error.report (some "<document>")) := by
  simp only [diagnostics, h]

/-- Where carriage returns are paired, a text with a stray character has one diagnostic, which marks
the line of that character. A text that can be scanned has one for each error of its program, in
order, which marks the line of the token that the error is about, or the end of the text. -/
theorem diagnostics_mark_lines (text : String) (h : PairedReturns text.toList) :
    (∀ stray, TokenList.ofText text = .error stray → ∃ (s : Segmentation) (rest : List Char),
      text.toList = s.text ++ stray.char :: rest ∧ ∃ diagnostic, diagnostics text = [diagnostic] ∧
        diagnostic.message = (stray.report (some "<document>")).message ∧
        MarksLine (lines text) s.text [stray.char] diagnostic.range) ∧
    ∀ program, Program.ofText (some "<document>") text = .ok program → ∃ s : Segmentation,
      s.text = text.toList ∧ s.tokens = program.tokens ∧
        List.Forall₂ (Points (lines text) s) program.errors (diagnostics text) := by
  constructor
  · intro stray hstray
    obtain ⟨s, rest, htext, hline, hforeign⟩ := TokenList.exists_segmentation_of_stray hstray
    refine ⟨s, rest, htext, _, diagnostics_of_stray hstray, rfl, ?_⟩
    obtain ⟨hline', hreturn⟩ := ne_of_isForeign hforeign
    have hhead : (stray.char :: rest).head? ≠ some '\n' := by simpa using hline'
    rw [htext] at h
    rw [diagnosticFor, hline, Nat.add_sub_cancel_left, lines, htext]
    exact marksLine_wholeLine (fun c hmem => s.isForeign_eq_false hmem) (h.of_append hhead)
      (inOneLine_singleton hreturn)
  · intro program hprogram
    obtain ⟨tokens, htokens, rfl⟩ := Program.exists_tokens_of_ofText hprogram
    obtain ⟨s, htext, hs⟩ := TokenList.exists_segmentation_of_ofText htokens
    refine ⟨s, htext, hs, ?_⟩
    rw [diagnostics_of_program hprogram, List.forall₂_map_right_iff, List.forall₂_same]
    intro error herror
    have hne : s.text ≠ [] := by
      intro hnil
      have hnone : tokens.tokens = [] := by rw [← hs, s.tokens_eq_nil_of_text_eq_nil hnil]
      rw [Program.errors_eq_nil_of_tokens_eq_nil _ hnone] at herror
      cases herror
    have hlocated := (Program.orderly_program (some "<document>") tokens).located error herror
    rw [← htext] at h
    rw [lines, ← htext]
    exact points_diagnosticFor h hne (hs ▸ hlocated)

/-- A text with both kinds of breaks. -/
def mixedBreaks : String := "var x = 1;\r\nprint (x;\n\x7b\n"

/-- A group is not closed on the second line, and a block is open at the end, which comes after the
break of the last line. -/
theorem diagnostics_mark_lines_mixedBreaks :
    PairedReturns mixedBreaks.toList ∧
      (diagnostics mixedBreaks).map Diagnostic.range = [⟨1, 9⟩, ⟨3, 0⟩] ∧
      ∃ (program : Program) (s : Segmentation),
        Program.ofText (some "<document>") mixedBreaks = .ok program ∧
        s.text = mixedBreaks.toList ∧ s.tokens = program.tokens ∧
        List.Forall₂ (Points (lines mixedBreaks) s) program.errors (diagnostics mixedBreaks) := by
  have hpaired : PairedReturns mixedBreaks.toList := by decide +kernel
  have htokens : TokenList.ofText mixedBreaks =
      .ok ⟨[⟨.varWord, "var", 1⟩, ⟨.name, "x", 1⟩, ⟨.assign, "=", 1⟩, ⟨.number, "1", 1⟩,
        ⟨.semicolon, ";", 1⟩, ⟨.printWord, "print", 2⟩, ⟨.openParen, "(", 2⟩, ⟨.name, "x", 2⟩,
        ⟨.semicolon, ";", 2⟩, ⟨.openBrace, "\x7b", 3⟩], 4⟩ := by decide +kernel
  have hprogram := Program.ofText_of_tokens (some "<document>") htokens
  obtain ⟨s, hpoints⟩ := (diagnostics_mark_lines mixedBreaks hpaired).2 _ hprogram
  exact ⟨hpaired, by decide +kernel, _, s, hprogram, hpoints⟩

end Editor

end ScriptKit
