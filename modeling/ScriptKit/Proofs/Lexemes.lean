import ScriptKit.Proofs.Seam

/-!
# The lexemes of a text

What a lexeme is can be said without a scan: digits, a word or one of the marks, and the kind of its
token follows from its characters. A `Segmentation` cuts a text into lexemes, with what separates
them in between, so that no lexeme could go on with the character behind it. Its tokens are read off
from the lexemes, and their lines from the line feeds in front of them.

Every text begins with a segmentation, behind which there is nothing more or a character that is
foreign to all lexemes. On such a text the scan finds the tokens of the segmentation and then ends,
or stops at the foreign character. So a text can be scanned exactly if it has a segmentation, the
tokens are those of the segmentation, and there is only one. A text cannot be scanned exactly if it
has a foreign character, and the first one is reported.
-/

set_option autoImplicit false

namespace ScriptKit

namespace Token

/-! ## Lexemes -/

/-- Is the character a letter from A to Z or from a to z, or the low line? -/
def isLetter (c : Char) : Bool := ('A' ≤ c && c ≤ 'Z') || ('a' ≤ c && c ≤ 'z') || c = '_'

/-- Is the character a digit from 0 to 9? -/
def isFigure (c : Char) : Bool := '0' ≤ c && c ≤ '9'

/-- Does the character stand between lexemes only? -/
def separates (c : Char) : Bool := c = ' ' || c = '\t' || c = '\r' || c = '\n'

/-- Is the character one that marks are made of? -/
def isMarkChar (c : Char) : Bool :=
  c ∈ ['=', '(', ')', '{', '}', ';', '+', '-', '*', '/', '%', '<', '>']

/-- Can the character stand in no text that can be scanned? -/
def isForeign (c : Char) : Bool := !(isLetter c || isFigure c || isMarkChar c || separates c)

/-- The scanner takes the digits from 0 to 9 for digits. -/
theorem isDigit_eq_isFigure (c : Char) : c.isDigit = isFigure c := by
  simp [isFigure, Char.isDigit, Char.le_def]

/-- The scanner begins a word with a letter or the low line. -/
theorem startsWord_eq_isLetter (c : Char) : startsWord c = isLetter c := by
  simp [isLetter, startsWord, Char.isAlpha, Char.isUpper, Char.isLower, Char.le_def]

/-- The scanner goes on with a word at letters, the low line and digits. -/
theorem continuesWord_eq (c : Char) : continuesWord c = (isLetter c || isFigure c) := by
  rw [← startsWord_eq_isLetter, ← isDigit_eq_isFigure, continuesWord, startsWord, Char.isAlphanum]
  cases c.isAlpha <;> cases c.isDigit <;> simp

/-- The digits by their codes. -/
theorem isFigure_iff (c : Char) : isFigure c = true ↔ 48 ≤ c.toNat ∧ c.toNat ≤ 57 := by
  simp only [isFigure, Bool.and_eq_true, decide_eq_true_eq, Char.le_def, UInt32.le_iff_toNat_le]
  rfl

/-- The letters and the low line by their codes. -/
theorem isLetter_iff (c : Char) :
    isLetter c = true ↔
      (65 ≤ c.toNat ∧ c.toNat ≤ 90) ∨ (97 ≤ c.toNat ∧ c.toNat ≤ 122) ∨ c.toNat = 95 := by
  have hlow : c = '_' ↔ c.toNat = 95 := by
    rw [← Char.toNat_inj]
    rfl
  simp only [isLetter, Bool.or_eq_true, Bool.and_eq_true, decide_eq_true_eq, Char.le_def,
    UInt32.le_iff_toNat_le, hlow, or_assoc]
  rfl

/-- A letter is no digit. -/
theorem isFigure_eq_false_of_isLetter {c : Char} (h : isLetter c = true) : isFigure c = false := by
  rw [isLetter_iff] at h
  rw [← Bool.not_eq_true, isFigure_iff]
  omega

/-- The characters that marks are made of, one by one. -/
theorem isMarkChar_iff (c : Char) :
    isMarkChar c = true ↔
      c ∈ ['=', '(', ')', '{', '}', ';', '+', '-', '*', '/', '%', '<', '>'] := by
  simp [isMarkChar]

/-- Of the characters that separate, the line feed is the one that is no gap. -/
theorem separates_eq (c : Char) : separates c = (isGap c || c = '\n') := rfl

/-- What lexemes are made of does not separate them. -/
theorem separates_eq_false {c : Char}
    (h : isLetter c = true ∨ isFigure c = true ∨ isMarkChar c = true) : separates c = false := by
  by_contra hne
  rw [Bool.not_eq_false] at hne
  simp only [separates, Bool.or_eq_true, decide_eq_true_eq, or_assoc] at hne
  rcases hne with rfl | rfl | rfl | rfl <;> revert h <;> decide

/-- A foreign character is of none of the other sorts. -/
theorem isForeign_iff (c : Char) :
    isForeign c = true ↔ isLetter c = false ∧ isFigure c = false ∧ isMarkChar c = false ∧
      separates c = false := by
  simp [isForeign, and_assoc]

/-- A foreign character is no line feed and no carriage return, which separate. -/
theorem ne_of_isForeign {c : Char} (h : isForeign c = true) : c ≠ '\n' ∧ c ≠ '\r' := by
  have hseparates := ((isForeign_iff c).mp h).2.2.2
  simp only [separates, Bool.or_eq_false_iff, decide_eq_false_iff_not] at hseparates
  exact ⟨hseparates.2, hseparates.1.2⟩

namespace Kind

/-- The keywords. -/
def keywords : List (String × Kind) :=
  [("if", .ifWord), ("else", .elseWord), ("while", .whileWord), ("var", .varWord),
    ("print", .printWord)]

/-- The marks. -/
def marks : List (List Char × Kind) :=
  [(['=', '='], .equal), (['='], .assign), (['('], .openParen), ([')'], .closeParen),
    (['{'], .openBrace), (['}'], .closeBrace), ([';'], .semicolon), (['+'], .plus), (['-'], .minus),
    (['*'], .times), (['/'], .divide), (['%'], .modulo), (['<'], .less), (['>'], .greater)]

/-- The kind of token that the characters are the lexeme of, if they are one: digits make a number,
a letter with letters and digits behind it makes a keyword if it is spelled exactly so and else a
name, and the other lexemes are the marks. -/
def ofLexeme? (lexeme : List Char) : Option Kind :=
  match lexeme with
  | [] => none
  | first :: rest =>
    if isFigure first && rest.all isFigure then some .number
    else if isLetter first && rest.all (fun c => isLetter c || isFigure c) then
      some ((keywords.lookup (String.ofList lexeme)).getD .name)
    else marks.lookup lexeme

/-- Would the lexeme of such a token go on with the character, if it stood directly behind? -/
def goesOnWith : Kind → Char → Bool
  | number, c => isFigure c
  | name, c | ifWord, c | elseWord, c | whileWord, c | varWord, c | printWord, c =>
    isLetter c || isFigure c
  | assign, c => c = '='
  | _, _ => false

/-- The lexemes and their kinds: numerals, words and marks. -/
inductive IsLexeme : List Char → Kind → Prop where
  | numeral {first : Char} {rest : List Char} (hfirst : isFigure first = true)
      (hrest : ∀ c ∈ rest, isFigure c = true) : IsLexeme (first :: rest) .number
  | word {first : Char} {rest : List Char} (hfirst : isLetter first = true)
      (hrest : ∀ c ∈ rest, (isLetter c || isFigure c) = true) :
      IsLexeme (first :: rest) (.ofWord (String.ofList (first :: rest)))
  | mark {lexeme : List Char} {kind : Kind} (h : (lexeme, kind) ∈ marks) : IsLexeme lexeme kind

/-- A word has the kind of a keyword only if it is one. -/
theorem lookup_keywords (word : String) : (keywords.lookup word).getD .name = ofWord word := by
  unfold keywords ofWord
  split_ifs <;> simp [List.lookup_cons, beq_eq_false_iff_ne.mpr, *]

/-- A mark is the lexeme of its own kind. -/
theorem ofLexeme?_of_mem_marks : ∀ mark ∈ marks, ofLexeme? mark.1 = some mark.2 := by decide

/-- The computed kind of a lexeme is the one that the rules give it. -/
theorem ofLexeme?_eq_some_iff {lexeme : List Char} {kind : Kind} :
    ofLexeme? lexeme = some kind ↔ IsLexeme lexeme kind := by
  constructor
  · intro h
    cases lexeme with
    | nil => simp [ofLexeme?] at h
    | cons first rest =>
      simp only [ofLexeme?, lookup_keywords] at h
      split_ifs at h with hnumeral hword
      · simp only [Bool.and_eq_true, List.all_eq_true] at hnumeral
        obtain rfl := Option.some.inj h
        exact .numeral hnumeral.1 hnumeral.2
      · simp only [Bool.and_eq_true, List.all_eq_true] at hword
        obtain rfl := Option.some.inj h
        exact .word hword.1 hword.2
      · obtain ⟨before, after, hmarks, -⟩ := List.lookup_eq_some_iff.mp h
        exact .mark (by simp [hmarks])
  · intro h
    cases h with
    | numeral hfirst hrest => simp [ofLexeme?, hfirst, List.all_eq_true.mpr hrest]
    | word hfirst hrest =>
      simp [ofLexeme?, hfirst, List.all_eq_true.mpr hrest, isFigure_eq_false_of_isLetter hfirst,
        lookup_keywords]
    | mark hmark => exact ofLexeme?_of_mem_marks _ hmark

/-- All words go on with the same characters, whatever they are. -/
theorem goesOnWith_ofWord (word : String) (c : Char) :
    (ofWord word).goesOnWith c = (isLetter c || isFigure c) := by
  unfold ofWord
  split_ifs <;> rfl

/-- No lexeme goes on with a foreign character. -/
theorem goesOnWith_of_isForeign {c : Char} (h : isForeign c = true) (kind : Kind) :
    kind.goesOnWith c = false := by
  obtain ⟨hletter, hfigure, hmark, -⟩ := (isForeign_iff c).mp h
  have hequal : c ≠ '=' := by
    rintro rfl
    exact absurd hmark (by decide)
  cases kind <;> simp [goesOnWith, hletter, hfigure, hequal]

/-- The scanner knows a mark for each character that marks are made of, and for no other one. -/
theorem isSome_ofMark? (c : Char) : (ofMark? c).isSome = isMarkChar c := by
  unfold ofMark?
  split
  all_goals first | rfl | simp_all [isMarkChar]

/-- Single marks are among the marks. -/
theorem mem_marks_of_ofMark? {c : Char} {kind : Kind} (h : ofMark? c = some kind) :
    ([c], kind) ∈ marks := by
  unfold ofMark? at h
  split at h <;> simp_all [marks]

/-- Of the single marks only that of an assignment could go on, to become that of equality. -/
theorem eq_of_goesOnWith {first c : Char} {kind : Kind} (h : ofMark? first = some kind)
    (hgoes : kind.goesOnWith c = true) : first = '=' ∧ c = '=' := by
  unfold ofMark? at h
  split at h <;> cases h
  · exact ⟨rfl, by simpa [goesOnWith] using hgoes⟩
  all_goals cases hgoes

/-- A lexeme is not empty. -/
theorem IsLexeme.ne_nil {lexeme : List Char} {kind : Kind} (h : IsLexeme lexeme kind) :
    lexeme ≠ [] := by
  cases h with
  | numeral | word => exact List.cons_ne_nil _ _
  | mark hmark =>
    have hall : ∀ mark ∈ marks, mark.1 ≠ [] := by decide
    exact hall _ hmark

/-- A lexeme is made of letters, digits and characters of marks. -/
theorem IsLexeme.forall_mem {lexeme : List Char} {kind : Kind} (h : IsLexeme lexeme kind) :
    ∀ c ∈ lexeme, isLetter c = true ∨ isFigure c = true ∨ isMarkChar c = true := by
  cases h with
  | numeral hfirst hrest => simp_all
  | word hfirst hrest =>
    rw [List.forall_mem_cons]
    refine ⟨.inl hfirst, fun c hmem => ?_⟩
    have hc := hrest c hmem
    rw [Bool.or_eq_true] at hc
    tauto
  | mark hmark =>
    have hall : ∀ mark ∈ marks, mark.1.all isMarkChar = true := by decide
    exact fun c hmem => .inr (.inr (List.all_eq_true.mp (hall _ hmark) c hmem))

end Kind

/-! ## The longest lexeme -/

section Munch

variable {p : Char → Bool} {run lexeme text rest tail : List Char} {kind : Kind} {c : Char}

/-- A run of characters is taken up to the first one that does not belong to it. -/
theorem takeWhile_run (hrun : ∀ c ∈ run, p c = true)
    (hnext : ∀ c, rest.head? = some c → p c = false) :
    (run ++ rest).takeWhile p = run ∧ (run ++ rest).dropWhile p = rest := by
  rw [List.takeWhile_append_of_pos hrun, List.dropWhile_append_of_pos hrun]
  cases rest with
  | nil => simp
  | cons c rest =>
    have hstop := hnext c rfl
    simp [hstop]

/-- What a run stops at does not belong to it. -/
theorem head?_dropWhile_eq_false (h : (text.dropWhile p).head? = some c) : p c = false := by
  have hstop := List.head?_dropWhile_not p text
  rw [h] at hstop
  exact hstop

/-- A mark is munched whole if what is behind does not go on with it. -/
theorem munch?_mark (hnext : ∀ c, rest.head? = some c → kind.goesOnWith c = false)
    (h : (lexeme, kind) ∈ Kind.marks) : munch? (lexeme ++ rest) = some (kind, lexeme, rest) := by
  have hequal : kind = .assign → rest.head? ≠ some '=' := by
    rintro rfl hhead
    exact absurd (hnext '=' hhead) (by decide)
  simp only [Kind.marks, List.mem_cons, Prod.mk.injEq, List.not_mem_nil, or_false] at h
  rcases h with h | h | h | h | h | h | h | h | h | h | h | h | h | h
  all_goals
    obtain ⟨rfl, rfl⟩ := h
    simp_all [munch?, startsWord, Kind.ofMark?]

/-- A lexeme that does not go on is cut off whole. -/
theorem munch?_append_lexeme (hnext : ∀ c, rest.head? = some c → kind.goesOnWith c = false)
    (h : kind.IsLexeme lexeme) : munch? (lexeme ++ rest) = some (kind, lexeme, rest) := by
  cases h with
  | @numeral first tail hfirst hrest =>
    obtain ⟨htake, hdrop⟩ := takeWhile_run hrest hnext
    have hclass : Char.isDigit = isFigure := funext isDigit_eq_isFigure
    simp [munch?, hclass, hfirst, htake, hdrop]
  | @word first tail hfirst hrest =>
    simp only [Kind.goesOnWith_ofWord] at hnext
    obtain ⟨htake, hdrop⟩ := takeWhile_run hrest hnext
    have hclass : continuesWord = fun c => isLetter c || isFigure c := funext continuesWord_eq
    have hdigit : first.isDigit = false := by
      rw [isDigit_eq_isFigure]
      exact isFigure_eq_false_of_isLetter hfirst
    simp [munch?, hdigit, startsWord_eq_isLetter, hfirst, hclass, htake, hdrop]
  | mark hmark => exact munch?_mark hnext hmark

/-- What is cut off is a lexeme that does not go on. -/
theorem isLexeme_of_munch? (h : munch? text = some (kind, lexeme, rest)) :
    text = lexeme ++ rest ∧ kind.IsLexeme lexeme ∧
      ∀ c, rest.head? = some c → kind.goesOnWith c = false := by
  refine ⟨(eq_append_of_munch? h).1, ?_⟩
  cases text with
  | nil => simp [munch?] at h
  | cons first tail =>
    simp only [munch?] at h
    split_ifs at h with hdigit hword hequal
    · simp only [Option.some.injEq, Prod.mk.injEq] at h
      obtain ⟨rfl, rfl, rfl⟩ := h
      have hclass : Char.isDigit = isFigure := funext isDigit_eq_isFigure
      rw [hclass] at hdigit ⊢
      exact ⟨.numeral hdigit fun c hmem => List.mem_takeWhile_imp hmem,
        fun c hhead => head?_dropWhile_eq_false hhead⟩
    · simp only [Option.some.injEq, Prod.mk.injEq] at h
      obtain ⟨rfl, rfl, rfl⟩ := h
      have hclass : continuesWord = fun c => isLetter c || isFigure c := funext continuesWord_eq
      rw [startsWord_eq_isLetter] at hword
      rw [hclass]
      refine ⟨.word hword fun c hmem => ?_, fun c hhead => ?_⟩
      · have hwanted := List.mem_takeWhile_imp hmem
        exact hwanted
      · rw [Kind.goesOnWith_ofWord]
        exact head?_dropWhile_eq_false hhead
    · simp only [Option.some.injEq, Prod.mk.injEq] at h
      obtain ⟨rfl, rfl, rfl⟩ := h
      exact ⟨.mark (by simp [Kind.marks]), fun c _ => rfl⟩
    · obtain ⟨mark, hmark, heq⟩ := Option.map_eq_some_iff.mp h
      simp only [Prod.mk.injEq] at heq
      obtain ⟨rfl, rfl, rfl⟩ := heq
      refine ⟨.mark (Kind.mem_marks_of_ofMark? hmark), fun c hhead => ?_⟩
      cases hgoes : mark.goesOnWith c with
      | false => rfl
      | true =>
        obtain ⟨hfirst, rfl⟩ := Kind.eq_of_goesOnWith hmark hgoes
        exact absurd ⟨hfirst, hhead⟩ hequal

/-- No lexeme begins with a foreign character, and one begins with every other character that does
not separate. -/
theorem munch?_eq_none_iff (hseparates : separates c = false) :
    munch? (c :: tail) = none ↔ isForeign c = true := by
  rw [isForeign_iff, ← startsWord_eq_isLetter, ← isDigit_eq_isFigure, ← Kind.isSome_ofMark?]
  simp only [munch?]
  split_ifs with hdigit hword hequal
  · simp [hdigit]
  · simp [hword]
  · simp [hequal.1, Kind.ofMark?]
  · simp [hdigit, hword, hseparates]

end Munch

end Token

/-! ## Segmentations -/

open Token

/-- A lexeme of a text, with what separates it from the one in front of it. -/
@[ext] structure Segment where
  gap : List Char
  lexeme : List Char
  kind : Kind
  gap_separates : ∀ c ∈ gap, separates c = true
  kind_eq : Kind.ofLexeme? lexeme = some kind

namespace Segment

/-- The characters of a segment. -/
def text (segment : Segment) : List Char := segment.gap ++ segment.lexeme

/-- The characters of segments and of what is left behind them. -/
def join (segments : List Segment) (last : List Char) : List Char :=
  segments.flatMap text ++ last

/-- No lexeme could go on with the character that stands directly behind it. -/
def Apart (last : List Char) : List Segment → Prop
  | [] => True
  | segment :: rest =>
    (∀ c, (join rest last).head? = some c → segment.kind.goesOnWith c = false) ∧ Apart last rest

/-- The tokens of segments in a text that begins on the given line. A lexeme stands as many lines
further down as there are line feeds in front of it. -/
def tokensFrom (line : Nat) (segments : List Segment) : List Token :=
  segments.mapIdx fun i segment =>
    ⟨segment.kind, String.ofList segment.lexeme,
      line + ((segments.take i).flatMap text ++ segment.gap).count '\n'⟩

variable {segments : List Segment} {last rest : List Char}

/-- The characters of the first segment come first. -/
theorem join_cons (segment : Segment) (segments : List Segment) (last : List Char) :
    join (segment :: segments) last = segment.gap ++ (segment.lexeme ++ join segments last) := by
  simp [join, text]

/-- The lexeme of a segment is one of its kind. -/
theorem isLexeme (segment : Segment) : segment.kind.IsLexeme segment.lexeme :=
  Kind.ofLexeme?_eq_some_iff.mp segment.kind_eq

/-- A lexeme is not empty, and it begins with a character that separates nothing. -/
theorem exists_lexeme_eq_cons (segment : Segment) :
    ∃ c rest, segment.lexeme = c :: rest ∧ separates c = false := by
  obtain ⟨c, rest, hlexeme⟩ := List.exists_cons_of_ne_nil segment.isLexeme.ne_nil
  have hc := segment.isLexeme.forall_mem c (by simp [hlexeme])
  exact ⟨c, rest, hlexeme, separates_eq_false hc⟩

/-- There is no line feed in a lexeme. -/
theorem not_mem_lexeme (segment : Segment) : '\n' ∉ segment.lexeme := by
  intro hmem
  exact absurd (separates_eq_false (segment.isLexeme.forall_mem _ hmem)) (by decide)

/-- All line feeds of a segment are in its gap. -/
theorem count_text (segment : Segment) : segment.text.count '\n' = segment.gap.count '\n' := by
  rw [text, List.count_append, List.count_eq_zero_of_not_mem segment.not_mem_lexeme, Nat.add_zero]

/-- Without segments there are no tokens. -/
@[simp] theorem tokensFrom_nil (line : Nat) : tokensFrom line [] = [] := rfl

/-- The first segment gives the first token, and the others go on from its line. -/
theorem tokensFrom_cons (line : Nat) (segment : Segment) (segments : List Segment) :
    tokensFrom line (segment :: segments) =
      ⟨segment.kind, String.ofList segment.lexeme, line + segment.gap.count '\n'⟩ ::
        tokensFrom (line + segment.gap.count '\n') segments := by
  unfold tokensFrom
  rw [List.mapIdx_cons]
  simp [Nat.add_assoc, count_text]

/-- Each segment gives one token. Its line is told by the line feeds in front of the lexeme. -/
theorem getElem?_tokensFrom (line i : Nat) (segments : List Segment) :
    (tokensFrom line segments)[i]? = segments[i]?.map fun segment =>
      ⟨segment.kind, String.ofList segment.lexeme,
        line + ((segments.take i).flatMap text ++ segment.gap).count '\n'⟩ := by
  rw [tokensFrom, List.getElem?_mapIdx]

/-- No character of segments is foreign. -/
theorem isForeign_eq_false_of_mem (segment : Segment) {c : Char} (h : c ∈ segment.text) :
    isForeign c = false := by
  rw [text, List.mem_append] at h
  rcases h with h | h
  · simp [isForeign, segment.gap_separates c h]
  · rcases segment.isLexeme.forall_mem c h with hc | hc | hc <;> simp [isForeign, hc]

/-! ### The scan of segments -/

/-- What separates lexemes is passed by the scan, and the line feeds in it are counted. -/
theorem scan_append_separators (gap : List Char) (hgap : ∀ c ∈ gap, separates c = true) (line : Nat)
    (found : List Token) (rest : List Char) :
    TokenList.scan line found (gap ++ rest) =
      TokenList.scan (line + gap.count '\n') found rest := by
  induction gap generalizing line with
  | nil => rfl
  | cons c gap ih =>
    rw [List.forall_mem_cons] at hgap
    by_cases hline : c = '\n'
    · subst hline
      rw [List.cons_append, TokenList.scan_newline, ih hgap.2, List.count_cons_self,
        Nat.add_right_comm, Nat.add_assoc]
    · have hc : isGap c = true := by simpa [separates_eq, hline] using hgap.1
      rw [List.cons_append, TokenList.scan_gap _ _ hline hc, ih hgap.2, List.count_cons_of_ne hline]

/-- A lexeme that does not go on becomes a token. -/
theorem scan_append_lexeme (segment : Segment) (line : Nat) (found : List Token)
    (hnext : ∀ c, rest.head? = some c → segment.kind.goesOnWith c = false) :
    TokenList.scan line found (segment.lexeme ++ rest) =
      TokenList.scan line (⟨segment.kind, String.ofList segment.lexeme, line⟩ :: found) rest := by
  have hmunch := munch?_append_lexeme hnext segment.isLexeme
  obtain ⟨c, tail, hlexeme, hseparates⟩ := segment.exists_lexeme_eq_cons
  rw [separates_eq, Bool.or_eq_false_iff, decide_eq_false_iff_not] at hseparates
  rw [hlexeme, List.cons_append] at hmunch ⊢
  exact TokenList.scan_token line found hseparates.2 (by simp [hseparates.1]) hmunch

/-- Segments that are apart are scanned one after the other, up to the end or to a foreign
character. -/
theorem scan_join (line : Nat) (found : List Token) (rest : List Char)
    (hlast : ∀ c ∈ last, separates c = true) (hapart : Apart last segments)
    (hrest : ∀ c, rest.head? = some c → isForeign c = true) :
    TokenList.scan line found (join segments last ++ rest) =
      TokenList.scan (line + (join segments last).count '\n')
        ((tokensFrom line segments).reverse ++ found) rest := by
  induction segments generalizing line found with
  | nil => exact scan_append_separators last hlast line found rest
  | cons segment segments ih =>
    obtain ⟨hnext, hapart⟩ := hapart
    have hnext' : ∀ c, (join segments last ++ rest).head? = some c →
        segment.kind.goesOnWith c = false := by
      intro c hhead
      rw [List.head?_append, Option.or_eq_some_iff] at hhead
      rcases hhead with hhead | ⟨-, hhead⟩
      · exact hnext c hhead
      · exact Kind.goesOnWith_of_isForeign (hrest c hhead) segment.kind
    rw [join_cons, List.append_assoc, List.append_assoc,
      scan_append_separators _ segment.gap_separates, scan_append_lexeme segment _ _ hnext',
      ih _ _ hapart, tokensFrom_cons, List.count_append, List.count_append,
      List.count_eq_zero_of_not_mem segment.not_mem_lexeme, Nat.zero_add, Nat.add_assoc]
    simp

/-! ### The segments of a text -/

/-- Where a text has a lexeme, its first gap is what separates at its beginning. -/
theorem takeWhile_join_cons (segment : Segment) (segments : List Segment) (last : List Char) :
    (join (segment :: segments) last).takeWhile separates = segment.gap ∧
      (join (segment :: segments) last).dropWhile separates =
        segment.lexeme ++ join segments last := by
  rw [join_cons]
  apply takeWhile_run segment.gap_separates
  intro c hhead
  obtain ⟨first, rest, hlexeme, hfirst⟩ := segment.exists_lexeme_eq_cons
  rw [hlexeme] at hhead
  exact Option.some.inj hhead ▸ hfirst

/-- Where a text has a lexeme, it does not consist of what separates lexemes. -/
theorem join_cons_ne (hlast : ∀ c ∈ last, separates c = true) (segment : Segment)
    (segments : List Segment) (after : List Char) : join (segment :: segments) after ≠ last := by
  intro heq
  obtain ⟨c, rest, hlexeme, hc⟩ := segment.exists_lexeme_eq_cons
  have hmem : c ∈ last := by simp [← heq, join_cons, hlexeme]
  rw [hlast c hmem] at hc
  cases hc

/-- Segments that are apart are the only ones of their text. -/
theorem eq_of_join_eq {segments' : List Segment} {last' : List Char}
    (hlast : ∀ c ∈ last, separates c = true) (hlast' : ∀ c ∈ last', separates c = true)
    (hapart : Apart last segments) (hapart' : Apart last' segments')
    (h : join segments last = join segments' last') : segments = segments' ∧ last = last' := by
  induction segments generalizing segments' with
  | nil =>
    cases segments' with
    | nil => exact ⟨rfl, h⟩
    | cons segment' segments' => exact absurd h.symm (join_cons_ne hlast segment' segments' last')
  | cons segment segments ih =>
    cases segments' with
    | nil => exact absurd h (join_cons_ne hlast' segment segments last)
    | cons segment' segments' =>
      obtain ⟨hgap, hrest⟩ := takeWhile_join_cons segment segments last
      obtain ⟨hgap', hrest'⟩ := takeWhile_join_cons segment' segments' last'
      -- Behind the gap stands the same text for both, and one lexeme is cut off from it.
      have hmunch := munch?_append_lexeme hapart.1 segment.isLexeme
      have hmunch' := munch?_append_lexeme hapart'.1 segment'.isLexeme
      rw [← hrest, h, hrest', hmunch', Option.some.injEq, Prod.mk.injEq, Prod.mk.injEq] at hmunch
      obtain ⟨hkind, hlexeme, hjoin⟩ := hmunch
      have hsegment : segment = segment' :=
        Segment.ext (by rw [← hgap, h, hgap']) hlexeme.symm hkind.symm
      obtain ⟨hsegments, hlasts⟩ := ih hapart.2 hapart'.2 hjoin.symm
      exact ⟨by rw [hsegment, hsegments], hlasts⟩

end Segment

/-- A text cut into lexemes and what separates them. -/
@[ext] structure Segmentation where
  segments : List Segment
  last : List Char
  last_separates : ∀ c ∈ last, separates c = true
  apart : Segment.Apart last segments

namespace Segmentation

/-- The text that is cut. -/
def text (s : Segmentation) : List Char := Segment.join s.segments s.last

/-- The tokens of the text, and the line on which it ends. Lines are counted from one. -/
def tokens (s : Segmentation) : TokenList :=
  ⟨Segment.tokensFrom 1 s.segments, 1 + s.text.count '\n'⟩

/-- No character of a text that is cut is foreign. -/
theorem isForeign_eq_false (s : Segmentation) {c : Char} (h : c ∈ s.text) :
    isForeign c = false := by
  rw [text, Segment.join, List.mem_append, List.mem_flatMap] at h
  rcases h with ⟨segment, -, h⟩ | h
  · exact segment.isForeign_eq_false_of_mem h
  · simp [isForeign, s.last_separates c h]

/-- There are no tokens in an empty text. -/
theorem tokens_eq_nil_of_text_eq_nil (s : Segmentation) (h : s.text = []) :
    s.tokens.tokens = [] := by
  cases hsegments : s.segments with
  | nil => rw [tokens, hsegments, Segment.tokensFrom_nil]
  | cons segment segments =>
    rw [text, hsegments] at h
    exact absurd h (Segment.join_cons_ne (by simp) segment segments s.last)

/-- A segmentation with a further character in front that only separates. -/
theorem exists_cons_separator {c : Char} (hc : separates c = true) (s : Segmentation) :
    ∃ s' : Segmentation, s'.text = c :: s.text := by
  obtain ⟨segments, last, hlast, hapart⟩ := s
  cases segments with
  | nil =>
    refine ⟨⟨[], c :: last, ?_, trivial⟩, rfl⟩
    rw [List.forall_mem_cons]
    exact ⟨hc, hlast⟩
  | cons segment segments =>
    refine ⟨⟨{ segment with
      gap := c :: segment.gap
      gap_separates := ?_ } :: segments, last, hlast, hapart⟩, ?_⟩
    · rw [List.forall_mem_cons]
      exact ⟨hc, segment.gap_separates⟩
    · simp [Segmentation.text, Segment.join_cons]

/-- A segmentation with a lexeme in front that does not go on. -/
theorem exists_cons_lexeme {lexeme : List Char} {kind : Kind} (h : kind.IsLexeme lexeme)
    (s : Segmentation) (hnext : ∀ c, s.text.head? = some c → kind.goesOnWith c = false) :
    ∃ s' : Segmentation, s'.text = lexeme ++ s.text := by
  have hkind := Kind.ofLexeme?_eq_some_iff.mpr h
  refine ⟨⟨⟨[], lexeme, kind, by simp, hkind⟩ :: s.segments, s.last, s.last_separates,
    hnext, s.apart⟩, ?_⟩
  simp [Segmentation.text, Segment.join_cons]

/-- Every text begins with a segmentation, behind which it ends or has a foreign character. -/
theorem exists_text_append (text : List Char) :
    ∃ (s : Segmentation) (rest : List Char), text = s.text ++ rest ∧
      ∀ c, rest.head? = some c → isForeign c = true := by
  -- The induction is on the length, because a lexeme takes more than one character.
  induction hn : text.length using Nat.strongRecOn generalizing text with
  | ind n ih =>
    cases text with
    | nil => exact ⟨⟨[], [], by simp, trivial⟩, [], rfl, by simp⟩
    | cons c tail =>
      cases hseparates : separates c with
      | true =>
        obtain ⟨s, rest, htail, hrest⟩ := ih tail.length (by simp [← hn]) tail rfl
        obtain ⟨s', hs'⟩ := exists_cons_separator hseparates s
        exact ⟨s', rest, by rw [hs', htail, List.cons_append], hrest⟩
      | false =>
        cases hmunch : munch? (c :: tail) with
        | none =>
          refine ⟨⟨[], [], by simp, trivial⟩, c :: tail, rfl, ?_⟩
          intro first hfirst
          obtain rfl := Option.some.inj hfirst
          exact (munch?_eq_none_iff hseparates).mp hmunch
        | some munched =>
          obtain ⟨kind, lexeme, after⟩ := munched
          obtain ⟨htext, hlexeme, hnext⟩ := isLexeme_of_munch? hmunch
          obtain ⟨s, rest, hafter, hrest⟩ :=
            ih after.length (hn ▸ length_lt_of_munch? hmunch) after rfl
          have hnext' : ∀ c, s.text.head? = some c → kind.goesOnWith c = false := by
            intro c hhead
            apply hnext c
            rw [hafter, List.head?_append, hhead]
            rfl
          obtain ⟨s', hs'⟩ := exists_cons_lexeme hlexeme s hnext'
          exact ⟨s', rest, by rw [htext, hs', hafter, List.append_assoc], hrest⟩

/-- The scan of a text that is segmented to its end. -/
theorem scan_text (s : Segmentation) : TokenList.scan 1 [] s.text = .ok s.tokens := by
  have hscan := Segment.scan_join 1 [] [] s.last_separates s.apart (by simp)
  rw [List.append_nil, TokenList.scan_nil] at hscan
  rw [Segmentation.text, hscan]
  simp [tokens, Segmentation.text]

/-- The scan of a text that is segmented up to a foreign character. -/
theorem scan_text_append (s : Segmentation) {c : Char} (hc : isForeign c = true)
    (rest : List Char) :
    TokenList.scan 1 [] (s.text ++ c :: rest) = .error ⟨c, 1 + s.text.count '\n'⟩ := by
  have hscan := Segment.scan_join 1 [] (c :: rest) s.last_separates s.apart (by simpa using hc)
  rw [Segmentation.text, hscan]
  have hseparates := ((isForeign_iff c).mp hc).2.2.2
  have hmunch : munch? (c :: rest) = none := (munch?_eq_none_iff hseparates).mpr hc
  rw [separates_eq, Bool.or_eq_false_iff, decide_eq_false_iff_not] at hseparates
  exact TokenList.scan_stray _ _ hseparates.2 (by simp [hseparates.1]) hmunch

/-- A text has one segmentation only. -/
theorem eq_of_text_eq {s s' : Segmentation} (h : s.text = s'.text) : s = s' := by
  obtain ⟨hsegments, hlast⟩ :=
    Segment.eq_of_join_eq s.last_separates s'.last_separates s.apart s'.apart h
  exact Segmentation.ext hsegments hlast

end Segmentation

namespace TokenList

variable {text : String} {tokens : TokenList}

/-- A text that can be scanned has a segmentation, and the tokens are those of its lexemes. -/
theorem exists_segmentation_of_ofText (h : ofText text = .ok tokens) :
    ∃ s : Segmentation, s.text = text.toList ∧ s.tokens = tokens := by
  obtain ⟨s, rest, htext, hrest⟩ := Segmentation.exists_text_append text.toList
  rw [ofText, htext] at h
  cases rest with
  | nil =>
    rw [List.append_nil] at h htext
    rw [Segmentation.scan_text] at h
    exact ⟨s, htext.symm, Except.ok.inj h⟩
  | cons c rest =>
    rw [Segmentation.scan_text_append s (hrest c rfl)] at h
    simp at h

/-- A text that cannot be scanned has a segmentation up to the stray character. -/
theorem exists_segmentation_of_stray {stray : StrayCharacter} (h : ofText text = .error stray) :
    ∃ (s : Segmentation) (rest : List Char), text.toList = s.text ++ stray.char :: rest ∧
      stray.line = 1 + s.text.count '\n' ∧ isForeign stray.char = true := by
  obtain ⟨s, rest, htext, hrest⟩ := Segmentation.exists_text_append text.toList
  rw [ofText, htext] at h
  cases rest with
  | nil =>
    rw [List.append_nil, Segmentation.scan_text] at h
    simp at h
  | cons c rest =>
    have hc := hrest c rfl
    rw [Segmentation.scan_text_append s hc] at h
    obtain rfl := Except.error.inj h
    exact ⟨s, rest, htext, rfl, hc⟩

/-- A text can be scanned exactly if it can be cut into lexemes that do not go on and what separates
them. The tokens are those of the lexemes, and the text can be cut in one way only. -/
theorem ofText_eq_ok_iff_segmented (text : String) (tokens : TokenList) :
    (ofText text = .ok tokens ↔
      ∃ s : Segmentation, s.text = text.toList ∧ s.tokens = tokens) ∧
    ∀ s s' : Segmentation, s.text = text.toList → s'.text = text.toList → s = s' := by
  refine ⟨⟨exists_segmentation_of_ofText, ?_⟩, ?_⟩
  · rintro ⟨s, htext, rfl⟩
    rw [ofText, ← htext, Segmentation.scan_text]
  · intro s s' h h'
    exact Segmentation.eq_of_text_eq (h.trans h'.symm)

/-- Of three equality signs the first two are one mark, and a number ends where a letter stands. -/
theorem ofText_eq_ok_iff_segmented_run :
    ∃ s : Segmentation, s.text = "a1===\r\n 12if iff".toList ∧
      s.tokens = ⟨[⟨.name, "a1", 1⟩, ⟨.equal, "==", 1⟩, ⟨.assign, "=", 1⟩, ⟨.number, "12", 2⟩,
        ⟨.ifWord, "if", 2⟩, ⟨.name, "iff", 2⟩], 2⟩ ∧
      ∀ s' : Segmentation, s'.text = "a1===\r\n 12if iff".toList → s' = s := by
  have hsegmented := ofText_eq_ok_iff_segmented "a1===\r\n 12if iff"
    ⟨[⟨.name, "a1", 1⟩, ⟨.equal, "==", 1⟩, ⟨.assign, "=", 1⟩, ⟨.number, "12", 2⟩,
      ⟨.ifWord, "if", 2⟩, ⟨.name, "iff", 2⟩], 2⟩
  obtain ⟨s, htext, htokens⟩ := hsegmented.1.mp (by decide +kernel)
  exact ⟨s, htext, htokens, fun s' htext' => hsegmented.2 s' s htext' htext⟩

end TokenList

/-! ## Foreign characters -/

namespace StrayCharacter

/-- The character is the first foreign one of the text, and it stands behind so many line feeds.
Lines are counted from one. -/
def IsFirstIn (text : List Char) (stray : StrayCharacter) : Prop :=
  ∃ front rest, text = front ++ stray.char :: rest ∧ (∀ c ∈ front, isForeign c = false) ∧
    isForeign stray.char = true ∧ stray.line = 1 + front.count '\n'

variable {text front rest : List Char} {stray stray' : StrayCharacter}

/-- In front of the first foreign character stands what is not foreign. -/
theorem takeWhile_append_foreign {c : Char} (hfront : ∀ d ∈ front, isForeign d = false)
    (hc : isForeign c = true) :
    (front ++ c :: rest).takeWhile (!isForeign ·) = front ∧
      (front ++ c :: rest).dropWhile (!isForeign ·) = c :: rest :=
  takeWhile_run (fun d hmem => by simp [hfront d hmem]) (by simp [hc])

/-- The first foreign character is one of the text. -/
theorem IsFirstIn.mem (h : stray.IsFirstIn text) : stray.char ∈ text := by
  obtain ⟨front, rest, rfl, -⟩ := h
  simp

/-- The first foreign character is foreign. -/
theorem IsFirstIn.isForeign (h : stray.IsFirstIn text) : isForeign stray.char = true := by
  obtain ⟨-, -, -, -, hforeign, -⟩ := h
  exact hforeign

/-- There is only one first foreign character. -/
theorem IsFirstIn.unique (h : stray.IsFirstIn text) (h' : stray'.IsFirstIn text) :
    stray = stray' := by
  obtain ⟨char, line⟩ := stray
  obtain ⟨char', line'⟩ := stray'
  obtain ⟨front, rest, rfl, hfront, hchar, rfl⟩ := h
  obtain ⟨front', rest', htext, hfront', hchar', rfl⟩ := h'
  dsimp only at *
  obtain ⟨htake, hdrop⟩ := takeWhile_append_foreign hfront hchar
  obtain ⟨htake', hdrop'⟩ := takeWhile_append_foreign hfront' hchar'
  rw [htext, htake'] at htake
  rw [htext, hdrop', List.cons.injEq] at hdrop
  rw [htake, hdrop.1]

end StrayCharacter

namespace TokenList

variable {text : String}

/-- A text that can be scanned has no foreign character. -/
theorem isForeign_eq_false_of_ofText {tokens : TokenList} (h : ofText text = .ok tokens) {c : Char}
    (hmem : c ∈ text.toList) : isForeign c = false := by
  obtain ⟨s, htext, -⟩ := exists_segmentation_of_ofText h
  exact s.isForeign_eq_false (htext ▸ hmem)

/-- The character at which a scan stops is the first foreign one. -/
theorem isFirstIn_of_ofText {stray : StrayCharacter} (h : ofText text = .error stray) :
    stray.IsFirstIn text.toList := by
  obtain ⟨s, rest, htext, hline, hforeign⟩ := exists_segmentation_of_stray h
  exact ⟨s.text, rest, htext, fun c hmem => s.isForeign_eq_false hmem, hforeign, hline⟩

/-- The scan of a text with a foreign character stops. -/
theorem exists_stray_of_isForeign {c : Char} (hmem : c ∈ text.toList) (hc : isForeign c = true) :
    ∃ stray, ofText text = .error stray := by
  cases hout : ofText text with
  | error stray => exact ⟨stray, rfl⟩
  | ok tokens =>
    rw [isForeign_eq_false_of_ofText hout hmem] at hc
    cases hc

/-- A text cannot be scanned exactly if one of its characters is foreign: no letter or digit, no
character of a mark and nothing that separates. What is reported is the first such character and
its line, whatever stands behind it. -/
theorem ofText_eq_error_iff_foreign (text : String) :
    ((∃ stray, ofText text = .error stray) ↔ ∃ c ∈ text.toList, isForeign c = true) ∧
    ∀ stray, ofText text = .error stray ↔ stray.IsFirstIn text.toList := by
  refine ⟨⟨?_, fun ⟨c, hmem, hc⟩ => exists_stray_of_isForeign hmem hc⟩,
    fun stray => ⟨isFirstIn_of_ofText, fun h => ?_⟩⟩
  · rintro ⟨stray, h⟩
    have hfirst := isFirstIn_of_ofText h
    exact ⟨stray.char, hfirst.mem, hfirst.isForeign⟩
  · obtain ⟨found, hfound⟩ := exists_stray_of_isForeign h.mem h.isForeign
    rw [hfound, (isFirstIn_of_ofText hfound).unique h]

/-- A line separator that is no line feed is foreign and ends no line, and the foreign digit behind
it is not reached. -/
theorem ofText_eq_error_iff_foreign_separator :
    ofText "x1=\r\n 2\u2028\n٣ $" = .error ⟨'\u2028', 2⟩ := by
  have hfront : "x1=\r\n 2".toList.all (!isForeign ·) = true := by decide +kernel
  refine ((ofText_eq_error_iff_foreign _).2 ⟨'\u2028', 2⟩).mpr
    ⟨"x1=\r\n 2".toList, "\n٣ $".toList, by decide +kernel, ?_, by decide, by decide +kernel⟩
  intro c hmem
  simpa using List.all_eq_true.mp hfront c hmem

end TokenList

end ScriptKit
