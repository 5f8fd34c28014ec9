import Mathlib
import ScriptKit.Token.Scan

/-!
# Texts joined at a line feed

No token reaches over a line feed. So the tokens of two texts with a line feed between them are the
tokens of the first text and then those of the second one, which stand as many lines further down
as the first text has.
-/

set_option autoImplicit false

namespace ScriptKit

/-- The token in a text in front of which some lines were put. -/
def Token.lowered (lines : Nat) (token : Token) : Token := { token with line := token.line + lines }

/-- The stray character in a text in front of which some lines were put. -/
def StrayCharacter.lowered (lines : Nat) (stray : StrayCharacter) : StrayCharacter :=
  { stray with line := stray.line + lines }

namespace Token

section Munch

variable {p : Char → Bool} {c : Char}

/-- Taking characters stops at the first one that is not wanted. -/
theorem takeWhile_append_cons (h : p c = false) (text after : List Char) :
    (text ++ c :: after).takeWhile p = text.takeWhile p := by
  induction text with
  | nil => simp [h]
  | cons first text ih => simp only [List.cons_append, List.takeWhile_cons, ih]

/-- Dropping characters stops at the first one that is wanted. -/
theorem dropWhile_append_cons (h : p c = false) (text after : List Char) :
    (text ++ c :: after).dropWhile p = text.dropWhile p ++ c :: after := by
  induction text with
  | nil => simp [h]
  | cons first text ih =>
    simp only [List.cons_append, List.dropWhile_cons, ih]
    split_ifs <;> rfl

/-- What follows a line feed does not change the token in front of it. -/
theorem munch?_append_newline {text : List Char} (htext : text ≠ []) (after : List Char) :
    munch? (text ++ '\n' :: after) =
      (munch? text).map fun (kind, word, rest) => (kind, word, rest ++ '\n' :: after) := by
  obtain ⟨first, text, rfl⟩ := List.exists_cons_of_ne_nil htext
  have hequal : (text ++ '\n' :: after).head? = some '=' ↔ text.head? = some '=' := by
    cases text <;> simp
  simp only [List.cons_append, munch?,
    takeWhile_append_cons (show Char.isDigit '\n' = false by decide),
    dropWhile_append_cons (show Char.isDigit '\n' = false by decide),
    takeWhile_append_cons (show continuesWord '\n' = false by decide),
    dropWhile_append_cons (show continuesWord '\n' = false by decide), hequal]
  split_ifs with hdigit hword hmark
  · rfl
  · rfl
  · cases text with
    | nil => simp at hmark
    | cons second text => rfl
  · cases Kind.ofMark? first <;> rfl

/-- A token is cut from the front of the text and holds no line feed. -/
theorem eq_append_of_munch? {text word rest : List Char} {kind : Kind}
    (h : munch? text = some (kind, word, rest)) : text = word ++ rest ∧ '\n' ∉ word := by
  have hfree (p : Char → Bool) (hp : p '\n' = false) (text : List Char) :
      '\n' ∉ text.takeWhile p := fun hmem => by
    have hwanted := List.mem_takeWhile_imp hmem
    simp [hp] at hwanted
  cases text with
  | nil => simp [munch?] at h
  | cons first text =>
    simp only [munch?] at h
    split_ifs at h with hdigit hword hmark
    · simp only [Option.some.injEq, Prod.mk.injEq] at h
      obtain ⟨-, rfl, rfl⟩ := h
      refine ⟨by simp, List.not_mem_cons_of_ne_of_not_mem ?_ (hfree _ (by decide) text)⟩
      rintro rfl
      simp at hdigit
    · simp only [Option.some.injEq, Prod.mk.injEq] at h
      obtain ⟨-, rfl, rfl⟩ := h
      refine ⟨by simp, List.not_mem_cons_of_ne_of_not_mem ?_ (hfree _ (by decide) text)⟩
      rintro rfl
      exact absurd hword (by decide)
    · simp only [Option.some.injEq, Prod.mk.injEq] at h
      obtain ⟨-, rfl, rfl⟩ := h
      cases text with
      | nil => simp at hmark
      | cons second text =>
        obtain ⟨rfl, hsecond⟩ := hmark
        simp only [List.head?_cons, Option.some.injEq] at hsecond
        exact ⟨by simp [hsecond], by decide⟩
    · obtain ⟨mark, hmarked, heq⟩ := Option.map_eq_some_iff.mp h
      simp only [Prod.mk.injEq] at heq
      obtain ⟨-, rfl, rfl⟩ := heq
      refine ⟨rfl, ?_⟩
      rw [List.mem_singleton]
      rintro rfl
      rw [show Kind.ofMark? '\n' = none by decide] at hmarked
      cases hmarked

end Munch

end Token

namespace TokenList

open Token

section Scan

variable (line : Nat) (found : List Token)

/-- At the end of the text the tokens are those that were found. -/
theorem scan_nil : scan line found [] = .ok ⟨found.reverse, line⟩ := by rw [scan]

/-- A line feed only counts. -/
theorem scan_newline (rest : List Char) :
    scan line found ('\n' :: rest) = scan (line + 1) found rest := by
  rw [scan, if_pos rfl]

/-- Any other gap is skipped. -/
theorem scan_gap {c : Char} (hline : c ≠ '\n') (hgap : isGap c = true) (rest : List Char) :
    scan line found (c :: rest) = scan line found rest := by
  rw [scan, if_neg hline, if_pos hgap]

/-- A lexeme that is munched becomes a token on the line. -/
theorem scan_token {c : Char} (hline : c ≠ '\n') (hgap : ¬ isGap c = true)
    {rest word after : List Char} {kind : Kind}
    (h : munch? (c :: rest) = some (kind, word, after)) :
    scan line found (c :: rest) = scan line (⟨kind, String.ofList word, line⟩ :: found) after := by
  rw [scan, if_neg hline, if_neg hgap]
  split <;> simp_all

/-- Scanning ends at a character that begins no lexeme. -/
theorem scan_stray {c : Char} (hline : c ≠ '\n') (hgap : ¬ isGap c = true) {rest : List Char}
    (h : munch? (c :: rest) = none) : scan line found (c :: rest) = .error ⟨c, line⟩ := by
  rw [scan, if_neg hline, if_neg hgap]
  split <;> simp_all

/-- The scan of two texts with a line feed between them is the scan of the first one and then that
of the second one. -/
theorem scan_append_newline (text after : List Char) :
    scan line found (text ++ '\n' :: after) =
      (scan line found text).bind fun tokens =>
        scan (tokens.endLine + 1) tokens.tokens.reverse after := by
  induction line, found, text using scan.induct with
  | case1 line found =>
    rw [List.nil_append, scan_newline, scan_nil, Except.bind, List.reverse_reverse]
  | case2 line found rest ih => rw [List.cons_append, scan_newline, scan_newline, ih]
  | case3 line found c rest hline hgap ih =>
    rw [List.cons_append, scan_gap line found hline hgap, scan_gap line found hline hgap, ih]
  | case4 line found c rest hline hgap kind word after' h ih =>
    have h' := munch?_append_newline (List.cons_ne_nil c rest) after
    rw [h, List.cons_append] at h'
    rw [List.cons_append, scan_token line found hline hgap h', scan_token line found hline hgap h,
      ih]
  | case5 line found c rest hline hgap h =>
    have h' := munch?_append_newline (List.cons_ne_nil c rest) after
    rw [h, List.cons_append] at h'
    rw [List.cons_append, scan_stray line found hline hgap h', scan_stray line found hline hgap h]
    rfl

/-- A scan that begins further down, behind other tokens, finds the same tokens further down. -/
theorem scan_lowered (lines : Nat) (before : List Token) (text : List Char) :
    scan (line + lines) (found.map (Token.lowered lines) ++ before) text =
      match scan line found text with
      | .ok tokens =>
        .ok ⟨before.reverse ++ tokens.tokens.map (Token.lowered lines), tokens.endLine + lines⟩
      | .error stray => .error (stray.lowered lines) := by
  induction line, found, text using scan.induct with
  | case1 line found => simp [scan_nil]
  | case2 line found rest ih => rw [scan_newline, scan_newline, ← ih, Nat.add_right_comm]
  | case3 line found c rest hline hgap ih =>
    rw [scan_gap _ _ hline hgap, scan_gap _ _ hline hgap, ih]
  | case4 line found c rest hline hgap kind word after h ih =>
    rw [scan_token _ _ hline hgap h, scan_token _ _ hline hgap h, ← ih]
    rfl
  | case5 line found c rest hline hgap h =>
    rw [scan_stray _ _ hline hgap h, scan_stray _ _ hline hgap h]
    rfl

/-- The last line of a text is found by counting its line feeds. -/
theorem endLine_of_scan {text : List Char} {tokens : TokenList}
    (h : scan line found text = .ok tokens) : tokens.endLine = line + text.count '\n' := by
  induction line, found, text using scan.induct with
  | case1 line found =>
    rw [scan_nil, Except.ok.injEq] at h
    rw [← h]
    rfl
  | case2 line found rest ih =>
    rw [scan_newline] at h
    rw [ih h, List.count_cons_self]
    omega
  | case3 line found c rest hline hgap ih =>
    rw [scan_gap _ _ hline hgap] at h
    rw [ih h, List.count_cons_of_ne hline]
  | case4 line found c rest hline hgap kind word after hmunch ih =>
    rw [scan_token _ _ hline hgap hmunch] at h
    obtain ⟨htext, hfree⟩ := eq_append_of_munch? hmunch
    rw [ih h, htext, List.count_append, List.count_eq_zero_of_not_mem hfree, Nat.zero_add]
  | case5 line found c rest hline hgap hmunch =>
    rw [scan_stray _ _ hline hgap hmunch] at h
    cases h

end Scan

/-- The number of the last line of a text. -/
theorem endLine_of_ofText {text : String} {tokens : TokenList} (h : ofText text = .ok tokens) :
    tokens.endLine = 1 + text.toList.count '\n' := endLine_of_scan 1 [] h

/-- The tokens of two texts with a line feed between them. -/
theorem ofText_append_newline {first : String} {tokens : TokenList} (h : ofText first = .ok tokens)
    (second : String) :
    ofText (first ++ "\n" ++ second) =
      match ofText second with
      | .ok tokens' =>
        .ok ⟨tokens.tokens ++ tokens'.tokens.map (Token.lowered tokens.endLine),
          tokens'.endLine + tokens.endLine⟩
      | .error stray => .error (stray.lowered tokens.endLine) := by
  have htext : (first ++ "\n" ++ second).toList = first.toList ++ '\n' :: second.toList := by simp
  have hsecond := scan_lowered 1 [] tokens.endLine tokens.tokens.reverse second.toList
  rw [List.map_nil, List.nil_append, List.reverse_reverse] at hsecond
  rw [ofText, htext, scan_append_newline, show scan 1 [] first.toList = .ok tokens from h,
    Except.bind, Nat.add_comm, hsecond]
  rfl

/-- If two texts with a line feed between them can be scanned, then so can the first one. -/
theorem exists_ofText_of_append {first second : String} {tokens : TokenList}
    (h : ofText (first ++ "\n" ++ second) = .ok tokens) :
    ∃ tokens', ofText first = .ok tokens' := by
  have htext : (first ++ "\n" ++ second).toList = first.toList ++ '\n' :: second.toList := by simp
  rw [ofText, htext, scan_append_newline] at h
  cases hfirst : scan 1 [] first.toList with
  | ok tokens' => exact ⟨tokens', hfirst⟩
  | error stray =>
    rw [hfirst] at h
    cases h

end TokenList

end ScriptKit
