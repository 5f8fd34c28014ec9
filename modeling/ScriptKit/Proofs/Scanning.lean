import ScriptKit.Proofs.Route
import ScriptKit.Proofs.Seam

/-!
# The tokens of a text

What is true of every list of tokens that was cut from a text. The lines of the tokens never go
back, and the text ends on no earlier line than its last token. An operator is written in one way
only, so the text of its token is its spelling.
-/

set_option autoImplicit false

namespace ScriptKit

open Token

namespace TokenList

/-- The lines of the tokens, and behind them the line on which the text ends. -/
def lines (tokens : TokenList) : List Nat := tokens.tokens.map Token.line ++ [tokens.endLine]

section Scan

variable {line : Nat} {found : List Token} {text : List Char} {tokens : TokenList}

/-- What is true of a token wherever it is cut off is true of all tokens that are found. -/
theorem forall_of_scan {P : Token → Prop}
    (hmunch : ∀ (line : Nat) {text word rest : List Char} {kind : Kind},
      munch? text = some (kind, word, rest) → P ⟨kind, String.ofList word, line⟩)
    (hfound : ∀ token ∈ found, P token) (h : scan line found text = .ok tokens) :
    ∀ token ∈ tokens.tokens, P token := by
  induction line, found, text using scan.induct with
  | case1 line found =>
    rw [scan_nil, Except.ok.injEq] at h
    subst h
    intro token htoken
    exact hfound token (List.mem_reverse.mp htoken)
  | case2 line found rest ih =>
    rw [scan_newline] at h
    exact ih hfound h
  | case3 line found c rest hline hgap ih =>
    rw [scan_gap _ _ hline hgap] at h
    exact ih hfound h
  | case4 line found c rest hline hgap kind word after hword ih =>
    rw [scan_token _ _ hline hgap hword] at h
    apply ih _ h
    intro token htoken
    rcases List.mem_cons.mp htoken with rfl | htoken
    · exact hmunch line hword
    · exact hfound token htoken
  | case5 line found c rest hline hgap hnone =>
    rw [scan_stray _ _ hline hgap hnone] at h
    cases h

/-- A last number may be raised, and it may be repeated. -/
theorem pairwise_le_append {numbers : List Nat} {last next : Nat}
    (h : (numbers ++ [last]).Pairwise (· ≤ ·)) (hle : last ≤ next) :
    (numbers ++ [next]).Pairwise (· ≤ ·) ∧ (numbers ++ [last] ++ [next]).Pairwise (· ≤ ·) := by
  obtain ⟨hnumbers, -, hbelow⟩ := List.pairwise_append.mp h
  have hnext : ∀ number ∈ numbers, number ≤ next := by
    intro number hnumber
    have hlast := hbelow number hnumber last (List.mem_singleton_self last)
    omega
  constructor
  · rw [List.pairwise_append]
    exact ⟨hnumbers, List.pairwise_singleton _ _, by simpa using hnext⟩
  · rw [List.pairwise_append]
    refine ⟨h, List.pairwise_singleton _ _, ?_⟩
    intro number hnumber
    rcases List.mem_append.mp hnumber with hnumber | hnumber
    · simpa using hnext number hnumber
    · simpa [List.mem_singleton.mp hnumber] using hle

/-- The scan never goes back to an earlier line. -/
theorem pairwise_lines_of_scan (hfound : (found.reverse.map Token.line ++ [line]).Pairwise (· ≤ ·))
    (h : scan line found text = .ok tokens) : tokens.lines.Pairwise (· ≤ ·) := by
  induction line, found, text using scan.induct with
  | case1 line found =>
    rw [scan_nil, Except.ok.injEq] at h
    subst h
    exact hfound
  | case2 line found rest ih =>
    rw [scan_newline] at h
    exact ih (pairwise_le_append hfound (Nat.le_succ line)).1 h
  | case3 line found c rest hline hgap ih =>
    rw [scan_gap _ _ hline hgap] at h
    exact ih hfound h
  | case4 line found c rest hline hgap kind word after hword ih =>
    rw [scan_token _ _ hline hgap hword] at h
    apply ih _ h
    have hnext := (pairwise_le_append hfound (Nat.le_refl line)).2
    simpa using hnext
  | case5 line found c rest hline hgap hnone =>
    rw [scan_stray _ _ hline hgap hnone] at h
    cases h

end Scan

variable {text : String} {tokens : TokenList}

/-- The lines of the tokens of a text never go back, and the text ends behind them all. -/
theorem pairwise_lines (h : ofText text = .ok tokens) : tokens.lines.Pairwise (· ≤ ·) := by
  unfold ofText at h
  exact pairwise_lines_of_scan (by simp) h

end TokenList

/-- The kind of the tokens that spell the operator. -/
def Operator.kind : Operator → Token.Kind
  | add => .plus
  | subtract => .minus
  | multiply => .times
  | divide => .divide
  | modulo => .modulo
  | less => .less
  | greater => .greater
  | equal => .equal

/-- Every operator has its kind of token, whatever its row. -/
theorem Grammar.kind_eq_of_operatorAt? {row : Nat} {kind : Kind} {op : Operator}
    (h : operatorAt? row kind = some op) : kind = op.kind := by
  rcases row with _ | _ | _ | _ | row
  · cases kind <;> simp_all [operatorAt?, factorOperator?] <;> subst h <;> rfl
  · cases kind <;> simp_all [operatorAt?, termOperator?] <;> subst h <;> rfl
  · cases kind <;> simp_all [operatorAt?, comparisonOperator?] <;> subst h <;> rfl
  · cases kind <;> simp_all [operatorAt?, equalityOperator?]
    subst h
    rfl
  · simp [operatorAt?] at h

namespace Token

/-- A word is no operator. -/
theorem ofWord_ne_kind (word : String) (op : Operator) : Kind.ofWord word ≠ op.kind := by
  unfold Kind.ofWord
  split_ifs <;> cases op <;> simp [Operator.kind]

/-- A mark that is an operator is its spelling. -/
theorem singleton_eq_spelling {c : Char} {op : Operator} (h : Kind.ofMark? c = some op.kind) :
    String.ofList [c] = op.spelling := by
  unfold Kind.ofMark? at h
  split at h <;> cases op <;> simp [Operator.kind] at h <;> rfl

/-- A token that is an operator is cut off as the operator is spelled. -/
theorem ofList_eq_spelling {text word rest : List Char} {op : Operator}
    (h : munch? text = some (op.kind, word, rest)) : String.ofList word = op.spelling := by
  cases text with
  | nil => simp [munch?] at h
  | cons c text =>
    simp only [munch?] at h
    split_ifs at h with hdigit hword hequal
    · simp only [Option.some.injEq, Prod.mk.injEq] at h
      cases op <;> simp [Operator.kind] at h
    · simp only [Option.some.injEq, Prod.mk.injEq] at h
      exact absurd h.1 (ofWord_ne_kind _ op)
    · simp only [Option.some.injEq, Prod.mk.injEq] at h
      obtain ⟨hkind, rfl, -⟩ := h
      cases op <;> simp [Operator.kind] at hkind
      rfl
    · obtain ⟨mark, hmark, heq⟩ := Option.map_eq_some_iff.mp h
      simp only [Prod.mk.injEq] at heq
      obtain ⟨rfl, rfl, -⟩ := heq
      exact singleton_eq_spelling hmark

end Token

/-- In a text that can be scanned, the tokens of an operator are spelled as the operator is. -/
theorem TokenList.text_eq_spelling {text : String} {tokens : TokenList}
    (h : ofText text = .ok tokens) {token : Token} (htoken : token ∈ tokens.tokens) {op : Operator}
    (hkind : token.kind = op.kind) : token.text = op.spelling := by
  unfold ofText at h
  have hall := forall_of_scan (P := fun token => ∀ op : Operator, token.kind = op.kind →
    token.text = op.spelling) ?_ (by simp) h
  · exact hall token htoken op hkind
  · intro line text word rest kind hword op hkind
    subst hkind
    exact ofList_eq_spelling hword

end ScriptKit
