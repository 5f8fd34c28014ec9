import ScriptKit.Editor.Workspace
import Mathlib.Data.List.Basic

/-!
# Identifiers of scripts

Different paths have different identifiers, since each byte of a path is encoded by characters that
can be told from what follows them (`Text.encodeByte_append_inj`). So an identifier leads to at most
one script of a workspace, and the text of that script does not depend on the order in which the
scripts are listed (`Workspace.fileText_uriOf`).
-/

set_option autoImplicit false

namespace ScriptKit

namespace Text

/-! ## Encoded paths -/

/-- The sixteen hexadecimal digits differ. -/
theorem upperHexDigit_inj {m n : Nat} (hm : m < 16) (hn : n < 16)
    (h : upperHexDigit m = upperHexDigit n) : m = n := by
  have hdigits : ∀ i j : Fin 16, upperHexDigit i = upperHexDigit j → i = j := by decide
  exact Fin.mk.inj (hdigits ⟨m, hm⟩ ⟨n, hn⟩ h)

/-- The character of a byte has the number of the byte. -/
theorem toNat_ofNat_byte (b : UInt8) : (Char.ofNat b.toNat).toNat = b.toNat := by
  have hlt : b.toNat < 256 := b.toNat_lt
  have hvalid : b.toNat.isValidChar := .inl (by omega)
  rw [Char.ofNat, dif_pos hvalid]
  rfl

/-- The percent sign never stands for itself, so it always announces a code. -/
theorem ofNat_ne_percent {b : UInt8} (h : isPlainByte b = true) : Char.ofNat b.toNat ≠ '%' := by
  intro hpercent
  have hplain : isPlainByte b = false := by
    rw [isPlainByte, hpercent]
    decide
  rw [hplain] at h
  cases h

/-- What encodes a byte can be split off the front of any text. -/
theorem encodeByte_append_inj {b b' : UInt8} {rest rest' : List Char}
    (h : encodeByte b ++ rest = encodeByte b' ++ rest') : b = b' ∧ rest = rest' := by
  unfold encodeByte at h
  split_ifs at h with hplain hplain' hplain'
  · obtain ⟨hchar, hrest⟩ := List.cons.inj h
    have hnat := congrArg Char.toNat hchar
    rw [toNat_ofNat_byte, toNat_ofNat_byte] at hnat
    exact ⟨UInt8.toNat_inj.mp hnat, hrest⟩
  · exact absurd (List.cons.inj h).1 (ofNat_ne_percent hplain)
  · exact absurd (List.cons.inj h).1.symm (ofNat_ne_percent hplain')
  · have hlt : b.toNat < 256 := b.toNat_lt
    have hlt' : b'.toNat < 256 := b'.toNat_lt
    simp only [List.cons_append, List.nil_append, List.cons.injEq, true_and] at h
    obtain ⟨hhigh, hlow, hrest⟩ := h
    have hdiv := upperHexDigit_inj (by omega) (by omega) hhigh
    have hmod := upperHexDigit_inj (by omega) (by omega) hlow
    exact ⟨UInt8.toNat_inj.mp (by omega), hrest⟩

/-- Bytes can be read back from what encodes them. -/
theorem flatMap_encodeByte_inj {bytes bytes' : List UInt8}
    (h : bytes.flatMap encodeByte = bytes'.flatMap encodeByte) : bytes = bytes' := by
  have hne (b : UInt8) : encodeByte b ≠ [] := by
    unfold encodeByte
    split_ifs <;> simp
  induction bytes generalizing bytes' with
  | nil =>
    cases bytes' with
    | nil => rfl
    | cons b' rest' =>
      rw [List.flatMap_nil, List.flatMap_cons] at h
      exact absurd (List.append_eq_nil_iff.mp h.symm).1 (hne b')
  | cons b rest ih =>
    cases bytes' with
    | nil =>
      rw [List.flatMap_nil, List.flatMap_cons] at h
      exact absurd (List.append_eq_nil_iff.mp h).1 (hne b)
    | cons b' rest' =>
      rw [List.flatMap_cons, List.flatMap_cons] at h
      obtain ⟨rfl, hrest⟩ := encodeByte_append_inj h
      rw [ih hrest]

/-- Different paths are encoded differently. -/
theorem percentEncode_inj {path path' : String} (h : percentEncode path = percentEncode path') :
    path = path' := by
  have hbytes := flatMap_encodeByte_inj (String.ofList_inj.mp h)
  have hdata : path.toUTF8.data = path'.toUTF8.data := Array.toList_inj.mp hbytes
  exact String.toByteArray_inj.mp (ByteArray.ext hdata)

end Text

namespace Editor.Workspace

/-! ## The script with an identifier -/

variable {workspace : Workspace} {path path' text : String}

/-- Different files of a workspace have different identifiers. -/
theorem uriOf_inj (h : workspace.uriOf path = workspace.uriOf path') : path = path' :=
  Text.percentEncode_inj (String.append_right_inj _ |>.mp h)

/-- The text of the script with an identifier, from its file. -/
def fileText (workspace : Workspace) (uri : String) : Option String :=
  workspace.scripts.findSome? fun path =>
    if workspace.uriOf path = uri then (workspace.readText (.within []) path).toOption else none

/-- The text of a listed script is that of its identifier, wherever it stands in the list. -/
theorem fileText_uriOf (listing : workspace.Listing) (hmem : path ∈ listing.paths)
    (hread : workspace.readText (.within []) path = .ok text) :
    workspace.fileText (workspace.uriOf path) = some text := by
  have hscript : path ∈ workspace.scripts := listing.perm.mem_iff.mp hmem
  have hsome : (workspace.fileText (workspace.uriOf path)).isSome := by
    rw [fileText, List.isSome_findSome?]
    exact List.any_eq_true.mpr ⟨path, hscript, by simp [hread, Except.toOption]⟩
  obtain ⟨found, hfound⟩ := Option.isSome_iff_exists.mp hsome
  obtain ⟨other, -, hother⟩ := List.exists_of_findSome?_eq_some hfound
  split_ifs at hother with huri
  rw [uriOf_inj huri, hread] at hother
  rw [hfound, ← hother]
  rfl

end Editor.Workspace

end ScriptKit
