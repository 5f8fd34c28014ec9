/-!
# Paths in resource identifiers

A path becomes part of a resource identifier by percent-encoding its UTF-8 bytes. Letters, digits,
`_`, `.`, `-`, `~` and the separator `/` stand for themselves.
-/

set_option autoImplicit false

namespace ScriptKit.Text

/-- Does the byte stand for itself in an encoded path? -/
def isPlainByte (b : UInt8) : Bool :=
  let c := Char.ofNat b.toNat
  c.isAlphanum || c = '_' || c = '.' || c = '-' || c = '~' || c = '/'

/-- An upper-case hexadecimal digit. -/
def upperHexDigit (n : Nat) : Char :=
  if n < 10 then Char.ofNat ('0'.toNat + n) else Char.ofNat ('A'.toNat + (n - 10))

/-- A byte as it stands in a resource identifier. -/
def encodeByte (b : UInt8) : List Char :=
  if isPlainByte b then [Char.ofNat b.toNat]
  else ['%', upperHexDigit (b.toNat / 16), upperHexDigit (b.toNat % 16)]

/-- A path as it stands in a resource identifier. -/
def percentEncode (path : String) : String :=
  String.ofList (path.toUTF8.data.toList.flatMap encodeByte)

end ScriptKit.Text
