import BytecodeDebugger.Text.Numeral

/-!
# Hexadecimal texts

Byte strings as hexadecimal text, in both directions, and numbers in hexadecimal.

`Hex.encode` writes two lower-case digits a byte.  `Hex.decode` reads such a text back and is more
generous: letters of either case, white space anywhere, and one `0x` or `0X` in front.  A pair is
read as a numeral, so a pair such as `+f` stands for fifteen.
-/

namespace BytecodeDebugger.Text

/-- Why a text is not a byte string. -/
inductive HexError where
  /-- The digits do not come in pairs. -/
  | oddLength (digits : Nat)
  /-- A pair is not the numeral of a byte. -/
  | invalidByte (pair : String) (fault : NumeralFault)
deriving DecidableEq, Repr

def HexError.message : HexError → String
  | oddLength digits => "Hex string has an odd number of digits (" ++ toString digits ++ ")"
  | invalidByte pair fault => "Invalid hex byte '" ++ pair ++ "': " ++ fault.message

namespace Hex

/-- The lower-case digits of a number, without leading zeros. -/
def digits (n : Nat) : List Char :=
  Nat.toDigits 16 n

/-- A number in lower-case hexadecimal. -/
def ofNat (n : Nat) : String :=
  String.ofList (digits n)

/-- A number in lower-case hexadecimal, with zeros in front up to the given width. -/
def padded (width n : Nat) : String :=
  String.ofList (List.replicate (width - (digits n).length) '0' ++ digits n)

/-- The two lower-case digits of a byte. -/
def byteDigits (b : UInt8) : List Char :=
  [Nat.digitChar (b.toNat / 16), Nat.digitChar (b.toNat % 16)]

/-- The digits of a byte string, two a byte. -/
def encodeChars (bytes : List UInt8) : List Char :=
  bytes.flatMap byteDigits

/-- A byte string in hexadecimal. -/
def encode (bytes : ByteArray) : String :=
  String.ofList (encodeChars bytes.data.toList)

/-- Reads pairs of digits behind the bytes already read; a single last character is left out. -/
def decodePairs (read : ByteArray) : List Char → Except HexError ByteArray
  | high :: low :: cs =>
    match readNumeral .hexadecimal 255 [high, low] with
    | .ok value => decodePairs (read.push (UInt8.ofNat value)) cs
    | .error fault => .error (.invalidByte (String.ofList [high, low]) fault)
  | _ => .ok read

/-- The characters that count as digits: what is left of the text without the white space and the
mark in front. -/
def significant (s : String) : List Char :=
  let cs := trimChars s.toList
  ((dropHexMark? cs).getD cs).filter fun c => !isBlank c

/-- Reads a byte string. -/
def decode (s : String) : Except HexError ByteArray :=
  let cs := significant s
  if cs.length % 2 = 0 then decodePairs ByteArray.empty cs else .error (.oddLength cs.length)

end Hex

end BytecodeDebugger.Text
