import BytecodeDebugger.Text.Blank
import BytecodeDebugger.Word

/-!
# Numerals

Reading unsigned numerals, in decimal or in hexadecimal.  `readNumeral` reads a bare numeral up to
a limit, and `readNumber` reads the notation of the command language: surrounding white space is
ignored, and a leading `0x` or `0X` asks for hexadecimal.

A numeral may start with one `+`; a `-` is never a sign.  Digits are read from left to right, and
each is first tested for being a digit and then for taking the value beyond the limit, so of two
faults the one further left is reported.
-/

namespace BytecodeDebugger.Text

/-- The base in which a numeral is written. -/
inductive Base where
  | decimal
  /-- Base sixteen, with letters of either case. -/
  | hexadecimal
deriving DecidableEq, Repr

namespace Base

/-- The number of digits of the base. -/
def radix : Base → Nat
  | decimal => 10
  | hexadecimal => 16

/-- The value of a digit of the base. -/
def digit? (base : Base) (c : Char) : Option Nat :=
  if '0' ≤ c ∧ c ≤ '9' then some (c.toNat - '0'.toNat)
  else if base = hexadecimal ∧ 'a' ≤ c ∧ c ≤ 'f' then some (c.toNat - 'a'.toNat + 10)
  else if base = hexadecimal ∧ 'A' ≤ c ∧ c ≤ 'F' then some (c.toNat - 'A'.toNat + 10)
  else none

end Base

/-- Why a numeral is refused. -/
inductive NumeralFault where
  | empty
  /-- A character is not a digit of the base, or a sign stands alone. -/
  | invalidDigit
  | tooLarge
deriving DecidableEq, Repr

def NumeralFault.message : NumeralFault → String
  | empty => "cannot parse integer from empty string"
  | invalidDigit => "invalid digit found in string"
  | tooLarge => "number too large to fit in target type"

/-- Reads digits on top of the value `value` of those already read. -/
def readDigits (base : Base) (limit : Nat) (value : Nat) :
    List Char → Except NumeralFault Nat
  | [] => .ok value
  | c :: cs =>
    match base.digit? c with
    | none => .error .invalidDigit
    | some digit =>
      if limit < value * base.radix + digit then .error .tooLarge
      else readDigits base limit (value * base.radix + digit) cs

/-- Reads an unsigned numeral, with an optional `+`, whose value is at most `limit`. -/
def readNumeral (base : Base) (limit : Nat) : List Char → Except NumeralFault Nat
  | [] => .error .empty
  | '+' :: c :: cs => readDigits base limit 0 (c :: cs)
  -- A sign that stands alone is no digit.
  | c :: cs => readDigits base limit 0 (c :: cs)

/-- What follows a leading `0x` or `0X`, if there is one. -/
def dropHexMark? : List Char → Option (List Char)
  | '0' :: 'x' :: cs => some cs
  | '0' :: 'X' :: cs => some cs
  | _ => none

/-- Why a text is not a number: the trimmed text, the base it asked for, and the fault. -/
structure NumberError where
  /-- The base that the text asked for. -/
  base : Base
  /-- The text, without the white space around it. -/
  text : String
  fault : NumeralFault
deriving DecidableEq, Repr

def NumberError.message (e : NumberError) : String :=
  let kind := match e.base with
    | .decimal => "Invalid number '"
    | .hexadecimal => "Invalid hexadecimal number '"
  kind ++ e.text ++ "': " ++ e.fault.message

/-- Reads a number below `2 ^ 64`, in hexadecimal after `0x` or `0X` and in decimal otherwise. -/
def readNumber (s : String) : Except NumberError Nat :=
  let cs := trimChars s.toList
  match dropHexMark? cs with
  | some digits =>
    (readNumeral .hexadecimal maxPosition digits).mapError (⟨.hexadecimal, String.ofList cs, ·⟩)
  | none => (readNumeral .decimal maxPosition cs).mapError (⟨.decimal, String.ofList cs, ·⟩)

end BytecodeDebugger.Text
