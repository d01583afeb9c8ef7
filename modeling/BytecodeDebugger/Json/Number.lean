import BytecodeDebugger.Json.Basic
import BytecodeDebugger.Text.Numeral

/-!
# JSON numbers

The grammar of a number, `-? int frac? exp?`, and its range.  A number must be finite as a double.
Its magnitude is first brought into the form `significand * 10 ^ exponent`, where the significand
has 64 bits: digits that no longer fit into it count as powers of ten before the point and are left
out behind it.
-/

namespace BytecodeDebugger.Json

/-- The magnitude `significand * 10 ^ exponent`. -/
structure Magnitude where
  /-- The leading digits, as a number below `2 ^ 64`. -/
  significand : Nat := 0
  /-- The power of ten that they are multiplied by. -/
  exponent : Int := 0
deriving DecidableEq, Repr

namespace Magnitude

/-- The significand with one more digit, if it still fits. -/
def extend? (significand digit : Nat) : Option Nat :=
  if significand * 10 + digit ≤ maxPosition then some (significand * 10 + digit) else none

/-- Takes the digits before the point.  From the first that does not fit on, each multiplies the
magnitude by ten. -/
def takeWhole (significand : Nat) : List Nat → Magnitude
  | [] => { significand }
  | digit :: digits =>
    match extend? significand digit with
    | some longer => takeWhole longer digits
    | none => { significand, exponent := digits.length + 1 }

/-- Takes the digits behind the point, up to the first that does not fit. -/
def takeFraction (m : Magnitude) : List Nat → Magnitude
  | [] => m
  | digit :: digits =>
    match extend? m.significand digit with
    | some significand => takeFraction { significand, exponent := m.exponent - 1 } digits
    | none => m

/-- Whether the magnitude is finite as a double.  The product of the significand and the power of
ten is taken in doubles; beyond `10 ^ 308` only zero is finite. -/
def isFinite (m : Magnitude) : Bool :=
  if m.exponent ≤ 0 then true
  else if m.exponent ≤ 308 then
    ((UInt64.ofNat m.significand).toFloat * Float.ofScientific 1 false m.exponent.toNat).isFinite
  else m.significand == 0

end Magnitude

/-- The longest row of digits in front, as their values, and the rest. -/
def spanDigits : List Char → List Nat × List Char
  | [] => ([], [])
  | c :: cs =>
    match Text.Base.decimal.digit? c with
    | some digit =>
      let (digits, rest) := spanDigits cs
      (digit :: digits, rest)
    | none => ([], c :: cs)

/-- The number that a row of digits writes. -/
def ofDigits (digits : List Nat) : Nat :=
  digits.foldl (fun n digit => n * 10 + digit) 0

/-- The digits before the point: a zero alone, or a row that does not start with one. -/
def wholePart? (cs : List Char) : Option (List Nat × List Char) :=
  match spanDigits cs with
  | ([], _) => none
  | (0 :: _ :: _, _) => none
  | (digits, rest) => some (digits, rest)

/-- The digits behind the point, if there is a point. -/
def fractionPart? : List Char → Option (Option (List Nat) × List Char)
  | '.' :: cs =>
    match spanDigits cs with
    | ([], _) => none
    | (digits, rest) => some (some digits, rest)
  | cs => some (none, cs)

/-- The value behind the `e`, if there is one, which ends the number. -/
def exponentPart? : List Char → Option (Option Int)
  | [] => some none
  | c :: cs =>
    if c = 'e' ∨ c = 'E' then
      let (negative, cs) := match cs with
        | '-' :: cs => (true, cs)
        | '+' :: cs => (false, cs)
        | cs => (false, cs)
      match spanDigits cs with
      | (digit :: digits, []) =>
        let value : Int := ofDigits (digit :: digits)
        some (some (if negative then -value else value))
      | _ => none
    else none

/-- Reads a number, which takes up all the characters. -/
def readNumber? (cs : List Char) : Option Json := do
  let (negative, cs) := match cs with
    | '-' :: cs => (true, cs)
    | cs => (false, cs)
  let (whole, cs) ← wholePart? cs
  let (fraction, cs) ← fractionPart? cs
  let exponent ← exponentPart? cs
  let magnitude := (Magnitude.takeWhole 0 whole).takeFraction (fraction.getD [])
  let magnitude := { magnitude with exponent := magnitude.exponent + exponent.getD 0 }
  guard magnitude.isFinite
  -- A row of digits with anything beside it is not a plain one, whatever its value.
  return if negative ∨ fraction.isSome ∨ exponent.isSome then other else natural (ofDigits whole)

end BytecodeDebugger.Json
