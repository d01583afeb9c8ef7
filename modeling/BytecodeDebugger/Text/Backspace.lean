import BytecodeDebugger.Text.Cluster

/-!
# Backspaces

A line that is typed in may hold backspaces, where nobody edited it.  Each one erases the cluster
before it that is still there, if there is one, and itself (`erase?`).

Erasing goes by size: what is remembered of a cluster is its number of bytes, and that in one byte,
so a cluster of 256 bytes or more loses only as many as the remainder says.  If they end in the
middle of a character, there is no text that could be left, and `erase?` has no result.
-/

namespace BytecodeDebugger.Text

/-- The number of bytes of some characters. -/
def byteCount (cs : List Char) : Nat :=
  cs.foldr (fun c size => c.utf8Size + size) 0

/-- Takes characters of so many bytes together off the front of a list, if that can be done. -/
def dropBytes? : Nat → List Char → Option (List Char)
  | 0, cs => some cs
  | _ + 1, [] => none
  | n + 1, c :: cs => if c.utf8Size ≤ n + 1 then dropBytes? (n + 1 - c.utf8Size) cs else none

/-- A text that is being typed. -/
structure Typing where
  /-- The characters that are there, last first. -/
  text : List Char := []
  /-- The sizes of their clusters as they are remembered, last first. -/
  sizes : List Nat := []

namespace Typing

/-- The character that erases. -/
def backspace : Char := '\x08'

/-- The text after one more cluster, which may be a backspace. -/
def type? (t : Typing) (cluster : List Char) : Option Typing :=
  if cluster = [backspace] then
    match t.sizes with
    | [] => some t
    | size :: sizes => do return { text := ← dropBytes? size t.text, sizes }
  else some { text := cluster.reverse ++ t.text, sizes := byteCount cluster % 256 :: t.sizes }

end Typing

/-- What is left of a text after its backspaces have done their work. -/
def erase? (s : String) : Option String := do
  let t ← (clusters s.toList).foldlM Typing.type? {}
  return String.ofList t.text.reverse

end BytecodeDebugger.Text
