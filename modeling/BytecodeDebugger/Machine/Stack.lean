import BytecodeDebugger.Machine.Fault

/-!
# The operand stack

A stack of at most `Stack.limit` words.  Its view is `Stack.words`, the list of its words from the
top down, and every operation either succeeds or leaves the stack as it was: an operation on a
stack that is too shallow asks for all the words it needs at once.
-/

namespace BytecodeDebugger

/-- An operand stack. -/
structure Stack where
  /-- The words, the top one first. -/
  words : List Word := []
deriving DecidableEq, Repr

namespace Stack

/-- The greatest number of words. -/
def limit : Nat := 1024

/-- The number of words. -/
def depth (s : Stack) : Nat :=
  s.words.length

def isEmpty (s : Stack) : Bool :=
  s.words.isEmpty

/-- The words from the bottom up. -/
def fromBottom (s : Stack) : List Word :=
  s.words.reverse

/-- The fault of an operation that needs more words than there are. -/
def underflow (s : Stack) (needed : Nat) : Fault :=
  .stackUnderflow needed s.depth

/-- Puts a word on top. -/
def push (s : Stack) (word : Word) : Except Fault Stack :=
  if s.depth < limit then .ok ⟨word :: s.words⟩ else .error (.stackOverflow limit)

/-- Takes the top word. -/
def pop (s : Stack) : Except Fault (Word × Stack) :=
  match s.words with
  | word :: rest => .ok (word, ⟨rest⟩)
  | [] => .error (s.underflow 1)

/-- Takes the two topmost words, the top one first. -/
def popPair (s : Stack) : Except Fault ((Word × Word) × Stack) :=
  match s.words with
  | first :: second :: rest => .ok ((first, second), ⟨rest⟩)
  | _ => .error (s.underflow 2)

/-- Takes the topmost `count` words, the top one first. -/
def popMany (s : Stack) (count : Nat) : Except Fault (List Word × Stack) :=
  if count ≤ s.depth then .ok (s.words.take count, ⟨s.words.drop count⟩)
  else .error (s.underflow count)

/-- Puts a copy of the word at the given depth on top; the top word has depth one. -/
def dup (s : Stack) : Nat → Except Fault Stack
  | 0 => .error .outOfRange
  | below + 1 =>
    match s.words[below]? with
    | some word => s.push word
    | none => .error (s.underflow (below + 1))

/-- Exchanges the top word and the one `below` places under it. -/
def swap (s : Stack) (below : Nat) : Except Fault Stack :=
  -- The top word and so many places under it are more than can be counted.
  if maxPosition ≤ below then .error .outOfRange
  else
    match s.words[0]?, s.words[below]? with
    | some top, some other => .ok ⟨(s.words.set 0 other).set below top⟩
    | _, _ => .error (s.underflow (below + 1))

end Stack

end BytecodeDebugger
