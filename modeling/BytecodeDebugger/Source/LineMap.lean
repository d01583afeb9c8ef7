import Std.Data.TreeMap
import Std.Data.TreeSet

/-!
# Line maps

Which source line a position in the code comes from, and the lines that have a breakpoint.  The
lines with a breakpoint need not occur in the code: such a breakpoint is legal and never met.
-/

namespace BytecodeDebugger

/-- The source lines of positions, and the breakpoints on lines. -/
structure LineMap where
  /-- The line of each position that has one. -/
  lines : Std.TreeMap Nat Nat := ∅
  breakpoints : Std.TreeSet Nat := ∅

namespace LineMap

/-- The map with the given positions and their lines, of which later ones win, and breakpoints. -/
def ofLists (lines : List (Nat × Nat)) (breakpoints : List Nat) : LineMap where
  lines := lines.foldl (fun map entry => map.insert entry.1 entry.2) ∅
  breakpoints := breakpoints.foldl (fun set line => set.insert line) ∅

def line? (m : LineMap) (position : Nat) : Option Nat :=
  m.lines[position]?

def hasBreakpoint (m : LineMap) (line : Nat) : Bool :=
  m.breakpoints.contains line

/-- Whether a position comes from a line with a breakpoint. -/
def isBreakpoint (m : LineMap) (position : Nat) : Bool :=
  (m.line? position).any m.hasBreakpoint

/-- The map with a breakpoint on a line. -/
def addBreakpoint (m : LineMap) (line : Nat) : LineMap :=
  { m with breakpoints := m.breakpoints.insert line }

/-- The map without a breakpoint on a line. -/
def removeBreakpoint (m : LineMap) (line : Nat) : LineMap :=
  { m with breakpoints := m.breakpoints.erase line }

def breakpointLines (m : LineMap) : List Nat :=
  m.breakpoints.toList

/-- The positions that come from a line, in ascending order. -/
def positionsOf (m : LineMap) (line : Nat) : List Nat :=
  (m.lines.toList.filter fun entry => entry.2 == line).map (·.1)

/-- Whether some position comes from a line. -/
def isReachable (m : LineMap) (line : Nat) : Bool :=
  !(m.positionsOf line).isEmpty

def size (m : LineMap) : Nat :=
  m.lines.size

def isEmpty (m : LineMap) : Bool :=
  m.lines.isEmpty

end LineMap

end BytecodeDebugger
