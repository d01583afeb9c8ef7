import BytecodeDebugger.Source.LineMap

/-!
# Breakpoints

Who decides where a run pauses.  `BreakpointOracle` is the interface: an oracle looks at a position
before the instruction there is carried out, holds the line map that can be edited during a pause,
and may keep count of the pauses.  `LineBreakpoints` is the usual oracle, which pauses at the
breakpoints of its line map and counts the pauses on each line.
-/

namespace BytecodeDebugger

/-- What an oracle says about a position. -/
structure Hit where
  position : Nat
  line : Option Nat
  isBreakpoint : Bool
deriving DecidableEq, Repr

/-- States that decide where a run pauses. -/
class BreakpointOracle (ω : Type) where
  check : ω → Nat → Hit
  lineMap : ω → LineMap
  withLineMap : ω → LineMap → ω
  /-- The oracle after one more pause at a breakpoint on the given line. -/
  recordHit : ω → Nat → ω := fun oracle _ => oracle

/-- A line map with the number of pauses at each line. -/
structure LineBreakpoints where
  map : LineMap := {}
  /-- The number of pauses at each line that has seen one. -/
  counts : Std.TreeMap Nat Nat := ∅

namespace LineBreakpoints

def hits (b : LineBreakpoints) (line : Nat) : Nat :=
  b.counts.getD line 0

/-- Counts one more pause at a line. -/
def recordHit (b : LineBreakpoints) (line : Nat) : LineBreakpoints :=
  { b with counts := b.counts.insert line (b.hits line + 1) }

instance : BreakpointOracle LineBreakpoints where
  check b position :=
    { position, line := b.map.line? position, isBreakpoint := b.map.isBreakpoint position }
  lineMap b := b.map
  withLineMap b map := { b with map }
  recordHit := recordHit

end LineBreakpoints

end BytecodeDebugger
