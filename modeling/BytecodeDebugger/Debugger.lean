import BytecodeDebugger.Interpreter

/-!
# The debugger

An interpreter together with the breakpoints on source lines, which outlast the single run: edits
made during a run stay, and the pauses of all runs are counted together.
-/

namespace BytecodeDebugger

/-- A debugger. -/
structure Debugger where
  interpreter : Interpreter := {}
  breakpoints : LineBreakpoints := {}

/-- What a run of the debugger leaves behind. -/
structure RunResult (σ : Type) where
  ending : Ending
  frame : Frame
  handler : σ
  debugger : Debugger
  journal : Journal

namespace Debugger

def ofLineMap (map : LineMap) : Debugger :=
  { breakpoints := { map } }

def withSource (d : Debugger) (source : SourceText) : Debugger :=
  { d with interpreter := { d.interpreter with source := some source } }

def withOpcodes (d : Debugger) (opcodes : OpcodeTable) : Debugger :=
  { d with interpreter := { d.interpreter with opcodes } }

def map (d : Debugger) : LineMap :=
  d.breakpoints.map

def withMap (d : Debugger) (map : LineMap) : Debugger :=
  { d with breakpoints := { d.breakpoints with map } }

/-- What there is to note about a breakpoint on a line. -/
def breakpointEvents (d : Debugger) (line : Nat) : List Event :=
  if d.map.isReachable line then [] else [.unreachableBreakpoint line]

/-- Sets a breakpoint, and says whether it is new. -/
def setBreakpoint (d : Debugger) (line : Nat) : Bool × Debugger :=
  (!d.map.hasBreakpoint line, d.withMap (d.map.addBreakpoint line))

/-- Deletes a breakpoint, and says whether there was one. -/
def removeBreakpoint (d : Debugger) (line : Nat) : Bool × Debugger :=
  (d.map.hasBreakpoint line, d.withMap (d.map.removeBreakpoint line))

def breakpointLines (d : Debugger) : List Nat :=
  d.map.breakpointLines

def hits (d : Debugger) (line : Nat) : Nat :=
  d.breakpoints.hits line

def line? (d : Debugger) (position : Nat) : Option Nat :=
  d.map.line? position

/-- Runs a call, in at most the given number of steps. -/
def run {σ : Type} (d : Debugger) (handler : Handler σ) (steps : Nat) (state : σ) (frame : Frame)
    (journal : Journal) : Option (RunResult σ) := do
  let (ending, r) ← d.interpreter.run handler steps
    { frame, oracle := d.breakpoints, handler := state, journal }
  -- What was edited and counted stays, whichever way the run ended.
  return {
    ending
    frame := r.frame
    handler := r.handler
    debugger := { d with breakpoints := r.oracle }
    journal := r.journal }

end Debugger

end BytecodeDebugger
