import BytecodeDebugger.Instruction.Basic

/-!
# Call frames

One call: the machine that carries it out, the address it is made to, and the precompiled routines
that are run in place of code at their addresses.  A frame also records how far its run has come.

An instruction works on the machine (`Frame.perform`).  A precompiled routine is given the whole
call and may leave any other in its place (`Frame.call`).
-/

namespace BytecodeDebugger

/-- The address of a program or a precompiled routine: a number of 160 bits. -/
structure Address where
  value : BitVec 160 := 0
deriving DecidableEq, Repr

namespace Address

def size : Nat := 20

/-- The address that is the given number. -/
def ofNat (n : Nat) : Address :=
  ⟨BitVec.ofNat 160 n⟩

/-- An address in hexadecimal, with all its digits. -/
def toHex (a : Address) : String :=
  "0x" ++ Text.Hex.padded (2 * size) a.value.toNat

end Address

/-- How far a run has come. -/
inductive RunStatus where
  | idle
  | running
  | halted
  /-- It has failed or was broken off. -/
  | failed
deriving DecidableEq, Repr

def RunStatus.name : RunStatus → String
  | idle => "Idle"
  | running => "Running"
  | halted => "Halted"
  | failed => "Failed"

/-- A call without its table of precompiled routines. -/
structure Scope where
  machine : Machine := {}
  address : Address := {}
  status : RunStatus := .idle

/-- A change of a table of routines. -/
inductive TableChange (ρ : Type) where
  /-- All routines are taken out. -/
  | clear
  /-- A routine is put at an address, in place of the one that may be there. -/
  | insert (address : Address) (routine : ρ)

/-- A precompiled routine: what comes of the call that it is run in.  It sees at which addresses
there are routines, and says how their table changes.  (The table is made of routines, so that it
cannot be handed to a routine as it is.) -/
structure Precompile where
  run : List Address → Scope → Except Fault Unit × Scope × List (TableChange Precompile)

namespace Precompile

/-- The routine that works on the machine only. -/
def ofAction (action : Action Unit) : Precompile where
  run _ scope :=
    let (result, machine) := action.run scope.machine
    (result, { scope with machine }, [])

/-- Hands the call data back as it is. -/
def identity : Precompile :=
  .ofAction do Action.setReturnData (← get).callData

def failing (reason : String) : Precompile :=
  .ofAction (throw (.precompile reason))

end Precompile

/-- Precompiled routines by address. -/
structure PrecompileTable where
  /-- The routines, each address once. -/
  entries : List (Address × Precompile) := []

namespace PrecompileTable

def find? (t : PrecompileTable) (address : Address) : Option Precompile :=
  (t.entries.find? fun entry => entry.1 = address).map (·.2)

def contains (t : PrecompileTable) (address : Address) : Bool :=
  (t.find? address).isSome

/-- Puts a routine at an address, in place of the one that may be there. -/
def insert (t : PrecompileTable) (address : Address) (routine : Precompile) : PrecompileTable :=
  ⟨(address, routine) :: t.entries.filter fun entry => entry.1 ≠ address⟩

/-- The table after a change. -/
def change (t : PrecompileTable) : TableChange Precompile → PrecompileTable
  | .clear => {}
  | .insert address routine => t.insert address routine

/-- The addresses that there are routines at. -/
def addresses (t : PrecompileTable) : List Address :=
  t.entries.map Prod.fst

def size (t : PrecompileTable) : Nat :=
  t.entries.length

def isEmpty (t : PrecompileTable) : Bool :=
  t.entries.isEmpty

/-- The usual table: the identity at address four. -/
def standard : PrecompileTable :=
  PrecompileTable.insert {} (Address.ofNat 4) Precompile.identity

end PrecompileTable

/-- One call. -/
structure Frame where
  machine : Machine := {}
  address : Address := {}
  precompiles : PrecompileTable := .standard
  status : RunStatus := .idle

namespace Frame

/-- The precompiled routine that the call goes to, if it goes to one. -/
def precompile? (f : Frame) : Option Precompile :=
  f.precompiles.find? f.address

/-- Carries out an action on the machine. -/
def perform {α : Type} (f : Frame) (action : Action α) : Except Fault α × Frame :=
  -- Taken apart first, so that the action is the only one to hold the machine.
  let { machine, address, precompiles, status } := f
  let (result, machine) := action.run machine
  (result, { machine, address, precompiles, status })

/-- The call without its table. -/
def scope (f : Frame) : Scope :=
  { machine := f.machine, address := f.address, status := f.status }

/-- Runs a precompiled routine. -/
def call (f : Frame) (routine : Precompile) : Except Fault Unit × Frame :=
  let (result, scope, changes) := routine.run f.precompiles.addresses f.scope
  (result, {
    machine := scope.machine
    address := scope.address
    precompiles := changes.foldl PrecompileTable.change f.precompiles
    status := scope.status })

end Frame

end BytecodeDebugger
