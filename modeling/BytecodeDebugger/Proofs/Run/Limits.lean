import BytecodeDebugger.Proofs.Instruction.Checked
import BytecodeDebugger.Proofs.Run.Plain

/-!
# What runs keep

Whatever is done with a frame after it was made, its machine stays within its limits
(`Frame.Reached`, `Frame.Reached.withinLimits`).  A run of code does more than that to what it does
not work on: it never takes memory back, and it leaves the bytes of the code, the call data, the
address and the precompiled routines alone (`Frame.Grows`).

Both come from a single instruction (`Interpreter.follows_step`) by one induction along the run
(`Interpreter.follows_code`), whether or not the run succeeds.  `Interpreter.limits_and_frame` puts
them together with what one instruction does to the bytes of the memory.

A precompiled routine is given the whole call.  One that does nothing but operations on the machine
(`Precompile.Operates`) keeps the same things, and any other may put a new call in place of the one
that it was given (`Interpreter.not_grows_of_precompile`).
-/

namespace BytecodeDebugger

/-! ### Operations on a machine -/

/-- Something that is done with a machine other than carrying out an instruction. -/
inductive Machine.Operation where
  | push (word : Word)
  | pop
  | popMany (count : Nat)
  | dup (depth : Nat)
  | swap (below : Nat)
  | memory (operation : Memory.Operation)
  | seek (position : Word)
  /-- An opcode is taken. -/
  | next
  /-- An immediate is taken. -/
  | read (size : Nat)
  | setReturnData (data : ByteArray)

/-- What an operation does; whatever it returns is dropped. -/
def Machine.Operation.action : Machine.Operation → Action Unit
  | push word => Action.push word
  | pop => do
    let _ ← Action.pop
  | popMany count => do
    let _ ← Action.onStack (·.popMany count)
  | dup depth => Action.onStack fun s => (s.dup depth).map ((), ·)
  | swap below => Action.onStack fun s => (s.swap below).map ((), ·)
  | memory operation => do
    let _ ← Action.onMemory (·.perform operation)
  | seek position => modify fun m => { m with code := m.code.seek position.toNat }
  | next => do
    let _ ← Action.onCode fun c => .ok c.next
  | read size => do
    let _ ← Action.onCode (·.read size)
  | setReturnData data => Action.setReturnData data

/-- The machine after an operation, which succeeded or not. -/
def Machine.perform (m : Machine) (operation : Machine.Operation) : Machine :=
  (operation.action.run m).2

/-- A routine that does nothing to a call but operations on its machine. -/
def Precompile.Operates (routine : Precompile) : Prop :=
  ∀ f : Frame, ∃ operations : List Machine.Operation, (f.call routine).2 =
    { f with machine := operations.foldl Machine.perform f.machine }

theorem Precompile.operates_identity : Precompile.identity.Operates :=
  fun f => ⟨[.setReturnData f.machine.callData], rfl⟩

/-! ### From one machine to the next -/

/-- A machine whose memory is no smaller than that of another, with the same code and call data. -/
structure Machine.Grows (m m' : Machine) : Prop where
  memory_le : m.memory.size ≤ m'.memory.size
  bytes_eq : m'.code.bytes = m.code.bytes
  callData_eq : m'.callData = m.callData

/-- A machine that may come of another one, within whose limits it stays. -/
structure Machine.Follows (m m' : Machine) : Prop extends m.Grows m' where
  withinLimits : m.WithinLimits → m'.WithinLimits

namespace Machine

variable {m m₁ m₂ m₃ : Machine}

theorem Grows.refl (m : Machine) : m.Grows m :=
  ⟨Nat.le_refl _, rfl, rfl⟩

theorem Grows.trans (h₁₂ : m₁.Grows m₂) (h₂₃ : m₂.Grows m₃) : m₁.Grows m₃ :=
  ⟨h₁₂.memory_le.trans h₂₃.memory_le, h₂₃.bytes_eq.trans h₁₂.bytes_eq,
    h₂₃.callData_eq.trans h₁₂.callData_eq⟩

theorem Follows.refl (m : Machine) : m.Follows m :=
  ⟨.refl m, id⟩

theorem Follows.trans (h₁₂ : m₁.Follows m₂) (h₂₃ : m₂.Follows m₃) : m₁.Follows m₃ :=
  ⟨h₁₂.toGrows.trans h₂₃.toGrows, fun h => h₂₃.withinLimits (h₁₂.withinLimits h)⟩

theorem follows_stack {s : Stack} (h : m.stack.depth ≤ Stack.limit → s.depth ≤ Stack.limit) :
    m.Follows { m with stack := s } :=
  ⟨⟨Nat.le_refl _, rfl, rfl⟩,
    fun hm => ⟨h hm.depth_le, hm.memory_le, hm.code_le, hm.cursor_le⟩⟩

theorem follows_memory (m : Machine) (operation : Memory.Operation) :
    m.Follows { m with memory := (m.memory.perform operation).2 } :=
  ⟨⟨m.memory.le_size_perform operation, rfl, rfl⟩, fun hm =>
    ⟨hm.depth_le, m.memory.size_perform_le operation hm.memory_le, hm.code_le, hm.cursor_le⟩⟩

theorem follows_seek {position : Nat} (h : m.WithinLimits → position ≤ maxPosition) :
    m.Follows { m with code := m.code.seek position } :=
  ⟨⟨Nat.le_refl _, rfl, rfl⟩, fun hm => ⟨hm.depth_le, hm.memory_le, hm.code_le, h hm⟩⟩

theorem follows_returnData (m : Machine) (data : ByteArray) :
    m.Follows { m with returnData := data } :=
  ⟨⟨Nat.le_refl _, rfl, rfl⟩, fun hm => ⟨hm.depth_le, hm.memory_le, hm.code_le, hm.cursor_le⟩⟩

/-- An opcode is taken only inside the code, and so the cursor stays a number of 64 bits. -/
theorem follows_next (m : Machine) : m.Follows { m with code := m.code.next.2 } := by
  rw [Code.next_eq_seek]
  refine follows_seek fun hm => ?_
  have hcode := hm.code_le
  have hcursor := hm.cursor_le
  have hmax := Bytes.maxSize_add_le
  split_ifs
  · omega
  · exact hcursor

/-- **An operation** leads from one machine to the next. -/
theorem follows_perform (m : Machine) (operation : Operation) :
    m.Follows (m.perform operation) := by
  have hdrop {α : Type} {x : Action α} (hx : x.Relates Follows) :
      (do let _ ← x : Action Unit).Relates Follows :=
    hx.bind (fun _ _ _ h₁₂ h₂₃ => h₁₂.trans h₂₃) fun _ => Action.relates_pure Follows.refl _
  have hcode {α : Type} (f : Code → Except Fault (α × Code)) := Action.relates_onCode Follows.refl f
  have hstack {α : Type} (f : Stack → Except Fault (α × Stack))
      (hf : ∀ s a s', s.depth ≤ Stack.limit → f s = .ok (a, s') → s'.depth ≤ Stack.limit) :
      (Action.onStack f).Relates Follows :=
    Action.relates_onStack Follows.refl f fun m a s h => follows_stack fun hs => hf _ a s hs h
  have hmap (f : Stack → Except Fault Stack)
      (hf : ∀ s s', s.depth ≤ Stack.limit → f s = .ok s' → s'.depth ≤ Stack.limit) :
      (Action.onStack fun s => (f s).map ((), ·)).Relates Follows := by
    refine hstack _ fun s a s' hs h => ?_
    obtain ⟨stack, hstack, hs'⟩ := Except.map_eq_ok_iff.mp h
    obtain ⟨-, rfl⟩ := Prod.mk.inj hs'
    exact hf s stack hs hstack
  have hrelates : operation.action.Relates Follows := by
    cases operation with
    | push word =>
      refine hmap _ fun s s' hs h => ?_
      have hdepth := Stack.depth_of_push h
      omega
    | pop =>
      refine hdrop (hstack _ fun s a s' hs h => ?_)
      have hdepth := Stack.depth_of_pop h
      omega
    | popMany count =>
      refine hdrop (hstack _ fun s a s' hs h => ?_)
      have hdepth := Stack.depth_of_popMany h
      omega
    | dup depth =>
      refine hmap _ fun s s' hs h => ?_
      have hdepth := Stack.depth_of_dup h
      omega
    | swap below =>
      refine hmap _ fun s s' hs h => ?_
      have hdepth := Stack.depth_of_swap h
      omega
    | memory operation =>
      exact hdrop (Action.relates_onMemory _ fun m => m.follows_memory operation)
    | seek position => exact fun m => follows_seek fun _ => Word.toNat_le_maxPosition position
    | next =>
      refine hdrop (hcode _ fun m a code h => ?_)
      obtain ⟨-, rfl⟩ := Prod.mk.inj (Except.ok.inj h)
      exact m.follows_next
    | read size =>
      refine hdrop (hcode _ fun m data code h => ?_)
      rw [Code.seek_of_read h]
      exact follows_seek fun _ => Nat.min_le_right _ _
    | setReturnData data => exact fun m => m.follows_returnData data
  exact hrelates m

theorem follows_foldl_perform (m : Machine) (operations : List Operation) :
    m.Follows (operations.foldl perform m) := by
  induction operations generalizing m with
  | nil => exact .refl m
  | cons operation operations ih => exact (m.follows_perform operation).trans (ih _)

/-- **An instruction** leads from one machine to the next, whether or not it succeeds. -/
theorem follows_execute (m : Machine) (x : Instruction) : m.Follows (x.execute.run m).2 := by
  have hgrows : x.execute.Relates Grows := by
    refine x.relates_execute Grows.refl (fun _ _ _ h₁₂ h₂₃ => h₁₂.trans h₂₃)
      (fun _ _ => ⟨Nat.le_refl _, rfl, rfl⟩) (fun m offset size => ?_) (fun _ m offset word => ?_)
      (fun _ _ _ => ⟨Nat.le_refl _, rfl, rfl⟩) fun _ _ _ => ⟨Nat.le_refl _, rfl, rfl⟩
    · exact (m.follows_memory (.read offset size)).toGrows
    · exact (m.follows_memory (.writeWord offset word)).toGrows
  exact ⟨hgrows m, x.checks_execute.withinLimits m⟩

end Machine

/-! ### The bytes of the memory -/

namespace Instruction

/-- Only one instruction writes to the memory. -/
theorem keeps_byteAt {x : Instruction} (h : x ≠ .mstore) :
    x.execute.Keeps fun m => m.memory.byteAt := by
  refine relates_execute (R := fun m m' => m'.memory.byteAt = m.memory.byteAt) x (fun _ => rfl)
    (fun _ _ _ h₁₂ h₂₃ => h₂₃.trans h₁₂) (fun _ _ => rfl) (fun m offset size => ?_)
    (fun hx => absurd hx h) (fun _ _ _ => rfl) fun _ _ _ => rfl
  exact m.memory.byteAt_read offset size

/-- That instruction changes no byte beyond the word that it writes. -/
theorem byteAt_of_mstore (m : Machine) {address : Nat}
    (h : ∀ offset ∈ m.stack.words.head?, address < offset.toNat ∨ offset.toNat + 8 ≤ address) :
    (mstore.execute.run m).2.memory.byteAt address = m.memory.byteAt address := by
  have hwrite (m : Machine) (offset word : Word) :
      ((do Action.onMemory (·.writeWord offset.toNat word); return .proceed : Action Flow).run
        m).2.memory = (m.memory.writeWord offset.toNat word).2 := by
    rw [Action.run_bind, Action.run_onMemory]
    cases (m.memory.writeWord offset.toNat word).1 <;> rfl
  rw [execute, Action.run_bind, Action.popPair, Action.run_onStack, Stack.popPair]
  rcases hwords : m.stack.words with _ | ⟨offset, _ | ⟨word, rest⟩⟩
  · rfl
  · rfl
  · have houtside : address < offset.toNat ∨ offset.toNat + 8 ≤ address :=
      h offset (by rw [hwords]; rfl)
    show ((do Action.onMemory (·.writeWord offset.toNat word); return .proceed : Action Flow).run
      _).2.memory.byteAt address = _
    rw [hwrite]
    exact m.memory.byteAt_writeWord offset.toNat word houtside

end Instruction

/-! ### From one frame to the next -/

/-- A frame whose memory is no smaller than that of another, and that has all else in common with it
that a run does not work on. -/
structure Frame.Grows (f f' : Frame) : Prop extends f.machine.Grows f'.machine where
  address_eq : f'.address = f.address
  precompiles_eq : f'.precompiles = f.precompiles

/-- A frame that may come of another one, within whose limits it stays. -/
structure Frame.Follows (f f' : Frame) : Prop where
  machine : f.machine.Follows f'.machine
  address_eq : f'.address = f.address
  precompiles_eq : f'.precompiles = f.precompiles

namespace Frame

variable {f f₁ f₂ f₃ : Frame}

theorem Follows.refl (f : Frame) : f.Follows f :=
  ⟨.refl _, rfl, rfl⟩

theorem Follows.trans (h₁₂ : f₁.Follows f₂) (h₂₃ : f₂.Follows f₃) : f₁.Follows f₃ :=
  ⟨h₁₂.machine.trans h₂₃.machine, h₂₃.address_eq.trans h₁₂.address_eq,
    h₂₃.precompiles_eq.trans h₁₂.precompiles_eq⟩

theorem Follows.grows {f' : Frame} (h : f.Follows f') : f.Grows f' :=
  ⟨h.machine.toGrows, h.address_eq, h.precompiles_eq⟩

/-- How far a run has come has nothing to do with it. -/
theorem follows_withMachine (f : Frame) {machine : Machine} (status : RunStatus)
    (h : f.machine.Follows machine) : f.Follows { f with machine, status } :=
  ⟨h, rfl, rfl⟩

end Frame

namespace Run

variable {ω σ : Type} (r : Run ω σ)

theorem follows_enter : r.frame.Follows r.enter.frame :=
  r.frame.follows_withMachine .running (r.frame.machine.follows_returnData ByteArray.empty)

theorem follows_leave (ending : Ending) : r.frame.Follows (r.leave ending).frame :=
  r.frame.follows_withMachine _ (.refl _)

end Run

namespace Interpreter

variable {ω σ : Type} [BreakpointOracle ω] {i : Interpreter} {handler : Handler σ} {r r' : Run ω σ}

/-- What a step does to the machine: the opcode is taken, and unless the run ends in the pause after
that, the instruction is carried out. -/
theorem step_frame (i : Interpreter) (handler : Handler σ) (r : Run ω σ) :
    (i.step handler r).2.frame = (i.fetch r).2.frame ∨
    (i.step handler r).2.frame = { (i.fetch r).2.frame with
      machine := ((action (i.fetch r).1).run (i.fetch r).2.frame.machine).2 } := by
  rw [step_eq]
  cases (i.nextCall? handler r).bind HandlerCall.ending? with
  | some ending => exact Or.inl (afterPause_frame i handler r)
  | none =>
    right
    simp only [dispatch_eq, Run.withMachine, afterPause_frame]

variable {instruction? : UInt8 → Option Instruction}

theorem follows_action (hi : i.opcodes = .assign instruction?) (r : Run ω σ) (m : Machine) :
    m.Follows ((action (i.fetch r).1).run m).2 := by
  rw [action_of_assign hi]
  cases instruction? (i.fetch r).1.opcode with
  | none => exact .refl m
  | some x => exact m.follows_execute x

/-- **A step** leads from one frame to the next, whatever comes of it. -/
theorem follows_step (hi : i.opcodes = .assign instruction?) (handler : Handler σ)
    (r : Run ω σ) : r.frame.Follows (i.step handler r).2.frame := by
  have hfetch : r.frame.Follows (i.fetch r).2.frame :=
    r.frame.follows_withMachine _ r.frame.machine.follows_next
  rcases step_frame i handler r with hframe | hframe
  · rw [hframe]
    exact hfetch
  · rw [hframe]
    exact hfetch.trans (Frame.follows_withMachine _ _ (follows_action hi r _))

/-- From instruction to instruction a run leads from one frame to the next. -/
theorem follows_stateAt? (hi : i.opcodes = .assign instruction?) {j k : Nat} {rj rk : Run ω σ}
    (hj : i.stateAt? handler r j = some rj) (hk : i.stateAt? handler r k = some rk)
    (hjk : j ≤ k) : rj.frame.Follows rk.frame := by
  induction k generalizing rk with
  | zero =>
    obtain rfl := Nat.le_zero.mp hjk
    obtain rfl := Option.some.inj (hj.symm.trans hk)
    exact .refl _
  | succ k ih =>
    rcases Nat.le_or_eq_of_le_succ hjk with hle | rfl
    · obtain ⟨rk', hk', hstep⟩ := stateAt?_succ_eq_some_iff.mp hk
      have hnext := follows_step hi handler rk'
      rw [hstep] at hnext
      exact (ih hk' hle).trans hnext
    · obtain rfl := Option.some.inj (hj.symm.trans hk)
      exact .refl _

theorem follows_start (hi : i.opcodes = .assign instruction?) {k : Nat} {rk : Run ω σ}
    (hk : i.stateAt? handler r k = some rk) : r.frame.Follows rk.frame := by
  have hstart : i.stateAt? handler r 0 = some r.enter :=
    stateAt?_zero_eq_some_iff.mpr ⟨precompile?_of_stateAt? hk, rfl⟩
  exact r.follows_enter.trans (follows_stateAt? hi hstart hk (Nat.zero_le k))

/-- From each of its instructions on a run leads to the frame that it leaves. -/
theorem follows_end (hi : i.opcodes = .assign instruction?) {k n : Nat} {rk : Run ω σ}
    {ending : Ending} (hk : i.stateAt? handler r k = some rk)
    (h : i.run handler n r = some (ending, r')) : rk.frame.Follows r'.frame := by
  obtain ⟨last, -, rl, rl', hl, hend, rfl⟩ := (run_eq_some_iff (precompile?_of_stateAt? hk)).mp h
  have hstep := follows_step hi handler rl
  rw [hend] at hstep
  exact ((follows_stateAt? hi hk hl (le_of_end hk hl hend)).trans hstep).trans
    (rl'.follows_leave ending)

/-- **A run of code** leads from one frame to the next, whether or not it succeeds. -/
theorem follows_code (hi : i.opcodes = .assign instruction?) (hcode : r.frame.precompile? = none)
    {n : Nat} {ending : Ending} (h : i.run handler n r = some (ending, r')) :
    r.frame.Follows r'.frame := by
  have hstart : i.stateAt? handler r 0 = some r.enter :=
    stateAt?_zero_eq_some_iff.mpr ⟨hcode, rfl⟩
  exact r.follows_enter.trans (follows_end hi hstart h)

/-- **The run of a routine** does so if the routine does nothing but operations. -/
theorem follows_precompile {routine : Precompile} (hroutine : r.frame.precompile? = some routine)
    (hoperates : routine.Operates) {n : Nat} {ending : Ending}
    (h : i.run handler n r = some (ending, r')) : r.frame.Follows r'.frame := by
  obtain ⟨operations, hoperations⟩ := hoperates r.enter.frame
  rw [frame_of_precompile hroutine h, hoperations]
  exact r.follows_enter.trans
    (r.enter.frame.follows_withMachine _ (Machine.follows_foldl_perform _ operations))

end Interpreter

/-! ### Frames that can be reached -/

/-- A frame that was made of code, and with which something was done: it was set up, operated on, or
run. -/
inductive Frame.Reached : Frame → Prop
  | new (code : ByteArray) (hcode : code.size ≤ Bytes.maxSize) :
      Reached { machine := { code := { bytes := code } } }
  | setUp {f : Frame} (callData : ByteArray) (address : Address) (precompiles : PrecompileTable)
      (status : RunStatus) (hf : Reached f) :
      Reached { machine := { f.machine with callData }, address, precompiles, status }
  | operation {f : Frame} (operation : Machine.Operation) (hf : Reached f) :
      Reached { f with machine := f.machine.perform operation }
  /-- The code, the stack and the memory were taken from other frames, or kept. -/
  | replace {f f₁ f₂ f₃ : Frame} (hf : Reached f) (h₁ : Reached f₁) (h₂ : Reached f₂)
      (h₃ : Reached f₃) :
      Reached { f with machine := { f.machine with
        code := f₁.machine.code, stack := f₂.machine.stack, memory := f₃.machine.memory } }
  | instruction {f : Frame} (x : Instruction) (hf : Reached f) :
      Reached (f.perform x.execute).2
  /-- A run has come to an instruction. -/
  | runTo {ω σ : Type} [BreakpointOracle ω] {i : Interpreter} {handler : Handler σ}
      {r rk : Run ω σ} {k : Nat} {instruction? : UInt8 → Option Instruction}
      (hi : i.opcodes = .assign instruction?) (hk : i.stateAt? handler r k = some rk)
      (hr : Reached r.frame) : Reached rk.frame
  /-- A run has ended.  A routine that was run in it has done with the call what can be done with
  one. -/
  | run {ω σ : Type} [BreakpointOracle ω] {i : Interpreter} {handler : Handler σ}
      {r r' : Run ω σ} {n : Nat} {ending : Ending} {instruction? : UInt8 → Option Instruction}
      (hi : i.opcodes = .assign instruction?) (h : i.run handler n r = some (ending, r'))
      (hr : Reached r.frame)
      (hroutine : ∀ routine, r.frame.precompile? = some routine →
        Reached (r.enter.frame.call routine).2) : Reached r'.frame

namespace Frame.Reached

theorem operations {f : Frame} (hf : f.Reached) (operations : List Machine.Operation) :
    Frame.Reached { f with machine := operations.foldl Machine.perform f.machine } := by
  induction operations generalizing f with
  | nil => exact hf
  | cons operation operations ih => exact ih (hf.operation operation)

/-- A routine that does nothing but operations leaves a call that can be reached. -/
theorem call {f : Frame} (hf : f.Reached) {routine : Precompile} (hroutine : routine.Operates) :
    (f.call routine).2.Reached := by
  obtain ⟨operations, hoperations⟩ := hroutine f
  rw [hoperations]
  exact hf.operations operations

/-- The start of a run. -/
theorem enter {ω σ : Type} {r : Run ω σ} (hr : r.frame.Reached) : r.enter.frame.Reached := by
  have hdata := hr.operation (.setReturnData ByteArray.empty)
  exact hdata.setUp r.frame.machine.callData r.frame.address r.frame.precompiles .running

/-- **Every frame that can be reached** has its machine within the limits. -/
theorem withinLimits {f : Frame} (h : f.Reached) : f.machine.WithinLimits := by
  induction h with
  | new code hcode => exact ⟨Nat.zero_le _, Nat.zero_le _, hcode, Nat.zero_le _⟩
  | setUp _ _ _ _ _ ih => exact ⟨ih.depth_le, ih.memory_le, ih.code_le, ih.cursor_le⟩
  | operation operation _ ih => exact (Machine.follows_perform _ operation).withinLimits ih
  | replace _ _ _ _ _ ih₁ ih₂ ih₃ =>
    exact ⟨ih₂.depth_le, ih₃.memory_le, ih₁.code_le, ih₁.cursor_le⟩
  | instruction x _ ih => exact (Machine.follows_execute _ x).withinLimits ih
  | runTo hi hk _ ih => exact (Interpreter.follows_start hi hk).machine.withinLimits ih
  | @run _ _ _ i handler r r' n ending instruction? hi h hr hroutine ih ihroutine =>
    cases hprecompile : r.frame.precompile? with
    | none => exact (Interpreter.follows_code hi hprecompile h).machine.withinLimits ih
    | some routine =>
      -- What the routine has left keeps its machine at the end of the run.
      rw [Interpreter.frame_of_precompile hprecompile h]
      exact ihroutine routine hprecompile

end Frame.Reached

namespace Interpreter

/-- The bytes that an instruction of a run leaves as they are: all of them, or all but the eight of
the word that it writes. -/
theorem peek_of_step {ω σ : Type} [BreakpointOracle ω] {i : Interpreter} {handler : Handler σ}
    {instruction? : UInt8 → Option Instruction} (hi : i.opcodes = .assign instruction?)
    {r : Run ω σ} {offset size : Nat}
    (h : instruction? (i.fetch r).1.opcode = some .mstore →
      ∀ target ∈ r.frame.machine.stack.words.head?,
        offset + size ≤ target.toNat ∨ target.toNat + 8 ≤ offset) :
    (i.step handler r).2.frame.machine.memory.peek offset size =
      r.frame.machine.memory.peek offset size := by
  have hbytes : ∀ j < size, ((action (i.fetch r).1).run (i.fetch r).2.frame.machine).2.memory.byteAt
      (offset + j) = r.frame.machine.memory.byteAt (offset + j) := by
    intro j hj
    rw [action_of_assign hi]
    cases hx : instruction? (i.fetch r).1.opcode with
    | none => rfl
    | some x =>
      by_cases hstore : x = .mstore
      · subst hstore
        refine Instruction.byteAt_of_mstore _ fun target htarget => ?_
        have houtside := h hx target htarget
        omega
      · exact congrFun (Instruction.keeps_byteAt hstore (i.fetch r).2.frame.machine) (offset + j)
  rcases step_frame i handler r with hframe | hframe
  · rw [hframe]
    rfl
  · rw [hframe, Memory.peek, Memory.peek, Memory.window_congr_of_range hbytes]

/-- **Limits and frame.**  Whatever was done with a frame, its stack holds no more than 1024 words
and its memory no more than `2 ^ 24` bytes.

In a run of code the memory never gets smaller, and the code, the call data, the address and the
precompiled routines stay the same, from each instruction to the next, to all later ones, and to the
end of the run, whether or not it succeeds.  An instruction leaves every byte of the memory as it
is, but for the one that stores a word, which leaves all but the eight bytes at its offset.  The run
of a routine leaves the call as the routine does, but for how far it has come.  If the routine does
nothing but operations on the machine, its run keeps the same things and leads from a frame that can
be reached to another one.

And wherever the cursor is and whatever the operands are, no computation of an index is out of
range. -/
theorem limits_and_frame :
    (∀ f : Frame, f.Reached → f.machine.stack.depth ≤ 1024 ∧ f.machine.memory.size ≤ 2 ^ 24 ∧
      f.machine.WithinLimits) ∧
    (∀ {ω σ : Type} [BreakpointOracle ω] (i : Interpreter)
      (instruction? : UInt8 → Option Instruction), i.opcodes = .assign instruction? →
      ∀ (handler : Handler σ) (r : Run ω σ),
      (∀ k rk, i.stateAt? handler r k = some rk →
        rk.frame.Grows (i.step handler rk).2.frame ∧
        (instruction? (i.fetch rk).1.opcode ≠ some .mstore → ∀ offset size,
          (i.step handler rk).2.frame.machine.memory.peek offset size =
            rk.frame.machine.memory.peek offset size) ∧
        (instruction? (i.fetch rk).1.opcode = some .mstore → ∀ offset size,
          (∀ target ∈ rk.frame.machine.stack.words.head?,
            offset + size ≤ target.toNat ∨ target.toNat + 8 ≤ offset) →
          (i.step handler rk).2.frame.machine.memory.peek offset size =
            rk.frame.machine.memory.peek offset size)) ∧
      (∀ j k rj rk, j ≤ k → i.stateAt? handler r j = some rj → i.stateAt? handler r k = some rk →
        rj.frame.Grows rk.frame) ∧
      ∀ n ending r', i.run handler n r = some (ending, r') →
        (∀ k rk, i.stateAt? handler r k = some rk → rk.frame.Grows r'.frame) ∧
        (r.frame.precompile? = none → r.frame.Grows r'.frame) ∧
        ∀ routine, r.frame.precompile? = some routine →
          (∃ status, r'.frame = { (r.enter.frame.call routine).2 with status }) ∧
          (routine.Operates → r.frame.Grows r'.frame ∧ (r.frame.Reached → r'.frame.Reached))) ∧
    (∀ m : Machine, m.WithinLimits → Checked.next m.code = .ok m.code.next ∧ ∀ x : Instruction,
      x.executeChecked.run m = x.execute.run m ∧ (x.execute.run m).1 ≠ .error .outOfRange ∧
      (x.execute.run m).2.WithinLimits) := by
  refine ⟨fun f hf => ?_, fun i instruction? hi handler r => ⟨fun k rk hk => ?_,
    fun j k rj rk hjk hj hk => ?_, fun n ending r' h => ⟨fun k rk hk => ?_, fun hcode => ?_,
    fun routine hroutine => ⟨?_, fun hoperates => ?_⟩⟩⟩, fun m hm => ⟨?_, fun x => ?_⟩⟩
  · have hlimits := hf.withinLimits
    exact ⟨hlimits.depth_le, hlimits.memory_le, hlimits⟩
  · refine ⟨(follows_step hi handler rk).grows, fun hx offset size => ?_, fun _ offset size h => ?_⟩
    · exact peek_of_step hi fun hstore => absurd hstore hx
    · exact peek_of_step hi fun _ => h
  · exact (follows_stateAt? hi hj hk hjk).grows
  · exact (follows_end hi hk h).grows
  · exact (follows_code hi hcode h).grows
  · exact ⟨_, frame_of_precompile hroutine h⟩
  · refine ⟨(follows_precompile hroutine hoperates h).grows, fun hr => ?_⟩
    refine .run hi h hr fun routine' hroutine' => ?_
    obtain rfl := Option.some.inj (hroutine.symm.trans hroutine')
    exact hr.enter.call hoperates
  · have hmax : Bytes.maxSize ≤ maxPosition := by decide
    exact Checked.next_eq (hm.code_le.trans hmax)
  · have hchecks := x.checks_execute
    exact ⟨hchecks.run_eq m hm, hchecks.inRange m hm, hchecks.withinLimits m hm⟩

/-- The call of a program that stores a word at offset 1 and comes to its end. -/
def storeRun : Run LineBreakpoints Nat :=
  { frame := { machine := { code := { bytes := ⟨#[0x60, 7, 0x60, 1, 0x52, 0x00]⟩ } } }
    oracle := {}, handler := 0 }

/-- The call of the usual routine. -/
def identityRun : Run LineBreakpoints Nat :=
  { frame := { machine := { callData := ⟨#[7]⟩ }, address := Address.ofNat 4 }
    oracle := {}, handler := 0 }

/-- The store leaves the byte before its word alone, and the run ends within the limits.  So does
the run of the routine. -/
theorem limits_and_frame_store :
    (∃ rk r', stateAt? {} Handler.continueAlways storeRun 2 = some rk ∧
      (step {} Handler.continueAlways rk).2.frame.machine.memory.size = 9 ∧
      (step {} Handler.continueAlways rk).2.frame.machine.memory.peek 0 1 =
        rk.frame.machine.memory.peek 0 1 ∧
      run {} Handler.continueAlways 4 storeRun = some (.completed, r') ∧
      storeRun.frame.Grows r'.frame ∧ r'.frame.machine.memory.size ≤ 2 ^ 24 ∧
      Instruction.pop.executeChecked.run r'.frame.machine =
        Instruction.pop.execute.run r'.frame.machine) ∧
    ∃ r', run {} Handler.continueAlways 0 identityRun = some (.completed, r') ∧
      identityRun.frame.Grows r'.frame ∧ r'.frame.machine.stack.depth ≤ 1024 := by
  obtain ⟨hreached, hruns, hchecked⟩ := limits_and_frame
  constructor
  · obtain ⟨hstep, -, hend⟩ := hruns {} _ rfl Handler.continueAlways storeRun
    have hstart : storeRun.frame.Reached := .new _ (by decide)
    have htop : (stateAt? {} Handler.continueAlways storeRun 2).map (fun rk =>
        (rk.frame.machine.stack.words.head?, Instruction.ofOpcode? (fetch {} rk).1.opcode)) =
          some (some 1, some .mstore) := by decide +kernel
    have hsize : (stateAt? {} Handler.continueAlways storeRun 2).map (fun rk =>
        (step {} Handler.continueAlways rk).2.frame.machine.memory.size) = some 9 := by
      decide +kernel
    obtain ⟨rk, hk, hstore⟩ := Option.map_eq_some_iff.mp htop
    obtain ⟨htarget, hx⟩ := Prod.mk.inj hstore
    rw [hk] at hsize
    have hrun : run {} Handler.continueAlways 4 storeRun = some (.completed, _) := rfl
    have hcode : storeRun.frame.precompile? = none := rfl
    have hfinal := Frame.Reached.run rfl hrun hstart fun routine hroutine => by
      rw [hcode] at hroutine
      cases hroutine
    obtain ⟨-, hlimit, hlimits⟩ := hreached _ hfinal
    refine ⟨rk, _, hk, Option.some.inj hsize, (hstep 2 rk hk).2.2 hx 0 1 ?_, hrun,
      (hend 4 _ _ hrun).2.1 hcode, hlimit, ((hchecked _ hlimits).2 .pop).1⟩
    intro target hmem
    rw [htarget] at hmem
    obtain rfl := Option.some.inj hmem
    exact Or.inl (by decide)
  · obtain ⟨-, -, hend⟩ := hruns {} _ rfl Handler.continueAlways identityRun
    have hstart : identityRun.frame.Reached :=
      (Frame.Reached.new ByteArray.empty (by decide)).setUp ⟨#[7]⟩ (Address.ofNat 4) .standard .idle
    have hrun : run {} Handler.continueAlways 0 identityRun = some (.completed, _) := rfl
    obtain ⟨hgrows, hfinal⟩ := ((hend 0 _ _ hrun).2.2 .identity rfl).2 Precompile.operates_identity
    exact ⟨_, hrun, hgrows, (hreached _ (hfinal hstart)).1⟩

/-- The run of a routine that renews the call leads from a frame that can be reached to another one,
with less memory, other code and call data, another address and other routines. -/
theorem not_grows_of_precompile :
    ∃ r', (renewRun (.ok ())).frame.Reached ∧
      run {} Handler.continueAlways 0 (renewRun (.ok ())) = some (.completed, r') ∧
      r'.frame.Reached ∧
      r'.frame.machine.memory.size < (renewRun (.ok ())).frame.machine.memory.size ∧
      r'.frame.machine.code.bytes ≠ (renewRun (.ok ())).frame.machine.code.bytes ∧
      r'.frame.machine.callData ≠ (renewRun (.ok ())).frame.machine.callData ∧
      r'.frame.address ≠ (renewRun (.ok ())).frame.address ∧
      r'.frame.precompiles.contains (Address.ofNat 1) ≠
        (renewRun (.ok ())).frame.precompiles.contains (Address.ofNat 1) := by
  have hempty : Frame.Reached { machine := { code := { bytes := ByteArray.empty } } } :=
    .new _ (by decide)
  have hstart : (renewRun (.ok ())).frame.Reached :=
    ((Frame.Reached.new ⟨#[0x00]⟩ (by decide)).operation (.memory (.write 0 ⟨#[5]⟩))).setUp
      ⟨#[7]⟩ (Address.ofNat 1) _ .idle
  have hrun : run {} Handler.continueAlways 0 (renewRun (.ok ())) = some (.completed, _) := rfl
  refine ⟨_, hstart, hrun, ?_, by decide, by decide, by decide, by decide, by decide⟩
  refine .run rfl hrun hstart fun routine hroutine => ?_
  obtain rfl : Precompile.renew (.ok ()) = routine := Option.some.inj hroutine
  exact hempty.setUp ByteArray.empty {} .standard .idle

end Interpreter

end BytecodeDebugger
