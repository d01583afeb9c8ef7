import BytecodeDebugger.Instruction.Table
import BytecodeDebugger.Proofs.Machine.Action
import BytecodeDebugger.Proofs.Machine.Code
import Mathlib.Tactic.SplitIfs

/-!
# Instructions and the cursor

What instructions do to the code.  An instruction relates the machines before and after it as its
parts do (`Instruction.relates_execute`), and so it keeps every view of the machine that its parts
keep (`Instruction.keeps_execute`).  None of them changes the bytes of the code, and there are three
that move the cursor: a push goes behind its immediate, and the two jumps go to a jump target
(`Instruction.code_of_execute`).  An instruction that a program ends with does not jump, and so it
has the cursor behind its immediate (`Instruction.position_of_end`).  In the usual table an opcode
has as many bytes of immediate as its instruction takes (`Instruction.immediateSize_of_ofOpcode?`).
-/

namespace BytecodeDebugger

namespace Instruction

variable {x : Instruction} {m m' : Machine} {flow : Flow} {fault : Fault}

/-- The number of bytes of code that an instruction takes as its immediate. -/
def immediateSize : Instruction → Nat
  | push index => index.val + 1
  | _ => 0

theorem immediateSize_le (x : Instruction) : x.immediateSize ≤ 8 := by
  unfold immediateSize
  split <;> omega

/-- Where an instruction goes with the given words on the stack, if it is a jump that is taken. -/
def target? : Instruction → List Word → Option Nat
  | jump, destination :: _ => some destination.toNat
  | jumpi, destination :: condition :: _ => if condition = 0 then none else some destination.toNat
  | _, _ => none

/-- **Immediates of the usual table** are as long as their opcodes say. -/
theorem immediateSize_of_ofOpcode? {opcode : UInt8} (h : ofOpcode? opcode = some x) :
    Opcode.immediateSize opcode = x.immediateSize := by
  unfold ofOpcode? at h
  split at h
  case h_21 =>
    -- The opcodes that come in ranges: only pushes have immediates.
    split_ifs at h with hpush hdup hswap
    · obtain rfl := Option.some.inj h
      rw [Opcode.immediateSize_of_push (by omega)]
      rfl
    · obtain rfl := Option.some.inj h
      exact Opcode.immediateSize_of_not_push (by omega)
    · obtain rfl := Option.some.inj h
      exact Opcode.immediateSize_of_not_push (by omega)
  all_goals
    obtain rfl := Option.some.inj h
    exact Opcode.immediateSize_of_not_push (by omega)

/-! ### What an instruction relates and keeps -/

/-- Whether an instruction may move the cursor. -/
def movesCursor : Instruction → Bool
  | push _ | jump | jumpi => true
  | _ => false

/-- Whether an instruction hands bytes back. -/
def handsBack : Instruction → Bool
  | ret | revert => true
  | _ => false

/-- The conditional jump, without the join point for its two branches. -/
theorem execute_jumpi : jumpi.execute = Action.popPair >>= fun operands =>
    if operands.2 = 0 then return .proceed else do jumpTo operands.1; return .proceed :=
  rfl

/-- The depth of an exchange is read off the opcode, so it is far below what a position can be. -/
theorem swapDepth_lt_maxPosition (index : Fin 16) : index.val + 1 < maxPosition := by
  have hpositions : 16 < maxPosition := by decide
  omega

theorem run_jumpTo (destination : Word) (m : Machine) : (jumpTo destination).run m =
    if m.code.isJumpTarget destination.toNat = true then
      (.ok (), { m with code := m.code.seek destination.toNat })
    else (.error (.invalidJump destination), m) := by
  rw [jumpTo, Action.run_bind]
  show (if m.code.isJumpTarget destination.toNat = true then _ else _ : Action Unit).run m = _
  split_ifs
  · rfl
  · rfl

theorem run_jumpTo_eq_ok_iff {destination : Word} : (jumpTo destination).run m = (.ok (), m') ↔
    m.code.isJumpTarget destination.toNat = true ∧
      m' = { m with code := m.code.seek destination.toNat } := by
  rw [run_jumpTo]
  constructor
  · intro h
    split_ifs at h with htarget
    · exact ⟨htarget, (Prod.mk.inj h).2.symm⟩
    · cases h
  · rintro ⟨htarget, rfl⟩
    rw [if_pos htarget]

theorem run_jumpTo_eq_error_iff {destination : Word} :
    (jumpTo destination).run m = (.error fault, m') ↔
      ¬ m.code.isJumpTarget destination.toNat = true ∧ fault = .invalidJump destination ∧
        m' = m := by
  rw [run_jumpTo]
  constructor
  · intro h
    split_ifs at h with htarget
    · cases h
    · obtain ⟨hfault, rfl⟩ := Prod.mk.inj h
      exact ⟨htarget, (Except.error.inj hfault).symm, rfl⟩
  · rintro ⟨htarget, rfl, rfl⟩
    rw [if_neg htarget]

/-- **What the parts of an instruction do, the instruction does**, as far as it can be chained. -/
theorem relates_execute {R : Machine → Machine → Prop} (x : Instruction) (hrefl : ∀ m, R m m)
    (htrans : ∀ m₁ m₂ m₃, R m₁ m₂ → R m₂ m₃ → R m₁ m₃)
    (hstack : ∀ m stack, R m { m with stack })
    (hread : ∀ (m : Machine) offset size,
      R m { m with memory := (m.memory.read offset size).2 })
    (hwrite : x = .mstore → ∀ (m : Machine) offset word,
      R m { m with memory := (m.memory.writeWord offset word).2 })
    (hseek : x.movesCursor = true → ∀ (m : Machine) position,
      R m { m with code := m.code.seek position })
    (hdata : x.handsBack = true → ∀ m returnData, R m { m with returnData }) :
    x.execute.Relates R := by
  have hdone (flow : Flow) : (return flow : Action Flow).Relates R := Action.relates_pure hrefl flow
  have hpop : Action.pop.Relates R :=
    Action.relates_onStack hrefl _ fun m _ stack _ => hstack m stack
  have hpair : Action.popPair.Relates R :=
    Action.relates_onStack hrefl _ fun m _ stack _ => hstack m stack
  have hword (word : Word) : (Action.push word).Relates R :=
    Action.relates_onStack hrefl _ fun m _ stack _ => hstack m stack
  have hpush (word : Word) : (do Action.push word; return .proceed : Action Flow).Relates R :=
    (hword word).bind htrans fun _ => hdone _
  have hback (hx : x.handsBack = true) : handBack.Relates R :=
    hpair.bind htrans fun operands =>
      (Action.relates_onMemory _ fun m => hread m operands.1.toNat operands.2.toNat).bind htrans
        fun data => Action.Relates.bind htrans
          (Action.relates_setReturnData data fun m => hdata hx m data)
          fun _ => Action.relates_pure hrefl data
  have hjump (hx : x.movesCursor = true) (destination : Word) :
      (jumpTo destination).Relates R := by
    intro m
    rw [run_jumpTo]
    split_ifs
    · exact hseek hx m destination.toNat
    · exact hrefl m
  cases x with
  | stop => exact hdone _
  | binary op => exact hpair.bind htrans fun _ => hpush _
  | isZero => exact hpop.bind htrans fun _ => hpush _
  | pop => exact hpop.bind htrans fun _ => hdone _
  | mload =>
    exact hpop.bind htrans fun offset =>
      (Action.relates_onMemory _ fun m => hread m offset.toNat 8).bind htrans fun _ => hpush _
  | mstore =>
    exact hpair.bind htrans fun operands =>
      (Action.relates_onMemory _ fun m => hwrite rfl m operands.1.toNat operands.2).bind htrans
        fun _ => hdone _
  | jump =>
    exact hpop.bind htrans fun destination => (hjump rfl destination).bind htrans fun _ => hdone _
  | jumpi =>
    rw [execute_jumpi]
    refine hpair.bind htrans fun operands => ?_
    split_ifs
    · exact hdone _
    · exact (hjump rfl operands.1).bind htrans fun _ => hdone _
  | pc => exact (Action.relates_get hrefl).bind htrans fun _ => hpush _
  | jumpDest => exact hdone _
  | push index =>
    refine Action.Relates.bind htrans (Action.relates_onCode hrefl _ fun m data code hcode => ?_)
      fun _ => hpush _
    rw [Code.seek_of_read hcode]
    exact hseek rfl m _
  | dup index =>
    exact (Action.relates_onStack hrefl _ fun m _ stack _ => hstack m stack).bind htrans
      fun _ => hdone _
  | swap index =>
    exact (Action.relates_onStack hrefl _ fun m _ stack _ => hstack m stack).bind htrans
      fun _ => hdone _
  | ret => exact (hback rfl).bind htrans fun _ => hdone _
  | revert => exact (hback rfl).bind htrans fun _ => Action.relates_throw hrefl _
  | invalid => exact Action.relates_throw hrefl _

/-- **An instruction keeps** every view of the machine that shows neither the stack nor the memory,
nor the cursor if the instruction moves it, nor the bytes handed back if it hands bytes back. -/
theorem keeps_execute {γ : Type} {view : Machine → γ} (x : Instruction)
    (hstack : ∀ m stack, view { m with stack } = view m)
    (hmemory : ∀ m memory, view { m with memory } = view m)
    (hseek : x.movesCursor = true → ∀ (m : Machine) position,
      view { m with code := m.code.seek position } = view m)
    (hdata : x.handsBack = true → ∀ m returnData, view { m with returnData } = view m) :
    x.execute.Keeps view :=
  relates_execute (R := fun m m' => view m' = view m) x (fun _ => rfl)
    (fun _ _ _ h₁₂ h₂₃ => h₂₃.trans h₁₂) hstack (fun m _ _ => hmemory m _)
    (fun _ m _ _ => hmemory m _) hseek hdata

/-- Only pushes and jumps do anything to the code. -/
theorem keeps_code (h : x.movesCursor = false) : x.execute.Keeps Machine.code := by
  refine x.keeps_execute (fun _ _ => rfl) (fun _ _ => rfl) (fun hx => ?_) fun _ _ _ => rfl
  rw [h] at hx
  cases hx

/-- **No instruction changes the bytes of the code**, whether or not it succeeds. -/
theorem keeps_bytes (x : Instruction) : x.execute.Keeps fun m => m.code.bytes :=
  x.keeps_execute (fun _ _ => rfl) (fun _ _ => rfl) (fun _ _ _ => rfl) fun _ _ _ => rfl

/-- Only the instructions that hand bytes back do anything to the bytes handed back. -/
theorem keeps_returnData (h : x.handsBack = false) : x.execute.Keeps Machine.returnData := by
  refine x.keeps_execute (fun _ _ => rfl) (fun _ _ => rfl) (fun _ _ _ => rfl) fun hx => ?_
  rw [h] at hx
  cases hx

/-! ### Instructions that move the cursor -/

/-- A push goes behind its immediate, whether or not there are bytes there. -/
theorem code_of_push {index : Fin 8} (h : (push index).execute.run m = (.ok flow, m')) :
    m'.code = m.code.seek (advance m.code.cursor (index.val + 1)) := by
  obtain ⟨immediate, m₁, hread, hrest⟩ := Action.run_bind_eq_ok_iff.mp h
  obtain ⟨code, hcode, rfl⟩ := Action.run_onCode_eq_ok_iff.mp hread
  have hkeeps : (do Action.push (Bytes.toWord immediate); return Flow.proceed).Keeps Machine.code :=
    (Action.keeps_onStack _ fun _ _ => rfl).bind fun _ => Action.keeps_pure _
  rw [hkeeps.eq hrest]
  exact Code.seek_of_read hcode

/-- **A push** goes behind its immediate, and puts the word of it on the stack if there is room. -/
theorem run_push (hsize : m.code.size ≤ maxPosition) (index : Fin 8) :
    (push index).execute.run m =
      if m.stack.depth < Stack.limit then
        (.ok .proceed, { m with
          code := m.code.seek (advance m.position (index.val + 1))
          stack := ⟨Bytes.toWord (Bytes.window m.code.bytes m.position (index.val + 1)) ::
            m.stack.words⟩ })
      else (.error (.stackOverflow Stack.limit),
        { m with code := m.code.seek (advance m.position (index.val + 1)) }) := by
  have hbytes : index.val + 1 ≤ Bytes.maxSize := by
    have hmax : 8 ≤ Bytes.maxSize := by decide
    omega
  rw [execute, Action.run_bind, Action.run_onCode, Code.read_eq hbytes hsize]
  show (do Action.push _; return Flow.proceed : Action Flow).run _ = _
  rw [Action.run_bind, Action.run_push]
  by_cases h : m.stack.depth < Stack.limit
  · simp only [if_pos h]
    rfl
  · simp only [if_neg h]
    rfl

theorem code_of_jump (h : jump.execute.run m = (.ok flow, m')) :
    ∃ destination rest, m.stack.words = destination :: rest ∧
      m.code.isJumpTarget destination.toNat = true ∧ m'.code = m.code.seek destination.toNat := by
  obtain ⟨destination, m₁, hpop, hrest⟩ := Action.run_bind_eq_ok_iff.mp h
  obtain ⟨rest, hwords, rfl⟩ := Action.run_pop_eq_ok_iff.mp hpop
  obtain ⟨_, m₂, hjump, hdone⟩ := Action.run_bind_eq_ok_iff.mp hrest
  obtain ⟨htarget, rfl⟩ := run_jumpTo_eq_ok_iff.mp hjump
  obtain ⟨-, rfl⟩ := Prod.mk.inj hdone
  exact ⟨destination, rest, hwords, htarget, rfl⟩

theorem code_of_jumpi (h : jumpi.execute.run m = (.ok flow, m')) :
    ∃ destination condition rest, m.stack.words = destination :: condition :: rest ∧
      if condition = 0 then m'.code = m.code
      else m.code.isJumpTarget destination.toNat = true ∧
        m'.code = m.code.seek destination.toNat := by
  rw [execute_jumpi] at h
  obtain ⟨⟨destination, condition⟩, m₁, hpop, hrest⟩ := Action.run_bind_eq_ok_iff.mp h
  obtain ⟨rest, hwords, rfl⟩ := Action.run_popPair_eq_ok_iff.mp hpop
  refine ⟨destination, condition, rest, hwords, ?_⟩
  by_cases hcondition : condition = 0
  · rw [if_pos hcondition] at hrest
    obtain ⟨-, rfl⟩ := Prod.mk.inj hrest
    rw [if_pos hcondition]
  · rw [if_neg hcondition] at hrest
    obtain ⟨_, m₂, hjump, hdone⟩ := Action.run_bind_eq_ok_iff.mp hrest
    obtain ⟨htarget, rfl⟩ := run_jumpTo_eq_ok_iff.mp hjump
    obtain ⟨-, rfl⟩ := Prod.mk.inj hdone
    rw [if_neg hcondition]
    exact ⟨htarget, rfl⟩

/-- **What an instruction does to the code**: a jump that is taken goes to a jump target, and any
other instruction behind its immediate. -/
theorem code_of_execute (h : x.execute.run m = (.ok flow, m')) :
    match x.target? m.stack.words with
    | some target => m.code.isJumpTarget target = true ∧ m'.code = m.code.seek target
    | none => m'.code =
        if x.immediateSize = 0 then m.code
        else m.code.seek (advance m.code.cursor x.immediateSize) := by
  cases x with
  | push index => exact code_of_push h
  | jump =>
    obtain ⟨destination, rest, hwords, hcode⟩ := code_of_jump h
    rw [hwords]
    exact hcode
  | jumpi =>
    obtain ⟨destination, condition, rest, hwords, hcode⟩ := code_of_jumpi h
    rw [hwords, target?]
    by_cases hcondition : condition = 0
    · rw [if_pos hcondition] at hcode
      rw [if_pos hcondition]
      exact hcode
    · rw [if_neg hcondition] at hcode
      rw [if_neg hcondition]
      exact hcode
  | _ => exact (keeps_code rfl).eq h

/-- The position that is pushed is the one before the cursor. -/
theorem stack_of_pc (h : pc.execute.run m = (.ok flow, m')) :
    m'.stack.words = UInt64.ofNat (m.position - 1) :: m.stack.words := by
  obtain ⟨m₀, m₁, hget, hrest⟩ := Action.run_bind_eq_ok_iff.mp h
  obtain ⟨hm₀, rfl⟩ := Prod.mk.inj hget
  obtain rfl := Except.ok.inj hm₀
  obtain ⟨_, m₂, hpush, hdone⟩ := Action.run_bind_eq_ok_iff.mp hrest
  obtain ⟨-, rfl⟩ := Action.run_push_eq_ok_iff.mp hpush
  obtain ⟨-, rfl⟩ := Prod.mk.inj hdone
  rfl

/-! ### Instructions that a program ends with -/

/-- An instruction that ends the program does not move the cursor. -/
theorem movesCursor_of_halt (h : x.execute.run m = (.ok .halt, m')) : x.movesCursor = false := by
  cases x with
  | push index =>
    obtain ⟨_, _, -, hrest⟩ := Action.run_bind_eq_ok_iff.mp h
    obtain ⟨_, _, -, hdone⟩ := Action.run_bind_eq_ok_iff.mp hrest
    cases hdone
  | jump =>
    obtain ⟨_, _, -, hrest⟩ := Action.run_bind_eq_ok_iff.mp h
    obtain ⟨_, _, -, hdone⟩ := Action.run_bind_eq_ok_iff.mp hrest
    cases hdone
  | jumpi =>
    rw [execute_jumpi] at h
    obtain ⟨_, _, -, hrest⟩ := Action.run_bind_eq_ok_iff.mp h
    split_ifs at hrest
    · cases hrest
    · obtain ⟨_, _, -, hdone⟩ := Action.run_bind_eq_ok_iff.mp hrest
      cases hdone
  | _ => rfl

/-- A jump that fails goes nowhere. -/
theorem code_of_jumpTo_error {destination : Word}
    (h : (do jumpTo destination; return .proceed : Action Flow).run m = (.error fault, m')) :
    m'.code = m.code := by
  rcases Action.run_bind_eq_error_iff.mp h with hjump | ⟨_, _, -, hdone⟩
  · obtain ⟨-, -, rfl⟩ := run_jumpTo_eq_error_iff.mp hjump
    rfl
  · cases hdone

/-- **What an instruction that fails does to the code**: it does not jump, but a push has gone
behind its immediate by then. -/
theorem code_of_error (hsize : m.code.size ≤ maxPosition)
    (h : x.execute.run m = (.error fault, m')) : m'.code =
      if x.immediateSize = 0 then m.code
      else m.code.seek (advance m.code.cursor x.immediateSize) := by
  cases x with
  | push index =>
    rw [run_push hsize] at h
    split_ifs at h
    · cases h
    · obtain ⟨-, rfl⟩ := Prod.mk.inj h
      rfl
  | jump =>
    rcases Action.run_bind_eq_error_iff.mp h with hpop | ⟨destination, _, hpop, hjump⟩
    · obtain ⟨-, -, rfl⟩ := Action.run_pop_eq_error_iff.mp hpop
      rfl
    · obtain ⟨_, -, rfl⟩ := Action.run_pop_eq_ok_iff.mp hpop
      have hcode := code_of_jumpTo_error hjump
      exact hcode
  | jumpi =>
    rw [execute_jumpi] at h
    rcases Action.run_bind_eq_error_iff.mp h with hpop | ⟨⟨destination, condition⟩, _, hpop, hrest⟩
    · obtain ⟨-, -, rfl⟩ := Action.run_popPair_eq_error_iff.mp hpop
      rfl
    · obtain ⟨_, -, rfl⟩ := Action.run_popPair_eq_ok_iff.mp hpop
      split_ifs at hrest
      · cases hrest
      · have hcode := code_of_jumpTo_error hrest
        exact hcode
  | _ => exact (keeps_code rfl).eq h

/-- An instruction that a program ends with has the cursor behind its immediate, if there are
positions enough. -/
theorem position_of_end {result : Except Fault Flow} (hsize : m.code.size ≤ maxPosition)
    (hroom : m.position + x.immediateSize ≤ maxPosition)
    (h : x.execute.run m = (result, m')) (hend : result ≠ .ok .proceed) :
    m'.position = m.position + x.immediateSize := by
  rcases result with fault | _ | _
  · have hcode := code_of_error hsize h
    by_cases hzero : x.immediateSize = 0
    · rw [if_pos hzero] at hcode
      rw [Machine.position, hcode, hzero]
      rfl
    · rw [if_neg hzero] at hcode
      rw [Machine.position, hcode]
      exact Nat.min_eq_left hroom
  · exact absurd rfl hend
  · have hmoves := movesCursor_of_halt h
    have hzero : x.immediateSize = 0 := by
      cases x with
      | push index => cases hmoves
      | _ => rfl
    rw [Machine.position, (keeps_code hmoves).eq h, hzero]
    rfl

end Instruction

end BytecodeDebugger
