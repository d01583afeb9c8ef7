import BytecodeDebugger.Proofs.Instruction.Cursor
import BytecodeDebugger.Proofs.Instruction.Tiling
import BytecodeDebugger.Proofs.Machine.BigEndian
import BytecodeDebugger.Proofs.Run.Plain

/-!
# Pushes and the listing

A push of at most eight bytes puts the word of its immediate on the stack and goes behind the
immediate (`OpcodeTable.plainStep_push`).  The listing shows the bytes of the code that belong to
the immediate, and what it shows is what is pushed: `OpcodeTable.push_as_listed` says which number
an entry stands for, and where the instruction behind it is.
-/

namespace BytecodeDebugger

namespace Opcode

/-- The opcode of a push of so many bytes. -/
def push (size : Nat) : UInt8 :=
  UInt8.ofNat (0x5f + size)

theorem immediateSize_push {size : Nat} (hpos : 1 ≤ size) (hsize : size ≤ 32) :
    immediateSize (push size) = size := by
  have htoNat : (push size).toNat = 0x5f + size := by
    rw [push, UInt8.toNat_ofNat']
    omega
  rw [immediateSize_of_push (by omega)]
  omega

end Opcode

namespace OpcodeTable

variable {m : Machine} {size : Nat}

theorem ofOpcode?_push (hpos : 1 ≤ size) (hsize : size ≤ 8) :
    Instruction.ofOpcode? (Opcode.push size) = some (.push ⟨size - 1, by omega⟩) := by
  interval_cases size
  all_goals rfl

/-- **One step of a push** goes behind the immediate, and puts its word on the stack if there is
room. -/
theorem plainStep_push (hcode : m.code.size ≤ Bytes.maxSize) (hpos : 1 ≤ size) (hsize : size ≤ 8)
    (hbyte : m.code.bytes[m.position]? = some (Opcode.push size)) :
    reference.plainStep m =
      if m.stack.depth < Stack.limit then
        (.ok .proceed, { m with
          code := m.code.seek (m.position + 1 + size)
          stack := ⟨Bytes.toWord (Bytes.window m.code.bytes (m.position + 1) size) ::
            m.stack.words⟩ })
      else (.error (.stackOverflow Stack.limit),
        { m with code := m.code.seek (m.position + 1 + size) }) := by
  have hmax := Bytes.maxSize_add_le
  have hlt : m.position < m.code.size := (getElem?_eq_some_iff.mp hbyte).1
  -- The immediate may end behind the code, but not where there are no positions any more.
  have hadvance : advance (m.position + 1) size = m.position + 1 + size :=
    advance_of_le (by omega)
  have hindex : size - 1 + 1 = size := by omega
  have hrun := Instruction.run_push (m := { m with code := m.code.seek (m.position + 1) })
    (show m.code.size ≤ maxPosition by omega) ⟨size - 1, by omega⟩
  simp only [hindex] at hrun
  rw [plainStep_of_some hbyte, reference, behaviour_assign, ofOpcode?_push hpos hsize]
  show (Instruction.push _).execute.run _ = _
  rw [hrun, ← hadvance]
  rfl

/-- **What is listed is what is pushed**, for a push of at most eight bytes.  Its entry in the
listing stands for the number that the immediate writes if zeros take the place of the bytes that
are missing at the end of the code.  A step at the entry pushes that number, and goes to the next
entry, or behind the code if there is none; with a full stack it fails and does no more than go
there.  So a push whose immediate is the digits of a number pushes that number. -/
theorem push_as_listed (m : Machine) (size : Nat) (hcode : m.code.size ≤ Bytes.maxSize)
    (hpos : 1 ≤ size) (hsize : size ≤ 8) :
    (∀ before entry after, reference.disassemble m.code.bytes = before ++ entry :: after →
      entry.opcode = Opcode.push size → m.position = entry.position →
      ∃ behind : Nat,
        (∀ next rest, after = next :: rest → behind = next.position) ∧
        (after = [] → behind = entry.position + 1 + size ∧ m.code.size ≤ behind) ∧
        (m.stack.depth < Stack.limit → ∃ word : Word,
          word.toNat = Bytes.bigEndian
            (entry.immediate ++ List.replicate (size - entry.immediate.length) 0) ∧
          reference.plainStep m = (.ok .proceed,
            { m with code := m.code.seek behind, stack := ⟨word :: m.stack.words⟩ })) ∧
        (Stack.limit ≤ m.stack.depth → reference.plainStep m =
          (.error (.stackOverflow Stack.limit), { m with code := m.code.seek behind }))) ∧
    (∀ n rest, n < 2 ^ (8 * size) →
      m.code.bytes.data.toList.drop m.position =
        Opcode.push size :: (Bytes.bigEndianDigits size n ++ rest) →
      m.stack.depth < Stack.limit → ∃ word : Word, word.toNat = n ∧
        reference.plainStep m = (.ok .proceed, { m with
          code := m.code.seek (m.position + 1 + size), stack := ⟨word :: m.stack.words⟩ })) := by
  have himmediateSize : Opcode.immediateSize (Opcode.push size) = size :=
    Opcode.immediateSize_push hpos (by omega)
  constructor
  · intro before entry after hlisting hopcode hposition
    have hentry : reference.listingAt m.code.bytes entry.position = entry :: after :=
      listingAt_of_append hlisting
    have hstride := stride_of_listingAt hentry
    obtain ⟨-, hbyte, himmediate, hafter⟩ := listingAt_eq_cons hentry
    rw [hopcode, himmediateSize] at hstride himmediate
    rw [hopcode, ← hposition] at hbyte
    rw [hstride] at hafter
    have hstep := plainStep_push hcode hpos hsize hbyte
    rw [hposition] at hstep
    refine ⟨entry.position + 1 + size, fun next rest hnext => ?_, fun hlast => ?_, fun hroom => ?_,
      fun hfull => ?_⟩
    · rw [hnext] at hafter
      exact (listingAt_eq_cons hafter.symm).1.symm
    · rw [hlast] at hafter
      exact ⟨rfl, size_le_of_listingAt_eq_nil hafter.symm⟩
    · rw [if_pos hroom] at hstep
      refine ⟨_, ?_, hstep⟩
      rw [Bytes.toNat_toWord_window _ _ hsize, himmediate]
    · rwa [if_neg (Nat.not_lt.mpr hfull)] at hstep
  · intro n rest hn hdrop hroom
    obtain ⟨hbyte, hrest⟩ := getElem?_of_drop hdrop
    have hdigits : (m.code.bytes.data.toList.drop (m.position + 1)).take size =
        Bytes.bigEndianDigits size n := by
      rw [hrest, List.take_left' (Bytes.length_bigEndianDigits size n)]
    have hpow : 2 ^ (8 * size) = 256 ^ size := Nat.pow_mul 2 8 size
    have hstep := plainStep_push hcode hpos hsize hbyte
    rw [if_pos hroom] at hstep
    refine ⟨_, ?_, hstep⟩
    rw [Bytes.toNat_toWord_window _ _ hsize, hdigits, Bytes.length_bigEndianDigits, Nat.sub_self,
      List.replicate_zero, List.append_nil, Bytes.bigEndian_bigEndianDigits,
      Nat.mod_eq_of_lt (hpow ▸ hn)]

/-- A machine at a push of two bytes, with the given bytes behind its opcode. -/
def atPush (immediate : List UInt8) (words : List Word) : Machine where
  code := { bytes := ⟨(0x5b :: 0x61 :: immediate).toArray⟩, cursor := 1 }
  stack := ⟨words⟩

/-- A zero takes the place of the second byte if the code ends before it.  With a full stack the
push fails behind both bytes. -/
theorem push_as_listed_cut :
    (∃ word : Word, word.toNat = 0x1200 ∧ reference.plainStep (atPush [0x12] [7]) =
      (.ok .proceed, { atPush [0x12] [7] with
        code := (atPush [0x12] [7]).code.seek 4, stack := ⟨[word, 7]⟩ })) ∧
    reference.plainStep (atPush [0x12] (List.replicate 1024 7)) =
      (.error (.stackOverflow 1024), { atPush [0x12] (List.replicate 1024 7) with
        code := (atPush [0x12] []).code.seek 4 }) ∧
    (∃ word : Word, word.toNat = 0x1234 ∧ reference.plainStep (atPush [0x12, 0x34, 0x5b] []) =
      (.ok .proceed, { atPush [0x12, 0x34, 0x5b] [] with
        code := (atPush [0x12, 0x34, 0x5b] []).code.seek 4, stack := ⟨[word]⟩ })) := by
  have hlisting (words : List Word) :
      reference.disassemble (atPush [0x12] words).code.bytes = [_] ++ _ :: [] := rfl
  have hlisted (words : List Word) := (push_as_listed (atPush [0x12] words) 2
    (show 3 ≤ Bytes.maxSize by decide) (by decide) (by decide)).1 _ _ _ (hlisting words) rfl rfl
  refine ⟨?_, ?_, ?_⟩
  · obtain ⟨behind, -, hlast, hroom, -⟩ := hlisted [7]
    obtain ⟨rfl, -⟩ := hlast rfl
    exact hroom (by decide)
  · obtain ⟨behind, -, hlast, -, hfull⟩ := hlisted (List.replicate 1024 7)
    obtain ⟨rfl, -⟩ := hlast rfl
    exact hfull (Nat.le_of_eq List.length_replicate.symm)
  · exact (push_as_listed (atPush [0x12, 0x34, 0x5b] []) 2 (by decide) (by decide) (by decide)).2
      0x1234 [0x5b] (by decide) rfl (by decide)

end OpcodeTable

end BytecodeDebugger
