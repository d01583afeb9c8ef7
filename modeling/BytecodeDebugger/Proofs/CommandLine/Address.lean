import BytecodeDebugger.CommandLine.Inputs
import BytecodeDebugger.Proofs.Text.Hex

/-!
# What addresses are read from

An address is twenty bytes (`Address.bytes`).  It is shown as their digits
(`Address.toHex_eq_encode`) and read back from what is shown (`readAddress_toHex`).

Whatever text renders a byte string, it is read as the address that is the same number, so zeros in
front make no difference; a byte string that is longer than an address is refused
(`addresses_read_back`).
-/

namespace BytecodeDebugger

open Text.Hex (Renders)

/-! ### Bytes of addresses -/

namespace Address

/-- The bytes of an address, the most significant one first. -/
def bytes (a : Address) : List UInt8 :=
  Bytes.bigEndianDigits size a.value.toNat

theorem toNat_lt (a : Address) : a.value.toNat < 256 ^ size :=
  a.value.isLt

theorem toNat_ofNat {n : Nat} (hn : n < 256 ^ size) : (ofNat n).value.toNat = n :=
  Nat.mod_eq_of_lt hn

theorem ofNat_toNat (a : Address) : ofNat a.value.toNat = a := by
  rw [ofNat, BitVec.ofNat_toNat, BitVec.setWidth_eq]

theorem bigEndian_bytes (a : Address) : Bytes.bigEndian a.bytes = a.value.toNat := by
  rw [bytes, Bytes.bigEndian_bigEndianDigits, Nat.mod_eq_of_lt a.toNat_lt]

theorem toNat_ofNat_bigEndian {digits : List UInt8} (h : digits.length ≤ size) :
    (ofNat (Bytes.bigEndian digits)).value.toNat = Bytes.bigEndian digits :=
  toNat_ofNat ((Bytes.bigEndian_lt digits).trans_le (Nat.pow_le_pow_right (by omega) h))

/-- The address that is the number of given bytes has these bytes, behind zeros. -/
theorem bytes_ofNat_bigEndian {digits : List UInt8} (h : digits.length ≤ size) :
    (ofNat (Bytes.bigEndian digits)).bytes =
      List.replicate (size - digits.length) 0 ++ digits := by
  rw [bytes, toNat_ofNat_bigEndian h, Bytes.bigEndianDigits_of_le h]

/-- **An address is shown** as the digits of its bytes. -/
theorem toHex_eq_encode (a : Address) : a.toHex = "0x" ++ Text.Hex.encode ⟨a.bytes.toArray⟩ := by
  have hpadded : (Text.Hex.padded (2 * size) a.value.toNat).toList =
      Text.Hex.encodeChars a.bytes := Text.Hex.toList_padded (by decide) a.toNat_lt
  have hencode : (Text.Hex.encode ⟨a.bytes.toArray⟩).toList = Text.Hex.encodeChars a.bytes := by
    rw [Text.Hex.encode, String.toList_ofList]
  rw [toHex, String.toList_inj.mp (hpadded.trans hencode.symm)]

theorem renders_toHex (a : Address) : Renders ⟨a.bytes.toArray⟩ a.toHex.toList := by
  have hgap : Text.Blank [] := by simp [Text.Blank]
  have htext : a.toHex.toList =
      [] ++ '0' :: 'x' :: (Text.Hex.encode ⟨a.bytes.toArray⟩).toList := by
    rw [toHex_eq_encode, String.toList_append]
    rfl
  rw [htext]
  exact .marked hgap (.inl rfl) (Text.Hex.spells_encode _)

/-- The address that is the number of a word has the bytes of the word, behind zeros. -/
theorem bytes_ofNat_toNat (word : Word) : (ofNat word.toNat).bytes =
    List.replicate 12 0 ++ (Bytes.ofWord word).data.toList := by
  have hword : Bytes.bigEndian (Bytes.ofWord word).data.toList = word.toNat := by
    rw [Bytes.toList_ofWord, Bytes.bigEndian_bigEndianDigits]
    exact Nat.mod_eq_of_lt word.toNat_lt
  have hsize : (Bytes.ofWord word).data.toList.length = 8 := rfl
  rw [← hword, bytes_ofNat_bigEndian (by rw [hsize]; decide), hsize]
  rfl

end Address

namespace CommandLine

variable {bytes : ByteArray} {text : String}

/-! ### Reading -/

theorem readAddress_eq (h : Renders bytes text.toList) :
    readAddress text = addressOfBytes bytes := by
  rw [readAddress, Text.Hex.decode_of_renders h]

theorem readAddress_of_renders (h : Renders bytes text.toList) (hsize : bytes.size ≤ Address.size) :
    readAddress text = .ok (Address.ofNat (Bytes.bigEndian bytes.data.toList)) := by
  rw [readAddress_eq h, addressOfBytes, if_pos hsize, Bytes.toNat_eq_bigEndian]

theorem readAddress_toHex (a : Address) : readAddress a.toHex = .ok a := by
  have hsize : (⟨a.bytes.toArray⟩ : ByteArray).size ≤ Address.size :=
    Nat.le_of_eq (Bytes.length_bigEndianDigits Address.size a.value.toNat)
  rw [readAddress_of_renders a.renders_toHex hsize, a.bigEndian_bytes, a.ofNat_toNat]

/-- **What is read from the texts that render a byte string**: the byte string, from all of them,
and the address that is the same number, if it has no more bytes than an address.  So zeros in front
make no difference, a word will do for eight bytes, and an address is read back from what is shown
of it. -/
theorem addresses_read_back :
    (∀ a : Address, a.toHex = "0x" ++ Text.Hex.encode ⟨a.bytes.toArray⟩ ∧
      readAddress a.toHex = .ok a) ∧
    ∀ bytes text, Renders bytes text.toList →
      Text.Hex.decode text = .ok bytes ∧
      (bytes.size ≤ Address.size → ∃ a, readAddress text = .ok a ∧
        a.value.toNat = Bytes.bigEndian bytes.data.toList ∧
        a.bytes = List.replicate (Address.size - bytes.size) 0 ++ bytes.data.toList) ∧
      (∀ zeros padded text', Renders padded text'.toList →
        padded.data.toList = List.replicate zeros 0 ++ bytes.data.toList →
        padded.size ≤ Address.size → readAddress text' = readAddress text) ∧
      (bytes.size ≤ 8 → ∃ word : Word, word.toNat = Bytes.bigEndian bytes.data.toList ∧
        readAddress text = .ok (Address.ofNat word.toNat) ∧
        (Address.ofNat word.toNat).bytes =
          List.replicate 12 0 ++ (Bytes.ofWord word).data.toList) ∧
      (Address.size < bytes.size → readAddress text = .error (.longAddress bytes.size)) := by
  refine ⟨fun a => ⟨a.toHex_eq_encode, readAddress_toHex a⟩, fun bytes text h => ?_⟩
  refine ⟨Text.Hex.decode_of_renders h, fun hsize => ?_,
    fun zeros padded text' h' hzeros hsize' => ?_, fun hsize => ?_, fun hsize => ?_⟩
  · have hlength : bytes.data.toList.length ≤ Address.size := hsize
    exact ⟨_, readAddress_of_renders h hsize, Address.toNat_ofNat_bigEndian hlength,
      Address.bytes_ofNat_bigEndian hlength⟩
  · have hlength : padded.size = zeros + bytes.size := by
      rw [← Bytes.length_toList, hzeros, List.length_append, List.length_replicate,
        Bytes.length_toList]
    rw [readAddress_of_renders h' hsize', readAddress_of_renders h (by omega), hzeros,
      Bytes.bigEndian_replicate_append]
  · have hword := Bytes.toNat_toWord_of_size_le hsize
    have hroom : bytes.size ≤ Address.size := hsize.trans (by decide)
    refine ⟨Bytes.toWord bytes, hword, ?_, Address.bytes_ofNat_toNat _⟩
    rw [readAddress_of_renders h hroom, hword]
  · rw [readAddress_eq h, addressOfBytes, if_neg (Nat.not_le_of_lt hsize)]

/-- Two bytes are read from digits with white space around and between them. -/
theorem addresses_read_back_spaced :
    Text.Hex.decode " 0X00 0\t4" = .ok ⟨#[0, 4]⟩ ∧
      readAddress " 0X00 0\t4" = .ok (Address.ofNat 4) := by
  have htext : " 0X00 0\t4".toList = [' '] ++ '0' :: 'X' :: ['0', '0', ' ', '0', '\t', '4'] := rfl
  have hrenders : Renders ⟨#[0, 4]⟩ " 0X00 0\t4".toList :=
    htext ▸ .marked (by simp [Text.Blank]; rfl) (.inr rfl) rfl
  obtain ⟨hdecode, hread, -, -, -⟩ := addresses_read_back.2 ⟨#[0, 4]⟩ " 0X00 0\t4" hrenders
  obtain ⟨a, hread, hvalue, -⟩ := hread (by decide)
  have ha : a = Address.ofNat 4 := by
    rw [← a.ofNat_toNat, hvalue]
    rfl
  exact ⟨hdecode, ha ▸ hread⟩

end CommandLine

end BytecodeDebugger
