import DedupPipeline.Library.BitString

namespace DedupModel

def codeLength : Nat := 13
def codeMask : UInt16 := UInt16.ofNat (1 <<< codeLength - 1)
def maxDictSize : Nat := 1 <<< codeLength

/-- The state of the loop; `compressedData` holds the bytes stored so far, so its length is the
    source's `compressed_size`. -/
structure BitWriter where
  bitBuffer : UInt32
  bitCount : Nat
  compressedData : List UInt8

/-- `while (bit_count >= 8)`. A round takes eight bits away, so `bitCount` rounds are enough. -/
def extractBytes : Nat → BitWriter → BitWriter
  | 0, writer => writer
  | rounds + 1, writer =>
    if 8 ≤ writer.bitCount then
      let byte := ((writer.bitBuffer >>> UInt32.ofNat (writer.bitCount - 8)) &&& 0xFF).toUInt8
      extractBytes rounds
        ⟨writer.bitBuffer, writer.bitCount - 8, writer.compressedData ++ [byte]⟩
    else writer

def packCode (writer : BitWriter) (codeWord : UInt16) : BitWriter :=
  let code := codeWord &&& codeMask
  let bitBuffer := (writer.bitBuffer <<< UInt32.ofNat codeLength) ||| code.toUInt32
  let bitCount := writer.bitCount + codeLength
  extractBytes bitCount ⟨bitBuffer, bitCount, writer.compressedData⟩

def packRemaining (writer : BitWriter) : List UInt8 :=
  -- Handle remaining bits (if any)
  if 0 < writer.bitCount then
    let byte := ((writer.bitBuffer <<< UInt32.ofNat (8 - writer.bitCount)) &&& 0xFF).toUInt8
    writer.compressedData ++ [byte]
  else writer.compressedData

/-- The packing loop of `lzw.cpp`. Those of `lzw_hw.cpp` and `test.cpp` do the same with other counters and as other
    kinds of loops. -/
def packCodeWords (codeWords : List UInt16) : List UInt8 :=
  packRemaining (codeWords.foldl packCode ⟨0, 0, []⟩)

end DedupModel

namespace DedupProof

open DedupModel BitString

def writtenBits (writer : BitWriter) : List Bool :=
  ofBytes writer.compressedData ++ bits writer.bitCount writer.bitBuffer.toNat

theorem low_byte (word : UInt32) : (word &&& 0xFF).toUInt8.toNat = word.toNat % 2 ^ 8 := by
  have mask : (0xFF : UInt32).toNat = 2 ^ 8 - 1 := rfl
  rw [UInt32.toNat_toUInt8, UInt32.toNat_and, mask, Nat.and_two_pow_sub_one_eq_mod, Nat.mod_mod]

theorem shiftRight_toNat (word : UInt32) (count : Nat) (small : count < 32) :
    (word >>> UInt32.ofNat count).toNat = word.toNat >>> count := by
  rw [UInt32.toNat_shiftRight, UInt32.toNat_ofNat']
  congr 1
  omega

theorem shiftLeft_toNat (word : UInt32) (count : Nat) (small : count < 32) :
    (word <<< UInt32.ofNat count).toNat = word.toNat <<< count % 2 ^ 32 := by
  rw [UInt32.toNat_shiftLeft, UInt32.toNat_ofNat']
  congr 2
  omega

theorem extractBytes_written (rounds : Nat) (writer : BitWriter) (small : writer.bitCount < 32) :
    writtenBits (extractBytes rounds writer) = writtenBits writer ∧
      (extractBytes rounds writer).bitCount ≤ writer.bitCount := by
  induction rounds generalizing writer with
  | zero => exact ⟨rfl, Nat.le_refl _⟩
  | succ rounds ih =>
    rw [extractBytes]
    split
    · rename_i full
      obtain ⟨written, fewer⟩ := ih
        ⟨writer.bitBuffer, writer.bitCount - 8, writer.compressedData ++
          [((writer.bitBuffer >>> UInt32.ofNat (writer.bitCount - 8)) &&& 0xFF).toUInt8]⟩ (by dsimp only; omega)
      refine ⟨?_, Nat.le_trans fewer (Nat.sub_le _ _)⟩
      have split : bits writer.bitCount writer.bitBuffer.toNat =
          bits 8 (writer.bitBuffer.toNat >>> (writer.bitCount - 8)) ++
            bits (writer.bitCount - 8) writer.bitBuffer.toNat := by
        rw [← bits_add]
        congr 1
        omega
      rw [written]
      simp only [writtenBits, ofBytes_append, ofBytes_cons, ofBytes_nil, List.append_nil]
      rw [low_byte, bits_mod, shiftRight_toNat _ _ (by omega), split, List.append_assoc]
    · exact ⟨rfl, Nat.le_refl _⟩

theorem extractBytes_bitCount (rounds : Nat) (writer : BitWriter) (enough : writer.bitCount ≤ rounds) :
    (extractBytes rounds writer).bitCount = writer.bitCount % 8 := by
  induction rounds generalizing writer with
  | zero =>
    have empty : writer.bitCount = 0 := by omega
    simp [extractBytes, empty]
  | succ rounds ih =>
    rw [extractBytes]
    split
    · rw [ih _ (by dsimp only; omega)]
      dsimp only
      omega
    · rename_i short
      exact (Nat.mod_eq_of_lt (by omega)).symm

theorem code_masked {codeWord : UInt16} (valid : codeWord.toNat < maxDictSize) :
    (codeWord &&& codeMask).toUInt32.toNat = codeWord.toNat := by
  have mask : codeMask.toNat = 2 ^ codeLength - 1 := rfl
  rw [UInt16.toNat_toUInt32, UInt16.toNat_and, mask, Nat.and_two_pow_sub_one_eq_mod]
  exact Nat.mod_eq_of_lt valid

def loadCode (writer : BitWriter) (codeWord : UInt16) : BitWriter :=
  ⟨(writer.bitBuffer <<< UInt32.ofNat codeLength) ||| (codeWord &&& codeMask).toUInt32,
    writer.bitCount + codeLength, writer.compressedData⟩

theorem packCode_eq (writer : BitWriter) (codeWord : UInt16) :
    packCode writer codeWord = extractBytes (writer.bitCount + codeLength) (loadCode writer codeWord) := rfl

theorem loadCode_written (writer : BitWriter) {codeWord : UInt16} (room : writer.bitCount < 8)
    (valid : codeWord.toNat < maxDictSize) :
    writtenBits (loadCode writer codeWord) = writtenBits writer ++ bits codeLength codeWord.toNat := by
  have length : codeLength = 13 := rfl
  -- at most 7 + 13 bits are waiting, so what the shift loses of the 32 is never one of them
  have kept : bits (writer.bitCount + codeLength)
      (writer.bitBuffer.toNat <<< codeLength % 2 ^ 32 ||| codeWord.toNat) =
      bits (writer.bitCount + codeLength) (writer.bitBuffer.toNat <<< codeLength ||| codeWord.toNat) := by
    apply bits_congr
    intro i bound
    rw [Nat.testBit_or, Nat.testBit_or, testBit_mod _ (by omega)]
  unfold writtenBits loadCode
  dsimp only
  rw [UInt32.toNat_or, shiftLeft_toNat _ _ (by omega), code_masked valid, kept,
    bits_shift_or _ _ _ _ valid, List.append_assoc]

theorem packCode_spec (writer : BitWriter) {codeWord : UInt16} (room : writer.bitCount < 8)
    (valid : codeWord.toNat < maxDictSize) :
    writtenBits (packCode writer codeWord) = writtenBits writer ++ bits codeLength codeWord.toNat ∧
      (packCode writer codeWord).bitCount = (writer.bitCount + codeLength) % 8 := by
  have length : codeLength = 13 := rfl
  have small : (loadCode writer codeWord).bitCount < 32 := by
    rw [loadCode]
    dsimp only
    omega
  rw [packCode_eq, (extractBytes_written _ _ small).1, loadCode_written writer room valid]
  exact ⟨rfl, extractBytes_bitCount _ _ (Nat.le_refl _)⟩

theorem foldl_packCode (codeWords : List UInt16) (writer : BitWriter) (room : writer.bitCount < 8)
    (valid : ∀ codeWord ∈ codeWords, codeWord.toNat < maxDictSize) :
    writtenBits (codeWords.foldl packCode writer) =
      writtenBits writer ++ codeWords.flatMap (fun codeWord => bits codeLength codeWord.toNat) ∧
      (codeWords.foldl packCode writer).bitCount < 8 := by
  induction codeWords generalizing writer with
  | nil => exact ⟨by simp, room⟩
  | cons codeWord codeWords ih =>
    obtain ⟨first, others⟩ := List.forall_mem_cons.mp valid
    obtain ⟨head, count⟩ := packCode_spec writer room first
    obtain ⟨tail, rest⟩ := ih (packCode writer codeWord) (by omega) others
    refine ⟨?_, rest⟩
    rw [List.foldl_cons, tail, head, List.flatMap_cons, List.append_assoc]

theorem packRemaining_bits (writer : BitWriter) (room : writer.bitCount < 8) :
    ∃ padding < 8, ofBytes (packRemaining writer) =
      writtenBits writer ++ List.replicate padding false := by
  unfold packRemaining
  split
  · rename_i pending
    refine ⟨8 - writer.bitCount, by omega, ?_⟩
    have padded : bits 8 (writer.bitBuffer.toNat <<< (8 - writer.bitCount) % 2 ^ 32) =
        bits writer.bitCount writer.bitBuffer.toNat ++ List.replicate (8 - writer.bitCount) false := by
      rw [← bits_shift, Nat.add_sub_cancel' (Nat.le_of_lt room)]
      exact bits_congr 8 fun _ _ => testBit_mod _ (by omega)
    simp only [writtenBits, ofBytes_append, ofBytes_cons, ofBytes_nil, List.append_nil]
    rw [low_byte, bits_mod, shiftLeft_toNat _ _ (by omega), padded, List.append_assoc]
  · rename_i flushed
    have empty : writer.bitCount = 0 := by omega
    exact ⟨0, by omega, by simp [writtenBits, empty]⟩

theorem packCodeWords_bits (codeWords : List UInt16)
    (valid : ∀ codeWord ∈ codeWords, codeWord.toNat < maxDictSize) :
    ∃ padding < 8, ofBytes (packCodeWords codeWords) =
      codeWords.flatMap (fun codeWord => bits codeLength codeWord.toNat) ++
        List.replicate padding false := by
  obtain ⟨written, room⟩ := foldl_packCode codeWords ⟨0, 0, []⟩ (by decide) valid
  obtain ⟨padding, small, padded⟩ := packRemaining_bits _ room
  refine ⟨padding, small, ?_⟩
  rw [packCodeWords, padded, written]
  rfl

theorem packCodeWords_length (codeWords : List UInt16)
    (valid : ∀ codeWord ∈ codeWords, codeWord.toNat < maxDictSize) :
    (packCodeWords codeWords).length = (13 * codeWords.length + 7) / 8 := by
  obtain ⟨padding, small, written⟩ := packCodeWords_bits codeWords valid
  have total := congrArg List.length written
  rw [length_ofBytes, List.length_append, List.length_replicate] at total
  have codes : (codeWords.flatMap (fun codeWord => bits codeLength codeWord.toNat)).length =
      13 * codeWords.length := by
    rw [← List.flatMap_map, length_flatMap_bits, List.length_map]
    rfl
  omega

end DedupProof
