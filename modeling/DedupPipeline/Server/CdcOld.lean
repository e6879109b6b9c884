import DedupPipeline.Server.Cdc
import Mathlib.Data.UInt

namespace DedupModel

def winSize : Nat := 12
def prime : UInt64 := 3

def expoTable : List UInt64 := [1, 3, 9, 27, 81, 243, 729, 2187, 19683, 59049, 177147, 531441]

/-- The value becomes the new `last_hash`. `none` stands for an access outside `expo_table` or the buffer. -/
def hashFunc (lastHash : UInt64) (input : List UInt8) (pos : Nat) : Option UInt64 :=
  if lastHash = 0 then
    -- Initial hash calculation for the first window
    (List.range winSize).foldlM (fun hash i => do
      let byte ← input[pos + winSize - 1 - i]?
      let power ← expoTable[i + 1]?
      return hash + byte.toUInt64 * power) 0
  else do
    -- Rolling hash for subsequent positions
    let leaving ← input[pos - 1]?
    let power ← expoTable[winSize + 1]?
    let entering ← input[pos + winSize - 1]?
    return lastHash * prime - leaving.toUInt64 * power + entering.toUInt64 * prime

structure OldChunkerState where
  lastHash : UInt64
  chunkPositions : List Nat

def oldChunkerStep (buffer : List UInt8) (state : OldChunkerState) (i : Nat) :
    Option OldChunkerState := do
  let hash ← hashFunc state.lastHash buffer i
  return {
    lastHash := hash
    chunkPositions := if hash % modulus = target then state.chunkPositions ++ [i + 1] else state.chunkPositions }

/-- The end of the loop, `buff_size - WIN_SIZE`, is computed without a sign. -/
def oldChunkerEnd (buffer : List UInt8) : Nat :=
  (UInt32.ofNat buffer.length - UInt32.ofNat winSize).toNat

def oldContentDefinedChunking (buffer : List UInt8) : Option (List Nat) := do
  let state ← (List.range' winSize (oldChunkerEnd buffer - winSize)).foldlM (oldChunkerStep buffer) ⟨0, [0]⟩
  return state.chunkPositions ++ [buffer.length]

end DedupModel

namespace DedupProof

open DedupModel

theorem hashFunc_winSize (input : List UInt8) (pos : Nat) : hashFunc 0 input pos = none := by
  have missing : expoTable[11 + 1]? = none := rfl
  rw [hashFunc, if_pos rfl, winSize, List.range_succ, List.foldlM_append]
  cases (List.range 11).foldlM (fun hash i => do
      let byte ← input[pos + 12 - 1 - i]?
      let power ← expoTable[i + 1]?
      return hash + byte.toUInt64 * power) 0 with
  | none => rfl
  | some hash =>
    rw [Option.bind_eq_bind, Option.bind_some, List.foldlM_cons, missing]
    cases input[pos + 12 - 1 - 11]? <;> rfl

/-- So the chunker works on the buffers for which it does not compute any hash. -/
theorem old_chunking_configured_iff (buffer : List UInt8) (bounded : buffer.length < 2 ^ 32)
    (positions : List Nat) : oldContentDefinedChunking buffer = some positions ↔
      12 ≤ buffer.length ∧ buffer.length ≤ 24 ∧ positions = [0, buffer.length] := by
  have stop : oldChunkerEnd buffer = (2 ^ 32 - 12 + buffer.length) % 2 ^ 32 := by
    have size : (UInt32.ofNat buffer.length).toNat = buffer.length :=
      UInt32.toNat_ofNat'.trans (Nat.mod_eq_of_lt bounded)
    rw [oldChunkerEnd, UInt32.toNat_sub, size]
    rfl
  rw [oldContentDefinedChunking]
  by_cases none : oldChunkerEnd buffer ≤ 12
  · have rounds : oldChunkerEnd buffer - winSize = 0 := Nat.sub_eq_zero_of_le none
    rw [rounds]
    show some [0, buffer.length] = some positions ↔ _
    rw [Option.some.injEq]
    constructor
    · intro same
      exact ⟨by omega, by omega, same.symm⟩
    · rintro ⟨_, _, same⟩
      exact same.symm
  · obtain ⟨more, rounds⟩ : ∃ more, oldChunkerEnd buffer - winSize = more + 1 :=
      ⟨oldChunkerEnd buffer - 12 - 1, (Nat.sub_add_cancel (Nat.sub_pos_of_lt (Nat.not_le.mp none))).symm⟩
    have first : oldChunkerStep buffer ⟨0, [0]⟩ winSize = Option.none := by
      rw [oldChunkerStep, hashFunc_winSize]
      rfl
    rw [rounds, List.range'_succ, List.foldlM_cons, first]
    constructor
    · intro some
      cases some
    · rintro ⟨lower, upper, _⟩
      omega

theorem old_chunking_configured_iff_twenty :
    oldContentDefinedChunking (List.replicate 20 7) = some [0, 20] :=
  (old_chunking_configured_iff (List.replicate 20 7) (by decide) [0, 20]).mpr ⟨by decide, by decide, rfl⟩

end DedupProof
