import DedupPipeline.Server.Reassembly

namespace DedupProof

open DedupModel Memory BoundedBuffer

/-- Sizes of packets for which the file buffer always holds a beginning of what was sent, whatever it was: once one
    is skipped, the later ones are empty or skipped as well. -/
theorem buffer_holds_beginning_iff (blocksize : Nat) (inputBuffers : Nat → Store UInt8) (fileBuffer : Store UInt8)
    {sizes : List Nat} {lastSize : Nat} (bounded : ∀ size ∈ sizes ++ [lastSize], size ≤ 16384)
    (whole : ∀ size ∈ sizes ++ [lastSize], size ≤ blocksize) :
    NoHole 70000000 0 (sizes ++ [lastSize]) ↔
      ∀ payloads last, payloads.map List.length = sizes → last.length = lastSize → ∀ i,
        received (receiveAll blocksize inputBuffers fileBuffer ((packets payloads last).take i)) <+:
          ((payloads ++ [last]).take i).flatten := by
  have gathers {payloads : List (List UInt8)} {last : List UInt8}
      (lengths : (payloads ++ [last]).map List.length = sizes ++ [lastSize]) (i : Nat) :
      received (receiveAll blocksize inputBuffers fileBuffer ((packets payloads last).take i)) =
        gather fileBufferSize [] ((payloads ++ [last]).take i) := by
    apply receiveAll_gather
    · exact fun payload member => whole payload.length (lengths ▸ List.mem_map_of_mem member)
    · intro payload member
      have size := bounded payload.length (lengths ▸ List.mem_map_of_mem member)
      omega
  constructor
  · rintro noHole payloads last rfl rfl i
    rw [gathers (by simp)]
    have lengths : NoHole fileBufferSize ([] : List UInt8).length ((payloads ++ [last]).map List.length) := by
      rw [List.map_append]
      exact noHole
    exact gather_beginning lengths i
  · intro beginnings
    by_contra hole
    obtain ⟨pieces, lengths, i, shows⟩ := exists_hole (show (0 : UInt8) ≠ 1 by decide)
      (show ¬NoHole 70000000 ([] : List UInt8).length (sizes ++ [lastSize]) from hole)
    obtain ⟨payloads, lastOnes, rfl, earlier, single⟩ := List.map_eq_append_iff.mp lengths
    obtain ⟨last, rfl, length⟩ := List.map_eq_singleton_iff.mp single
    apply shows
    have beginning := beginnings payloads last earlier length i
    rwa [gathers lengths] at beginning

theorem blocks_stop (inputBuffers : Nat → Store UInt8) (fileBuffer : Store UInt8) {blocksize count : Nat}
    {block last : List UInt8} (same : last.length = block.length) (whole : block.length ≤ blocksize)
    (small : block.length < 2 ^ 15) (room : count * block.length < fileBufferSize)
    (full : fileBufferSize ≤ (count + 1) * block.length) :
    (receiveAll blocksize inputBuffers fileBuffer (packets (List.replicate (count + 1) block) last)).offset =
      count * block.length := by
  have lengths : ∀ payload ∈ List.replicate (count + 1) block ++ [last], payload.length = block.length := by
    intro payload member
    rcases List.mem_append.mp member with earlier | final
    · rw [List.eq_of_mem_replicate earlier]
    · rw [List.mem_singleton.mp final, same]
  have stored := receiveAll_gather (fun payload member => lengths payload member ▸ whole)
    (fun payload member => lengths payload member ▸ small) inputBuffers fileBuffer (count + 2)
  have filled : (List.replicate count block).flatten.length = count * block.length := by
    rw [List.length_flatten, List.map_replicate, List.sum_replicate_nat]
  have fits : gather fileBufferSize [] (List.replicate count block) = (List.replicate count block).flatten :=
    gather_fits (by rwa [List.length_nil, Nat.zero_add, filled])
  rw [Nat.succ_mul, ← filled] at full
  rw [List.take_of_length_le (by simp [packets]), List.take_of_length_le (by simp), List.replicate_succ',
    List.append_assoc, gather_append, fits, gather_left_out] at stored
  · rw [← length_received, List.replicate_succ', stored, filled]
  · intro piece member
    rcases List.mem_cons.mp member with rfl | final
    · exact Or.inr full
    · rw [List.mem_singleton.mp final, same]
      exact Or.inr full

/-- Of 4274 blocks of 16384 bytes the last two are skipped. -/
theorem buffer_holds_beginning_full :
    received (receiveAll 16384 0 0
        (packets (List.replicate (4272 + 1) (List.replicate 16384 7)) (List.replicate 16384 8))) <+:
      (List.replicate (4272 + 1) (List.replicate 16384 (7 : UInt8)) ++ [List.replicate 16384 8]).flatten ∧
    (receiveAll 16384 0 0 (packets (List.replicate (4272 + 1) (List.replicate 16384 7))
      (List.replicate 16384 8))).offset = 4272 * 16384 := by
  have beginning (count : Nat) {block last : List UInt8} (width : block.length = 16384)
      (same : last.length = 16384) :
      received (receiveAll 16384 0 0 (packets (List.replicate count block) last)) <+:
        (List.replicate count block ++ [last]).flatten := by
    have one : List.replicate count 16384 ++ [16384] = List.replicate (count + 1) 16384 := List.replicate_succ'.symm
    have sizes : ∀ size ∈ List.replicate count 16384 ++ [16384], size ≤ 16384 := by
      rw [one]
      exact fun size member => Nat.le_of_eq (List.eq_of_mem_replicate member)
    have noHole : NoHole 70000000 0 (List.replicate count 16384 ++ [16384]) := by
      rw [one]
      exact noHole_replicate _ _ _ _
    have shown := (buffer_holds_beginning_iff 16384 0 0 sizes sizes).mp noHole (List.replicate count block) last
      (by rw [List.map_replicate, width]) same (count + 1)
    rwa [List.take_of_length_le (by simp [packets]), List.take_of_length_le (by simp)] at shown
  have width (byte : UInt8) : (List.replicate 16384 byte).length = 16384 := List.length_replicate
  refine ⟨beginning (4272 + 1) (width 7) (width 8), ?_⟩
  have stopped := blocks_stop (0 : Nat → Store UInt8) 0 ((width 8).trans (width 7).symm)
    (show (List.replicate 16384 (7 : UInt8)).length ≤ 16384 by rw [width]) (by rw [width]; decide)
    (show 4272 * _ < fileBufferSize by rw [width]; decide) (by rw [width]; decide)
  rw [width] at stopped
  exact stopped

theorem blocks_leave_hole (inputBuffers : Nat → Store UInt8) (fileBuffer : Store UInt8) {blocksize count : Nat}
    {zeros : List UInt8}
    (whole : ∀ payload ∈ List.replicate (count + 1) (0 :: zeros) ++ [[1]], payload.length ≤ blocksize)
    (small : ∀ payload ∈ List.replicate (count + 1) (0 :: zeros) ++ [[1]], payload.length < 2 ^ 15)
    (room : count * (zeros.length + 1) + 1 < fileBufferSize)
    (full : fileBufferSize ≤ (count + 1) * (zeros.length + 1)) :
    ¬received (receiveAll blocksize inputBuffers fileBuffer
        ((packets (List.replicate (count + 1) (0 :: zeros)) [1]).take (count + 2))) <+:
      ((List.replicate (count + 1) (0 :: zeros) ++ [[1]]).take (count + 2)).flatten := by
  have all : (List.replicate (count + 1) (0 :: zeros) ++ [[1]]).take (count + 2) =
      List.replicate (count + 1) (0 :: zeros) ++ [[1]] := by
    apply List.take_of_length_le
    rw [List.length_append, List.length_replicate, List.length_singleton]
  rw [receiveAll_gather whole small, all, gather_hole room full, List.replicate_succ', List.append_assoc,
    List.flatten_append, List.prefix_append_right_inj]
  intro beginning
  exact absurd (List.cons_prefix_cons.mp beginning).1 (by decide)

/-- 4273 blocks of 16384 zeros, of which the buffer has no room for the last, and one more byte. -/
theorem overflow_leaves_hole :
    ¬∀ (blocksize : Nat) (inputBuffers : Nat → Store UInt8) (fileBuffer : Store UInt8) (payloads : List (List UInt8))
      (last : List UInt8), (∀ payload ∈ payloads ++ [last], payload.length ≤ 16384) →
      (∀ payload ∈ payloads ++ [last], payload.length ≤ blocksize) → ∀ i,
      received (receiveAll blocksize inputBuffers fileBuffer ((packets payloads last).take i)) <+:
        ((payloads ++ [last]).take i).flatten := by
  intro always
  have width : (List.replicate 16383 (0 : UInt8)).length = 16383 := List.length_replicate
  generalize List.replicate 16383 (0 : UInt8) = zeros at width
  have sizes : ∀ payload ∈ List.replicate (4272 + 1) (0 :: zeros) ++ [[1]], payload.length ≤ 16384 := by
    intro payload member
    rcases List.mem_append.mp member with earlier | last
    · rw [List.eq_of_mem_replicate earlier, List.length_cons, width]
    · rw [List.mem_singleton.mp last]
      decide
  have small := fun payload member => Nat.lt_of_le_of_lt (sizes payload member) (show 16384 < 2 ^ 15 by decide)
  have beginning := always 16384 0 0 _ _ sizes sizes (4272 + 2)
  exact blocks_leave_hole 0 0 sizes small (by rw [width]; decide) (by rw [width]; decide) beginning

end DedupProof
