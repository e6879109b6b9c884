import DedupPipeline.Server.Reassembly

namespace DedupProof

open DedupModel Memory

def payloadAt (buff : Store UInt8) (range : Nat × Nat) : List UInt8 := read buff range.1 range.2

def blockRanges (blocksize count : Nat) : List (Nat × Nat) :=
  (List.range count).map fun n => (n * blocksize, blocksize)

theorem blockRanges_succ (blocksize count : Nat) :
    blockRanges blocksize (count + 1) = blockRanges blocksize count ++ [(count * blocksize, blocksize)] := by
  rw [blockRanges, List.range_succ, List.map_append, List.map_singleton, ← blockRanges]

section Send

variable {buff : Store UInt8} {ranges : List (Nat × Nat)} {state : ClientState}

def Sent (buff : Store UInt8) (ranges : List (Nat × Nat)) (state : ClientState) : Prop :=
  state.reads = ranges ∧ state.sent = (ranges.map (payloadAt buff)).map (packet false)

theorem Sent.next (sent : Sent buff ranges state) (start size : Nat) :
    Sent buff (ranges ++ [(start, size)]) (sendBlock buff state start size 0) := by
  obtain ⟨reads, datagrams⟩ := sent
  constructor
  · rw [sendBlock, reads]
  · have appended : (sendBlock buff state start size 0).sent = state.sent ++ [packet false (read buff start size)] :=
      sendBlock_sent buff state start size false
    rw [appended, datagrams, List.map_append, List.map_append]
    rfl

def Finished (buff : Store UInt8) (ranges : List (Nat × Nat)) (last : Nat × Nat) (state : ClientState) : Prop :=
  state.reads = ranges ++ [last] ∧
    state.sent = (ranges.map (payloadAt buff)).map (packet false) ++ [packet true (payloadAt buff last)]

theorem Sent.last (sent : Sent buff ranges state) (start size : Nat) :
    Finished buff ranges (start, size) (sendBlock buff state start size clientDoneBit) := by
  obtain ⟨reads, datagrams⟩ := sent
  constructor
  · rw [sendBlock, reads]
  · have appended : (sendBlock buff state start size clientDoneBit).sent =
        state.sent ++ [packet true (read buff start size)] := sendBlock_sent buff state start size true
    rw [appended, datagrams]
    rfl

theorem send_loop (buff localBuf : Store UInt8) (blocksize count : Nat) :
    Sent buff (blockRanges blocksize count) ((List.range count).foldl
      (fun state n => sendBlock buff state (n * blocksize) blocksize 0) ⟨localBuf, [], []⟩) := by
  apply Loop.range_invariant (fun n state => Sent buff (blockRanges blocksize n) state)
  · exact ⟨rfl, rfl⟩
  · intro n state _ sent
    rw [blockRanges_succ]
    exact sent.next (n * blocksize) blocksize

end Send

/-- The number of blocks sent without the done bit. A file shorter than a block has one as well. -/
def earlierBlocks (length blocksize : Nat) : Nat :=
  if length % blocksize = 0 then length / blocksize - 1 else length / blocksize - 1 + 1

def lastRange (length blocksize : Nat) : Nat × Nat :=
  if length % blocksize = 0 then ((length / blocksize - 1) * blocksize, blocksize)
  else (length / blocksize * blocksize, length % blocksize)

theorem clientMain_finished (heap localBuf : Store UInt8) (file : List UInt8) (blocksize : Nat) :
    Finished (write heap 0 file) (blockRanges blocksize (earlierBlocks file.length blocksize))
      (lastRange file.length blocksize) (clientMain heap localBuf file blocksize) := by
  have loop := send_loop (write heap 0 file) localBuf blocksize (file.length / blocksize - 1)
  by_cases exactly : file.length % blocksize = 0
  · rw [earlierBlocks, lastRange, clientMain, if_pos exactly, if_pos exactly, if_pos exactly,
      if_neg (not_not.mpr exactly)]
    exact loop.last _ _
  · rw [earlierBlocks, lastRange, clientMain, if_neg exactly, if_neg exactly, if_neg exactly, if_pos exactly,
      blockRanges_succ]
    exact (loop.next _ _).last _ _

theorem flatten_blockRanges (buff : Store UInt8) (blocksize count : Nat) :
    ((blockRanges blocksize count).map (payloadAt buff)).flatten = read buff 0 (count * blocksize) := by
  induction count with
  | zero =>
    rw [Nat.zero_mul]
    rfl
  | succ count ih =>
    rw [blockRanges_succ, List.map_append, List.flatten_append, ih, Nat.succ_mul, read_add, Nat.zero_add,
      List.map_singleton, List.flatten_singleton, payloadAt]

def payloadBytes (buff : Store UInt8) (length blocksize : Nat) : List UInt8 :=
  ((blockRanges blocksize (earlierBlocks length blocksize)).map (payloadAt buff)).flatten ++
    payloadAt buff (lastRange length blocksize)

section Ranges

variable {length blocksize : Nat}

theorem lastRange_whole (positive : 0 < blocksize) (whole : blocksize ≤ length) :
    (lastRange length blocksize).1 = earlierBlocks length blocksize * blocksize ∧
      (lastRange length blocksize).1 + (lastRange length blocksize).2 = length := by
  have split := Nat.div_add_mod' length blocksize
  have blocks : length / blocksize - 1 + 1 = length / blocksize := Nat.sub_add_cancel (Nat.div_pos whole positive)
  rw [lastRange, earlierBlocks]
  by_cases exactly : length % blocksize = 0
  · rw [if_pos exactly, if_pos exactly, ← Nat.succ_mul, Nat.succ_eq_add_one, blocks]
    exact ⟨rfl, by omega⟩
  · rw [if_neg exactly, if_neg exactly, blocks]
    exact ⟨rfl, split⟩

theorem payloadBytes_whole (buff : Store UInt8) (positive : 0 < blocksize) (whole : blocksize ≤ length) :
    payloadBytes buff length blocksize = read buff 0 length := by
  obtain ⟨starts, ends⟩ := lastRange_whole positive whole
  have joined := read_add buff 0 (lastRange length blocksize).1 (lastRange length blocksize).2
  rw [ends, Nat.zero_add] at joined
  rw [payloadBytes, flatten_blockRanges, ← starts, payloadAt, joined]

theorem short_ranges (nonempty : 0 < length) (short : length < blocksize) :
    earlierBlocks length blocksize = 1 ∧ lastRange length blocksize = (0, length) := by
  have none : length / blocksize = 0 := Nat.div_eq_of_lt short
  have rest : length % blocksize = length := Nat.mod_eq_of_lt short
  rw [earlierBlocks, lastRange, none, rest, if_neg (by omega), if_neg (by omega), Nat.zero_mul]
  exact ⟨rfl, rfl⟩

theorem payloadBytes_short (buff : Store UInt8) (nonempty : 0 < length) (short : length < blocksize) :
    payloadBytes buff length blocksize = read buff 0 blocksize ++ read buff 0 length := by
  obtain ⟨blocks, last⟩ := short_ranges nonempty short
  rw [payloadBytes, flatten_blockRanges, blocks, last, Nat.one_mul, payloadAt]

theorem ranges_inside_iff (positive : 0 < blocksize) (nonempty : 0 < length) :
    (∀ range ∈ blockRanges blocksize (earlierBlocks length blocksize) ++ [lastRange length blocksize],
      range.1 + range.2 ≤ length) ↔ blocksize ≤ length := by
  constructor
  · intro inside
    by_contra short
    have blocks := (short_ranges nonempty (Nat.not_le.mp short)).1
    have first := inside (0, blocksize) (by simp [blocks, blockRanges])
    omega
  · intro whole range member
    obtain ⟨starts, ends⟩ := lastRange_whole positive whole
    rcases List.mem_append.mp member with earlier | last
    · obtain ⟨n, counted, rfl⟩ := List.mem_map.mp earlier
      have upper : (n + 1) * blocksize ≤ earlierBlocks length blocksize * blocksize :=
        Nat.mul_le_mul_right blocksize (List.mem_range.mp counted)
      rw [Nat.succ_mul] at upper
      exact upper.trans (by omega)
    · rw [List.mem_singleton.mp last]
      exact Nat.le_of_eq ends

theorem range_sizes (positive : 0 < blocksize) :
    ∀ range ∈ blockRanges blocksize (earlierBlocks length blocksize) ++ [lastRange length blocksize],
      range.2 ≤ blocksize := by
  intro range member
  rcases List.mem_append.mp member with earlier | last
  · obtain ⟨n, -, rfl⟩ := List.mem_map.mp earlier
    exact Nat.le_refl blocksize
  · rw [List.mem_singleton.mp last, lastRange]
    split
    · exact Nat.le_refl blocksize
    · exact Nat.le_of_lt (Nat.mod_lt length positive)

end Ranges

section Transfer

variable (heap localBuf : Store UInt8) (inputBuffers : Nat → Store UInt8) (fileBuffer : Store UInt8)

def Reassembled (file : List UInt8) (blocksize : Nat) : Prop :=
  ∃ final, receiveMain blocksize inputBuffers fileBuffer (clientMain heap localBuf file blocksize).sent =
    some (final, []) ∧ received final = file

def ReadsInside (file : List UInt8) (blocksize : Nat) : Prop :=
  ∀ range ∈ (clientMain heap localBuf file blocksize).reads, range.1 + range.2 ≤ file.length

variable {file : List UInt8} {blocksize : Nat}

theorem receiveMain_clientMain (positive : 1 ≤ blocksize) (bounded : blocksize ≤ clientMaxBlocksize)
    (room : (payloadBytes (write heap 0 file) file.length blocksize).length < fileBufferSize) :
    ∃ final, receiveMain blocksize inputBuffers fileBuffer (clientMain heap localBuf file blocksize).sent =
      some (final, []) ∧ received final = payloadBytes (write heap 0 file) file.length blocksize := by
  obtain ⟨-, sent⟩ := clientMain_finished heap localBuf file blocksize
  have whole : ∀ payload ∈ (blockRanges blocksize (earlierBlocks file.length blocksize)).map
      (payloadAt (write heap 0 file)) ++ [payloadAt (write heap 0 file) (lastRange file.length blocksize)],
      payload.length ≤ blocksize := by
    intro payload member
    rw [← List.map_singleton, ← List.map_append] at member
    obtain ⟨range, inside, rfl⟩ := List.mem_map.mp member
    rw [payloadAt, length_read]
    exact range_sizes positive range inside
  have limit : blocksize < 2 ^ 15 := Nat.lt_of_le_of_lt bounded (by decide)
  have small := fun payload member => Nat.lt_of_le_of_lt (whole payload member) limit
  have ran := receiveMain_packets whole small inputBuffers fileBuffer []
  rw [List.append_nil] at ran
  rw [sent]
  exact ⟨_, ran, receiveAll_packets whole small inputBuffers fileBuffer room⟩

theorem reassembled_iff (nonempty : file ≠ []) (fits : file.length < fileBufferSize) (positive : 1 ≤ blocksize)
    (bounded : blocksize ≤ clientMaxBlocksize) :
    Reassembled heap localBuf inputBuffers fileBuffer file blocksize ↔ blocksize ≤ file.length := by
  have whole : read (write heap 0 file) 0 file.length = file := read_write heap 0 file
  constructor
  · rintro ⟨final, ran, gathered⟩
    by_contra short
    -- the server gathers a whole block more than the file holds
    have content := payloadBytes_short (write heap 0 file) (List.length_pos_iff.mpr nonempty) (Nat.not_le.mp short)
    have longer := congrArg List.length content
    rw [List.length_append, length_read, length_read] at longer
    have room : (payloadBytes (write heap 0 file) file.length blocksize).length < fileBufferSize := by
      rw [clientMaxBlocksize] at bounded
      rw [longer, fileBufferSize]
      omega
    obtain ⟨other, alsoRan, alsoGathered⟩ :=
      receiveMain_clientMain heap localBuf inputBuffers fileBuffer positive bounded room
    obtain rfl : final = other := (Prod.mk.inj (Option.some.inj (ran.symm.trans alsoRan))).1
    rw [← alsoGathered, gathered] at longer
    omega
  · intro fullBlock
    have content := payloadBytes_whole (write heap 0 file) positive fullBlock
    rw [whole] at content
    have transfer := receiveMain_clientMain heap localBuf inputBuffers fileBuffer positive bounded (content ▸ fits)
    rwa [content] at transfer

theorem readsInside_iff (nonempty : file ≠ []) (positive : 1 ≤ blocksize) :
    ReadsInside heap localBuf file blocksize ↔ blocksize ≤ file.length := by
  rw [ReadsInside, (clientMain_finished heap localBuf file blocksize).1]
  exact ranges_inside_iff positive (List.length_pos_iff.mpr nonempty)

theorem transfer_iff (nonempty : file ≠ []) (fits : file.length < 70000000) (positive : 1 ≤ blocksize)
    (bounded : blocksize ≤ 16384) :
    Reassembled heap localBuf inputBuffers fileBuffer file blocksize ∧ ReadsInside heap localBuf file blocksize ↔
      blocksize ≤ file.length := by
  rw [reassembled_iff heap localBuf inputBuffers fileBuffer nonempty fits positive bounded,
    readsInside_iff heap localBuf nonempty positive, and_self]

end Transfer

theorem transfer_three : Reassembled 0 0 0 0 [7, 8, 9] 2 ∧ ReadsInside 0 0 [7, 8, 9] 2 :=
  (transfer_iff 0 0 0 0 (List.cons_ne_nil 7 [8, 9]) (by decide) (by decide) (by decide)).mpr (by decide)

/-- One byte in blocks of two: the server gathers `7 0 7`. -/
theorem short_transfer : ¬(Reassembled 0 0 0 0 [7] 2 ∧ ReadsInside 0 0 [7] 2) := by
  rintro ⟨⟨final, ran, gathered⟩, -⟩
  have content : (receiveMain 2 0 0 (clientMain 0 0 [7] 2).sent).map (fun result => received result.1) =
      some [7, 0, 7] := by decide
  rw [ran, Option.map_some, gathered] at content
  exact absurd content (by decide)

end DedupProof
