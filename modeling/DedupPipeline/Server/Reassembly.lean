import DedupPipeline.Client.Packets
import DedupPipeline.Library.BoundedBuffer

namespace DedupProof

open DedupModel Memory BoundedBuffer

def received (state : ReceiveState) : List UInt8 := read state.fileBuffer 0 state.offset

@[simp] theorem length_received (state : ReceiveState) : (received state).length = state.offset :=
  length_read state.fileBuffer 0 state.offset

theorem received_copyPacket (state : ReceiveState) (buffer : Store UInt8) (length : Nat) :
    received (copyPacket state buffer length) = received state ++ read buffer headerSize length := by
  have appended := read_write_append state.fileBuffer 0 state.offset (read buffer headerSize length)
  rwa [Nat.zero_add, length_read] at appended

/-- The slot of the next `get_packet`. The first call makes no test for the end of the ring, and needs none. -/
def slot (state : ReceiveState) : Nat := if state.writer = numPackets then 0 else state.writer

def slotBuffer (blocksize : Nat) (state : ReceiveState) (datagram : List UInt8) : Store UInt8 :=
  getPacket blocksize (state.inputBuffers (slot state)) datagram

theorem decodeLength_lt (buffer : Store UInt8) : decodeLength buffer < 2 ^ 15 := by
  rw [decodeLength_bytes]
  exact Nat.mod_lt _ (by decide)

section Step

variable (blocksize : Nat) (state : ReceiveState) (datagram : List UInt8)

theorem receiveStep_fields :
    (receiveStep blocksize state datagram).done = decodeDone (slotBuffer blocksize state datagram) ∧
      (receiveStep blocksize state datagram).writer = slot state + 1 := by
  by_cases full : fileBufferSize ≤ state.offset + decodeLength (slotBuffer blocksize state datagram)
  · unfold slotBuffer slot at full
    rw [receiveStep, if_pos full]
    exact ⟨rfl, rfl⟩
  · unfold slotBuffer slot at full
    rw [receiveStep, if_neg full]
    exact ⟨rfl, rfl⟩

variable {blocksize state datagram}

theorem receiveStep_skipped
    (full : fileBufferSize ≤ state.offset + decodeLength (slotBuffer blocksize state datagram)) :
    (receiveStep blocksize state datagram).offset = state.offset ∧
      received (receiveStep blocksize state datagram) = received state := by
  unfold slotBuffer slot at full
  rw [receiveStep, if_pos full]
  exact ⟨rfl, rfl⟩

theorem receiveStep_copied
    (room : state.offset + decodeLength (slotBuffer blocksize state datagram) < fileBufferSize) :
    (receiveStep blocksize state datagram).offset =
        state.offset + decodeLength (slotBuffer blocksize state datagram) ∧
      received (receiveStep blocksize state datagram) = received state ++
        read (slotBuffer blocksize state datagram) headerSize
          (decodeLength (slotBuffer blocksize state datagram)) := by
  unfold slotBuffer slot at room ⊢
  rw [receiveStep, if_neg (Nat.not_le.mpr room), received_copyPacket]
  exact ⟨rfl, rfl⟩

end Step

section Packet

variable {blocksize : Nat} {payload : List UInt8} (state : ReceiveState) (done : Bool)
  (whole : payload.length ≤ blocksize) (small : payload.length < 2 ^ 15)

include whole small

theorem slotBuffer_packet :
    decodeDone (slotBuffer blocksize state (packet done payload)) = done ∧
      decodeLength (slotBuffer blocksize state (packet done payload)) = payload.length ∧
      read (slotBuffer blocksize state (packet done payload)) headerSize payload.length = payload := by
  have held := read_getPacket blocksize (state.inputBuffers (slot state)) done whole
  exact ⟨decodeDone_packet held small, decodeLength_packet held small, (packet_bytes held).2.2⟩

theorem receiveStep_packet :
    (receiveStep blocksize state (packet done payload)).done = done ∧
      received (receiveStep blocksize state (packet done payload)) = add fileBufferSize (received state) payload := by
  obtain ⟨isDone, length, content⟩ := slotBuffer_packet state done whole small
  rw [(receiveStep_fields _ _ _).1, isDone]
  refine ⟨rfl, ?_⟩
  by_cases full : fileBufferSize ≤ state.offset + payload.length
  · rw [add_left_out (Or.inr (by rwa [length_received]))]
    rw [← length] at full
    exact (receiveStep_skipped full).2
  · rw [add_fits (by rwa [length_received, ← Nat.not_le])]
    rw [← length] at full
    rw [(receiveStep_copied (Nat.not_le.mp full)).2, length, content]

end Packet

section Run

variable {blocksize : Nat} {inputBuffers : Nat → Store UInt8} {fileBuffer : Store UInt8}

/-- The first packet needs no check of the room: its length field is below the size of the buffer. -/
theorem receiveFirst_eq_step (datagram : List UInt8) :
    receiveFirst blocksize (receiveStart inputBuffers fileBuffer) datagram =
      receiveStep blocksize (receiveStart inputBuffers fileBuffer) datagram := by
  have small := decodeLength_lt (getPacket blocksize (inputBuffers pipeDepth) datagram)
  have room : ¬ fileBufferSize ≤ 0 + decodeLength (getPacket blocksize (inputBuffers pipeDepth) datagram) := by
    rw [fileBufferSize]
    omega
  have noWrap : ¬ pipeDepth = numPackets := by decide
  simp only [receiveFirst, receiveStep, receiveStart, noWrap, room, if_false]

def receiveAll (blocksize : Nat) (inputBuffers : Nat → Store UInt8) (fileBuffer : Store UInt8) :
    List (List UInt8) → ReceiveState
  | [] => receiveStart inputBuffers fileBuffer
  | datagram :: datagrams =>
    datagrams.foldl (receiveStep blocksize) (receiveFirst blocksize (receiveStart inputBuffers fileBuffer) datagram)

theorem receiveAll_eq (datagrams : List (List UInt8)) :
    receiveAll blocksize inputBuffers fileBuffer datagrams =
      datagrams.foldl (receiveStep blocksize) (receiveStart inputBuffers fileBuffer) := by
  cases datagrams with
  | nil => rfl
  | cons datagram datagrams => rw [receiveAll, receiveFirst_eq_step, List.foldl_cons]

theorem receiveAll_succ {datagrams : List (List UInt8)} {i : Nat} (inside : i < datagrams.length) :
    receiveAll blocksize inputBuffers fileBuffer (datagrams.take (i + 1)) =
      receiveStep blocksize (receiveAll blocksize inputBuffers fileBuffer (datagrams.take i)) datagrams[i] := by
  rw [receiveAll_eq, receiveAll_eq, List.take_succ_eq_append_getElem inside, List.foldl_append]
  rfl

theorem receiveMain_eq_loop (datagram : List UInt8) (datagrams : List (List UInt8)) :
    receiveMain blocksize inputBuffers fileBuffer (datagram :: datagrams) =
      receiveLoop blocksize (receiveStart inputBuffers fileBuffer) (datagram :: datagrams) := by
  rw [receiveMain, receiveFirst_eq_step]
  rfl

theorem slot_lt {state : ReceiveState} (inside : state.writer ≤ numPackets) : slot state < numPackets := by
  unfold slot
  split
  · decide
  · omega

theorem foldl_writer_le {state : ReceiveState} (inside : state.writer ≤ numPackets) (datagrams : List (List UInt8)) :
    (datagrams.foldl (receiveStep blocksize) state).writer ≤ numPackets := by
  induction datagrams generalizing state with
  | nil => exact inside
  | cons datagram datagrams ih =>
    apply ih
    rw [(receiveStep_fields _ _ _).2]
    exact slot_lt inside

theorem receiveAll_slot (datagrams : List (List UInt8)) :
    slot (receiveAll blocksize inputBuffers fileBuffer datagrams) < numPackets := by
  rw [receiveAll_eq]
  exact slot_lt (foldl_writer_le (show pipeDepth ≤ numPackets by decide) datagrams)

end Run

def packets (payloads : List (List UInt8)) (last : List UInt8) : List (List UInt8) :=
  payloads.map (packet false) ++ [packet true last]

structure IsPacket (blocksize : Nat) (datagram payload : List UInt8) : Prop where
  framed : ∃ done, datagram = packet done payload
  whole : payload.length ≤ blocksize
  small : payload.length < 2 ^ 15

theorem foldl_received {blocksize : Nat} {datagrams payloads : List (List UInt8)}
    (isPacket : List.Forall₂ (IsPacket blocksize) datagrams payloads) (state : ReceiveState) :
    received (datagrams.foldl (receiveStep blocksize) state) = gather fileBufferSize (received state) payloads := by
  induction isPacket generalizing state with
  | nil => rfl
  | cons first _ ih =>
    obtain ⟨⟨done, rfl⟩, whole, small⟩ := first
    rw [List.foldl_cons, gather_cons, ih, (receiveStep_packet state done whole small).2]

section Reassembly

variable {blocksize : Nat} {payloads : List (List UInt8)} {last : List UInt8}
  (whole : ∀ payload ∈ payloads ++ [last], payload.length ≤ blocksize)
  (small : ∀ payload ∈ payloads ++ [last], payload.length < 2 ^ 15)

include whole small

theorem packets_isPacket : List.Forall₂ (IsPacket blocksize) (packets payloads last) (payloads ++ [last]) := by
  have framed (payload : List UInt8) (member : payload ∈ payloads ++ [last]) (done : Bool) :
      IsPacket blocksize (packet done payload) payload :=
    ⟨⟨done, rfl⟩, whole payload member, small payload member⟩
  apply List.rel_append
  · rw [List.forall₂_map_left_iff]
    apply List.forall₂_same.mpr
    exact fun payload member => framed payload (List.mem_append_left _ member) false
  · exact .cons (framed last (List.mem_append_right _ List.mem_cons_self) true) .nil

variable (inputBuffers : Nat → Store UInt8) (fileBuffer : Store UInt8)

theorem receiveAll_gather (i : Nat) :
    received (receiveAll blocksize inputBuffers fileBuffer ((packets payloads last).take i)) =
      gather fileBufferSize [] ((payloads ++ [last]).take i) := by
  rw [receiveAll_eq, foldl_received (List.forall₂_take i (packets_isPacket whole small))]
  rfl

theorem receiveLoop_packets (later : List (List UInt8)) {state : ReceiveState} (running : state.done = false) :
    receiveLoop blocksize state (packets payloads last ++ later) =
      some ((packets payloads last).foldl (receiveStep blocksize) state, later) := by
  induction payloads generalizing state with
  | nil =>
    have isDone := (receiveStep_packet state true (whole last List.mem_cons_self) (small last List.mem_cons_self)).1
    show receiveLoop blocksize state (packet true last :: later) =
      some (receiveStep blocksize state (packet true last), later)
    cases later <;> simp [receiveLoop, running, isDone]
  | cons payload payloads ih =>
    obtain ⟨wholeHere, wholeNext⟩ := List.forall_mem_cons.mp whole
    obtain ⟨smallHere, smallNext⟩ := List.forall_mem_cons.mp small
    have isDone := (receiveStep_packet state false wholeHere smallHere).1
    have next := ih wholeNext smallNext isDone
    show receiveLoop blocksize state (packet false payload :: (packets payloads last ++ later)) = _
    rw [receiveLoop, running]
    exact next

theorem receiveMain_packets (later : List (List UInt8)) :
    receiveMain blocksize inputBuffers fileBuffer (packets payloads last ++ later) =
      some (receiveAll blocksize inputBuffers fileBuffer (packets payloads last), later) := by
  have loop : receiveLoop blocksize (receiveStart inputBuffers fileBuffer) (packets payloads last ++ later) = _ :=
    receiveLoop_packets whole small later rfl
  rw [← receiveAll_eq] at loop
  rw [← loop]
  cases payloads with
  | nil => exact receiveMain_eq_loop _ _
  | cons payload payloads => exact receiveMain_eq_loop _ _

theorem receiveAll_packets (room : (payloads.flatten ++ last).length < fileBufferSize) :
    received (receiveAll blocksize inputBuffers fileBuffer (packets payloads last)) = payloads.flatten ++ last := by
  have joined : (payloads ++ [last]).flatten = payloads.flatten ++ last := by
    rw [List.flatten_append, List.flatten_singleton]
  have fits : ([] : List UInt8).length + (payloads ++ [last]).flatten.length < fileBufferSize := by
    rwa [joined, List.length_nil, Nat.zero_add]
  rw [receiveAll_eq, foldl_received (packets_isPacket whole small), ← joined]
  exact gather_fits fits

end Reassembly

/-- Well-formed packets that the buffer has room for are put together again, whatever their number and sizes, and
    none behind the last one is read. -/
theorem receive_loop_reassembles (blocksize : Nat) (inputBuffers : Nat → Store UInt8) (fileBuffer : Store UInt8)
    {payloads : List (List UInt8)} {last : List UInt8} (later : List (List UInt8))
    (sizes : ∀ payload ∈ payloads ++ [last], payload.length ≤ 16384)
    (whole : ∀ payload ∈ payloads ++ [last], payload.length ≤ blocksize)
    (room : (payloads.flatten ++ last).length < 70000000) :
    (∃ final, receiveMain blocksize inputBuffers fileBuffer (packets payloads last ++ later) = some (final, later) ∧
      received final = payloads.flatten ++ last) ∧
    ∀ i ≤ payloads.length, slot (receiveAll blocksize inputBuffers fileBuffer ((packets payloads last).take i)) < 8 := by
  have small : ∀ payload ∈ payloads ++ [last], payload.length < 2 ^ 15 :=
    fun payload member => Nat.lt_of_le_of_lt (sizes payload member) (by decide)
  constructor
  · exact ⟨_, receiveMain_packets whole small inputBuffers fileBuffer later,
      receiveAll_packets whole small inputBuffers fileBuffer room⟩
  · exact fun _ _ => receiveAll_slot _

theorem receive_loop_reassembles_two : ∃ final,
    receiveMain 2 0 0 [packet false [], packet true [7, 8], packet false [9]] = some (final, [packet false [9]]) ∧
      received final = [7, 8] := by
  obtain ⟨reassembled, _⟩ := receive_loop_reassembles 2 0 0 [packet false [9]]
    (show ∀ payload ∈ ([[]] ++ [[7, 8]] : List (List UInt8)), payload.length ≤ 16384 by decide) (by decide)
    (by decide)
  exact reassembled

end DedupProof
