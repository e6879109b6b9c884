import DedupPipeline.Client.Transfer
import DedupPipeline.Library.Network
import Mathlib.Data.List.Flatten

namespace DedupModel

/-- One `get_packet` of the receive loop and what follows it; `none` is the state before the first packet. -/
def receiveDatagram (blocksize : Nat) (inputBuffers : Nat → Memory.Store UInt8) (fileBuffer : Memory.Store UInt8) :
    Option ReceiveState → List UInt8 → Option ReceiveState
  | none, datagram => some (receiveFirst blocksize (receiveStart inputBuffers fileBuffer) datagram)
  | some state, datagram => some (receiveStep blocksize state datagram)

def loopEnded : Option ReceiveState → Bool
  | none => false
  | some state => state.done

def storedSize : Option ReceiveState → Nat
  | none => 0
  | some state => state.offset

def udpRun (blocksize : Nat) (inputBuffers : Nat → Memory.Store UInt8) (fileBuffer : Memory.Store UInt8)
    (sent : List (List UInt8)) (actions : List Network.Action) :
    Option (Network.State (List UInt8) (Option ReceiveState)) :=
  Network.run (receiveDatagram blocksize inputBuffers fileBuffer) loopEnded (Network.start sent none) actions

end DedupModel

namespace DedupProof

open DedupModel Memory BoundedBuffer

def storedFile : Option ReceiveState → List UInt8
  | none => []
  | some state => received state

theorem length_storedFile (receiver : Option ReceiveState) : (storedFile receiver).length = storedSize receiver := by
  cases receiver with
  | none => rfl
  | some state => exact length_received state

def payloadOf (datagram : List UInt8) : List UInt8 := datagram.drop headerSize

theorem map_payloadOf_packets (payloads : List (List UInt8)) (last : List UInt8) :
    (packets payloads last).map payloadOf = payloads ++ [last] := by
  rw [packets, List.map_append, List.map_map, List.map_singleton]
  congr 1
  exact List.map_id payloads

section Receiver

variable {blocksize : Nat} {inputBuffers : Nat → Store UInt8} {fileBuffer : Store UInt8}

theorem foldl_receiveDatagram (datagrams : List (List UInt8)) :
    storedFile (datagrams.foldl (receiveDatagram blocksize inputBuffers fileBuffer) none) =
        received (receiveAll blocksize inputBuffers fileBuffer datagrams) ∧
      loopEnded (datagrams.foldl (receiveDatagram blocksize inputBuffers fileBuffer) none) =
        (receiveAll blocksize inputBuffers fileBuffer datagrams).done := by
  have later (state : ReceiveState) (datagrams : List (List UInt8)) :
      datagrams.foldl (receiveDatagram blocksize inputBuffers fileBuffer) (some state) =
        some (datagrams.foldl (receiveStep blocksize) state) := by
    induction datagrams generalizing state with
    | nil => rfl
    | cons datagram datagrams ih => exact ih _
  cases datagrams with
  | nil => exact ⟨rfl, rfl⟩
  | cons datagram datagrams =>
    rw [List.foldl_cons, receiveDatagram, later]
    exact ⟨rfl, rfl⟩

variable {payloads : List (List UInt8)} {last : List UInt8}
  (whole : ∀ payload ∈ payloads ++ [last], payload.length ≤ blocksize)
  (small : ∀ payload ∈ payloads ++ [last], payload.length < 2 ^ 15)

include whole small

theorem isPacket_of_mem {datagram : List UInt8} (member : datagram ∈ packets payloads last) :
    IsPacket blocksize datagram (payloadOf datagram) := by
  rcases List.mem_append.mp member with earlier | final
  · obtain ⟨payload, inside, rfl⟩ := List.mem_map.mp earlier
    exact ⟨⟨false, rfl⟩, whole payload (List.mem_append_left _ inside), small payload (List.mem_append_left _ inside)⟩
  · obtain rfl := List.mem_singleton.mp final
    exact ⟨⟨true, rfl⟩, whole last (List.mem_append_right _ List.mem_cons_self),
      small last (List.mem_append_right _ List.mem_cons_self)⟩

theorem storedFile_gather {datagrams : List (List UInt8)}
    (known : ∀ datagram ∈ datagrams, datagram ∈ packets payloads last) :
    storedFile (datagrams.foldl (receiveDatagram blocksize inputBuffers fileBuffer) none) =
      gather fileBufferSize [] (datagrams.map payloadOf) := by
  have framed : List.Forall₂ (IsPacket blocksize) datagrams (datagrams.map payloadOf) := by
    rw [List.forall₂_map_right_iff]
    exact List.forall₂_same.mpr fun datagram member => isPacket_of_mem whole small (known datagram member)
  rw [(foldl_receiveDatagram datagrams).1, receiveAll_eq, foldl_received framed]
  rfl

theorem loopEnded_concat {datagram : List UInt8} (datagrams : List (List UInt8))
    (known : datagram ∈ packets payloads last) :
    loopEnded ((datagrams ++ [datagram]).foldl (receiveDatagram blocksize inputBuffers fileBuffer) none) = true ↔
      datagram = packet true last := by
  obtain ⟨⟨done, framed⟩, fits, limit⟩ := isPacket_of_mem whole small known
  rw [(foldl_receiveDatagram _).2, receiveAll_eq, List.foldl_append, List.foldl_cons, List.foldl_nil]
  generalize datagrams.foldl (receiveStep blocksize) (receiveStart inputBuffers fileBuffer) = state
  have isDone : (receiveStep blocksize state datagram).done = done := by
    rw [framed]
    exact (receiveStep_packet state done fits limit).1
  rw [isDone]
  constructor
  · rintro rfl
    rcases List.mem_append.mp known with earlier | final
    · obtain ⟨payload, inside, same⟩ := List.mem_map.mp earlier
      have running : (receiveStep blocksize state (packet false payload)).done = false :=
        (receiveStep_packet state false (whole payload (List.mem_append_left _ inside))
          (small payload (List.mem_append_left _ inside))).1
      rw [same, isDone] at running
      cases running
    · exact List.mem_singleton.mp final
  · intro same
    have closing : (receiveStep blocksize state (packet true last)).done = true :=
      (receiveStep_packet state true (whole last (List.mem_append_right _ List.mem_cons_self))
        (small last (List.mem_append_right _ List.mem_cons_self))).1
    rwa [← same, isDone] at closing

variable {state : Network.State (List UInt8) (Option ReceiveState)}
  (delivers : Network.Delivers (receiveDatagram blocksize inputBuffers fileBuffer) loopEnded (packets payloads last)
    none state)

include delivers

omit whole small in
theorem delivered_known : ∀ datagram ∈ state.delivered, datagram ∈ packets payloads last :=
  fun _ member => delivers.known _ (List.mem_append_left _ (List.mem_append_left _ member))

theorem nothing_behind_last {earlier later : List (List UInt8)}
    (split : state.delivered = earlier ++ packet true last :: later) : later = [] := by
  cases later with
  | nil => rfl
  | cons datagram later =>
    have opened := delivers.opened (earlier.length + 1) (by rw [split]; simp)
    have taken : state.delivered.take (earlier.length + 1) = earlier ++ [packet true last] := by
      rw [split, List.append_cons, List.take_left' (by simp)]
    have ended : loopEnded ((earlier ++ [packet true last]).foldl
        (receiveDatagram blocksize inputBuffers fileBuffer) none) = true :=
      (loopEnded_concat whole small earlier (List.mem_append_right _ List.mem_cons_self)).mpr rfl
    rw [taken, ended] at opened
    cases opened

theorem loopEnded_delivered : loopEnded state.receiver = true ↔ packet true last ∈ state.delivered := by
  constructor
  · intro ended
    rcases List.eq_nil_or_concat' state.delivered with none | ⟨earlier, datagram, split⟩
    · rw [delivers.applied, none] at ended
      cases ended
    · have known : datagram ∈ packets payloads last := delivered_known delivers datagram (by simp [split])
      rw [delivers.applied, split] at ended
      rw [split, (loopEnded_concat whole small earlier known).mp ended]
      exact List.mem_append_right _ List.mem_cons_self
  · intro member
    obtain ⟨earlier, later, split⟩ := List.append_of_mem member
    rw [nothing_behind_last whole small delivers split] at split
    rw [delivers.applied, split]
    exact (loopEnded_concat whole small earlier (List.mem_append_right _ List.mem_cons_self)).mpr rfl

theorem delivered_once (ended : loopEnded state.receiver = true) :
    ∃ earlier, state.delivered = earlier ++ [packet true last] ∧ packet true last ∉ earlier := by
  obtain ⟨earlier, later, split⟩ := List.append_of_mem ((loopEnded_delivered whole small delivers).mp ended)
  obtain rfl := nothing_behind_last whole small delivers split
  refine ⟨earlier, split, fun twice => ?_⟩
  obtain ⟨first, second, again⟩ := List.append_of_mem twice
  rw [again, List.append_assoc, List.cons_append] at split
  exact List.append_ne_nil_of_right_ne_nil second (List.cons_ne_nil _ _)
    (nothing_behind_last whole small delivers split)

end Receiver

def fileBlock (file : List UInt8) (blocksize i : Nat) : List UInt8 := (file.drop (i * blocksize)).take blocksize

def earlierFileBlocks (file : List UInt8) (blocksize : Nat) : List (List UInt8) :=
  (List.range (earlierBlocks file.length blocksize)).map (fileBlock file blocksize)

def lastFileBlock (file : List UInt8) (blocksize : Nat) : List UInt8 :=
  fileBlock file blocksize (earlierBlocks file.length blocksize)

section Blocks

variable {file : List UInt8} {blocksize : Nat} (positive : 1 ≤ blocksize) (whole : blocksize ≤ file.length)

include positive whole

theorem payloadAt_earlierBlocks (heap : Store UInt8) :
    (blockRanges blocksize (earlierBlocks file.length blocksize)).map (payloadAt (write heap 0 file)) =
      earlierFileBlocks file blocksize := by
  obtain ⟨starts, ends⟩ := lastRange_whole positive whole
  rw [blockRanges, List.map_map, earlierFileBlocks]
  apply List.map_congr_left
  intro i member
  have upper : (i + 1) * blocksize ≤ earlierBlocks file.length blocksize * blocksize :=
    Nat.mul_le_mul_right blocksize (List.mem_range.mp member)
  rw [Nat.succ_mul] at upper
  have content : read (write heap 0 file) (0 + i * blocksize) blocksize = fileBlock file blocksize i :=
    read_write_inside heap 0 (by omega)
  rwa [Nat.zero_add] at content

theorem payloadAt_lastBlock (heap : Store UInt8) :
    payloadAt (write heap 0 file) (lastRange file.length blocksize) = lastFileBlock file blocksize := by
  obtain ⟨starts, ends⟩ := lastRange_whole positive whole
  have size : (lastRange file.length blocksize).2 ≤ blocksize :=
    range_sizes positive _ (List.mem_append_right _ List.mem_cons_self)
  have content : read (write heap 0 file) (0 + (lastRange file.length blocksize).1)
      (lastRange file.length blocksize).2 = _ := read_write_inside heap 0 (Nat.le_of_eq ends)
  rw [Nat.zero_add] at content
  rw [payloadAt, content, lastFileBlock, fileBlock, ← starts,
    List.take_of_length_le (by rw [List.length_drop]; omega),
    List.take_of_length_le (by rw [List.length_drop]; omega)]

theorem clientMain_packets (heap localBuf : Store UInt8) :
    (clientMain heap localBuf file blocksize).sent =
      packets (earlierFileBlocks file blocksize) (lastFileBlock file blocksize) := by
  rw [(clientMain_finished heap localBuf file blocksize).2, payloadAt_lastBlock positive whole,
    payloadAt_earlierBlocks positive whole, packets]

theorem fileBlocks_flatten : (earlierFileBlocks file blocksize).flatten ++ lastFileBlock file blocksize = file := by
  have content := payloadBytes_whole (write 0 0 file) positive whole
  rwa [payloadBytes, payloadAt_lastBlock positive whole, payloadAt_earlierBlocks positive whole,
    read_write] at content

theorem fileBlock_length {i : Nat} (inside : i ≤ earlierBlocks file.length blocksize) :
    0 < (fileBlock file blocksize i).length ∧ (fileBlock file blocksize i).length ≤ blocksize := by
  obtain ⟨starts, ends⟩ := lastRange_whole positive whole
  have rest : 0 < (lastRange file.length blocksize).2 := by
    unfold lastRange
    split <;> dsimp only <;> omega
  have upper : i * blocksize ≤ earlierBlocks file.length blocksize * blocksize :=
    Nat.mul_le_mul_right blocksize inside
  rw [fileBlock, List.length_take, List.length_drop]
  omega

theorem fileBlocks_length :
    ∀ payload ∈ earlierFileBlocks file blocksize ++ [lastFileBlock file blocksize],
      0 < payload.length ∧ payload.length ≤ blocksize := by
  intro payload member
  rcases List.mem_append.mp member with earlier | last
  · obtain ⟨i, inside, rfl⟩ := List.mem_map.mp earlier
    exact fileBlock_length positive whole (Nat.le_of_lt (List.mem_range.mp inside))
  · rw [List.mem_singleton.mp last]
    exact fileBlock_length positive whole (Nat.le_refl _)

end Blocks

def lastPacket (file : List UInt8) (blocksize : Nat) : List UInt8 := packet true (lastFileBlock file blocksize)

section Transfer

variable (heap localBuf : Store UInt8) (inputBuffers : Nat → Store UInt8) (fileBuffer : Store UInt8)
  {file : List UInt8} {blocksize serverBlocksize : Nat} {actions : List Network.Action}
  {state : Network.State (List UInt8) (Option ReceiveState)}

section Any

variable (positive : 1 ≤ blocksize) (bounded : blocksize ≤ 16384) (fits : blocksize ≤ serverBlocksize)
  (whole : blocksize ≤ file.length)
  (ran : udpRun serverBlocksize inputBuffers fileBuffer (clientMain heap localBuf file blocksize).sent actions =
    some state)

include positive bounded fits whole ran

theorem udp_delivered :
    (loopEnded state.receiver = true ↔ lastPacket file blocksize ∈ state.delivered) ∧
    (loopEnded state.receiver = true →
      ∃ earlier, state.delivered = earlier ++ [lastPacket file blocksize] ∧ lastPacket file blocksize ∉ earlier) ∧
    storedFile state.receiver = gather fileBufferSize [] (state.delivered.map payloadOf) := by
  have lengths := fileBlocks_length positive whole
  have sizes := fun payload member => (lengths payload member).2.trans fits
  have small := fun payload member =>
    Nat.lt_of_le_of_lt ((lengths payload member).2.trans bounded) (show 16384 < 2 ^ 15 by decide)
  rw [clientMain_packets positive whole] at ran
  have delivers := Network.run_delivers ran
  refine ⟨loopEnded_delivered sizes small delivers, delivered_once sizes small delivers, ?_⟩
  rw [delivers.applied]
  exact storedFile_gather sizes small (delivered_known delivers)

end Any

section Lossy

variable (positive : 1 ≤ blocksize) (bounded : blocksize ≤ 16384) (fits : blocksize ≤ serverBlocksize)
  (whole : blocksize ≤ file.length) (short : file.length < 70000000) (inOrder : ∀ action ∈ actions, action.InOrder)
  (ran : udpRun serverBlocksize inputBuffers fileBuffer (clientMain heap localBuf file blocksize).sent actions =
    some state)

include ran in
theorem lossy_sublist (inOrder : ∀ action ∈ actions, action.InOrder) :
    state.delivered.Sublist (clientMain heap localBuf file blocksize).sent :=
  (List.sublist_append_left _ _).trans ((List.sublist_append_left _ _).trans (Network.run_sublist inOrder ran))

theorem sent_content (positive : 1 ≤ blocksize) (whole : blocksize ≤ file.length) :
    ((clientMain heap localBuf file blocksize).sent.map payloadOf).flatten = file ∧
      ∀ datagram ∈ (clientMain heap localBuf file blocksize).sent, 0 < (payloadOf datagram).length := by
  have payloads := map_payloadOf_packets (earlierFileBlocks file blocksize) (lastFileBlock file blocksize)
  rw [clientMain_packets positive whole]
  constructor
  · rw [payloads, List.flatten_append, List.flatten_singleton, fileBlocks_flatten positive whole]
  · intro datagram member
    have payload : payloadOf datagram ∈ (packets (earlierFileBlocks file blocksize)
        (lastFileBlock file blocksize)).map payloadOf := List.mem_map_of_mem member
    rw [payloads] at payload
    exact (fileBlocks_length positive whole _ payload).1

include positive bounded fits whole short inOrder ran

theorem lossy_stored : storedFile state.receiver = (state.delivered.map payloadOf).flatten ∧
    storedSize state.receiver ≤ file.length := by
  have kept := lossy_sublist heap localBuf inputBuffers fileBuffer ran inOrder
  have part := ((kept.map payloadOf).flatten).length_le
  rw [(sent_content heap localBuf positive whole).1] at part
  have stored := (udp_delivered heap localBuf inputBuffers fileBuffer positive bounded fits whole ran).2.2
  rw [gather_fits (by rw [fileBufferSize, List.length_nil]; omega), List.nil_append] at stored
  rw [← length_storedFile, stored]
  exact ⟨rfl, part⟩

theorem lossy_complete (same : storedSize state.receiver = file.length) :
    state.delivered = (clientMain heap localBuf file blocksize).sent := by
  obtain ⟨content, nonempty⟩ := sent_content heap localBuf positive whole
  have stored := (lossy_stored heap localBuf inputBuffers fileBuffer positive bounded fits whole short inOrder ran).1
  apply Network.sublist_eq_of_size (lossy_sublist heap localBuf inputBuffers fileBuffer ran inOrder) nonempty
  have total := congrArg List.length content
  rw [← length_storedFile, stored, List.length_flatten, List.map_map] at same
  rw [List.length_flatten, List.map_map] at total
  exact Nat.le_of_eq (total.trans same.symm)

theorem lossy_file (same : storedSize state.receiver = file.length) :
    loopEnded state.receiver = true ∧ storedFile state.receiver = file := by
  have all := lossy_complete heap localBuf inputBuffers fileBuffer positive bounded fits whole short inOrder ran same
  have stored := (lossy_stored heap localBuf inputBuffers fileBuffer positive bounded fits whole short inOrder ran).1
  rw [all, (sent_content heap localBuf positive whole).1] at stored
  refine ⟨?_, stored⟩
  have ended := (udp_delivered heap localBuf inputBuffers fileBuffer positive bounded fits whole ran).1
  rw [ended, all, clientMain_packets positive whole]
  exact List.mem_append_right _ List.mem_cons_self

/-- With UDP only losing datagrams, the size of what the server has stored shows whether the file is complete. -/
theorem lossy_transfer_complete_iff :
    state.delivered.Sublist (clientMain heap localBuf file blocksize).sent ∧
    storedFile state.receiver = (state.delivered.map payloadOf).flatten ∧
    storedSize state.receiver ≤ file.length ∧
    (storedSize state.receiver = file.length ↔ state.delivered = (clientMain heap localBuf file blocksize).sent) ∧
    (storedSize state.receiver = file.length →
      loopEnded state.receiver = true ∧ storedFile state.receiver = file) := by
  obtain ⟨stored, part⟩ :=
    lossy_stored heap localBuf inputBuffers fileBuffer positive bounded fits whole short inOrder ran
  refine ⟨lossy_sublist heap localBuf inputBuffers fileBuffer ran inOrder, stored, part, ⟨?_, ?_⟩, ?_⟩
  · exact lossy_complete heap localBuf inputBuffers fileBuffer positive bounded fits whole short inOrder ran
  · intro all
    rw [← length_storedFile, stored, all, (sent_content heap localBuf positive whole).1]
  · exact lossy_file heap localBuf inputBuffers fileBuffer positive bounded fits whole short inOrder ran

end Lossy

theorem lossy_transfer_complete_iff_three : ∃ state,
    udpRun 4 0 0 (clientMain 0 0 [7, 8, 9] 2).sent [.send, .send, .deliver 0, .deliver 0] = some state ∧
      loopEnded state.receiver = true ∧ storedFile state.receiver = [7, 8, 9] := by
  obtain ⟨state, ran⟩ : ∃ state, udpRun 4 0 0 (clientMain 0 0 [7, 8, 9] 2).sent
      [.send, .send, .deliver 0, .deliver 0] = some state := ⟨_, rfl⟩
  have size : (udpRun 4 0 0 (clientMain 0 0 [7, 8, 9] 2).sent [.send, .send, .deliver 0, .deliver 0]).map
      (fun state => storedSize state.receiver) = some 3 := by decide
  rw [ran, Option.map_some, Option.some.injEq] at size
  obtain ⟨_, _, _, _, complete⟩ := lossy_transfer_complete_iff 0 0 0 0 (by decide) (by decide) (by decide) (by decide)
    (by decide) (by simp [Network.Action.InOrder]) ran
  exact ⟨state, ran, complete size⟩

end Transfer

end DedupProof
