import DedupPipeline.Server.Reassembly

namespace DedupProof

open DedupModel Memory

/-- The length field of a datagram; a byte of it that has not come is the one left in the slot. -/
def claimedLength (slot : Store UInt8) (datagram : List UInt8) : Nat :=
  ((datagram.getD 1 (slot 1)).toNat * 2 ^ 8 + (datagram.getD 0 (slot 0)).toNat) % 2 ^ 15

/-- Nothing is claimed, or no more than has come, or so much that the packet is skipped. -/
def HonestLength (state : ReceiveState) (datagram : List UInt8) : Prop :=
  claimedLength (state.inputBuffers (slot state)) datagram = 0 ∨
    2 + claimedLength (state.inputBuffers (slot state)) datagram ≤ datagram.length ∨
    70000000 ≤ state.offset + claimedLength (state.inputBuffers (slot state)) datagram

/-- A step appends payload bytes of its own datagram, and copies from nowhere behind the datagram or the slot. -/
structure CopiesReceived (state next : ReceiveState) (datagram : List UInt8) : Prop where
  content : received next = received state ++ (datagram.drop 2).take (next.offset - state.offset)
  delivered : next.offset - state.offset = 0 ∨ 2 + (next.offset - state.offset) ≤ datagram.length
  inside : 2 + (next.offset - state.offset) ≤ 16384 + 2

section Step

variable {blocksize : Nat} {state : ReceiveState} {datagram : List UInt8} (fits : datagram.length ≤ blocksize + 2)

include fits

theorem slotBuffer_eq : slotBuffer blocksize state datagram = write (state.inputBuffers (slot state)) 0 datagram := by
  have whole : datagram.take (blocksize + headerSize) = datagram := List.take_of_length_le fits
  rw [slotBuffer, getPacket, whole]

theorem slotBuffer_length : decodeLength (slotBuffer blocksize state datagram) =
    claimedLength (state.inputBuffers (slot state)) datagram := by
  rw [decodeLength_bytes, slotBuffer_eq fits]
  rfl

theorem slotBuffer_payload {count : Nat} (delivered : 2 + count ≤ datagram.length) :
    read (slotBuffer blocksize state datagram) headerSize count = (datagram.drop 2).take count := by
  have payload := read_write_inside (state.inputBuffers (slot state)) 0 delivered
  rw [Nat.zero_add] at payload
  rw [slotBuffer_eq fits]
  exact payload

theorem receiveStep_copies_iff (bounded : blocksize ≤ 16384) :
    CopiesReceived state (receiveStep blocksize state datagram) datagram ↔ HonestLength state datagram := by
  have length : decodeLength (slotBuffer blocksize state datagram) = _ := slotBuffer_length fits
  by_cases full : fileBufferSize ≤ state.offset + decodeLength (slotBuffer blocksize state datagram)
  · obtain ⟨offset, kept⟩ := receiveStep_skipped full
    have count : (receiveStep blocksize state datagram).offset - state.offset = 0 := by
      rw [offset, Nat.sub_self]
    rw [length] at full
    constructor
    · exact fun _ => Or.inr (Or.inr full)
    · intro _
      refine ⟨?_, Or.inl count, ?_⟩
      · rw [kept, count, List.take_zero, List.append_nil]
      · rw [count]
        omega
  · obtain ⟨offset, appended⟩ := receiveStep_copied (Nat.not_le.mp full)
    have count : (receiveStep blocksize state datagram).offset - state.offset =
        claimedLength (state.inputBuffers (slot state)) datagram := by
      rw [offset, length, Nat.add_sub_cancel_left]
    rw [length] at full appended
    constructor
    · intro copies
      have delivered := copies.delivered
      rw [count] at delivered
      rcases delivered with none | whole
      · exact Or.inl none
      · exact Or.inr (Or.inl whole)
    · rintro (none | whole | skipped)
      · refine ⟨?_, ?_, ?_⟩
        · rw [appended, count, none]
          rfl
        · rw [count]
          exact Or.inl none
        · rw [count, none]
          omega
      · refine ⟨?_, ?_, ?_⟩
        · rw [appended, count, slotBuffer_payload fits whole]
        · rw [count]
          exact Or.inr whole
        · rw [count]
          omega
      · exact absurd skipped full

end Step

section Run

variable (blocksize : Nat) (inputBuffers : Nat → Store UInt8) (fileBuffer : Store UInt8)
  (datagrams : List (List UInt8))

def receiveAt (i : Nat) : ReceiveState := receiveAll blocksize inputBuffers fileBuffer (datagrams.take i)

def payloadTaken (i : Nat) : List UInt8 :=
  ((datagrams.getD i []).drop 2).take ((receiveAt blocksize inputBuffers fileBuffer datagrams (i + 1)).offset -
    (receiveAt blocksize inputBuffers fileBuffer datagrams i).offset)

def StepCopiesReceived (i : Nat) : Prop :=
  CopiesReceived (receiveAt blocksize inputBuffers fileBuffer datagrams i)
    (receiveAt blocksize inputBuffers fileBuffer datagrams (i + 1)) (datagrams.getD i [])

variable {blocksize inputBuffers fileBuffer datagrams}

theorem received_payloads
    (copies : ∀ i < datagrams.length, StepCopiesReceived blocksize inputBuffers fileBuffer datagrams i) {i : Nat}
    (inside : i ≤ datagrams.length) :
    received (receiveAt blocksize inputBuffers fileBuffer datagrams i) =
      ((List.range i).map (payloadTaken blocksize inputBuffers fileBuffer datagrams)).flatten := by
  induction i with
  | zero => rfl
  | succ i ih =>
    rw [(copies i inside).content, ih (Nat.le_of_succ_le inside), List.range_succ, List.map_append,
      List.flatten_append, List.map_singleton, List.flatten_singleton, payloadTaken]

theorem stepCopiesReceived_iff (bounded : blocksize ≤ 16384)
    (sizes : ∀ datagram ∈ datagrams, datagram.length ≤ blocksize + 2) {i : Nat} (inside : i < datagrams.length) :
    StepCopiesReceived blocksize inputBuffers fileBuffer datagrams i ↔
      HonestLength (receiveAt blocksize inputBuffers fileBuffer datagrams i) (datagrams.getD i []) := by
  have next : receiveAt blocksize inputBuffers fileBuffer datagrams (i + 1) =
      receiveStep blocksize (receiveAt blocksize inputBuffers fileBuffer datagrams i) datagrams[i] :=
    receiveAll_succ inside
  rw [StepCopiesReceived, next, List.getD_eq_getElem _ _ inside]
  exact receiveStep_copies_iff (sizes _ (List.getElem_mem inside)) bounded

end Run

/-- The steps of a run that take bytes of their own datagram only are those with an honest length; a run of such
    steps gathers payload bytes and nothing else. -/
theorem only_received_bytes_iff {blocksize : Nat} (bounded : blocksize ≤ 16384)
    (inputBuffers : Nat → Store UInt8) (fileBuffer : Store UInt8) {datagrams : List (List UInt8)}
    (sizes : ∀ datagram ∈ datagrams, datagram.length ≤ blocksize + 2) :
    (∀ i < datagrams.length, StepCopiesReceived blocksize inputBuffers fileBuffer datagrams i ↔
      HonestLength (receiveAt blocksize inputBuffers fileBuffer datagrams i) (datagrams.getD i [])) ∧
    ((∀ i < datagrams.length,
        HonestLength (receiveAt blocksize inputBuffers fileBuffer datagrams i) (datagrams.getD i [])) →
      ∀ i ≤ datagrams.length, received (receiveAt blocksize inputBuffers fileBuffer datagrams i) =
        ((List.range i).map (payloadTaken blocksize inputBuffers fileBuffer datagrams)).flatten) := by
  constructor
  · exact fun i inside => stepCopiesReceived_iff bounded sizes inside
  · intro honest i inside
    apply received_payloads _ inside
    exact fun j within => (stepCopiesReceived_iff bounded sizes within).mpr (honest j within)

theorem only_received_bytes_iff_two :
    StepCopiesReceived 16384 (fun _ _ => 5) 0 [[1, 0, 7], [2, 128, 8, 9]] 0 ∧
    StepCopiesReceived 16384 (fun _ _ => 5) 0 [[1, 0, 7], [2, 128, 8, 9]] 1 ∧
    received (receiveAt 16384 (fun _ _ => 5) 0 [[1, 0, 7], [2, 128, 8, 9]] 2) = [7, 8, 9] := by
  obtain ⟨steps, gathered⟩ := only_received_bytes_iff (Nat.le_refl 16384) (fun _ _ => 5) 0
    (show ∀ datagram ∈ ([[1, 0, 7], [2, 128, 8, 9]] : List (List UInt8)), datagram.length ≤ 16384 + 2 by decide)
  have first : HonestLength (receiveAt 16384 (fun _ _ => 5) 0 [[1, 0, 7], [2, 128, 8, 9]] 0) [1, 0, 7] :=
    Or.inr (Or.inl (by decide))
  have second : HonestLength (receiveAt 16384 (fun _ _ => 5) 0 [[1, 0, 7], [2, 128, 8, 9]] 1) [2, 128, 8, 9] :=
    Or.inr (Or.inl (by decide))
  refine ⟨(steps 0 (by decide)).mpr first, (steps 1 (by decide)).mpr second, ?_⟩
  rw [gathered (fun | 0, _ => first | 1, _ => second) 2 (by decide)]
  decide

/-- The second datagram has two bytes and claims five more. -/
theorem unreceived_bytes_enter :
    ¬∀ (blocksize : Nat) (inputBuffers : Nat → Store UInt8) (fileBuffer : Store UInt8)
      (datagrams : List (List UInt8)), blocksize ≤ 16384 → (∀ datagram ∈ datagrams, datagram.length ≤ blocksize + 2) →
      ∀ i < datagrams.length, StepCopiesReceived blocksize inputBuffers fileBuffer datagrams i := by
  intro always
  have copies := always 16384 0 0 [[1, 0, 7], [5, 128]] (Nat.le_refl _) (by decide) 1 (by decide)
  have taken : (receiveAt 16384 0 0 [[1, 0, 7], [5, 128]] 2).offset -
      (receiveAt 16384 0 0 [[1, 0, 7], [5, 128]] 1).offset = 5 := by decide
  have delivered := copies.delivered
  rw [taken] at delivered
  exact absurd delivered (by decide)

end DedupProof
