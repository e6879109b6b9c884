import DedupPipeline.Library.BitString
import DedupPipeline.Library.Loop
import DedupPipeline.Server.Receive

namespace DedupProof

open DedupModel Memory BitString

def packet (done : Bool) (payload : List UInt8) : List UInt8 :=
  UInt8.ofNat (payload.length &&& 0xFF) ::
    (UInt8.ofNat (payload.length >>> 8) ||| if done then clientDoneBit else 0) :: payload

theorem low_length (length : Nat) : (UInt8.ofNat (length &&& 0xFF)).toNat = length % 2 ^ 8 := by
  rw [UInt8.toNat_ofNat', show (0xFF : Nat) = 2 ^ 8 - 1 from rfl, Nat.and_two_pow_sub_one_eq_mod, Nat.mod_mod]

theorem high_length {length : Nat} (fits : length < 2 ^ 15) (done : Bool) :
    (UInt8.ofNat (length >>> 8) ||| if done then clientDoneBit else 0).toNat =
      length >>> 8 ||| if done then 2 ^ 7 else 0 := by
  have high : length >>> 8 < 2 ^ 8 := by
    rw [Nat.shiftRight_eq_div_pow]
    omega
  rw [UInt8.toNat_or, UInt8.toNat_ofNat', Nat.mod_eq_of_lt high]
  cases done with
  | false => rfl
  | true => rfl

theorem and_length_mask {number : Nat} (small : number < 2 ^ 16) : number &&& 0xFFFF7FFF = number % 2 ^ 15 := by
  apply Nat.eq_of_testBit_eq
  intro i
  rw [Nat.testBit_and, Nat.testBit_mod_two_pow]
  have mask : ∀ i < 16, Nat.testBit 0xFFFF7FFF i = decide (i < 15) := by decide
  rcases Nat.lt_or_ge i 16 with inside | above
  · rw [mask i inside, Bool.and_comm]
  · rw [Nat.testBit_lt_two_pow (Nat.lt_of_lt_of_le small (Nat.pow_le_pow_right (by decide) above)), Bool.false_and,
      Bool.and_false]

theorem decodeLength_bytes (buffer : Store UInt8) :
    decodeLength buffer = ((buffer 1).toNat * 2 ^ 8 + (buffer 0).toNat) % 2 ^ 15 := by
  have low := (buffer 0).toNat_lt
  have high := (buffer 1).toNat_lt
  have shifted : ((buffer 1).toUInt32 <<< 8).toNat = (buffer 1).toNat <<< 8 := by
    rw [UInt32.toNat_shiftLeft, UInt8.toNat_toUInt32]
    apply Nat.mod_eq_of_lt
    rw [show (8 : UInt32).toNat % 32 = 8 from rfl, Nat.shiftLeft_eq]
    omega
  have mask : (~~~doneBitH).toNat = 0xFFFF7FFF := rfl
  rw [decodeLength, UInt32.toNat_and, UInt32.toNat_or, UInt8.toNat_toUInt32, shifted, mask,
    or_shiftLeft _ low, and_length_mask (by omega)]

theorem decodeDone_testBit (buffer : Store UInt8) : decodeDone buffer = (buffer 1).toNat.testBit 7 := by
  have masked : (buffer 1 &&& doneBitL).toNat = ((buffer 1).toNat.testBit 7).toNat * 2 ^ 7 := by
    rw [UInt8.toNat_and]
    exact Nat.and_two_pow (buffer 1).toNat 7
  rw [decodeDone]
  cases bit : (buffer 1).toNat.testBit 7 with
  | false =>
    have zero : buffer 1 &&& doneBitL = 0 := by
      apply UInt8.toNat_inj.mp
      rw [masked, bit]
      rfl
    simp [zero]
  | true =>
    have nonzero : buffer 1 &&& doneBitL ≠ 0 := by
      intro zero
      rw [zero, bit] at masked
      exact absurd masked (by decide)
    simp [nonzero]

section Held

variable {buffer : Store UInt8} {done : Bool} {payload : List UInt8}

theorem packet_bytes (held : read buffer 0 (payload.length + 2) = packet done payload) :
    buffer 0 = UInt8.ofNat (payload.length &&& 0xFF) ∧
      buffer 1 = (UInt8.ofNat (payload.length >>> 8) ||| if done then clientDoneBit else 0) ∧
      read buffer headerSize payload.length = payload := by
  rw [Nat.add_comm payload.length 2, read_add, show read buffer 0 2 = [buffer 0, buffer 1] from rfl] at held
  simpa only [packet, List.cons_append, List.nil_append, List.cons.injEq, Nat.zero_add, headerSize] using held

theorem decodeDone_packet (held : read buffer 0 (payload.length + 2) = packet done payload)
    (fits : payload.length < 2 ^ 15) : decodeDone buffer = done := by
  have small : payload.length >>> 8 < 2 ^ 7 := by
    rw [Nat.shiftRight_eq_div_pow]
    omega
  rw [decodeDone_testBit, (packet_bytes held).2.1, high_length fits, Nat.testBit_or, Nat.testBit_lt_two_pow small]
  cases done with
  | false => rfl
  | true => rfl

theorem decodeLength_packet (held : read buffer 0 (payload.length + 2) = packet done payload)
    (fits : payload.length < 2 ^ 15) : decodeLength buffer = payload.length := by
  obtain ⟨low, high, -⟩ := packet_bytes held
  have masked : (payload.length >>> 8 ||| if done then 2 ^ 7 else 0) % 2 ^ 7 = payload.length >>> 8 % 2 ^ 7 := by
    rw [Nat.or_mod_two_pow]
    cases done with
    | false => rw [if_neg Bool.false_ne_true, Nat.zero_mod, Nat.or_zero]
    | true => rw [if_pos rfl, Nat.mod_self, Nat.or_zero]
  rw [decodeLength_bytes, low, high, low_length, high_length fits]
  rw [Nat.shiftRight_eq_div_pow] at masked ⊢
  omega

end Held

theorem read_getPacket (blocksize : Nat) (slot : Store UInt8) (done : Bool) {payload : List UInt8}
    (fits : payload.length ≤ blocksize) :
    read (getPacket blocksize slot (packet done payload)) 0 (payload.length + 2) = packet done payload := by
  have whole : (packet done payload).take (blocksize + headerSize) = packet done payload :=
    List.take_of_length_le (Nat.add_le_add_right fits 2)
  rw [getPacket, whole]
  exact read_write slot 0 (packet done payload)

theorem read_headed (localBuf : Store UInt8) (low high : UInt8) (block : List UInt8) :
    read (write (write (write localBuf 2 block) 0 [low]) 1 [high]) 0 (block.length + 2) = low :: high :: block := by
  have parts : block.length + 2 = 1 + (1 + block.length) := by omega
  have first : read (write (write (write localBuf 2 block) 0 [low]) 1 [high]) 0 1 = [low] := by
    rw [read_write_before _ [high] (Nat.le_refl 1)]
    exact read_write (write localBuf 2 block) 0 [low]
  have second : read (write (write (write localBuf 2 block) 0 [low]) 1 [high]) 1 1 = [high] :=
    read_write (write (write localBuf 2 block) 0 [low]) 1 [high]
  have rest : read (write (write (write localBuf 2 block) 0 [low]) 1 [high]) 2 block.length = block := by
    rw [read_write_behind _ [high] (Nat.le_refl 2), read_write_behind _ [low] (Nat.le_succ 1), read_write]
  rw [parts, read_add, first, read_add, second, rest]
  rfl

theorem sendBlock_sent (buff : Store UInt8) (state : ClientState) (start size : Nat) (done : Bool) :
    (sendBlock buff state start size (if done then clientDoneBit else 0)).sent =
      state.sent ++ [packet done (read buff start size)] := by
  have sent := read_headed state.localBuf (UInt8.ofNat (size &&& 0xFF))
    (UInt8.ofNat (size >>> 8) ||| if done then clientDoneBit else 0) (read buff start size)
  rw [length_read] at sent
  rw [packet, length_read]
  exact congrArg (fun datagram => state.sent ++ [datagram]) sent

end DedupProof
