import DedupPipeline.Decoder.RoundTrip
import DedupPipeline.Server.EncoderRecords

namespace DedupProof

open DedupModel BackReference BitString

theorem header_value (value : UInt32) :
    ((value &&& 0xFF).toUInt8).toUInt32 ||| (((value >>> 8) &&& 0xFF).toUInt8.toUInt32 <<< 8) |||
      (((value >>> 16) &&& 0xFF).toUInt8.toUInt32 <<< 16) |||
      (((value >>> 24) &&& 0xFF).toUInt8.toUInt32 <<< 24) = value := by
  have bound := value.toNat_lt
  have byte (count : Nat) (high : Nat) (small : count ≤ 24) :
      (high % 256) <<< count % 2 ^ 32 = (high % 256) <<< count := by
    have fits : 256 * 2 ^ count ≤ 256 * 2 ^ 24 := Nat.mul_le_mul_left _ (Nat.pow_le_pow_right (by decide) small)
    have part := Nat.mul_lt_mul_of_pos_right (Nat.mod_lt high (show 256 > 0 by decide)) (Nat.two_pow_pos count)
    rw [Nat.shiftLeft_eq, Nat.mod_eq_of_lt (by omega)]
  apply UInt32.toNat_inj.1
  simp only [UInt32.toNat_or, UInt32.toNat_shiftLeft, UInt8.toNat_toUInt32, low_byte, UInt32.toNat_shiftRight,
    UInt32.reduceToNat, Nat.reduceMod, Nat.shiftRight_eq_div_pow]
  simp only [Nat.reducePow] at byte ⊢
  rw [byte 8 _ (by decide), byte 16 _ (by decide), byte 24 _ (by decide),
    or_shiftLeft (value.toNat / 256 % 256) (by omega), or_shiftLeft (value.toNat / 65536 % 256) (by omega),
    or_shiftLeft (value.toNat / 16777216 % 256) (by omega)]
  omega

theorem readHeader_append {input : InputStream} {value : UInt32} {tail : List UInt8}
    (stream : input.rest = appendUint32Le [] value ++ tail) :
    input.readHeader = (some value, ⟨tail, false, by simp⟩) := by
  rw [InputStream.readHeader, stream]
  show (some (_ ||| _), _) = _
  rw [header_value]
  rfl

theorem header_fields {number flag : Nat} (small : number < 2 ^ 31) (bit : flag < 2) :
    UInt32.ofNat (2 * number + flag) &&& 1 = UInt32.ofNat flag ∧
      (UInt32.ofNat (2 * number + flag) >>> 1).toNat = number := by
  have value : (UInt32.ofNat (2 * number + flag)).toNat = 2 * number + flag := by
    rw [UInt32.toNat_ofNat', Nat.mod_eq_of_lt (by omega)]
  constructor
  · apply UInt32.toNat_inj.1
    rw [UInt32.toNat_and, value, UInt32.toNat_ofNat', UInt32.toNat_one, Nat.and_one_is_mod]
    omega
  · rw [UInt32.toNat_shiftRight, value]
    show (2 * number + flag) >>> 1 = number
    rw [Nat.shiftRight_eq_div_pow]
    omega

theorem even_header {size : Nat} (small : size < 2 ^ 31) :
    UInt32.ofNat (2 * size) &&& 1 = 0 ∧ (UInt32.ofNat (2 * size) >>> 1).toNat = size :=
  header_fields small Nat.zero_lt_two

theorem odd_header {index : Nat} (small : index < 2 ^ 31) :
    UInt32.ofNat (2 * index + 1) &&& 1 = 1 ∧ (UInt32.ofNat (2 * index + 1) >>> 1).toNat = index :=
  header_fields small Nat.one_lt_two

def Encodable : Record (List UInt8) → Prop
  | .fresh chunk => chunk ≠ [] ∧ chunk.length ≤ maxChunkSize
  | .reference index => index < 2 ^ 31

theorem lzwBytes_bounds {chunk : List UInt8} (nonempty : chunk ≠ []) (upper : chunk.length ≤ maxChunkSize) :
    2 ≤ (lzwBytes chunk).length ∧ (lzwBytes chunk).length ≤ 8320 := by
  have codes := lzwCodes_length nonempty
  have bound : chunk.length ≤ 5120 := upper
  rw [lzwBytes_length]
  omega

structure RecordRead (state after : DecoderState) (header : UInt32) (store : List (List UInt8))
    (item tail : List UInt8) : Prop where
  step : decoderStep state = some (after, some header)
  rest : after.reader.input.rest = tail
  chunks : after.chunks = store
  output : after.output = state.output ++ item
  total : after.totalChunksInHeader = state.totalChunksInHeader + 1
  successful : after.successfulChunks = state.successfulChunks + 1
  failed : after.failedChunks = state.failedChunks
  size : header &&& 1 = 0 → 2 ≤ (header >>> 1).toNat ∧ (header >>> 1).toNat ≤ 8320
  location : header &&& 1 = 1 → (header >>> 1).toNat < state.chunks.length

def behindHeader (state : DecoderState) (tail : List UInt8) : DecoderState :=
  { state with reader := { state.reader with input := InputStream.opened tail } }

theorem decoderStep_header {state : DecoderState} {value : UInt32} {tail : List UInt8}
    (stream : state.reader.input.rest = appendUint32Le [] value ++ tail) :
    decoderStep state = (decodeRecord (behindHeader state tail) value).map fun state => (state, some value) := by
  rw [decoderStep, readHeader_append stream]
  rfl

theorem decodeRecord_even {state : DecoderState} {header : UInt32} (even : header &&& 1 = 0)
    (lower : 2 ≤ (header >>> 1).toNat) (upper : (header >>> 1).toNat ≤ 8320) :
    decodeRecord state header = (decompress (header >>> 1).toNat state.reader).bind fun decoded =>
      let state := { state with reader := decoded.2, totalChunksInHeader := state.totalChunksInHeader + 1 }
      if decoded.1.isEmpty then some state.fail
      else some { state.write decoded.1 with chunks := state.chunks ++ [decoded.1] } := by
  have valid : ¬(((header >>> 1).toNat : Int) ≤ 0 ∨ decoderMaxChunkSize < ((header >>> 1).toNat : Int)) := by
    unfold decoderMaxChunkSize
    omega
  unfold decodeRecord
  simp only [if_pos even, if_neg valid, Int.toNat_natCast]
  rfl

theorem decodeRecord_lzw {state : DecoderState} {header : UInt32} {chunk : List UInt8} {reader : Reader}
    (even : header &&& 1 = 0) (lower : 2 ≤ (header >>> 1).toNat) (upper : (header >>> 1).toNat ≤ 8320)
    (decoded : decompress (header >>> 1).toNat state.reader = some (chunk, reader)) (nonempty : chunk ≠ []) :
    decodeRecord state header = some {
      reader := reader
      chunks := state.chunks ++ [chunk]
      output := state.output ++ chunk
      totalChunksInHeader := state.totalChunksInHeader + 1
      successfulChunks := state.successfulChunks + 1
      failedChunks := state.failedChunks } := by
  have content : ¬chunk.isEmpty = true := by simpa using nonempty
  rw [decodeRecord_even even lower upper, decoded, Option.bind_some]
  dsimp only
  rw [if_neg content]
  rfl

theorem decodeRecord_duplicate {state : DecoderState} {header : UInt32} {item : List UInt8}
    (odd : header &&& 1 = 1) (found : state.chunks[(header >>> 1).toNat]? = some item) :
    decodeRecord state header = some { state with
      output := state.output ++ item
      totalChunksInHeader := state.totalChunksInHeader + 1
      successfulChunks := state.successfulChunks + 1 } := by
  have inside := (List.getElem?_eq_some_iff.mp found).1
  have valid : ¬(((header >>> 1).toNat : Int) < 0 ∨ (state.chunks.length : Int) ≤ ((header >>> 1).toNat : Int)) := by
    omega
  have notEven : ¬header &&& 1 = 0 := by
    rw [odd]
    decide
  unfold decodeRecord
  simp only [if_neg notEven, if_neg valid, Int.toNat_natCast, found, Option.map_some]
  rfl

theorem decoderStep_fresh {state : DecoderState} {chunk tail : List UInt8} (nonempty : chunk ≠ [])
    (upper : chunk.length ≤ maxChunkSize)
    (stream : state.reader.input.rest = recordBytes (.fresh chunk) ++ tail) :
    ∃ after header, RecordRead state after header (state.chunks ++ [chunk]) chunk tail := by
  obtain ⟨least, most⟩ := lzwBytes_bounds nonempty upper
  obtain ⟨even, size⟩ := even_header (show (lzwBytes chunk).length < 2 ^ 31 by omega)
  rw [recordBytes, List.append_assoc] at stream
  have step := decoderStep_header stream
  generalize UInt32.ofNat (2 * (lzwBytes chunk).length) = header at even size step
  have behind : (behindHeader state (lzwBytes chunk ++ tail)).reader.input.rest = lzwBytes chunk ++ tail := rfl
  obtain ⟨reader, decoded, left⟩ := decompress_lzwBytes nonempty behind
  rw [← size] at least most decoded
  rw [decodeRecord_lzw even least most decoded nonempty, Option.map_some] at step
  refine ⟨_, header, step, left, rfl, rfl, rfl, rfl, rfl, fun _ => ⟨least, most⟩, fun odd => ?_⟩
  rw [even] at odd
  exact absurd odd (by decide)

theorem decoderStep_reference {state : DecoderState} {index : Nat} {item tail : List UInt8} (small : index < 2 ^ 31)
    (found : state.chunks[index]? = some item)
    (stream : state.reader.input.rest = recordBytes (.reference index) ++ tail) :
    ∃ after header, RecordRead state after header state.chunks item tail := by
  obtain ⟨odd, location⟩ := odd_header small
  have inside := (List.getElem?_eq_some_iff.mp found).1
  have step := decoderStep_header stream
  generalize UInt32.ofNat (2 * index + 1) = header at odd location step
  rw [← location] at found inside
  have kept : (behindHeader state tail).chunks[(header >>> 1).toNat]? = some item := found
  rw [decodeRecord_duplicate odd kept, Option.map_some] at step
  refine ⟨_, header, step, rfl, rfl, rfl, rfl, rfl, rfl, fun even => ?_, fun _ => inside⟩
  rw [odd] at even
  exact absurd even (by decide)

theorem decoderStep_record {state : DecoderState} {record : Record (List UInt8)} {store : List (List UInt8)}
    {item tail : List UInt8} (encodable : Encodable record)
    (replayed : replayStep state.chunks record = some (store, item))
    (stream : state.reader.input.rest = recordBytes record ++ tail) :
    ∃ after header, RecordRead state after header store item tail := by
  cases record with
  | fresh chunk =>
    rw [replayStep, Option.some.injEq, Prod.mk.injEq] at replayed
    obtain ⟨rfl, rfl⟩ := replayed
    exact decoderStep_fresh encodable.1 encodable.2 stream
  | reference index =>
    rw [replayStep, Option.map_eq_some_iff] at replayed
    obtain ⟨found, present, same⟩ := replayed
    rw [Prod.mk.injEq] at same
    obtain ⟨rfl, rfl⟩ := same
    exact decoderStep_reference encodable present stream

end DedupProof
