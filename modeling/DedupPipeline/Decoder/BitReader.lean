import DedupPipeline.Decoder.Decoder

namespace DedupProof

open DedupModel BitString

def pending (reader : Reader) : List Bool :=
  (if reader.inputPosition % 8 = 0 then []
    else bits (8 - reader.inputPosition % 8) reader.byte.toNat) ++ ofBytes reader.input.rest

def Fetched (source : List UInt8) (reader : Reader) : Prop :=
  reader.input.rest = source.drop ((reader.inputPosition + 7) / 8)

/-- Behind the end of the file every bit reads as one. -/
def streamBit (source : List UInt8) (i : Nat) : Bool := (ofBytes source).getD i true

def streamCode (source : List UInt8) (i : Nat) : Nat :=
  value ((List.range codeLength).map fun bit => streamBit source (codeLength * i + bit))

/-- The reader somewhere in the stream `source`, perhaps behind its end. -/
structure Reading (source : List UInt8) (reader : Reader) : Prop where
  ahead : ∀ i, (pending reader).getD i true = streamBit source (reader.inputPosition + i)
  fetched : Fetched source reader
  ended : 0 < reader.inputPosition →
    (reader.input.eof = true ↔ source.length < (reader.inputPosition + 7) / 8)

theorem reading_start (reader : Reader) :
    Reading reader.input.rest { reader with inputPosition := 0 } where
  ahead := fun i => by rw [Nat.zero_add]; rfl
  fetched := by simp [Fetched]
  ended := fun positive => absurd positive (Nat.lt_irrefl 0)

theorem append_bit (code bit : Nat) (small : bit < 2) : (code <<< 1) ||| bit = 2 * code + bit := by
  rw [← Nat.shiftLeft_add_eq_or_of_lt small, Nat.shiftLeft_eq, Nat.mul_comm]

theorem shifted_bit (byte : UInt8) (i : Nat) :
    (byte.toNat >>> i) &&& 1 = (byte.toNat.testBit i).toNat := by
  rw [Nat.and_one_is_mod, Nat.toNat_testBit, Nat.shiftRight_eq_div_pow]

theorem readBit_value (code : Nat) (reader : Reader) :
    (readBit (code, reader)).1 = 2 * code + ((pending reader).getD 0 true).toNat := by
  obtain ⟨byte, ⟨rest, eof, ended⟩, position⟩ := reader
  by_cases boundary : position % 8 = 0
  · cases rest <;>
      simp only [readBit, pending, boundary, if_pos, InputStream.get, Nat.sub_zero, shifted_bit,
        append_bit _ _ (Bool.toNat_lt _)] <;> rfl
  · have inside : 8 - position % 8 = 7 - position % 8 + 1 := by omega
    simp only [readBit, pending, boundary, if_false, shifted_bit, append_bit _ _ (Bool.toNat_lt _),
      inside, bits_succ]
    rfl

theorem readBit_ahead (code : Nat) (reader : Reader) (i : Nat) :
    (pending (readBit (code, reader)).2).getD i true = (pending reader).getD (i + 1) true := by
  obtain ⟨byte, ⟨rest, eof, ended⟩, position⟩ := reader
  by_cases boundary : position % 8 = 0
  · have next : (position + 1) % 8 = 1 := by omega
    cases rest with
    | cons fetched rest =>
      simp only [readBit, pending, boundary, if_pos, InputStream.get, next]
      rfl
    | nil =>
      -- the seven bits left of the 0xFF
      have ones : ∀ i < 7, (bits 7 255).getD i true = true := by decide
      have left : (bits 7 255).getD i true = true := by
        by_cases within : i < 7
        · exact ones i within
        · exact List.getD_eq_default _ _ (by rw [length_bits]; omega)
      simp only [readBit, pending, boundary, if_pos, InputStream.get, next]
      exact left
  · have inside : 8 - position % 8 = 7 - position % 8 + 1 := by omega
    simp only [readBit, pending, boundary, if_false, inside, bits_succ, List.cons_append,
      List.getD_cons_succ]
    congr 2
    split
    · rename_i last
      have none : 7 - position % 8 = 0 := by omega
      rw [none, bits_zero]
    · rename_i within
      have next : 8 - (position + 1) % 8 = 7 - position % 8 := by omega
      rw [next]

theorem readBit_position (state : Nat × Reader) :
    (readBit state).2.inputPosition = state.2.inputPosition + 1 := by
  simp only [readBit]
  split <;> rfl

theorem get_rest (input : InputStream) : input.get.2.rest = input.rest.tail := by
  unfold InputStream.get
  split <;> simp_all [InputStream.exhausted]

theorem get_eof (input : InputStream) : input.get.2.eof = true ↔ input.rest = [] := by
  unfold InputStream.get
  split <;> simp_all [InputStream.exhausted]

theorem Reading.readBit {source : List UInt8} {reader : Reader} (reading : Reading source reader)
    (code : Nat) :
    (readBit (code, reader)).1 = 2 * code + (streamBit source reader.inputPosition).toNat ∧
      Reading source (readBit (code, reader)).2 := by
  constructor
  · rw [readBit_value, reading.ahead 0]
    rfl
  · refine ⟨?_, ?_, ?_⟩
    · intro i
      rw [readBit_ahead, reading.ahead, readBit_position]
      rw [Nat.add_assoc, Nat.add_comm 1 i]
    · have rest := reading.fetched
      unfold Fetched at rest ⊢
      rw [readBit_position]
      simp only [DedupModel.readBit]
      split
      · have next : (reader.inputPosition + 1 + 7) / 8 = (reader.inputPosition + 7) / 8 + 1 := by omega
        rw [get_rest, rest, next, List.tail_drop]
      · have same : (reader.inputPosition + 1 + 7) / 8 = (reader.inputPosition + 7) / 8 := by omega
        rw [rest, same]
    · intro _
      have rest := reading.fetched
      rw [readBit_position]
      simp only [DedupModel.readBit]
      split
      · rw [get_eof, rest, List.drop_eq_nil_iff]
        omega
      · rw [reading.ended (by omega)]
        omega

theorem Reading.readBits {source : List UInt8} {reader : Reader} (reading : Reading source reader)
    (count : Nat) :
    (DedupModel.readBit^[count] (0, reader)).1 =
        value ((List.range count).map fun bit => streamBit source (reader.inputPosition + bit)) ∧
      (DedupModel.readBit^[count] (0, reader)).2.inputPosition = reader.inputPosition + count ∧
      Reading source (DedupModel.readBit^[count] (0, reader)).2 := by
  induction count with
  | zero => exact ⟨rfl, rfl, reading⟩
  | succ count ih =>
    obtain ⟨code, position, within⟩ := ih
    obtain ⟨bit, after⟩ := within.readBit (DedupModel.readBit^[count] (0, reader)).1
    rw [Function.iterate_succ_apply', readBit_position, position]
    refine ⟨?_, rfl, after⟩
    rw [bit, code, position, List.range_succ, List.map_append, List.map_singleton, value_concat]

theorem Reading.readCode {source : List UInt8} {reader : Reader} (reading : Reading source reader)
    {i : Nat} (position : reader.inputPosition = 13 * i) :
    (readCode reader).1 = streamCode source i ∧
      (readCode reader).2.inputPosition = 13 * (i + 1) ∧ Reading source (readCode reader).2 := by
  obtain ⟨code, moved, after⟩ := reading.readBits codeLength
  rw [position] at code moved
  exact ⟨code, moved, after⟩

end DedupProof
