import DedupPipeline.Decoder.RoundTrip
import DedupPipeline.Library.LetterRuns
import DedupPipeline.Test.StringDecoder
import DedupPipeline.Test.StringLzw

namespace DedupProof

open DedupModel StringTable

/-- Whatever the vector and the static variables held, `Read_code` returns the emitted codes and then `-1`, and
    `Decompress` returns the string. -/
def StringRoundTrips (s : List UInt8) : Prop :=
  ∀ (compressedData : List UInt8) (reader : StringReader),
    (stringReadCodes (stringLzwEncode s compressedData) ((stringLzwEncode s compressedData).length + 1)
        { reader with inputPosition := 0 }).1 =
      (stringCodeWords s).map (fun codeWord => (codeWord.toNat : Int)) ++ [-1] ∧
    ∃ after, stringDecompress (stringLzwEncode s compressedData) reader = some (s, after)

theorem stringDecompress_lzwBytes (s : List UInt8) (reader : StringReader) :
    (stringReadCodes (lzwBytes s) ((lzwBytes s).length + 1) { reader with inputPosition := 0 }).1 =
        (lzwCodes s).map Int.ofNat ++ [-1] ∧
      stringDecompress (lzwBytes s) reader = (stringDecodeCodes (lzwCodes s)).map
        (·, (stringReadCodes (lzwBytes s) ((lzwBytes s).length + 1) { reader with inputPosition := 0 }).2) := by
  have count : wholeCodes (lzwBytes s).length = (lzwCodes s).length := by
    rw [lzwBytes_length, wholeCodes]
    omega
  have codes := streamCode_packed [] (lzwWords_valid s)
  rw [List.append_nil, List.length_map, toNat_words (lzwCodes_valid s), ← lzwBytes, ← count] at codes
  have stream := stringDecompress_stream (lzwBytes s) reader
  rw [codes] at stream
  exact stream

/-- All that stands between an input and its round trip is the comparison with the size of the table. -/
theorem stringRoundTrips_iff {s : List UInt8} (nonempty : s ≠ []) :
    StringRoundTrips s ↔ stringDecodeCodes (lzwCodes s) = some s := by
  have words : (stringCodeWords s).map (fun codeWord => (codeWord.toNat : Int)) = (lzwCodes s).map Int.ofNat := by
    rw [stringCodeWords_eq, ← congrArg (List.map Int.ofNat) (toNat_words (lzwCodes_valid s))]
    simp only [List.map_map]
    rfl
  unfold StringRoundTrips
  simp only [stringLzwEncode_bytes nonempty, words, stringDecompress_lzwBytes, true_and]
  constructor
  · intro trips
    obtain ⟨after, decoded⟩ := trips [] ⟨0, 0⟩
    obtain ⟨output, found, same⟩ := Option.map_eq_some_iff.mp decoded
    rw [found, (Prod.mk.inj same).1]
  · intro decoded _ reader
    rw [decoded]
    exact ⟨_, rfl⟩

theorem stringDecompressCode_small {state : Decompression} (new : Nat) (small : state.codeTable.length < 2 ^ 31) :
    stringDecompressCode state new = decompressCode state new := by
  have size : (state.codeTable.length : Int).bmod (2 ^ 32) = state.codeTable.length :=
    Int.bmod_eq_of_le_mul_two (by omega) (by omega)
  unfold stringDecompressCode decompressCode stringSelectSymbols selectSymbols
  simp only [size, Int.ofNat_le]

theorem decompressCode_grown {state next : Decompression} {new : Nat}
    (stepped : decompressCode state new = some next) :
    (∃ entry, next.codeTable = state.codeTable ++ [entry]) ∧ next.old = new := by
  unfold decompressCode at stepped
  simp only [Option.bind_eq_bind, Option.bind_eq_some_iff, Option.pure_def, Option.some.injEq] at stepped
  obtain ⟨_, _, _, _, rfl⟩ := stepped
  exact ⟨⟨_, rfl⟩, rfl⟩

theorem foldlM_decompressCode_grown {codes : List Nat} {state final : Decompression}
    (ran : codes.foldlM decompressCode state = some final) :
    state.codeTable <+: final.codeTable ∧ final.codeTable.length = state.codeTable.length + codes.length ∧
      (state.old :: codes).getLast? = some final.old := by
  induction codes generalizing state with
  | nil =>
    obtain rfl : state = final := Option.some.inj ran
    exact ⟨List.prefix_refl _, rfl, rfl⟩
  | cons new codes ih =>
    rw [List.foldlM_cons, Option.bind_eq_bind, Option.bind_eq_some_iff] at ran
    obtain ⟨next, stepped, rest⟩ := ran
    obtain ⟨⟨entry, table⟩, old⟩ := decompressCode_grown stepped
    obtain ⟨grown, size, last⟩ := ih rest
    rw [table] at grown size
    rw [old] at last
    refine ⟨(List.prefix_append _ _).trans grown, ?_, last⟩
    rw [size, List.length_append, List.length_singleton, List.length_cons]
    omega

theorem foldlM_stringDecompressCode {codes : List Nat} {state : Decompression}
    (small : state.codeTable.length + codes.length ≤ 2 ^ 31) :
    codes.foldlM stringDecompressCode state = codes.foldlM decompressCode state := by
  induction codes generalizing state with
  | nil => rw [List.foldlM_nil, List.foldlM_nil]
  | cons new codes ih =>
    rw [List.length_cons] at small
    rw [List.foldlM_cons, List.foldlM_cons, stringDecompressCode_small new (by omega)]
    cases stepped : decompressCode state new with
    | none => simp only [Option.bind_eq_bind, Option.bind_none]
    | some next =>
      obtain ⟨⟨entry, table⟩, _⟩ := decompressCode_grown stepped
      simp only [Option.bind_eq_bind, Option.bind_some]
      apply ih
      rw [table, List.length_append, List.length_singleton]
      omega

theorem stringDecodeCodes_short {s : List UInt8} (short : (lzwCodes s).length ≤ 2 ^ 31 - 255) :
    stringDecodeCodes (lzwCodes s) = some s := by
  have decoded := decodeCodes_lzwCodes s
  have table : initialCodeTable.length = 256 := byteStrings_length
  cases codes : lzwCodes s with
  | nil =>
    rw [codes] at decoded
    exact decoded
  | cons first rest =>
    rw [codes, decodeCodes] at decoded
    rw [codes, List.length_cons] at short
    rw [stringDecodeCodes, foldlM_stringDecompressCode (by dsimp only; omega), decoded]

def crowdedInput (ones : Nat) : List UInt8 := List.replicate (7936 * (7936 + 1) / 2 + 1) 0 ++ List.replicate ones 1

theorem lzwCodes_crowded : ∃ (first : Nat) (codes : List Nat), codes.length = 7936 ∧
    ∀ ones, lzwCodes (crowdedInput ones) = first :: (codes ++ List.replicate ones 1) := by
  have full : byteStrings.length + 7936 = maxDictSize := by
    rw [byteStrings_length]
    rfl
  have one : byteStrings.idxOf [1] = 1 :=
    nodup_code byteStrings_nodup (getElem_idxOf (byteStrings_total 1)) (byteStrings_at 1)
  obtain ⟨codes, size, encoded⟩ := encode_crowded 0 maxDictSize byteStrings_total byteStrings_single
    (show (1 : UInt8) ≠ 0 by decide) full
  rw [one] at encoded
  cases codes with
  | nil => cases size
  | cons first codes =>
    refine ⟨first, codes, Nat.succ.inj size, fun ones => ?_⟩
    rw [crowdedInput, List.replicate_succ, List.cons_append, lzwCodes]
    exact encoded ones

theorem crowdedInput_length (ones extra : Nat) :
    (crowdedInput (ones + extra)).length = (crowdedInput ones).length + extra := by
  unfold crowdedInput
  simp only [List.length_append, List.length_replicate, Nat.add_assoc]

structure Ones (state : Decompression) : Prop where
  entry : state.codeTable[1]? = some [1]
  old : state.old = 1

theorem Ones.step {state : Decompression} (ones : Ones state) :
    ∃ next, stringDecompressCode state 1 = some next ∧ Ones next ∧ state.output.length < next.output.length ∧
      ((state.codeTable.length : Int).bmod (2 ^ 32) ≤ 1 → state.output.length + 1 < next.output.length) := by
  obtain ⟨symbols, selected, nonempty, wrapped⟩ : ∃ symbols, stringSelectSymbols state 1 = some symbols ∧
      0 < symbols.length ∧ ((state.codeTable.length : Int).bmod (2 ^ 32) ≤ 1 → 1 < symbols.length) := by
    unfold stringSelectSymbols
    rw [ones.old, ones.entry]
    split
    · exact ⟨_, rfl, Nat.two_pos, fun _ => Nat.one_lt_two⟩
    · rename_i right
      exact ⟨_, rfl, Nat.one_pos, fun wrong => absurd wrong right⟩
  have table := ones.entry
  simp only [stringDecompressCode, selected, ones.old, table, Option.bind_eq_bind, Option.bind_some, Option.pure_def]
  refine ⟨_, rfl, ⟨?_, rfl⟩, ?_, fun wrong => ?_⟩
  · dsimp only
    rw [List.getElem?_append_left (List.getElem?_eq_some_iff.mp table).1, table]
  · rw [List.length_append]
    omega
  · have long := wrapped wrong
    rw [List.length_append]
    omega

theorem Ones.run {state : Decompression} (ones : Ones state) (count : Nat) :
    ∃ final, (List.replicate count 1).foldlM stringDecompressCode state = some final ∧
      state.output.length + count ≤ final.output.length := by
  induction count generalizing state with
  | zero => exact ⟨state, rfl, Nat.le_refl _⟩
  | succ count ih =>
    obtain ⟨next, stepped, again, longer, _⟩ := ones.step
    obtain ⟨final, ran, rest⟩ := ih again
    refine ⟨final, ?_, by omega⟩
    rw [List.replicate_succ, List.foldlM_cons, stepped]
    exact ran

theorem crowded_too_long {ones : Nat} (size : 7937 + ones = 2 ^ 31 - 255) (extra : Nat) :
    ∃ output, stringDecodeCodes (lzwCodes (crowdedInput (ones + (extra + 1)))) = some output ∧
      (crowdedInput (ones + (extra + 1))).length < output.length := by
  obtain ⟨first, codes, count, crowded⟩ := lzwCodes_crowded
  have table : initialCodeTable.length = 256 := byteStrings_length
  have right : (codes ++ List.replicate ones 1).length = 7936 + ones := by
    rw [List.length_append, List.length_replicate, count]
  have short : stringDecodeCodes (lzwCodes (crowdedInput ones)) = some (crowdedInput ones) := by
    apply stringDecodeCodes_short
    rw [crowded, List.length_cons, right]
    omega
  rw [crowded, stringDecodeCodes, foldlM_stringDecompressCode (by dsimp only; omega), Option.map_eq_some_iff] at short
  obtain ⟨middle, ran, output⟩ := short
  obtain ⟨grown, entries, last⟩ := foldlM_decompressCode_grown ran
  have old : middle.old = 1 := by
    obtain ⟨before, rfl⟩ : ∃ before, ones = before + 1 := ⟨ones - 1, by omega⟩
    rw [List.replicate_succ', ← List.append_assoc, ← List.cons_append, List.getLast?_concat] at last
    exact (Option.some.inj last).symm
  have full : (middle.codeTable.length : Int).bmod (2 ^ 32) ≤ 1 := by
    dsimp only at entries
    have entries : middle.codeTable.length = 2 ^ 31 := by omega
    rw [entries]
    decide
  obtain ⟨next, stepped, again, _, longer⟩ := Ones.step ⟨roots_at_byte grown 1, old⟩
  obtain ⟨final, rest, length⟩ := again.run extra
  have more := longer full
  refine ⟨final.output, ?_, ?_⟩
  · rw [crowded, stringDecodeCodes, List.replicate_add, ← List.append_assoc, List.foldlM_append,
      foldlM_stringDecompressCode (by dsimp only; omega), ran, Option.bind_eq_bind, Option.bind_some,
      List.replicate_succ, List.foldlM_cons, stepped, Option.bind_eq_bind, Option.bind_some, rest]
    rfl
  · rw [crowdedInput_length, ← output]
    omega

theorem crowdedInput_ne_nil (ones : Nat) : crowdedInput ones ≠ [] := by
  rw [crowdedInput, List.replicate_succ, List.cons_append]
  exact List.cons_ne_nil _ _

theorem crowdedInput_phrases (ones : Nat) : (lzwPhrases (crowdedInput ones)).length = 7937 + ones := by
  obtain ⟨first, codes, size, crowded⟩ := lzwCodes_crowded
  rw [lzwPhrases_length, crowded, List.length_cons, List.length_append, List.length_replicate, size]
  omega

theorem crowded_not_back {ones : Nat} (size : 7937 + ones = 2 ^ 31 - 255) (extra : Nat) :
    ¬StringRoundTrips (crowdedInput (ones + (extra + 1))) := by
  obtain ⟨output, decoded, longer⟩ := crowded_too_long size extra
  rw [stringRoundTrips_iff (crowdedInput_ne_nil _), decoded, Option.some.injEq]
  rintro rfl
  exact Nat.lt_irrefl _ longer

/-- The round trip has a limit in the strings into which LZW parses the input: up to there every input is given back,
    and behind it there is at each count one that is not. -/
theorem string_round_trip_iff (count : Nat) (positive : 0 < count) :
    (∀ s, (lzwPhrases s).length = count → StringRoundTrips s) ↔ count ≤ 2 ^ 31 - 255 := by
  constructor
  · intro trips
    by_contra long
    obtain ⟨ones, size⟩ : ∃ ones, 7937 + ones = 2 ^ 31 - 255 := ⟨2 ^ 31 - 255 - 7937, by omega⟩
    obtain ⟨extra, rfl⟩ : ∃ extra, count = 7937 + (ones + (extra + 1)) := ⟨count - (2 ^ 31 - 255) - 1, by omega⟩
    exact crowded_not_back size extra (trips _ (crowdedInput_phrases _))
  · intro short s counted
    have nonempty : s ≠ [] := by
      rintro rfl
      exact absurd counted (Nat.ne_of_lt positive)
    rw [stringRoundTrips_iff nonempty]
    apply stringDecodeCodes_short
    rw [← lzwPhrases_length, counted]
    exact short

theorem string_round_trip_iff_sixteen :
    StringRoundTrips [84, 79, 66, 69, 79, 82, 78, 79, 84,
      84, 79, 66, 69, 79, 82, 84, 79, 66, 69, 79, 82, 78, 79, 84] :=
  (string_round_trip_iff 16 (by decide)).mpr (by decide) _ (by decide +kernel)

/-- An input of one string more than the limit, 31494017 zeros and then ones, does not come back. -/
theorem string_round_trip_limited : crowdedInput 2147475457 ≠ [] ∧ ¬StringRoundTrips (crowdedInput 2147475457) :=
  ⟨crowdedInput_ne_nil _, crowded_not_back (show 7937 + 2147475456 = 2 ^ 31 - 255 by decide) 0⟩

end DedupProof
