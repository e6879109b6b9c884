import DedupPipeline.Decoder.Decompress

namespace DedupProof

open DedupModel

theorem decompressCode_inside {state : Decompression} (new : Nat) (inside : state.old < state.codeTable.length) :
    ∃ next, decompressCode state new = some next ∧ next.old = new ∧
      next.codeTable.length = state.codeTable.length + 1 ∧ state.output <+: next.output := by
  have previous := List.getElem?_eq_getElem inside
  have selected : ∃ symbols, selectSymbols state new = some symbols := by
    unfold selectSymbols
    split
    · exact ⟨_, by rw [previous, Option.map_some]⟩
    · rename_i known
      exact ⟨_, List.getElem?_eq_getElem (Nat.not_le.mp known)⟩
  obtain ⟨symbols, found⟩ := selected
  simp only [decompressCode, found, previous, Option.bind_eq_bind, Option.bind_some, Option.pure_def]
  exact ⟨_, rfl, rfl, List.length_append, List.prefix_append _ _⟩

theorem decompressCode_outside {state : Decompression} (new : Nat) (outside : state.codeTable.length ≤ state.old) :
    decompressCode state new = none := by
  have previous := List.getElem?_eq_none outside
  unfold decompressCode
  cases selectSymbols state new with
  | none => rfl
  | some symbols =>
    rw [previous]
    rfl

/-- Every code is looked up when it has become the old one, in a table that grows by one entry a code; only the
    last one never is. -/
theorem foldlM_decompressCode_isSome (codes : List Nat) (state : Decompression) :
    (codes.foldlM decompressCode state).isSome = true ↔
      ∀ i code, i < codes.length → (state.old :: codes)[i]? = some code → code < state.codeTable.length + i := by
  induction codes generalizing state with
  | nil =>
    simp only [List.length_nil, Nat.not_lt_zero, false_imp_iff, implies_true, iff_true]
    rfl
  | cons new codes ih =>
    rw [List.foldlM_cons]
    by_cases inside : state.old < state.codeTable.length
    · obtain ⟨next, stepped, old, grown, _⟩ := decompressCode_inside new inside
      rw [stepped, Option.bind_eq_bind, Option.bind_some, ih, old, grown]
      constructor
      · intro later i code within found
        cases i with
        | zero =>
          rw [← Option.some.inj found]
          exact inside
        | succ i =>
          have bound := later i code (Nat.lt_of_succ_lt_succ within) found
          omega
      · intro all i code within found
        have bound := all (i + 1) code (Nat.succ_lt_succ within) found
        omega
    · rw [decompressCode_outside new (Nat.not_lt.mp inside)]
      constructor
      · intro some
        cases some
      · intro all
        exact absurd (all 0 state.old (Nat.succ_pos _) rfl) inside

theorem foldlM_decompressCode_output {codes : List Nat} {state final : Decompression}
    (ran : codes.foldlM decompressCode state = some final) : state.output <+: final.output := by
  induction codes generalizing state with
  | nil =>
    obtain rfl : state = final := Option.some.inj ran
    exact List.prefix_refl _
  | cons new codes ih =>
    rw [List.foldlM_cons] at ran
    by_cases inside : state.old < state.codeTable.length
    · obtain ⟨next, stepped, _, _, grown⟩ := decompressCode_inside new inside
      rw [stepped] at ran
      exact grown.trans (ih ran)
    · rw [decompressCode_outside new (Nat.not_lt.mp inside)] at ran
      cases ran

theorem decodeCodes_isSome (codes : List Nat) :
    (decodeCodes codes).isSome = true ↔
      ∀ i code, i + 1 < codes.length → codes[i]? = some code → code < 256 + i := by
  cases codes with
  | nil => simp [decodeCodes]
  | cons first codes =>
    have table : initialCodeTable.length = 256 := by rw [initialCodeTable, List.length_map, List.length_range]
    rw [decodeCodes, Option.isSome_map, foldlM_decompressCode_isSome, List.length_cons]
    simp only [table, Nat.add_lt_add_iff_right]

theorem decodeCodes_ne_nil {codes : List Nat} {chunk : List UInt8} (nonempty : codes ≠ [])
    (decoded : decodeCodes codes = some chunk) : chunk ≠ [] := by
  cases codes with
  | nil => exact absurd rfl nonempty
  | cons first codes =>
    obtain ⟨final, ran, rfl⟩ := Option.map_eq_some_iff.mp decoded
    obtain ⟨rest, output⟩ := foldlM_decompressCode_output ran
    rw [← output]
    exact List.cons_ne_nil _ _

/-- Each code of these that another one follows is in the table by then. -/
def InTable (size : Nat) (stream : List UInt8) : Prop := ∀ i, i + 1 < codeCount size → streamCode stream i < 256 + i

theorem decompress_isSome_iff (size : Nat) (reader : Reader) :
    (decompress size reader).isSome = true ↔ InTable size reader.input.rest := by
  have count := readCodes_length size reader
  rw [decompress_readCodes, Option.isSome_map, decodeCodes_isSome, count, (readCodes_stream size reader).1]
  constructor
  · intro all i inside
    apply all i _ inside
    rw [List.getElem?_map, List.getElem?_range (Nat.lt_of_succ_lt inside), Option.map_some]
  · intro all i code inside found
    rw [List.getElem?_map, List.getElem?_range (Nat.lt_of_succ_lt inside), Option.map_some] at found
    rw [← Option.some.inj found]
    exact all i inside

theorem inTable_iff {size : Nat} {stream : List UInt8} :
    InTable size stream ↔ ∀ i, 13 * (i + 1) / 8 < size - 1 → streamCode stream i < 256 + i :=
  forall_congr' fun i => by rw [lt_codeCount (Nat.succ_pos i)]

/-- No index of `Decompress` leaves the table exactly when every code that another one follows is in the table by
    then. -/
theorem decompress_in_table_iff (size : Nat) (reader : Reader) :
    (decompress size reader).isSome = true ↔
      ∀ i, 13 * (i + 1) / 8 < size - 1 → streamCode reader.input.rest i < 256 + i :=
  (decompress_isSome_iff size reader).trans inTable_iff

/-- A first code of 256, in a record of four bytes. -/
theorem decompress_leaves_table :
    ¬∀ (size : Nat) (reader : Reader), 1 ≤ size → size ≤ 40960 → (decompress size reader).isSome = true := by
  intro claim
  have returns := claim 4 ⟨0, InputStream.opened [8, 0, 0, 0], 0⟩ (by decide) (by decide)
  revert returns
  decide +kernel

theorem decompress_reader {size : Nat} {reader after : Reader} {chunk : List UInt8}
    (ran : decompress size reader = some (chunk, after)) : after = (readCodes size reader).2 := by
  rw [decompress_readCodes] at ran
  obtain ⟨_, _, same⟩ := Option.map_eq_some_iff.mp ran
  exact (Prod.mk.inj same).2.symm

theorem decompress_ne_nil {size : Nat} {reader after : Reader} {chunk : List UInt8}
    (ran : decompress size reader = some (chunk, after)) : chunk ≠ [] := by
  rw [decompress_readCodes] at ran
  obtain ⟨_, decoded, same⟩ := Option.map_eq_some_iff.mp ran
  rw [← (Prod.mk.inj same).1]
  exact decodeCodes_ne_nil (List.cons_ne_nil _ _) decoded

theorem packed_size_iff (size : Nat) :
    (13 * codeCount size + 7) / 8 = size ↔ ∃ k, 1 ≤ k ∧ size = (13 * k + 7) / 8 := by
  constructor
  · intro exact_size
    exact ⟨codeCount size, codeCount_positive size, exact_size.symm⟩
  · rintro ⟨k, positive, rfl⟩
    rw [codeCount_packed positive]

/-- `size` bytes are taken from the stream, and no `get()` goes behind its end. -/
structure Consumes (size : Nat) (before after : Reader) : Prop where
  rest : after.input.rest = before.input.rest.drop size
  inside : after.input.eof = false

theorem readCodes_consumes {size : Nat} {reader : Reader} (enough : size ≤ reader.input.rest.length) :
    Consumes size reader (readCodes size reader).2 ↔ ∃ k, 1 ≤ k ∧ size = (13 * k + 7) / 8 := by
  have eof := readCodes_eof size reader
  have rest := readCodes_rest size reader
  rw [← packed_size_iff]
  constructor
  · rintro ⟨taken, inside⟩
    have within : ¬reader.input.rest.length < (13 * codeCount size + 7) / 8 := by
      intro short
      rw [eof.mpr short] at inside
      cases inside
    rw [rest] at taken
    have lengths := congrArg List.length taken
    rw [List.length_drop, List.length_drop] at lengths
    omega
  · intro fetched
    rw [fetched] at rest eof
    refine ⟨rest, ?_⟩
    rw [Bool.eq_false_iff]
    intro ended
    exact absurd (eof.mp ended) (Nat.not_lt.mpr enough)

/-- The bytes that `Decompress` takes are those of its codes, so `size` of them exactly when some codes fill that
    many bytes. -/
theorem decompress_consumes_iff {size : Nat} {reader : Reader} (enough : size ≤ reader.input.rest.length) :
    ((∃ chunk after, decompress size reader = some (chunk, after) ∧ Consumes size reader after) ↔
      (∃ k, 1 ≤ k ∧ size = (13 * k + 7) / 8) ∧
        ∀ i, 13 * (i + 1) / 8 < size - 1 → streamCode reader.input.rest i < 256 + i) ∧
    ∀ chunk after, decompress size reader = some (chunk, after) →
      (Consumes size reader after ↔ ∃ k, 1 ≤ k ∧ size = (13 * k + 7) / 8) := by
  have framed := readCodes_consumes enough
  constructor
  · rw [← inTable_iff, ← decompress_isSome_iff, Option.isSome_iff_exists]
    constructor
    · rintro ⟨chunk, after, ran, consumes⟩
      rw [decompress_reader ran] at consumes
      exact ⟨framed.mp consumes, (chunk, after), ran⟩
    · rintro ⟨packed, ⟨chunk, after⟩, ran⟩
      refine ⟨chunk, after, ran, ?_⟩
      rw [decompress_reader ran]
      exact framed.mpr packed
  · intro chunk after ran
    rw [decompress_reader ran]
    exact framed

theorem decompress_consumes_iff_three : ∃ after,
    decompress 5 ⟨0, InputStream.opened [2, 8, 16, 130, 0, 7], 0⟩ = some ([65, 66, 65, 66], after) ∧
      Consumes 5 ⟨0, InputStream.opened [2, 8, 16, 130, 0, 7], 0⟩ after := by
  obtain ⟨consumed, _⟩ := decompress_consumes_iff
    (show 5 ≤ (⟨0, InputStream.opened [2, 8, 16, 130, 0, 7], 0⟩ : Reader).input.rest.length by decide)
  have codes : ∀ i < 2, streamCode [2, 8, 16, 130, 0, 7] i < 256 + i := by decide
  obtain ⟨chunk, after, ran, consumes⟩ := consumed.mpr ⟨⟨3, by decide⟩, fun i more => codes i (by omega)⟩
  have string : (decompress 5 ⟨0, InputStream.opened [2, 8, 16, 130, 0, 7], 0⟩).map Prod.fst =
      some [65, 66, 65, 66] := by decide +kernel
  rw [ran, Option.map_some, Option.some.injEq] at string
  exact ⟨after, string ▸ ran, consumes⟩

theorem decompress_overreads :
    ¬∀ (size : Nat) (reader : Reader), 1 ≤ size → size ≤ 40960 → size ≤ reader.input.rest.length →
      ∃ chunk after, decompress size reader = some (chunk, after) ∧ Consumes size reader after := by
  intro claim
  obtain ⟨chunk, after, ran, consumes⟩ :=
    claim 1 ⟨0, InputStream.opened [3, 40, 7], 0⟩ (by decide) (by decide) (by decide)
  rw [decompress_reader ran] at consumes
  obtain ⟨k, positive, size⟩ := (readCodes_consumes (by decide)).mp consumes
  omega

end DedupProof
