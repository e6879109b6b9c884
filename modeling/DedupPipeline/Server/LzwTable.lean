import DedupPipeline.Server.Lzw
import DedupPipeline.Library.StringTable
import Mathlib.Data.List.Nodup

namespace DedupProof

open DedupModel StringTable

def byteStrings : List (List UInt8) := (List.range 256).map fun i => [UInt8.ofNat i]

theorem byteStrings_at (letter : UInt8) : byteStrings[letter.toNat]? = some [letter] := by
  have bound := letter.toNat_lt
  rw [byteStrings, List.getElem?_map, List.getElem?_range bound, Option.map_some, UInt8.ofNat_toNat]

theorem byteStrings_total : Total byteStrings :=
  fun letter => List.mem_of_getElem? (byteStrings_at letter)

theorem byteStrings_single : ∀ string ∈ byteStrings, string.length = 1 := by
  intro string member
  obtain ⟨i, _, rfl⟩ := List.mem_map.mp member
  rfl

theorem byteStrings_nodup : byteStrings.Nodup := by
  apply List.Nodup.map_on _ List.nodup_range
  intro i inside j within same
  have number := congrArg UInt8.toNat (List.cons.inj same).1
  simp only [List.mem_range] at inside within
  simpa [Nat.mod_eq_of_lt inside, Nat.mod_eq_of_lt within] using number

theorem byteStrings_length : byteStrings.length = 256 := by
  rw [byteStrings, List.length_map, List.length_range]

theorem getElem?_concat_iff {α : Type*} {list : List α} {last a : α} {i : Nat} :
    (list ++ [last])[i]? = some a ↔ list[i]? = some a ∨ i = list.length ∧ last = a := by
  rcases Nat.lt_trichotomy i list.length with before | rfl | behind
  · simp [List.getElem?_append_left before, Nat.ne_of_lt before]
  · simp
  · have outside : (list ++ [last]).length ≤ i := by
      rw [List.length_append, List.length_singleton]
      omega
    have longer : list.length ≤ i := Nat.le_of_lt behind
    simp [List.getElem?_eq_none outside, longer, Nat.ne_of_gt behind]

theorem nodup_code {table : List (List UInt8)} {string : List UInt8} {i j : Nat}
    (distinct : table.Nodup) (left : table[i]? = some string) (right : table[j]? = some string) :
    i = j := by
  have inside := (List.getElem?_eq_some_iff.mp left).1
  exact (List.getElem?_inj inside distinct).mp (left.trans right.symm)

theorem roots_at_byte {table : List (List UInt8)} (roots : byteStrings <+: table) (letter : UInt8) :
    table[letter.toNat]? = some [letter] := by
  obtain ⟨rest, rfl⟩ := roots
  have bound := letter.toNat_lt
  rw [List.getElem?_append_left (by rw [byteStrings_length]; exact bound), byteStrings_at]

theorem roots_at_root {table : List (List UInt8)} (roots : byteStrings <+: table) {code : Nat} (root : code < 256)
    {string : List UInt8} (atCode : table[code]? = some string) : string = [UInt8.ofNat code] := by
  have letter := roots_at_byte roots (UInt8.ofNat code)
  rw [UInt8.toNat_ofNat_of_lt' root, atCode] at letter
  exact Option.some.inj letter

/-- The entries below the table's length are its strings; what lies above is never looked at, so it
    may be left over from an earlier call. -/
structure Represents (dictionary : Dictionary) (table : List (List UInt8)) : Prop where
  roots : byteStrings <+: table
  bound : table.length ≤ maxDictSize
  distinct : table.Nodup
  edges : ∀ j, 256 ≤ j → j < table.length → ∃ string letter, (dictionary j).1.toNat < j ∧
    table[(dictionary j).1.toNat]? = some string ∧ (dictionary j).2 = letter.toUInt16 ∧
    table[j]? = some (string ++ [letter])

theorem Represents.total {dictionary : Dictionary} {table : List (List UInt8)}
    (represents : Represents dictionary table) : Total table :=
  fun letter => represents.roots.subset (byteStrings_total letter)

theorem Represents.at_byte {dictionary : Dictionary} {table : List (List UInt8)}
    (represents : Represents dictionary table) (letter : UInt8) :
    table[letter.toNat]? = some [letter] := roots_at_byte represents.roots letter

theorem Represents.at_root {dictionary : Dictionary} {table : List (List UInt8)}
    (represents : Represents dictionary table) {code : Nat} (root : code < 256) {string : List UInt8}
    (atCode : table[code]? = some string) : string = [UInt8.ofNat code] :=
  roots_at_root represents.roots root atCode

theorem Represents.ne_nil {dictionary : Dictionary} {table : List (List UInt8)}
    (represents : Represents dictionary table) {code : Nat} {string : List UInt8}
    (atCode : table[code]? = some string) : string ≠ [] := by
  have inside := (List.getElem?_eq_some_iff.mp atCode).1
  by_cases root : code < 256
  · rw [represents.at_root root atCode]
    exact List.cons_ne_nil _ _
  · obtain ⟨parent, letter, _, _, _, atEdge⟩ := represents.edges code (by omega) inside
    rw [atCode] at atEdge
    simp [Option.some.inj atEdge]

theorem Represents.edge_of {dictionary : Dictionary} {table : List (List UInt8)}
    (represents : Represents dictionary table) {j code : Nat} {current : List UInt8} {next : UInt8}
    (atCode : table[code]? = some current) (atEdge : table[j]? = some (current ++ [next])) :
    256 ≤ j ∧ (dictionary j).1.toNat = code ∧ (dictionary j).2 = next.toUInt16 := by
  have inside := (List.getElem?_eq_some_iff.mp atEdge).1
  -- a root holds one letter, and `current ++ [next]` has two or more
  have deep : 256 ≤ j := by
    by_contra root
    have short := congrArg List.length (represents.at_root (Nat.not_le.mp root) atEdge)
    rw [List.length_append, List.length_singleton, List.length_singleton] at short
    exact represents.ne_nil atCode (List.length_eq_zero_iff.mp (by omega))
  obtain ⟨string, letter, _, atPrefix, last, found⟩ := represents.edges j deep inside
  rw [atEdge, Option.some.injEq] at found
  obtain ⟨rfl, same⟩ := List.append_inj' found rfl
  rw [List.cons.inj same |>.1]
  exact ⟨deep, nodup_code represents.distinct atPrefix atCode, last⟩

theorem Represents.grow {dictionary : Dictionary} {table : List (List UInt8)}
    (represents : Represents dictionary table) {code : UInt16} {current : List UInt8} {next : UInt8}
    (atCode : table[code.toNat]? = some current) (fresh : current ++ [next] ∉ table)
    (room : table.length < maxDictSize) :
    Represents (Function.update dictionary table.length (code, next.toUInt16))
      (table ++ [current ++ [next]]) := by
  refine ⟨represents.roots.trans (List.prefix_append _ _), ?_, ?_, ?_⟩
  · rw [List.length_append, List.length_singleton]
    omega
  · rw [← List.concat_eq_append]
    exact represents.distinct.concat fresh
  · intro j deep inside
    have below := (List.getElem?_eq_some_iff.mp atCode).1
    by_cases last : j = table.length
    · subst last
      refine ⟨current, next, ?_, ?_, ?_, List.getElem?_concat_length⟩
      · rw [Function.update_self]
        exact below
      · rw [Function.update_self, List.getElem?_append_left below]
        exact atCode
      · rw [Function.update_self]
    · rw [List.length_append, List.length_singleton] at inside
      have older : j < table.length := by omega
      obtain ⟨string, letter, smaller, atPrefix, letters, found⟩ := represents.edges j deep older
      rw [Function.update_of_ne last]
      refine ⟨string, letter, smaller, ?_, letters, ?_⟩
      · rw [List.getElem?_append_left (by omega), atPrefix]
      · rw [List.getElem?_append_left older, found]

theorem byteStrings_represented (dictionary : Dictionary) : Represents dictionary byteStrings := by
  refine ⟨List.prefix_refl _, by rw [byteStrings_length]; decide, byteStrings_nodup, ?_⟩
  intro j deep inside
  rw [byteStrings_length] at inside
  omega

/-- The main loop has matched `current`, and its live entries are those of `table`. -/
structure Refines (state : LzwState) (table : List (List UInt8)) (current : List UInt8) : Prop where
  represents : Represents state.dictionary table
  size : state.dictSize = table.length
  code : table[state.currentCode.toNat]? = some current

theorem search_found {state : LzwState} {table : List (List UInt8)} {current : List UInt8} {j : Nat}
    {next : UInt8} (refines : Refines state table current)
    (found : searchDictionary state.dictionary state.dictSize state.currentCode next = some j) :
    table[j]? = some (current ++ [next]) := by
  have matched := List.find?_some found
  obtain ⟨steps, inside, rfl⟩ := List.mem_range'.mp (List.mem_of_find?_eq_some found)
  simp only [Bool.and_eq_true, beq_iff_eq] at matched
  rw [refines.size] at inside
  obtain ⟨string, letter, _, atPrefix, last, atEdge⟩ :=
    refines.represents.edges (256 + 1 * steps) (by omega) (by omega)
  rw [matched.1, refines.code, Option.some.injEq] at atPrefix
  rw [matched.2] at last
  rw [atEdge, atPrefix, UInt8.toUInt16_inj.mp last]

theorem search_missed {state : LzwState} {table : List (List UInt8)} {current : List UInt8}
    {next : UInt8} (refines : Refines state table current)
    (missed : searchDictionary state.dictionary state.dictSize state.currentCode next = none) :
    current ++ [next] ∉ table := by
  intro member
  obtain ⟨j, atEdge⟩ := List.mem_iff_getElem?.mp member
  obtain ⟨deep, parent, last⟩ := refines.represents.edge_of refines.code atEdge
  have inside := (List.getElem?_eq_some_iff.mp atEdge).1
  have unmatched := List.find?_eq_none.mp missed j (List.mem_range'.mpr
    ⟨j - 256, by rw [refines.size]; omega, by omega⟩)
  simp [UInt16.toNat_inj.mp parent, last] at unmatched

theorem lzwStep_match {state : LzwState} {next : UInt8} {j : Nat}
    (found : searchDictionary state.dictionary state.dictSize state.currentCode next = some j) :
    lzwStep state next = { state with currentCode := UInt16.ofNat j } := by
  unfold lzwStep
  rw [found]

theorem lzwStep_miss {state : LzwState} {next : UInt8}
    (missed : searchDictionary state.dictionary state.dictSize state.currentCode next = none) :
    lzwStep state next = { growDictionary state next with
      codeWords := state.codeWords ++ [state.currentCode]
      currentCode := next.toUInt16 } := by
  unfold lzwStep
  rw [missed]

theorem lzwStep_found {state : LzwState} {table : List (List UInt8)} {current : List UInt8}
    {next : UInt8} (refines : Refines state table current) (member : current ++ [next] ∈ table) :
    Refines (lzwStep state next) table (current ++ [next]) ∧
      (lzwStep state next).codeWords = state.codeWords := by
  cases found : searchDictionary state.dictionary state.dictSize state.currentCode next with
  | none => exact absurd member (search_missed refines found)
  | some j =>
    have atEdge := search_found refines found
    have inside := (List.getElem?_eq_some_iff.mp atEdge).1
    have bound : table.length ≤ 8192 := refines.represents.bound
    have code : (UInt16.ofNat j).toNat = j := by
      rw [UInt16.toNat_ofNat']
      omega
    rw [lzwStep_match found]
    refine ⟨⟨refines.represents, refines.size, ?_⟩, rfl⟩
    rw [code, atEdge]

theorem growDictionary_refines {state : LzwState} {table : List (List UInt8)}
    {current : List UInt8} {next : UInt8} (refines : Refines state table current)
    (fresh : current ++ [next] ∉ table) :
    Represents (growDictionary state next).dictionary (add maxDictSize table (current ++ [next])) ∧
      (growDictionary state next).dictSize = (add maxDictSize table (current ++ [next])).length := by
  unfold growDictionary add
  rw [refines.size]
  split
  · rename_i room
    exact ⟨refines.represents.grow refines.code fresh room, by simp⟩
  · exact ⟨refines.represents, refines.size⟩

theorem lzwStep_missed {state : LzwState} {table : List (List UInt8)} {current : List UInt8}
    {next : UInt8} (refines : Refines state table current) (fresh : current ++ [next] ∉ table) :
    Refines (lzwStep state next) (add maxDictSize table (current ++ [next])) [next] ∧
      (lzwStep state next).codeWords = state.codeWords ++ [state.currentCode] := by
  cases found : searchDictionary state.dictionary state.dictSize state.currentCode next with
  | some j => exact absurd (List.mem_of_getElem? (search_found refines found)) fresh
  | none =>
    obtain ⟨represents, size⟩ := growDictionary_refines refines fresh
    rw [lzwStep_miss found]
    refine ⟨⟨represents, size, ?_⟩, rfl⟩
    rw [UInt8.toNat_toUInt16]
    exact represents.at_byte next

theorem Refines.code_eq {state : LzwState} {table : List (List UInt8)} {current : List UInt8}
    (refines : Refines state table current) : state.currentCode.toNat = table.idxOf current :=
  nodup_code refines.represents.distinct refines.code
    (getElem_idxOf (List.mem_of_getElem? refines.code))

theorem foldl_lzwStep {state : LzwState} {table : List (List UInt8)} {current : List UInt8}
    (input : List UInt8) (refines : Refines state table current) :
    ((input.foldl lzwStep state).codeWords ++ [(input.foldl lzwStep state).currentCode]).map
      UInt16.toNat = state.codeWords.map UInt16.toNat ++ encode maxDictSize table current input := by
  induction input generalizing state table current with
  | nil => simp [encode, refines.code_eq]
  | cons next input ih =>
    rw [List.foldl_cons, encode]
    by_cases member : current ++ [next] ∈ table
    · obtain ⟨after, words⟩ := lzwStep_found refines member
      rw [if_pos member, ih after, words]
    · obtain ⟨after, words⟩ := lzwStep_missed refines member
      rw [if_neg member, ih after, words, List.map_append, List.append_assoc, ← refines.code_eq]
      rfl

theorem lzwStart_refines (dictionary : Dictionary) (first : UInt8) :
    Refines (lzwStart dictionary first) byteStrings [first] := by
  refine ⟨byteStrings_represented dictionary, byteStrings_length.symm, ?_⟩
  rw [lzwStart, UInt8.toNat_toUInt16, byteStrings_at]

/-- The code words of an input: those of LZW over a table that starts with the single bytes. -/
def lzwCodes : List UInt8 → List Nat
  | [] => []
  | first :: input => encode maxDictSize byteStrings [first] input

def lzwBytes (input : List UInt8) : List UInt8 := packCodeWords ((lzwCodes input).map UInt16.ofNat)

theorem lzwCodes_valid (input : List UInt8) : ∀ code ∈ lzwCodes input, code < maxDictSize := by
  cases input with
  | nil => simp [lzwCodes]
  | cons first input =>
    exact encode_lt input byteStrings_total (byteStrings_total first)
      (by rw [byteStrings_length]; decide)

theorem lzwCodes_length {input : List UInt8} (nonempty : input ≠ []) :
    1 ≤ (lzwCodes input).length ∧ (lzwCodes input).length ≤ input.length := by
  cases input with
  | nil => exact absurd rfl nonempty
  | cons first input => exact encode_length _ _ _ _

theorem ofNat_valid {code : Nat} (valid : code < maxDictSize) : (UInt16.ofNat code).toNat = code := by
  have bound : code < 8192 := valid
  rw [UInt16.toNat_ofNat']
  omega

theorem toNat_words {codes : List Nat} (valid : ∀ code ∈ codes, code < maxDictSize) :
    (codes.map UInt16.ofNat).map UInt16.toNat = codes := by
  rw [List.map_map]
  refine (List.map_congr_left fun code member => ?_).trans (List.map_id codes)
  exact ofNat_valid (valid code member)

theorem lzwWords_valid (input : List UInt8) :
    ∀ codeWord ∈ (lzwCodes input).map UInt16.ofNat, codeWord.toNat < maxDictSize := by
  intro codeWord member
  obtain ⟨code, inside, rfl⟩ := List.mem_map.mp member
  have valid := lzwCodes_valid input code inside
  rw [ofNat_valid valid]
  exact valid

theorem lzwBytes_length (input : List UInt8) :
    (lzwBytes input).length = (13 * (lzwCodes input).length + 7) / 8 := by
  rw [lzwBytes, packCodeWords_length _ (lzwWords_valid input), List.length_map]

theorem lzwBytes_size {input : List UInt8} (nonempty : input ≠ []) (upper : input.length ≤ inputSize) :
    (UInt32.ofNat (lzwBytes input).length).toNat = (lzwBytes input).length := by
  have codes := (lzwCodes_length nonempty).2
  have bound : input.length ≤ 8192 := upper
  rw [UInt32.toNat_ofNat', lzwBytes_length]
  omega

theorem emitted_lzwCodes (dictionary : Dictionary) (first : UInt8) (input : List UInt8) :
    ((input.foldl lzwStep (lzwStart dictionary first)).codeWords ++
      [(input.foldl lzwStep (lzwStart dictionary first)).currentCode]).map UInt16.toNat =
      lzwCodes (first :: input) :=
  foldl_lzwStep input (lzwStart_refines dictionary first)

theorem packed_lzwBytes (dictionary : Dictionary) (first : UInt8) (input : List UInt8) :
    packCodeWords ((input.foldl lzwStep (lzwStart dictionary first)).codeWords ++
      [(input.foldl lzwStep (lzwStart dictionary first)).currentCode]) = lzwBytes (first :: input) := by
  have codes := emitted_lzwCodes dictionary first input
  generalize input.foldl lzwStep (lzwStart dictionary first) = final at codes ⊢
  rw [lzwBytes, ← codes, List.map_map]
  congr 1
  simp [Function.comp_def]

theorem lzwEncode_output (globals : LzwGlobals) {inputData : List UInt8} (nonempty : inputData ≠ []) :
    (lzwEncode globals inputData).1 =
      ⟨lzwBytes inputData, UInt32.ofNat (lzwBytes inputData).length⟩ := by
  cases inputData with
  | nil => exact absurd rfl nonempty
  | cons first input =>
    simp only [lzwEncode, packed_lzwBytes]
    split
    · rename_i zero
      rw [zero]
    · rfl

end DedupProof
