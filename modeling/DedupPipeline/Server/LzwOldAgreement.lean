import DedupPipeline.Server.LzwOld
import DedupPipeline.Test.StringLzw

namespace DedupProof

open DedupModel OverflowTable StringTable

def Clash (prefixCode : UInt16) (nextChar : UInt8) : Prop := prefixCode.toNat < 256 ∧ nextChar = 0

/-- The run has matched `current`, and but for the clashes the dictionary is that of the strings in `table`. -/
structure HashRefines (state : OldLzwState) (table : List (List UInt8)) (current : List UInt8) : Prop where
  sound : Sound home associateMemStore (toTable state.dictionary)
  roots : byteStrings <+: table
  distinct : table.Nodup
  nonempty : [] ∉ table
  closed : PrefixClosed table
  size : state.nextCode.toNat = table.length
  code : table[state.prefixCode.toNat]? = some current
  clash : ∀ byte : UInt8, state.dictionary.lookup (combinedKey byte.toUInt16 0) = some byte.toUInt16
  edges : ∀ prefixCode nextChar j, ¬Clash prefixCode nextChar →
    (state.dictionary.lookup (combinedKey prefixCode nextChar) = some j ↔
      ∃ string, table[prefixCode.toNat]? = some string ∧ table[j.toNat]? = some (string ++ [nextChar]))

/-- The dictionary keeps every code and every key: `insert` never ends with `collision` true. -/
structure Admissible (state : OldLzwState) (input : List UInt8) : Prop where
  few : ∀ n ≤ input.length, ((input.take n).foldl oldLzwStep state).nextCode.toNat < 8192
  stored : ∀ n (inside : n < input.length),
    ((input.take n).foldl oldLzwStep state).dictionary.lookup
      (combinedKey ((input.take n).foldl oldLzwStep state).prefixCode input[n]) = none →
    (((input.take n).foldl oldLzwStep state).dictionary.insert
      (combinedKey ((input.take n).foldl oldLzwStep state).prefixCode input[n])
      ((input.take n).foldl oldLzwStep state).nextCode).2 = false

theorem Admissible.now {state : OldLzwState} {input : List UInt8} (admissible : Admissible state input) :
    state.nextCode.toNat < 8192 := admissible.few 0 (Nat.zero_le _)

theorem Admissible.first {state : OldLzwState} {next : UInt8} {input : List UInt8}
    (admissible : Admissible state (next :: input))
    (missed : state.dictionary.lookup (combinedKey state.prefixCode next) = none) :
    (state.dictionary.insert (combinedKey state.prefixCode next) state.nextCode).2 = false :=
  admissible.stored 0 (Nat.succ_pos _) missed

theorem Admissible.later {state : OldLzwState} {next : UInt8} {input : List UInt8}
    (admissible : Admissible state (next :: input)) : Admissible (oldLzwStep state next) input where
  few n within := admissible.few (n + 1) (Nat.succ_le_succ within)
  stored n inside := admissible.stored (n + 1) (Nat.succ_lt_succ inside)

theorem oldLzwStep_hit {state : OldLzwState} {next : UInt8} {code : UInt16}
    (hit : state.dictionary.lookup (combinedKey state.prefixCode next) = some code) :
    oldLzwStep state next = { state with prefixCode := code } := by
  simp only [oldLzwStep, hit]

theorem oldLzwStep_miss {state : OldLzwState} {next : UInt8}
    (missed : state.dictionary.lookup (combinedKey state.prefixCode next) = none)
    (stored : (state.dictionary.insert (combinedKey state.prefixCode next) state.nextCode).2 = false) :
    oldLzwStep state next =
      ⟨(state.dictionary.insert (combinedKey state.prefixCode next) state.nextCode).1, state.nextCode + 1,
        next.toUInt16, state.outputCodes ++ [state.prefixCode]⟩ := by
  simp only [oldLzwStep, missed, stored, Bool.false_eq_true, if_false]

section Step

variable {state : OldLzwState} {table : List (List UInt8)} {current : List UInt8}
  (refines : HashRefines state table current)

include refines

theorem HashRefines.known : current ∈ table := List.mem_of_getElem? refines.code

theorem HashRefines.total : Total table :=
  fun letter => List.mem_of_getElem? (roots_at_byte refines.roots letter)

theorem HashRefines.code_eq : UInt16.ofNat (table.idxOf current) = state.prefixCode := by
  rw [nodup_code refines.distinct (getElem_idxOf refines.known) refines.code, UInt16.ofNat_toNat]

theorem HashRefines.short_iff : state.prefixCode.toNat < 256 ↔ current.length = 1 := by
  constructor
  · intro root
    rw [roots_at_root refines.roots root refines.code]
    rfl
  · intro single
    obtain ⟨letter, rfl⟩ := List.length_eq_one_iff.mp single
    rw [nodup_code refines.distinct refines.code (roots_at_byte refines.roots letter)]
    exact letter.toNat_lt

theorem HashRefines.hit {next : UInt8} (noClash : ¬Clash state.prefixCode next)
    (member : current ++ [next] ∈ table) (few : table.length ≤ 8192) :
    HashRefines (oldLzwStep state next) table (current ++ [next]) ∧
      (oldLzwStep state next).outputCodes = state.outputCodes := by
  have atEdge := getElem_idxOf member
  have inside := List.idxOf_lt_length_of_mem member
  have code : (UInt16.ofNat (table.idxOf (current ++ [next]))).toNat = table.idxOf (current ++ [next]) := by
    rw [UInt16.toNat_ofNat']
    omega
  rw [← code] at atEdge
  have found := (refines.edges state.prefixCode next _ noClash).mpr ⟨current, refines.code, atEdge⟩
  rw [oldLzwStep_hit found]
  exact ⟨{ refines with code := atEdge }, rfl⟩

theorem HashRefines.missed {next : UInt8} (noClash : ¬Clash state.prefixCode next)
    (fresh : current ++ [next] ∉ table) :
    state.dictionary.lookup (combinedKey state.prefixCode next) = none := by
  cases found : state.dictionary.lookup (combinedKey state.prefixCode next) with
  | none => rfl
  | some j =>
    obtain ⟨string, atPrefix, atEdge⟩ := (refines.edges state.prefixCode next j noClash).mp found
    rw [refines.code, Option.some.injEq] at atPrefix
    rw [← atPrefix] at atEdge
    exact absurd (List.mem_of_getElem? atEdge) fresh

theorem HashRefines.clashed {next : UInt8} (clash : Clash state.prefixCode next) : oldLzwStep state next = state := by
  obtain ⟨root, rfl⟩ := clash
  have number : (UInt8.ofNat state.prefixCode.toNat).toUInt16 = state.prefixCode := by
    apply UInt16.toNat_inj.mp
    rw [UInt8.toNat_toUInt16, UInt8.toNat_ofNat_of_lt' root]
  have found := refines.clash (UInt8.ofNat state.prefixCode.toNat)
  rw [number] at found
  exact oldLzwStep_hit found

theorem HashRefines.edges_append {next : UInt8} (fresh : current ++ [next] ∉ table)
    {prefixCode : UInt16} {nextChar : UInt8} {j : UInt16} (noClash : ¬Clash prefixCode nextChar) :
    ((state.dictionary.lookup (combinedKey prefixCode nextChar)).or
        (if combinedKey prefixCode nextChar = combinedKey state.prefixCode next then some state.nextCode else none) =
          some j) ↔
      ∃ string, (table ++ [current ++ [next]])[prefixCode.toNat]? = some string ∧
        (table ++ [current ++ [next]])[j.toNat]? = some (string ++ [nextChar]) := by
  simp only [getElem?_concat_iff]
  by_cases same : combinedKey prefixCode nextChar = combinedKey state.prefixCode next
  · obtain ⟨rfl, rfl⟩ := combinedKey_inj same
    rw [refines.missed noClash fresh, if_pos rfl, Option.none_or, Option.some.injEq]
    constructor
    · rintro rfl
      exact ⟨current, Or.inl refines.code, Or.inr ⟨refines.size, rfl⟩⟩
    · rintro ⟨string, atPrefix | ⟨outside, _⟩, atEdge⟩
      · rw [refines.code, Option.some.injEq] at atPrefix
        rw [← atPrefix] at atEdge
        rcases atEdge with old | ⟨last, _⟩
        · exact absurd (List.mem_of_getElem? old) fresh
        · exact UInt16.toNat_inj.mp (refines.size.trans last.symm)
      · have inside := (List.getElem?_eq_some_iff.mp refines.code).1
        omega
  · rw [if_neg same, Option.or_none, refines.edges prefixCode nextChar j noClash]
    constructor
    · rintro ⟨string, atPrefix, atEdge⟩
      exact ⟨string, Or.inl atPrefix, Or.inl atEdge⟩
    · rintro ⟨string, atPrefix | ⟨_, rfl⟩, atEdge | ⟨_, built⟩⟩
      · exact ⟨string, atPrefix, atEdge⟩
      · obtain ⟨rfl, letters⟩ := List.append_inj' built rfl
        have codes := nodup_code refines.distinct atPrefix refines.code
        rw [UInt16.toNat_inj.mp codes, (List.cons.inj letters).1] at same
        exact absurd rfl same
      -- a string longer by one letter would have brought the new one into the table before
      · have long : current ++ [next] ≠ [] := List.append_ne_nil_of_right_ne_nil _ (List.cons_ne_nil _ _)
        exact absurd (refines.closed _ nextChar long (List.mem_of_getElem? atEdge)) fresh
      · have lengths := congrArg List.length built
        simp at lengths

theorem HashRefines.miss {next : UInt8} (noClash : ¬Clash state.prefixCode next) (fresh : current ++ [next] ∉ table)
    (few : state.nextCode.toNat < 8192)
    (stored : (state.dictionary.insert (combinedKey state.prefixCode next) state.nextCode).2 = false) :
    HashRefines (oldLzwStep state next) (table ++ [current ++ [next]]) [next] ∧
      (oldLzwStep state next).outputCodes = state.outputCodes ++ [state.prefixCode] := by
  rw [oldLzwStep_miss (refines.missed noClash fresh) stored]
  refine ⟨⟨?_, ?_, ?_, ?_, ?_, ?_, ?_, ?_, ?_⟩, rfl⟩
  · rw [(insert_toTable _ _ _).1]
    exact refines.sound.insert
  · exact refines.roots.trans (List.prefix_append _ _)
  · rw [← List.concat_eq_append]
    exact refines.distinct.concat fresh
  · intro member
    rcases List.mem_append.mp member with old | new
    · exact refines.nonempty old
    · exact absurd (List.mem_singleton.mp new).symm (List.append_ne_nil_of_right_ne_nil _ (List.cons_ne_nil _ _))
  · exact refines.closed.append refines.known next
  · have size := refines.size
    rw [List.length_append, List.length_singleton, ← size]
    show (state.nextCode + 1).toNat = _
    rw [UInt16.toNat_add]
    exact Nat.mod_eq_of_lt (show state.nextCode.toNat + 1 < 65536 by omega)
  · have letter := roots_at_byte (refines.roots.trans (List.prefix_append table [current ++ [next]])) next
    rwa [← UInt8.toNat_toUInt16] at letter
  · intro byte
    rw [insert_stored refines.sound stored, refines.clash byte]
    rfl
  · intro prefixCode nextChar j noClash
    rw [insert_stored refines.sound stored]
    exact refines.edges_append fresh noClash

end Step

def oldOutput (state : OldLzwState) (input : List UInt8) : List UInt16 :=
  (input.foldl oldLzwStep state).outputCodes ++ [(input.foldl oldLzwStep state).prefixCode]

theorem oldOutput_cons (state : OldLzwState) (next : UInt8) (input : List UInt8) :
    oldOutput state (next :: input) = oldOutput (oldLzwStep state next) input := rfl

theorem oldLzwStep_output (state : OldLzwState) (next : UInt8) :
    state.outputCodes <+: (oldLzwStep state next).outputCodes := by
  unfold oldLzwStep
  dsimp only
  split
  · exact List.prefix_refl _
  · exact List.prefix_append _ _

theorem oldOutput_prefix (state : OldLzwState) (input : List UInt8) :
    state.outputCodes <+: oldOutput state input := by
  induction input generalizing state with
  | nil => exact List.prefix_append _ _
  | cons next input ih => exact (oldLzwStep_output state next).trans (ih _)

theorem oldOutput_head {state : OldLzwState} {table : List (List UInt8)} {current : List UInt8} (input : List UInt8)
    (refines : HashRefines state table current) (admissible : Admissible state input) :
    ∃ code rest string, oldOutput state input = state.outputCodes ++ code :: rest ∧
      table[code.toNat]? = some string ∧ current <+: string := by
  induction input generalizing state current with
  | nil => exact ⟨_, [], current, rfl, refines.code, List.prefix_refl _⟩
  | cons next input ih =>
    have later := admissible.later
    rw [oldOutput_cons]
    by_cases clash : Clash state.prefixCode next
    · rw [refines.clashed clash] at later ⊢
      exact ih refines later
    · by_cases member : current ++ [next] ∈ table
      · have few : table.length ≤ 8192 := Nat.le_of_lt (refines.size ▸ admissible.now)
        obtain ⟨after, output⟩ := refines.hit clash member few
        obtain ⟨code, rest, string, codes, atCode, begins⟩ := ih after later
        rw [output] at codes
        exact ⟨code, rest, string, codes, atCode, (List.prefix_append _ _).trans begins⟩
      · obtain ⟨_, output⟩ := refines.miss clash member admissible.now
          (admissible.first (refines.missed clash member))
        obtain ⟨rest, codes⟩ := oldOutput_prefix (oldLzwStep state next) input
        refine ⟨state.prefixCode, rest, current, ?_, refines.code, List.prefix_refl _⟩
        rw [← codes, output, List.append_assoc, List.singleton_append]

theorem concat_heads_eq {table : List (List UInt8)} {letter left right : UInt8} {code : Nat}
    {leftRest rightRest : List UInt8}
    (atLeft : (table ++ [[letter] ++ [left]])[code]? = some ([left] ++ leftRest))
    (atRight : (table ++ [[letter] ++ [right]])[code]? = some ([right] ++ rightRest)) : left = right := by
  rcases getElem?_concat_iff.mp atLeft with old | ⟨last, built⟩
  · rcases getElem?_concat_iff.mp atRight with known | ⟨outside, _⟩
    · rw [known, Option.some.injEq] at old
      exact (List.cons.inj old).1.symm
    · exact absurd (List.getElem?_eq_some_iff.mp old).1 (outside ▸ Nat.lt_irrefl _)
  · rcases getElem?_concat_iff.mp atRight with known | ⟨_, otherBuilt⟩
    · exact absurd (List.getElem?_eq_some_iff.mp known).1 (last ▸ Nat.lt_irrefl _)
    · exact (List.cons.inj built).1.symm.trans (List.cons.inj otherBuilt).1

/-- After the first clash the outputs differ: the zero is lost, so no string that begins with it follows. -/
theorem oldOutput_clash {state : OldLzwState} {table : List (List UInt8)} {letter : UInt8} (input : List UInt8)
    (refines : HashRefines state table [letter]) (admissible : Admissible state input) {code : Nat}
    {string : List UInt8} (atCode : (table ++ [[letter] ++ [0]])[code]? = some string) (zero : [0] <+: string)
    (rest : List UInt16) :
    oldOutput state input ≠ state.outputCodes ++ state.prefixCode :: UInt16.ofNat code :: rest := by
  have few : table.length < 8192 := refines.size ▸ admissible.now
  have inside := (List.getElem?_eq_some_iff.mp atCode).1
  rw [List.length_append, List.length_singleton] at inside
  have number : (UInt16.ofNat code).toNat = code := by
    rw [UInt16.toNat_ofNat']
    omega
  have root := refines.short_iff.mpr rfl
  induction input generalizing state with
  | nil =>
    intro same
    have lengths := congrArg List.length same
    simp [oldOutput] at lengths
  | cons next input ih =>
    have later := admissible.later
    rw [oldOutput_cons]
    by_cases clash : Clash state.prefixCode next
    · rw [refines.clashed clash] at later ⊢
      exact ih refines later root
    · have nonzero : next ≠ 0 := fun zero => clash ⟨root, zero⟩
      by_cases member : [letter] ++ [next] ∈ table
      · obtain ⟨after, output⟩ := refines.hit clash member (Nat.le_of_lt few)
        obtain ⟨first, others, other, codes, atFirst, begins⟩ := oldOutput_head input after later
        intro same
        rw [codes, output, List.append_cancel_left_eq, List.cons.injEq] at same
        rw [same.1, refines.code, Option.some.injEq] at atFirst
        have longer := begins.length_le
        rw [← atFirst] at longer
        simp at longer
      · obtain ⟨after, output⟩ := refines.miss clash member admissible.now
          (admissible.first (refines.missed clash member))
        obtain ⟨first, others, other, codes, atFirst, begins⟩ := oldOutput_head input after later
        intro same
        rw [codes, output, List.append_assoc, List.append_cancel_left_eq, List.singleton_append, List.cons.injEq,
          List.cons.injEq] at same
        rw [same.2.1, number] at atFirst
        obtain ⟨_, rfl⟩ := begins
        obtain ⟨_, rfl⟩ := zero
        exact nonzero (concat_heads_eq atFirst atCode)

/-- A string of one byte is followed by one that does not begin with a zero. -/
def NoZeroBehind (string following : List UInt8) : Prop := ¬(string.length = 1 ∧ following.head? = some 0)

instance : DecidableRel NoZeroBehind :=
  fun string following => inferInstanceAs (Decidable (¬(string.length = 1 ∧ following.head? = some 0)))

theorem HashRefines.noZeroBehind {state : OldLzwState} {table : List (List UInt8)} {current following : List UInt8}
    (refines : HashRefines state table current) {next : UInt8} (noClash : ¬Clash state.prefixCode next)
    (begins : [next] <+: following) : NoZeroBehind current following := by
  rintro ⟨single, zero⟩
  obtain ⟨_, rfl⟩ := begins
  exact noClash ⟨refines.short_iff.mpr single, Option.some.inj zero⟩

theorem HashRefines.noZero_append {state : OldLzwState} {table : List (List UInt8)} {current : List UInt8}
    (refines : HashRefines state table current) {next : UInt8} (noClash : ¬Clash state.prefixCode next)
    (noZero : ∀ byte : UInt8, [byte] ++ [0] ∉ table) (byte : UInt8) :
    [byte] ++ [0] ∉ table ++ [current ++ [next]] := by
  intro zero
  rcases List.mem_append.mp zero with old | new
  · exact noZero byte old
  · obtain ⟨rfl, zeros⟩ := List.append_inj' (List.mem_singleton.mp new) rfl
    exact noClash ⟨refines.short_iff.mpr rfl, (List.cons.inj zeros).1.symm⟩

theorem oldOutput_iff {state : OldLzwState} {table : List (List UInt8)} {current : List UInt8} (input : List UInt8)
    (refines : HashRefines state table current) (admissible : Admissible state input)
    (noZero : ∀ byte : UInt8, [byte] ++ [0] ∉ table) :
    oldOutput state input = state.outputCodes ++ (encode maxDictSize table current input).map UInt16.ofNat ↔
      (phrases maxDictSize table current input).IsChain NoZeroBehind := by
  induction input generalizing state table current with
  | nil =>
    rw [encode, phrases, List.map_singleton, refines.code_eq]
    exact ⟨fun _ => List.IsChain.singleton _, fun _ => rfl⟩
  | cons next input ih =>
    have later := admissible.later
    have few : table.length < 8192 := refines.size ▸ admissible.now
    have room : add maxDictSize table (current ++ [next]) = table ++ [current ++ [next]] := if_pos few
    rw [oldOutput_cons, encode, phrases]
    by_cases clash : Clash state.prefixCode next
    · obtain ⟨root, rfl⟩ := clash
      obtain ⟨letter, rfl⟩ := List.length_eq_one_iff.mp (refines.short_iff.mp root)
      have fresh := noZero letter
      rw [refines.clashed ⟨root, rfl⟩] at later ⊢
      rw [if_neg fresh, if_neg fresh, room, List.map_cons, refines.code_eq]
      obtain ⟨first, rest, strings, begins⟩ := phrases_head maxDictSize (table ++ [[letter] ++ [0]]) [0] input
      obtain ⟨zeroCode, codes, string, emitted, atCode, zero⟩ :=
        encode_head maxDictSize input (List.mem_append_left [[letter] ++ [0]] (refines.total 0))
      rw [emitted, strings, List.map_cons, List.isChain_cons_cons]
      constructor
      · intro same
        exact absurd same (oldOutput_clash input refines later atCode zero _)
      · rintro ⟨apart, _⟩
        obtain ⟨_, rfl⟩ := begins
        exact absurd ⟨rfl, rfl⟩ apart
    · by_cases member : current ++ [next] ∈ table
      · obtain ⟨after, output⟩ := refines.hit clash member (Nat.le_of_lt few)
        rw [if_pos member, if_pos member, ← output]
        exact ih after later noZero
      · obtain ⟨after, output⟩ := refines.miss clash member admissible.now
          (admissible.first (refines.missed clash member))
        have rest := ih after later (refines.noZero_append clash noZero)
        rw [output, List.append_assoc, List.singleton_append] at rest
        obtain ⟨first, others, strings, begins⟩ :=
          phrases_head maxDictSize (table ++ [current ++ [next]]) [next] input
        rw [if_neg member, if_neg member, room, List.map_cons, refines.code_eq, rest, strings,
          List.isChain_cons_cons]
        exact (and_iff_right (refines.noZeroBehind clash begins)).symm

theorem byteStrings_no_longer (string : List UInt8) (letter : UInt8) (nonempty : string ≠ []) :
    string ++ [letter] ∉ byteStrings := by
  intro member
  have single := byteStrings_single _ member
  rw [List.length_append, List.length_singleton] at single
  exact nonempty (List.length_eq_zero_iff.mp (by omega))

theorem oldLzwStart_refines (assocMem : AssocMem) (first : UInt8) (outputCodes : List UInt16) :
    HashRefines (oldLzwStart assocMem first outputCodes) byteStrings [first] := by
  unfold oldLzwStart
  constructor
  · dsimp only
    exact oldInitialDictionary_sound assocMem
  · exact List.prefix_refl _
  · exact byteStrings_nodup
  · intro member
    exact absurd (byteStrings_single _ member) (by decide)
  · intro string letter nonempty member
    exact absurd member (byteStrings_no_longer string letter nonempty)
  · rw [byteStrings_length]
    rfl
  · dsimp only
    rw [UInt8.toNat_toUInt16, byteStrings_at]
  · dsimp only
    exact oldInitialDictionary_clash assocMem
  · intro prefixCode nextChar j noClash
    dsimp only
    rw [oldInitialDictionary_other assocMem noClash]
    constructor
    · intro found
      cases found
    · rintro ⟨string, atPrefix, atEdge⟩
      have single := byteStrings_single _ (List.mem_of_getElem? atPrefix)
      have nonempty : string ≠ [] := List.length_pos_iff.mp (by omega)
      exact absurd (List.mem_of_getElem? atEdge) (byteStrings_no_longer string nextChar nonempty)

/-- On an input whose codes and keys all find room, the hash-table encoder agrees with the one over strings exactly
    when no string of one byte is followed by one that begins with a zero. -/
theorem old_lzw_agrees_iff (assocMem : AssocMem) (first : UInt8) (input : List UInt8) (outputCodes : List UInt16)
    (admissible : Admissible (oldLzwStart assocMem first outputCodes) input) :
    oldLzwEncode assocMem (first :: input) outputCodes = outputCodes ++ stringCodeWords (first :: input) ↔
      (lzwPhrases (first :: input)).IsChain NoZeroBehind := by
  rw [stringCodeWords_eq]
  exact oldOutput_iff input (oldLzwStart_refines assocMem first outputCodes) admissible
    fun byte => byteStrings_no_longer [byte] 0 (List.cons_ne_nil _ _)

theorem admissible_single {state : OldLzwState} {next : UInt8} (few : state.nextCode.toNat < 8191)
    (stored : state.dictionary.lookup (combinedKey state.prefixCode next) = none →
      (state.dictionary.insert (combinedKey state.prefixCode next) state.nextCode).2 = false) :
    Admissible state [next] := by
  constructor
  · intro n within
    rcases Nat.le_one_iff_eq_zero_or_eq_one.mp within with rfl | rfl
    · exact Nat.lt_succ_of_lt few
    · show (oldLzwStep state next).nextCode.toNat < 8192
      unfold oldLzwStep
      dsimp only
      split
      · exact Nat.lt_succ_of_lt few
      · dsimp only
        split
        · exact Nat.lt_succ_of_lt few
        · rw [UInt16.toNat_add]
          show (state.nextCode.toNat + 1) % 65536 < 8192
          omega
  · intro n inside
    obtain rfl : n = 0 := Nat.lt_one_iff.mp inside
    exact stored

theorem admissible_oldLzwStart {assocMem : AssocMem} {first next : UInt8} (outputCodes : List UInt16)
    (stored : (oldInitialDictionary assocMem).lookup (combinedKey first.toUInt16 next) = none →
      ((oldInitialDictionary assocMem).insert (combinedKey first.toUInt16 next) 256).2 = false) :
    Admissible (oldLzwStart assocMem first outputCodes) [next] := by
  apply admissible_single
  · unfold oldLzwStart
    dsimp only
    decide
  · unfold oldLzwStart
    dsimp only
    exact stored

def zeroedMem : AssocMem := ⟨fun _ => 0, fun _ => 0, 0⟩

theorem old_lzw_agrees_iff_two : oldLzwEncode zeroedMem [65, 66] [] = [] ++ stringCodeWords [65, 66] := by
  have stored : ((oldInitialDictionary zeroedMem).insert (combinedKey (65 : UInt8).toUInt16 66) 256).2 = false := by
    decide +kernel
  have admissible : Admissible (oldLzwStart zeroedMem 65 []) [66] := admissible_oldLzwStart [] fun _ => stored
  have apart : (lzwPhrases [65, 66]).IsChain NoZeroBehind := by decide +kernel
  exact (old_lzw_agrees_iff zeroedMem 65 [66] [] admissible).mpr apart

/-- The zero behind the first byte is lost. -/
theorem old_lzw_loses_zero :
    ¬∀ (assocMem : AssocMem) (first : UInt8) (input : List UInt8) (outputCodes : List UInt16),
      Admissible (oldLzwStart assocMem first outputCodes) input →
      oldLzwEncode assocMem (first :: input) outputCodes = outputCodes ++ stringCodeWords (first :: input) := by
  intro always
  have clash := oldInitialDictionary_clash zeroedMem 65
  have admissible : Admissible (oldLzwStart zeroedMem 65 []) [0] := by
    apply admissible_oldLzwStart
    intro missed
    rw [clash] at missed
    cases missed
  have agrees := always zeroedMem 65 [0] [] admissible
  have lost : oldLzwEncode zeroedMem [65, 0] [] ≠ [] ++ stringCodeWords [65, 0] := by decide +kernel
  exact lost agrees

end DedupProof
