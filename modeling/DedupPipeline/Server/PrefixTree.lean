import DedupPipeline.Server.LzwBounds

namespace DedupProof

open DedupModel StringTable

def spelled (dictionary : Dictionary) : Nat → Nat → List UInt8
  | 0, code => [UInt8.ofNat code]
  | fuel + 1, code =>
    if code < 256 then [UInt8.ofNat code]
    else spelled dictionary fuel (dictionary code).1.toNat ++ [(dictionary code).2.toUInt8]

/-- The string that a code denotes. Prefix codes are smaller, so `code` of them are enough. -/
def denoted (dictionary : Dictionary) (code : Nat) : List UInt8 := spelled dictionary code code

theorem Represents.spelled {dictionary : Dictionary} {table : List (List UInt8)}
    (represents : Represents dictionary table) {fuel code : Nat} (enough : code ≤ fuel)
    {string : List UInt8} (atCode : table[code]? = some string) : spelled dictionary fuel code = string := by
  induction fuel generalizing code string with
  | zero => exact (represents.at_root (by omega) atCode).symm
  | succ fuel ih =>
    rw [DedupProof.spelled]
    split
    · rename_i root
      exact (represents.at_root root atCode).symm
    · rename_i deep
      have inside := (List.getElem?_eq_some_iff.mp atCode).1
      obtain ⟨parent, letter, smaller, atPrefix, last, atEdge⟩ := represents.edges code (by omega) inside
      rw [atCode, Option.some.injEq] at atEdge
      rw [atEdge, last, UInt8.toUInt8_toUInt16, ih (by omega) atPrefix]

theorem Represents.denoted {dictionary : Dictionary} {table : List (List UInt8)}
    (represents : Represents dictionary table) {code : Nat} (inside : code < table.length) :
    denoted dictionary code = table[code] :=
  represents.spelled (Nat.le_refl code) (List.getElem?_eq_getElem inside)

structure PrefixTree (state : LzwState) (read : List UInt8) : Prop where
  current : state.currentCode.toNat < state.dictSize
  parents : ∀ j, 256 ≤ j → j < state.dictSize → (state.dictionary j).1.toNat < j
  edges : ∀ i j, 256 ≤ i → i < state.dictSize → 256 ≤ j → j < state.dictSize →
    state.dictionary i = state.dictionary j → i = j
  long : ∀ j, 256 ≤ j → j < state.dictSize → 2 ≤ (denoted state.dictionary j).length
  distinct : ∀ i j, 256 ≤ i → i < state.dictSize → 256 ≤ j → j < state.dictSize →
    denoted state.dictionary i = denoted state.dictionary j → i = j
  occurs : ∀ j, 256 ≤ j → j < state.dictSize → denoted state.dictionary j <:+: read

theorem Refines.prefixTree {state : LzwState} {table : List (List UInt8)} {current read : List UInt8}
    (refines : Refines state table current) (occurs : Occurs table current read) : PrefixTree state read := by
  obtain ⟨represents, size, code⟩ := refines
  have distinct (i j : Nat) (iLive : i < state.dictSize) (jLive : j < state.dictSize)
      (same : denoted state.dictionary i = denoted state.dictionary j) : i = j := by
    rw [size] at iLive jLive
    rw [represents.denoted iLive, represents.denoted jLive] at same
    exact represents.distinct.getElem_inj_iff.mp same
  have long (j : Nat) (deep : 256 ≤ j) (live : j < state.dictSize) : 2 ≤ (denoted state.dictionary j).length := by
    rw [size] at live
    obtain ⟨parent, letter, _, atPrefix, _, atEdge⟩ := represents.edges j deep live
    have nonempty := List.length_pos_iff.mpr (represents.ne_nil atPrefix)
    rw [denoted, represents.spelled (Nat.le_refl j) atEdge, List.length_append, List.length_singleton]
    omega
  refine ⟨?_, ?_, ?_, long, fun i j _ iLive _ jLive => distinct i j iLive jLive, ?_⟩
  · rw [size]
    exact (List.getElem?_eq_some_iff.mp code).1
  · intro j deep live
    obtain ⟨_, _, smaller, _⟩ := represents.edges j deep (size ▸ live)
    exact smaller
  · intro i j iDeep iLive jDeep jLive same
    apply distinct i j iLive jLive
    rw [size] at iLive jLive
    obtain ⟨left, leftLetter, _, leftPrefix, leftLast, leftEdge⟩ := represents.edges i iDeep iLive
    obtain ⟨right, rightLetter, _, rightPrefix, rightLast, rightEdge⟩ := represents.edges j jDeep jLive
    rw [same] at leftPrefix leftLast
    rw [rightPrefix, Option.some.injEq] at leftPrefix
    rw [rightLast, UInt8.toUInt16_inj] at leftLast
    rw [denoted, denoted, represents.spelled (Nat.le_refl i) leftEdge,
      represents.spelled (Nat.le_refl j) rightEdge, leftPrefix, leftLast]
  · intro j deep live
    have entry := represents.denoted (size ▸ live)
    have inside := long j deep live
    rw [entry] at inside ⊢
    exact occurs.entries _ (List.getElem_mem _) inside

theorem lzwStep_occurs {state : LzwState} {table : List (List UInt8)} {current read : List UInt8}
    (refines : Refines state table current) (occurs : Occurs table current read) (next : UInt8) :
    ∃ table current, Refines (lzwStep state next) table current ∧ Occurs table current (read ++ [next]) := by
  by_cases member : current ++ [next] ∈ table
  · exact ⟨table, _, (lzwStep_found refines member).1, occurs.extend next⟩
  · exact ⟨_, _, (lzwStep_missed refines member).1, occurs.restart maxDictSize next⟩

theorem foldl_lzwStep_occurs (input : List UInt8) {state : LzwState} {table : List (List UInt8)}
    {current read : List UInt8} (refines : Refines state table current) (occurs : Occurs table current read) :
    ∃ table current, Refines (input.foldl lzwStep state) table current ∧ Occurs table current (read ++ input) := by
  induction input generalizing state table current read with
  | nil => exact ⟨table, current, refines, by rwa [List.append_nil]⟩
  | cons next input ih =>
    obtain ⟨_, _, nextRefines, nextOccurs⟩ := lzwStep_occurs refines occurs next
    obtain ⟨table, current, final, finalOccurs⟩ := ih nextRefines nextOccurs
    rw [List.append_assoc, List.singleton_append] at finalOccurs
    rw [List.foldl_cons]
    exact ⟨table, current, final, finalOccurs⟩

theorem lzwStart_occurs (first : UInt8) : Occurs byteStrings [first] [first] := by
  refine ⟨List.suffix_refl _, ?_⟩
  intro string member long
  rw [byteStrings_single string member] at long
  omega

theorem lzwAt_prefixTree (dictionary : Dictionary) (first : UInt8) (input : List UInt8) (steps : Nat) :
    PrefixTree (lzwAt lzwStep dictionary first input steps) (first :: input.take steps) := by
  obtain ⟨_, _, refines, occurs⟩ :=
    foldl_lzwStep_occurs (input.take steps) (lzwStart_refines dictionary first) (lzwStart_occurs first)
  rw [List.singleton_append] at occurs
  exact refines.prefixTree occurs

def matchesEntry (dictionary : Dictionary) (currentCode : UInt16) (nextChar : UInt8) (j : Nat) : Bool :=
  (dictionary j).1 == currentCode && (dictionary j).2 == nextChar.toUInt16

theorem find?_of_unique {α : Type*} {p : α → Bool} {left right : List α} (same : ∀ a, a ∈ left ↔ a ∈ right)
    (unique : ∀ a ∈ left, ∀ b ∈ left, p a = true → p b = true → a = b) : left.find? p = right.find? p := by
  cases found : right.find? p with
  | none =>
    rw [List.find?_eq_none] at found ⊢
    exact fun a member => found a ((same a).mp member)
  | some b =>
    have member := (same b).mpr (List.mem_of_find?_eq_some found)
    have holds := List.find?_some found
    cases other : left.find? p with
    | none => exact absurd holds (List.find?_eq_none.mp other b member)
    | some a =>
      rw [unique a (List.mem_of_find?_eq_some other) b member (List.find?_some other) holds]

/-- A search finds the only entry that matches, whatever the order in which it looks at the live ones. -/
structure OneMatch (search : Dictionary → Nat → UInt16 → UInt8 → Option Nat) (state : LzwState)
    (currentCode : UInt16) (nextChar : UInt8) : Prop where
  unique : ∀ i j, 256 ≤ i → i < state.dictSize → 256 ≤ j → j < state.dictSize →
    matchesEntry state.dictionary currentCode nextChar i = true →
    matchesEntry state.dictionary currentCode nextChar j = true → i = j
  order : ∀ order : List Nat, (∀ j, j ∈ order ↔ 256 ≤ j ∧ j < state.dictSize) →
    order.find? (matchesEntry state.dictionary currentCode nextChar) =
      search state.dictionary state.dictSize currentCode nextChar
  together : ∀ j, search state.dictionary state.dictSize currentCode nextChar = some j ↔
    256 ≤ j ∧ j < state.dictSize ∧ matchesEntry state.dictionary currentCode nextChar j = true

theorem mem_live {dictSize j : Nat} : j ∈ List.range' 256 (dictSize - 256) ↔ 256 ≤ j ∧ j < dictSize := by
  rw [List.mem_range'_1]
  omega

theorem PrefixTree.oneMatch {state : LzwState} {read : List UInt8} (tree : PrefixTree state read)
    (currentCode : UInt16) (nextChar : UInt8) : OneMatch searchDictionary state currentCode nextChar := by
  have entry {j : Nat} (holds : matchesEntry state.dictionary currentCode nextChar j = true) :
      state.dictionary j = (currentCode, nextChar.toUInt16) := by
    rw [matchesEntry, Bool.and_eq_true, beq_iff_eq, beq_iff_eq] at holds
    exact Prod.ext holds.1 holds.2
  have unique : ∀ i j, 256 ≤ i → i < state.dictSize → 256 ≤ j → j < state.dictSize →
      matchesEntry state.dictionary currentCode nextChar i = true →
      matchesEntry state.dictionary currentCode nextChar j = true → i = j := by
    intro i j iDeep iLive jDeep jLive left right
    exact tree.edges i j iDeep iLive jDeep jLive ((entry left).trans (entry right).symm)
  have scan : searchDictionary state.dictionary state.dictSize currentCode nextChar =
      (List.range' 256 (state.dictSize - 256)).find? (matchesEntry state.dictionary currentCode nextChar) := rfl
  refine ⟨unique, ?_, ?_⟩
  · intro order live
    rw [scan]
    apply find?_of_unique
    · intro j
      rw [live, mem_live]
    · intro i left j right
      obtain ⟨iDeep, iLive⟩ := (live i).mp left
      obtain ⟨jDeep, jLive⟩ := (live j).mp right
      exact unique i j iDeep iLive jDeep jLive
  · intro j
    rw [scan]
    constructor
    · intro found
      obtain ⟨deep, live⟩ := mem_live.mp (List.mem_of_find?_eq_some found)
      exact ⟨deep, live, List.find?_some found⟩
    · rintro ⟨deep, live, holds⟩
      cases found : (List.range' 256 (state.dictSize - 256)).find?
          (matchesEntry state.dictionary currentCode nextChar) with
      | none => exact absurd holds (List.find?_eq_none.mp found j (mem_live.mpr ⟨deep, live⟩))
      | some i =>
        obtain ⟨iDeep, iLive⟩ := mem_live.mp (List.mem_of_find?_eq_some found)
        rw [unique i j iDeep iLive deep live (List.find?_some found) holds]

/-- After every step of the main loop, in software and in hardware, the live entries are a prefix tree of strings
    of the input, and a pair of a code and a character belongs to at most one of them. -/
theorem dictionary_prefix_tree (globals : LzwGlobals) (first : UInt8) (input : List UInt8) (steps : Nat) :
    (PrefixTree (lzwAt lzwStep (initializeDictionary globals).dictionary first input steps)
        (first :: input.take steps) ∧
      ∀ currentCode nextChar, OneMatch searchDictionary
        (lzwAt lzwStep (initializeDictionary globals).dictionary first input steps) currentCode nextChar) ∧
    PrefixTree (lzwAt lzwStepHw (hwInitializeDictionary globals).dictionary first input steps)
        (first :: input.take steps) ∧
      ∀ currentCode nextChar, OneMatch searchHwDictionary
        (lzwAt lzwStepHw (hwInitializeDictionary globals).dictionary first input steps) currentCode nextChar := by
  rw [lzwStepHw_eq, searchHwDictionary_eq]
  have tree := lzwAt_prefixTree (initializeDictionary globals).dictionary first input steps
  have hwTree := lzwAt_prefixTree (hwInitializeDictionary globals).dictionary first input steps
  exact ⟨⟨tree, tree.oneMatch⟩, hwTree, hwTree.oneMatch⟩

end DedupProof
