import DedupPipeline.Library.BitString
import DedupPipeline.Server.HashedDictionary
import Mathlib.Data.List.Basic

namespace DedupModel

def combinedKey (prefixCode : UInt16) (nextChar : UInt8) : UInt32 := (prefixCode.toUInt32 <<< 8) ||| nextChar.toUInt32

structure OldLzwState where
  dictionary : HashedDictionary
  nextCode : UInt16
  prefixCode : UInt16
  outputCodes : List UInt16

/-- Initialize the dictionary with single-character strings; what `insert` says of collisions is not looked at. -/
def oldInitialDictionary (assocMem : AssocMem) : HashedDictionary :=
  (List.range 256).foldl (fun dictionary i => (dictionary.insert (UInt32.ofNat (i <<< 8) ||| 0) (UInt16.ofNat i)).1)
    (HashedDictionary.empty assocMem)

def oldLzwStep (state : OldLzwState) (nextChar : UInt8) : OldLzwState :=
  let key := combinedKey state.prefixCode nextChar
  match state.dictionary.lookup key with
  | some code => { state with prefixCode := code }
  | none =>
    -- Output the code for the prefix, add new sequence to the dictionary
    let (dictionary, collision) := state.dictionary.insert key state.nextCode
    { dictionary := dictionary
      nextCode := if collision then state.nextCode else state.nextCode + 1
      prefixCode := nextChar.toUInt16
      outputCodes := state.outputCodes ++ [state.prefixCode] }

def oldLzwStart (assocMem : AssocMem) (first : UInt8) (outputCodes : List UInt16) : OldLzwState :=
  ⟨oldInitialDictionary assocMem, 256, first.toUInt16, outputCodes⟩

/-- What `output_codes` holds afterwards; `assoc_mem` is on the stack and not initialized. -/
def oldLzwEncode (assocMem : AssocMem) (inputData : List UInt8) (outputCodes : List UInt16) : List UInt16 :=
  match inputData with
  | [] => outputCodes
  | first :: input =>
    let state := input.foldl oldLzwStep (oldLzwStart assocMem first outputCodes)
    state.outputCodes ++ [state.prefixCode]

end DedupModel

namespace DedupProof

open DedupModel OverflowTable

theorem combinedKey_toNat (prefixCode : UInt16) (nextChar : UInt8) :
    (combinedKey prefixCode nextChar).toNat = prefixCode.toNat * 2 ^ 8 + nextChar.toNat := by
  have code := prefixCode.toNat_lt
  have shifted : (prefixCode.toUInt32 <<< 8).toNat = prefixCode.toNat <<< 8 := by
    rw [UInt32.toNat_shiftLeft, UInt16.toNat_toUInt32]
    exact Nat.mod_eq_of_lt (by rw [Nat.shiftLeft_eq]; show prefixCode.toNat * 2 ^ 8 < 2 ^ 32; omega)
  rw [combinedKey, UInt32.toNat_or, shifted, UInt8.toNat_toUInt32, Nat.or_comm,
    BitString.or_shiftLeft _ nextChar.toNat_lt]

theorem combinedKey_inj {left right : UInt16} {leftNext rightNext : UInt8}
    (same : combinedKey left leftNext = combinedKey right rightNext) : left = right ∧ leftNext = rightNext := by
  have keys := congrArg UInt32.toNat same
  have leftBound := leftNext.toNat_lt
  have rightBound := rightNext.toNat_lt
  rw [combinedKey_toNat, combinedKey_toNat] at keys
  exact ⟨UInt16.toNat_inj.mp (by omega), UInt8.toNat_inj.mp (by omega)⟩

theorem singleKey_eq {i : Nat} (byte : i < 256) :
    UInt32.ofNat (i <<< 8) ||| 0 = combinedKey (UInt16.ofNat i) 0 := by
  apply UInt32.toNat_inj.mp
  rw [combinedKey_toNat, UInt32.or_zero, UInt32.toNat_ofNat', UInt16.toNat_ofNat', Nat.shiftLeft_eq]
  show i * 2 ^ 8 % 2 ^ 32 = i % 2 ^ 16 * 2 ^ 8 + 0
  omega

def singleInserts : List (UInt32 × UInt16) :=
  (List.range 256).map fun i => (combinedKey (UInt16.ofNat i) 0, UInt16.ofNat i)

theorem oldInitialDictionary_eq (assocMem : AssocMem) :
    oldInitialDictionary assocMem = insertEach (HashedDictionary.empty assocMem) singleInserts := by
  rw [insertEach, singleInserts, List.foldl_map, oldInitialDictionary]
  apply List.foldl_ext
  intro dictionary i inside
  rw [singleKey_eq (List.mem_range.mp inside)]

theorem singleInserts_crowded : crowded [] (singleInserts.map fun entry => home entry.1) ≤ associateMemStore := by
  decide +kernel

theorem singleInserts_stored {i : Nat} {key : UInt32} {value : UInt16}
    (inserted : singleInserts[i]? = some (key, value)) :
    Stored home associateMemStore empty singleInserts i key value := by
  have taken : ∀ slot, (empty : Table Nat UInt32 UInt16).slots slot ≠ none ↔ slot ∈ ([] : List Nat) := by
    simp [empty]
  have size : (empty : Table Nat UInt32 UInt16).overflow.length = 0 := rfl
  apply stored_of_crowded taken _ inserted
  rw [size, Nat.zero_add]
  exact singleInserts_crowded

theorem lookup_oldInitialDictionary (assocMem : AssocMem) (key : UInt32) :
    (oldInitialDictionary assocMem).lookup key =
      lookup home (insertAll home associateMemStore empty singleInserts) key := by
  rw [oldInitialDictionary_eq, lookup_toTable, insertEach_toTable, toTable_empty]

theorem singleInserts_at {i : Nat} (byte : i < 256) :
    singleInserts[i]? = some (combinedKey (UInt16.ofNat i) 0, UInt16.ofNat i) := by
  rw [singleInserts, List.getElem?_map, List.getElem?_range byte, Option.map_some]

theorem singleInserts_cases {i : Nat} {key : UInt32} {value : UInt16}
    (inserted : singleInserts[i]? = some (key, value)) : i < 256 ∧ key = combinedKey (UInt16.ofNat i) 0 := by
  have inside := (List.getElem?_eq_some_iff.mp inserted).1
  rw [singleInserts, List.length_map, List.length_range] at inside
  rw [singleInserts_at inside, Option.some.injEq, Prod.mk.injEq] at inserted
  exact ⟨inside, inserted.1.symm⟩

theorem oldInitialDictionary_clash (assocMem : AssocMem) (byte : UInt8) :
    (oldInitialDictionary assocMem).lookup (combinedKey byte.toUInt16 0) = some byte.toUInt16 := by
  have bound := byte.toNat_lt
  have inserted := singleInserts_at bound
  have number : UInt16.ofNat byte.toNat = byte.toUInt16 := by
    apply UInt16.toNat_inj.mp
    rw [UInt16.toNat_ofNat', UInt8.toNat_toUInt16]
    omega
  rw [number] at inserted
  rw [lookup_oldInitialDictionary, lookup_eq_some_iff]
  refine ⟨byte.toNat, singleInserts_stored inserted, ?_⟩
  intro j earlier other stored
  obtain ⟨inside, same⟩ := singleInserts_cases stored.inserted
  have codes := congrArg UInt16.toNat (combinedKey_inj same).1
  rw [UInt8.toNat_toUInt16, UInt16.toNat_ofNat'] at codes
  omega

theorem oldInitialDictionary_other (assocMem : AssocMem) {prefixCode : UInt16} {nextChar : UInt8}
    (other : ¬(prefixCode.toNat < 256 ∧ nextChar = 0)) :
    (oldInitialDictionary assocMem).lookup (combinedKey prefixCode nextChar) = none := by
  rw [lookup_oldInitialDictionary, ← Option.not_isSome_iff_eq_none, lookup_isSome_iff]
  rintro ⟨i, value, stored⟩
  obtain ⟨inside, same⟩ := singleInserts_cases stored.inserted
  obtain ⟨rfl, rfl⟩ := combinedKey_inj same
  apply other
  rw [UInt16.toNat_ofNat']
  exact ⟨by omega, rfl⟩

theorem oldInitialDictionary_sound (assocMem : AssocMem) :
    Sound home associateMemStore (toTable (oldInitialDictionary assocMem)) := by
  rw [oldInitialDictionary_eq, insertEach_toTable, toTable_empty]
  exact insertAll_sound empty_sound singleInserts

end DedupProof
