import DedupPipeline.Library.Memory
import DedupPipeline.Server.LzwTable

namespace DedupModel

def hwInitializeDictionary (globals : LzwGlobals) : LzwGlobals :=
  if globals.initialized then globals
  else {
    dictionary := (List.range 256).foldl
      (fun dictionary i => Function.update dictionary i (0xFFFF, UInt16.ofNat i)) globals.dictionary
    initialized := true }

def searchHwDictionary (dictionary : Dictionary) (dictSize : Nat) (currentCode : UInt16) (nextChar : UInt8) :
    Option Nat :=
  (List.range' 256 (dictSize - 256)).find? fun j =>
    let prefixMatch := (dictionary j).1 == currentCode
    let characterMatch := (dictionary j).2 == nextChar.toUInt16
    prefixMatch.and characterMatch

def lzwStepHw (state : LzwState) (nextChar : UInt8) : LzwState :=
  match searchHwDictionary state.dictionary state.dictSize state.currentCode nextChar with
  | some j => { state with currentCode := UInt16.ofNat j }
  | none =>
    { growDictionary state nextChar with
      codeWords := state.codeWords ++ [state.currentCode]
      currentCode := nextChar.toUInt16 }

structure KernelOutput where
  compressedData : Memory.Store UInt8
  compressedSizeBuf : UInt32
  globals : LzwGlobals

/-- The pointers are device buffers; `input_size` is 0 when there is no first byte to read. The loop bodies are those of
    `lzw.cpp` but for the search. -/
def lzwEncodeHw (globals : LzwGlobals) (inputData : Memory.Store UInt8) (inputSize : UInt16)
    (compressedData : Memory.Store UInt8) : KernelOutput :=
  match Memory.read inputData 0 inputSize.toNat with
  | [] => ⟨compressedData, 0, globals⟩
  | first :: input =>
    let globals := hwInitializeDictionary globals
    let state := input.foldl lzwStepHw (lzwStart globals.dictionary first)
    let bytes := packCodeWords (state.codeWords ++ [state.currentCode])
    ⟨Memory.write compressedData 0 bytes, UInt32.ofNat bytes.length, { globals with dictionary := state.dictionary }⟩

end DedupModel

namespace DedupProof

open DedupModel

theorem searchHwDictionary_eq : searchHwDictionary = searchDictionary := by
  funext dictionary dictSize currentCode nextChar
  simp only [searchHwDictionary, searchDictionary]

theorem lzwStepHw_eq : lzwStepHw = lzwStep := by
  funext state nextChar
  rcases Option.eq_none_or_eq_some (searchDictionary state.dictionary state.dictSize state.currentCode nextChar) with
    missed | ⟨j, found⟩
  · rw [lzwStep_miss missed]
    unfold lzwStepHw
    rw [searchHwDictionary_eq, missed]
  · rw [lzwStep_match found]
    unfold lzwStepHw
    rw [searchHwDictionary_eq, found]

theorem lzwEncodeHw_output (globals : LzwGlobals) {inputData : Memory.Store UInt8} {inputSize : UInt16}
    (compressedData : Memory.Store UInt8) {chunk : List UInt8}
    (input : Memory.read inputData 0 inputSize.toNat = chunk) (nonempty : chunk ≠ []) :
    (lzwEncodeHw globals inputData inputSize compressedData).compressedData =
        Memory.write compressedData 0 (lzwBytes chunk) ∧
      (lzwEncodeHw globals inputData inputSize compressedData).compressedSizeBuf =
        UInt32.ofNat (lzwBytes chunk).length := by
  cases chunk with
  | nil => exact absurd rfl nonempty
  | cons first rest =>
    simp only [lzwEncodeHw, input, lzwStepHw_eq, packed_lzwBytes, and_self]

end DedupProof
