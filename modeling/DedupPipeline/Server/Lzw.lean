import DedupPipeline.Server.Packing
import Mathlib.Logic.Function.Basic

namespace DedupModel

def inputSize : Nat := 8192
def outputSize : Nat := 40960

/-- A `uint16_t[MAX_DICT_SIZE][2]`: the prefix code and the last character of each entry. -/
abbrev Dictionary := Nat → UInt16 × UInt16

structure LzwGlobals where
  dictionary : Dictionary
  initialized : Bool

def initialGlobals : LzwGlobals := ⟨fun _ => (0, 0), false⟩

def initializeDictionary (globals : LzwGlobals) : LzwGlobals :=
  if globals.initialized then globals
  else {
    dictionary := (List.range 256).foldl
      (fun dictionary i => Function.update dictionary i (0xFFFF, UInt16.ofNat i)) globals.dictionary
    initialized := true }

/-- The local variables of the main loop; `codeWords` holds the words stored so far, so its length
    is `code_word_count`. -/
structure LzwState where
  dictionary : Dictionary
  dictSize : Nat
  currentCode : UInt16
  codeWords : List UInt16

/-- Search for the combined string in the dictionary; the loop breaks at the first match. -/
def searchDictionary (dictionary : Dictionary) (dictSize : Nat) (currentCode : UInt16)
    (nextChar : UInt8) : Option Nat :=
  (List.range' 256 (dictSize - 256)).find? fun j =>
    (dictionary j).1 == currentCode && (dictionary j).2 == nextChar.toUInt16

def growDictionary (state : LzwState) (nextChar : UInt8) : LzwState :=
  -- Add new string to the dictionary if there's space
  if state.dictSize < maxDictSize then
    { state with
      dictionary := Function.update state.dictionary state.dictSize
        (state.currentCode, nextChar.toUInt16)
      dictSize := state.dictSize + 1 }
  else state

def lzwStep (state : LzwState) (nextChar : UInt8) : LzwState :=
  match searchDictionary state.dictionary state.dictSize state.currentCode nextChar with
  | some j => { state with currentCode := UInt16.ofNat j }
  | none =>
    -- Output the current_code, start new string with next_char
    { growDictionary state nextChar with
      codeWords := state.codeWords ++ [state.currentCode]
      currentCode := nextChar.toUInt16 }

def lzwStart (dictionary : Dictionary) (first : UInt8) : LzwState :=
  ⟨dictionary, 256, first.toUInt16, []⟩

structure LzwOutput where
  compressedData : List UInt8
  compressedSize : UInt32

def lzwEncode (globals : LzwGlobals) (inputData : List UInt8) : LzwOutput × LzwGlobals :=
  match inputData with
  -- Handle empty input
  | [] => (⟨[], 0⟩, globals)
  | first :: input =>
    let globals := initializeDictionary globals
    let state := input.foldl lzwStep (lzwStart globals.dictionary first)
    let compressedData := packCodeWords (state.codeWords ++ [state.currentCode])
    let compressedSize := UInt32.ofNat compressedData.length
    let globals := { globals with dictionary := state.dictionary }
    if compressedSize = 0 then (⟨compressedData, 0⟩, globals)
    else (⟨compressedData, compressedSize⟩, globals)

end DedupModel
