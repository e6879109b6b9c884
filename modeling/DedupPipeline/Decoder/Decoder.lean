import DedupPipeline.Server.Packing
import Mathlib.Logic.Function.Iterate

namespace DedupModel

structure InputStream where
  rest : List UInt8
  eof : Bool
  ended : eof = true → rest = []

def InputStream.opened (file : List UInt8) : InputStream := ⟨file, false, by simp⟩

def InputStream.exhausted : InputStream := ⟨[], true, fun _ => rfl⟩

/-- `Byte = Input.get()`. At the end of the file `get` returns -1, which the byte stores as 0xFF. -/
def InputStream.get (input : InputStream) : UInt8 × InputStream :=
  match input.rest with
  | byte :: rest => (byte, ⟨rest, false, by simp⟩)
  | [] => (0xFF, exhausted)

/-- `Input.read((char *)&Header, sizeof(int32_t))` on a little-endian host; `none` when it leaves
    `Input.eof()` set. -/
def InputStream.readHeader (input : InputStream) : Option UInt32 × InputStream :=
  match input.rest with
  | b0 :: b1 :: b2 :: b3 :: rest =>
    (some (b0.toUInt32 ||| (b1.toUInt32 <<< 8) ||| (b2.toUInt32 <<< 16) ||| (b3.toUInt32 <<< 24)),
      ⟨rest, false, by simp⟩)
  | _ => (none, exhausted)

structure Reader where
  byte : UInt8
  input : InputStream
  inputPosition : Nat

def readBit (state : Nat × Reader) : Nat × Reader :=
  let (code, reader) := state
  let reader :=
    if reader.inputPosition % 8 = 0 then
      { reader with byte := reader.input.get.1, input := reader.input.get.2 }
    else reader
  let bit := (reader.byte.toNat >>> (7 - reader.inputPosition % 8)) &&& 1
  ((code <<< 1) ||| bit, { reader with inputPosition := reader.inputPosition + 1 })

def readCode (reader : Reader) : Nat × Reader := readBit^[codeLength] (0, reader)

structure Decompression where
  codeTable : List (List UInt8)
  old : Nat
  symbol : UInt8
  output : List UInt8

def selectSymbols (state : Decompression) (new : Nat) : Option (List UInt8) :=
  -- `(int) Code_table.size()` is exact: the main loop lets no `Size` pass with as many as 2^31 codes
  if state.codeTable.length ≤ new then state.codeTable[state.old]?.map (· ++ [state.symbol])
  else state.codeTable[new]?

/-- `none` stands for an access outside `Code_table`, which the source makes without a check. -/
def decompressCode (state : Decompression) (new : Nat) : Option Decompression := do
  let symbols ← selectSymbols state new
  let symbol := symbols.headD 0
  let previous ← state.codeTable[state.old]?
  return {
    codeTable := state.codeTable ++ [previous ++ [symbol]]
    old := new
    symbol := symbol
    output := state.output ++ symbols }

/-- `while (Input_position / 8 < Size - 1)`, for a `Size` that is not 0, where `Size - 1` would wrap. Every round reads
    more than a byte, so `Size` rounds are enough. -/
def decompressLoop (size : Nat) : Nat → Reader → Decompression → Option (Decompression × Reader)
  | 0, reader, state => some (state, reader)
  | rounds + 1, reader, state =>
    if reader.inputPosition / 8 < size - 1 then do
      let (new, reader) := readCode reader
      let state ← decompressCode state new
      decompressLoop size rounds reader state
    else some (state, reader)

def initialCodeTable : List (List UInt8) := (List.range 256).map fun i => [UInt8.ofNat i]

def decompress (size : Nat) (reader : Reader) : Option (List UInt8 × Reader) := do
  let (old, reader) := readCode { reader with inputPosition := 0 }
  let symbol := UInt8.ofNat old
  let (state, reader) ← decompressLoop size size reader ⟨initialCodeTable, old, symbol, [symbol]⟩
  return (state.output, reader)

def decoderMaxChunkSize : Int := 40960

structure DecoderState where
  reader : Reader
  chunks : List (List UInt8)
  output : List UInt8
  totalChunksInHeader : Nat
  successfulChunks : Nat
  failedChunks : Nat

def DecoderState.fail (state : DecoderState) : DecoderState :=
  { state with failedChunks := state.failedChunks + 1 }

def DecoderState.write (state : DecoderState) (chunk : List UInt8) : DecoderState :=
  { state with output := state.output ++ chunk, successfulChunks := state.successfulChunks + 1 }

def decodeRecord (state : DecoderState) (header : UInt32) : Option DecoderState :=
  -- the counters and `(int) Chunks.size()` have their values in an `int` up to 2^31 - 1 records
  let state := { state with totalChunksInHeader := state.totalChunksInHeader + 1 }
  if header &&& 1 = 0 then
    -- Validate chunk size
    let chunkSize : Int := (header >>> 1).toNat
    if chunkSize ≤ 0 ∨ decoderMaxChunkSize < chunkSize then some state.fail
    else do
      let (chunk, reader) ← decompress chunkSize.toNat state.reader
      let state := { state with reader := reader }
      if chunk.isEmpty then return state.fail
      else return { state.write chunk with chunks := state.chunks ++ [chunk] }
  else
    -- Validate deduplication chunk location
    let location : Int := (header >>> 1).toNat
    if location < 0 ∨ state.chunks.length ≤ location then some state.fail
    else state.chunks[location.toNat]?.map state.write

/-- One round of `while (true)`: `none` inside when `Input.eof()` leaves the loop. -/
def decoderStep (state : DecoderState) : Option (DecoderState × Option UInt32) :=
  let (header, input) := state.reader.input.readHeader
  let state := { state with reader := { state.reader with input := input } }
  match header with
  | none => some (state, none)
  | some header => (decodeRecord state header).map fun state => (state, some header)

/-- A round that does not leave the loop reads four bytes, so the length of the file bounds the
    rounds. -/
def decoderLoop : Nat → DecoderState → Option DecoderState
  | 0, state => some state
  | rounds + 1, state => do
    match ← decoderStep state with
    | (state, none) => return state
    | (state, some _) => decoderLoop rounds state

def decoderStart (file : List UInt8) : DecoderState :=
  ⟨⟨0, InputStream.opened file, 0⟩, [], [], 0, 0, 0⟩

def decoderMain (file : List UInt8) : Option DecoderState :=
  decoderLoop (file.length + 1) (decoderStart file)

end DedupModel
