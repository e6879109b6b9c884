import DedupPipeline.Server.Cdc
import DedupPipeline.Server.Deduplication
import DedupPipeline.Server.Lzw
import DedupPipeline.Server.Sha256

namespace DedupModel

structure Counters where
  deduplicationContribution : Nat
  lzwContribution : Nat
  totalCompressedSize : Nat
  inputSizeDedup : Nat
  inputSizeLzw : Nat
  dedupChunk : Nat
  lzwChunk : Nat

def Counters.zero : Counters := ⟨0, 0, 0, 0, 0, 0, 0⟩

structure EncoderGlobals where
  lzw : LzwGlobals
  counters : Counters

def encoderGlobals : EncoderGlobals := ⟨initialGlobals, Counters.zero⟩

def appendUint32Le (buffer : List UInt8) (value : UInt32) : List UInt8 :=
  buffer ++ [(value &&& 0xFF).toUInt8, ((value >>> 8) &&& 0xFF).toUInt8, ((value >>> 16) &&& 0xFF).toUInt8,
    ((value >>> 24) &&& 0xFF).toUInt8]

structure EncoderState where
  globals : EncoderGlobals
  chunkHashMap : ChunkHashMap
  lzwChunkIndex : Int
  outputData : List UInt8

/-- `uint32_t header = (duplicate_index << 1) | 0x1;` with a 64-bit `duplicate_index`. -/
def duplicateHeader (duplicateIndex : Int) : UInt32 :=
  ⟨((BitVec.ofInt 64 duplicateIndex <<< 1) ||| 1#64).setWidth 32⟩

def countDuplicate (counters : Counters) (chunkSize : Nat) : Counters :=
  { counters with
    deduplicationContribution := counters.deduplicationContribution + 4
    totalCompressedSize := counters.totalCompressedSize + 4
    inputSizeDedup := counters.inputSizeDedup + chunkSize
    dedupChunk := counters.dedupChunk + 1 }

def storeDuplicate (state : EncoderState) (duplicateIndex : Int) (chunkSize : Nat) : EncoderState :=
  { state with
    outputData := appendUint32Le state.outputData (duplicateHeader duplicateIndex)
    globals.counters := countDuplicate state.globals.counters chunkSize }

def appendCompressed (outputData : List UInt8) (compressedSize : UInt32) (compressedData : List UInt8) : List UInt8 :=
  appendUint32Le outputData ((compressedSize <<< 1) ||| 0) ++ compressedData.take compressedSize.toNat

def countCompressed (counters : Counters) (compressedSize : UInt32) (chunkSize : Nat) : Counters :=
  { counters with
    lzwContribution := counters.lzwContribution + (4 + compressedSize).toNat
    totalCompressedSize := counters.totalCompressedSize + (4 + compressedSize).toNat
    inputSizeLzw := counters.inputSizeLzw + chunkSize
    lzwChunk := counters.lzwChunk + 1 }

def storeNew (state : EncoderState) (chunk : List UInt8) : EncoderState :=
  let (output, lzw) := lzwEncode state.globals.lzw chunk
  { state with
    outputData := appendCompressed state.outputData output.compressedSize output.compressedData
    globals := ⟨lzw, countCompressed state.globals.counters output.compressedSize chunk.length⟩ }

def storeChunk (hash : List UInt8 → SHA256Hash) (state : EncoderState) (chunk : List UInt8) : EncoderState :=
  let (duplicateIndex, chunkHashMap, lzwChunkIndex) :=
    dedup (hash chunk) state.chunkHashMap state.lzwChunkIndex
  let state := { state with chunkHashMap := chunkHashMap, lzwChunkIndex := lzwChunkIndex }
  -- Duplicate chunk found
  if duplicateIndex ≠ -1 then storeDuplicate state duplicateIndex chunk.length
  -- New chunk, perform LZW compression
  else storeNew state chunk

/-- One round of the chunk loop; the `uint16_t` keeps the low half of the size. -/
def processChunk (hash : List UInt8 → SHA256Hash) (file : List UInt8) (state : EncoderState)
    (bounds : Nat × Nat) : EncoderState :=
  let (start, stop) := bounds
  let chunkSize := (stop - start) % 2 ^ 16
  let chunk := (file.drop start).take chunkSize
  if chunkSize = 0 ∨ maxChunkSize < chunkSize then state
  else storeChunk hash state chunk

def chunkBounds (file : List UInt8) : List (Nat × Nat) :=
  let chunkPositions := contentDefinedChunking file (file.length % 2 ^ 32) []
  chunkPositions.zip chunkPositions.tail

def encoderStart (globals : EncoderGlobals) (outputData : List UInt8) : EncoderState :=
  ⟨globals, ChunkHashMap.empty, 0, outputData⟩

/-- `process_packet` with any function in the place of `sha256_hash`, but for what it prints; it always returns
    `true`. -/
def processPacketWith (hash : List UInt8 → SHA256Hash) (globals : EncoderGlobals) (file outputData : List UInt8) :
    EncoderState :=
  (chunkBounds file).foldl (processChunk hash file) (encoderStart globals outputData)

/-- The digest that `sha256_hash` writes, here over zeros in `ctx.data` and `hash_output`; `chunkHash_stack` has
    it for whatever the stack held. A chunk has less than 2^16 bytes, so the function returns. -/
def chunkHash (chunk : List UInt8) : SHA256Hash :=
  (sha256Hash (Vector.replicate 64 0) chunk (Vector.replicate 32 0)).getD (Vector.replicate 32 0)

def processPacket : EncoderGlobals → List UInt8 → List UInt8 → EncoderState := processPacketWith chunkHash

end DedupModel
