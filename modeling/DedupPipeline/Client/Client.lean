import DedupPipeline.Library.Memory
import Mathlib.Data.UInt

namespace DedupModel

def headerSize : Nat := 2

def clientMaxBlocksize : Nat := 16384

def clientDoneBit : UInt8 := (1 : UInt8) <<< 7

/-- `local`, the datagrams sent so far and, for each `memcpy` out of `buff`, the offset and the size. -/
structure ClientState where
  localBuf : Memory.Store UInt8
  sent : List (List UInt8)
  reads : List (Nat × Nat)

/-- The block that all four send sites share: `high` is stored with or without the done bit. -/
def sendBlock (buff : Memory.Store UInt8) (state : ClientState) (start size : Nat) (doneBit : UInt8) : ClientState :=
  let localBuf := Memory.write state.localBuf headerSize (Memory.read buff start size)
  let high := UInt8.ofNat (size >>> 8)
  let low := UInt8.ofNat (size &&& 0xFF)
  let localBuf := Memory.write localBuf 0 [low]
  let localBuf := Memory.write localBuf 1 [high ||| doneBit]
  ⟨localBuf, state.sent ++ [Memory.read localBuf 0 (size + headerSize)], state.reads ++ [(start, size)]⟩

/-- `heap` is the memory at `buff` and behind it before the file is read, `localBuf` the uninitialised array. For
    fewer than two loops the `for` statement makes no round and leaves `n` at 0. -/
def clientMain (heap localBuf : Memory.Store UInt8) (file : List UInt8) (blocksize : Nat) : ClientState :=
  let buff := Memory.write heap 0 file
  let bytesRead := file.length
  let remainder := bytesRead % blocksize
  let loops := bytesRead / blocksize
  let n := loops - 1
  let state := (List.range n).foldl (fun state n => sendBlock buff state (n * blocksize) blocksize 0)
    ⟨localBuf, [], []⟩
  let state :=
    -- if no remainder send the last chunk with done bit
    if remainder = 0 then sendBlock buff state (n * blocksize) blocksize clientDoneBit
    -- if remainder then send last chunk as normal
    else sendBlock buff state (n * blocksize) blocksize 0
  if remainder ≠ 0 then sendBlock buff state (loops * blocksize) remainder clientDoneBit else state

end DedupModel
