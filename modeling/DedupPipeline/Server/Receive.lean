import DedupPipeline.Client.Client
import Mathlib.Logic.Function.Basic

namespace DedupModel

def numPackets : Nat := 8
def pipeDepth : Nat := 4
def doneBitL : UInt8 := (1 : UInt8) <<< 7
def doneBitH : UInt32 := (1 : UInt32) <<< 15

def fileBufferSize : Nat := 70000000

structure ReceiveState where
  inputBuffers : Nat → Memory.Store UInt8
  writer : Nat
  done : Bool
  offset : Nat
  fileBuffer : Memory.Store UInt8

/-- `recvfrom` stores a datagram, cut off at `blocksize + HEADER` bytes. -/
def getPacket (blocksize : Nat) (buffer : Memory.Store UInt8) (datagram : List UInt8) : Memory.Store UInt8 :=
  Memory.write buffer 0 (datagram.take (blocksize + headerSize))

def decodeDone (buffer : Memory.Store UInt8) : Bool := buffer 1 &&& doneBitL ≠ 0

def decodeLength (buffer : Memory.Store UInt8) : Nat :=
  (((buffer 0).toUInt32 ||| ((buffer 1).toUInt32 <<< 8)) &&& ~~~doneBitH).toNat

def copyPacket (state : ReceiveState) (buffer : Memory.Store UInt8) (length : Nat) : ReceiveState :=
  { state with
    fileBuffer := Memory.write state.fileBuffer state.offset (Memory.read buffer headerSize length)
    offset := state.offset + length
    writer := state.writer + 1 }

def receiveFirst (blocksize : Nat) (state : ReceiveState) (datagram : List UInt8) : ReceiveState :=
  let buffer := getPacket blocksize (state.inputBuffers state.writer) datagram
  let state := { state with
    inputBuffers := Function.update state.inputBuffers state.writer buffer
    done := decodeDone buffer }
  copyPacket state buffer (decodeLength buffer)

def receiveStep (blocksize : Nat) (state : ReceiveState) (datagram : List UInt8) : ReceiveState :=
  let writer := if state.writer = numPackets then 0 else state.writer
  let buffer := getPacket blocksize (state.inputBuffers writer) datagram
  let length := decodeLength buffer
  let state := { state with
    inputBuffers := Function.update state.inputBuffers writer buffer
    writer := writer
    done := decodeDone buffer }
  -- File buffer overflow! Skipping packet.
  if fileBufferSize ≤ state.offset + length then { state with writer := writer + 1 }
  else copyPacket state buffer length

/-- The loop over the datagrams as they are delivered: what is left of them when it ends, and `none` when it waits
    for another one. -/
def receiveLoop (blocksize : Nat) (state : ReceiveState) :
    List (List UInt8) → Option (ReceiveState × List (List UInt8))
  | [] => if state.done then some (state, []) else none
  | datagram :: datagrams =>
    if state.done then some (state, datagram :: datagrams)
    else receiveLoop blocksize (receiveStep blocksize state datagram) datagrams

def receiveStart (inputBuffers : Nat → Memory.Store UInt8) (fileBuffer : Memory.Store UInt8) : ReceiveState :=
  ⟨inputBuffers, pipeDepth, false, 0, fileBuffer⟩

def receiveMain (blocksize : Nat) (inputBuffers : Nat → Memory.Store UInt8) (fileBuffer : Memory.Store UInt8) :
    List (List UInt8) → Option (ReceiveState × List (List UInt8))
  | [] => none
  | datagram :: datagrams =>
    receiveLoop blocksize (receiveFirst blocksize (receiveStart inputBuffers fileBuffer) datagram) datagrams

end DedupModel
