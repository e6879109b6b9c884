import Mathlib.Data.List.Basic

namespace DedupModel

structure UInt32x4 where
  lane0 : UInt32
  lane1 : UInt32
  lane2 : UInt32
  lane3 : UInt32
deriving Inhabited

abbrev UInt8x16 := Fin 16 → UInt8

def vld1qU32 (source : Nat → UInt32) (start : Nat) : UInt32x4 :=
  ⟨source start, source (start + 1), source (start + 2), source (start + 3)⟩

def vaddqU32 (x y : UInt32x4) : UInt32x4 :=
  ⟨x.lane0 + y.lane0, x.lane1 + y.lane1, x.lane2 + y.lane2, x.lane3 + y.lane3⟩

def vld1qU8 (source : Nat → UInt8) (start : Nat) : UInt8x16 := fun i => source (start + i.val)

def vrev32qU8 (x : UInt8x16) : UInt8x16 := fun i => x ⟨4 * (i.val / 4) + (3 - i.val % 4), by omega⟩

/-- The element whose least significant byte is byte `start`. -/
def elementAt (x : UInt8x16) (start : Fin 13) : UInt32 :=
  (x ⟨start.val, by omega⟩).toUInt32 ||| ((x ⟨start.val + 1, by omega⟩).toUInt32 <<< 8) |||
    ((x ⟨start.val + 2, by omega⟩).toUInt32 <<< 16) ||| ((x ⟨start.val + 3, by omega⟩).toUInt32 <<< 24)

def vreinterpretqU32U8 (x : UInt8x16) : UInt32x4 :=
  ⟨elementAt x 0, elementAt x 4, elementAt x 8, elementAt x 12⟩

def ror (x : UInt32) (shift : UInt32) : UInt32 := (x >>> shift) ||| (x <<< (32 - shift))

def shaChoose (x y z : UInt32) : UInt32 := ((y ^^^ z) &&& x) ^^^ z
def shaMajority (x y z : UInt32) : UInt32 := (x &&& y) ||| ((x ||| y) &&& z)
def shaHashSigma0 (x : UInt32) : UInt32 := ror x 2 ^^^ ror x 13 ^^^ ror x 22
def shaHashSigma1 (x : UInt32) : UInt32 := ror x 6 ^^^ ror x 11 ^^^ ror x 25

/-- One iteration of Arm's `SHA256hash`; the last line is `<Y, X> = ROL(Y:X, 32)`. -/
def sha256HashRound (state : UInt32x4 × UInt32x4) (w : UInt32) : UInt32x4 × UInt32x4 :=
  let (x, y) := state
  let chs := shaChoose y.lane0 y.lane1 y.lane2
  let maj := shaMajority x.lane0 x.lane1 x.lane2
  let t := y.lane3 + shaHashSigma1 y.lane0 + chs + w
  let x3 := t + x.lane3
  let y3 := t + shaHashSigma0 x.lane0 + maj
  (⟨y3, x.lane0, x.lane1, x.lane2⟩, ⟨x3, y.lane0, y.lane1, y.lane2⟩)

def sha256HashRounds (x y w : UInt32x4) : UInt32x4 × UInt32x4 :=
  [w.lane0, w.lane1, w.lane2, w.lane3].foldl sha256HashRound (x, y)

def vsha256hqU32 (hashAbcd hashEfgh wk : UInt32x4) : UInt32x4 := (sha256HashRounds hashAbcd hashEfgh wk).1
def vsha256h2qU32 (hashEfgh hashAbcd wk : UInt32x4) : UInt32x4 := (sha256HashRounds hashAbcd hashEfgh wk).2

def sigmaSu0 (x : UInt32) : UInt32 := ror x 7 ^^^ ror x 18 ^^^ (x >>> 3)
def sigmaSu1 (x : UInt32) : UInt32 := ror x 17 ^^^ ror x 19 ^^^ (x >>> 10)

def vsha256su0qU32 (w0 w4 : UInt32x4) : UInt32x4 :=
  ⟨sigmaSu0 w0.lane1 + w0.lane0, sigmaSu0 w0.lane2 + w0.lane1, sigmaSu0 w0.lane3 + w0.lane2,
    sigmaSu0 w4.lane0 + w0.lane3⟩

def vsha256su1qU32 (tw0 w8 w12 : UInt32x4) : UInt32x4 :=
  let r0 := sigmaSu1 w12.lane2 + tw0.lane0 + w8.lane1
  let r1 := sigmaSu1 w12.lane3 + tw0.lane1 + w8.lane2
  let r2 := sigmaSu1 r0 + tw0.lane2 + w8.lane3
  let r3 := sigmaSu1 r1 + tw0.lane3 + w12.lane0
  ⟨r0, r1, r2, r3⟩

def k : List UInt32 := [
  0x428a2f98, 0x71374491, 0xb5c0fbcf, 0xe9b5dba5, 0x3956c25b, 0x59f111f1, 0x923f82a4, 0xab1c5ed5,
  0xd807aa98, 0x12835b01, 0x243185be, 0x550c7dc3, 0x72be5d74, 0x80deb1fe, 0x9bdc06a7, 0xc19bf174,
  0xe49b69c1, 0xefbe4786, 0x0fc19dc6, 0x240ca1cc, 0x2de92c6f, 0x4a7484aa, 0x5cb0a9dc, 0x76f988da,
  0x983e5152, 0xa831c66d, 0xb00327c8, 0xbf597fc7, 0xc6e00bf3, 0xd5a79147, 0x06ca6351, 0x14292967,
  0x27b70a85, 0x2e1b2138, 0x4d2c6dfc, 0x53380d13, 0x650a7354, 0x766a0abb, 0x81c2c92e, 0x92722c85,
  0xa2bfe8a1, 0xa81a664b, 0xc24b8b70, 0xc76c51a3, 0xd192e819, 0xd6990624, 0xf40e3585, 0x106aa070,
  0x19a4c116, 0x1e376c08, 0x2748774c, 0x34b0bcb5, 0x391c0cb3, 0x4ed8aa4a, 0x5b9cca4f, 0x682e6ff3,
  0x748f82ee, 0x78a5636f, 0x84c87814, 0x8cc70208, 0x90befffa, 0xa4506ceb, 0xbef9a3f7, 0xc67178f2]

structure HashState where
  abcd : UInt32x4
  efgh : UInt32x4

def loadState (state : Vector UInt32 8) : HashState :=
  ⟨vld1qU32 (fun i => state[i]!) 0, vld1qU32 (fun i => state[i]!) 4⟩

/-- The four rounds of one step; both instructions read the old state. -/
def hashStep (oldState : HashState) (sched : UInt32x4) (i : Nat) : HashState :=
  let roundInput := vaddqU32 sched (vld1qU32 (fun j => k.getD j 0) (i * 4))
  ⟨vsha256hqU32 oldState.abcd oldState.efgh roundInput,
    vsha256h2qU32 oldState.efgh oldState.abcd roundInput⟩

def loadBlock (data : Vector UInt8 64) (i : Nat) : UInt32x4 :=
  vreinterpretqU32U8 (vrev32qU8 (vld1qU8 (fun j => data[j]!) (16 * i)))

def addState (curState : HashState) (state : Vector UInt32 8) : Vector UInt32 8 :=
  let abcd := vaddqU32 curState.abcd (loadState state).abcd
  let efgh := vaddqU32 curState.efgh (loadState state).efgh
  #v[abcd.lane0, abcd.lane1, abcd.lane2, abcd.lane3, efgh.lane0, efgh.lane1, efgh.lane2, efgh.lane3]

/-- The default build: the schedule is made before the rounds. -/
def sha256Transform (state : Vector UInt32 8) (data : Vector UInt8 64) : Vector UInt32 8 :=
  let sched : Vector UInt32x4 16 := Vector.replicate 16 default
  let sched := (List.range 4).foldl (fun sched i => sched.setIfInBounds i (loadBlock data i)) sched
  let sched := (List.range' 4 12).foldl (fun sched i => sched.setIfInBounds i
    (vsha256su1qU32 (vsha256su0qU32 sched[i - 4]! sched[i - 3]!) sched[i - 2]! sched[i - 1]!)) sched
  let curState := (List.range 16).foldl (fun oldState i => hashStep oldState sched[i]! i) (loadState state)
  addState curState state

def rolledUpLoad (data : Vector UInt8 64) (state : Vector UInt32x4 4 × HashState) (i : Nat) :
    Vector UInt32x4 4 × HashState :=
  let sched := state.1.setIfInBounds i (loadBlock data i)
  (sched, hashStep state.2 sched[i]! i)

/-- The second loop of the `ROLLED_UP_METHOD` build: each of the four entries is overwritten when it is used again. -/
def rolledUpExtend (state : Vector UInt32x4 4 × HashState) (i : Nat) : Vector UInt32x4 4 × HashState :=
  let sched := state.1.setIfInBounds (i % 4)
    (vsha256su1qU32 (vsha256su0qU32 state.1[i % 4]! state.1[(i + 1) % 4]!)
      state.1[(i + 2) % 4]! state.1[(i + 3) % 4]!)
  (sched, hashStep state.2 sched[i % 4]! i)

def sha256TransformRolledUp (state : Vector UInt32 8) (data : Vector UInt8 64) : Vector UInt32 8 :=
  let start : Vector UInt32x4 4 × HashState := (Vector.replicate 4 default, loadState state)
  let first := (List.range 4).foldl (rolledUpLoad data) start
  let second := (List.range' 4 12).foldl rolledUpExtend first
  addState second.2 state

/-- `SHA256_CTX`; `SHA256_CTX_HW` has the same fields. -/
structure Sha256Ctx where
  data : Vector UInt8 64
  datalen : Nat
  bitlen : UInt64
  state : Vector UInt32 8
  inside : datalen < 64

/-- All fields but `data` are set, so `data` keeps what was in memory. -/
def sha256Init (data : Vector UInt8 64) : Sha256Ctx where
  data := data
  datalen := 0
  bitlen := 0
  state := #v[0x6a09e667, 0xbb67ae85, 0x3c6ef372, 0xa54ff53a, 0x510e527f, 0x9b05688c, 0x1f83d9ab,
    0x5be0cd19]
  inside := by decide

abbrev Transform := Vector UInt32 8 → Vector UInt8 64 → Vector UInt32 8

def updateByte (transform : Transform) (ctx : Sha256Ctx) (byte : UInt8) : Sha256Ctx :=
  let data := ctx.data.set ctx.datalen byte ctx.inside
  if full : ctx.datalen + 1 = 64 then
    ⟨data, 0, ctx.bitlen + 512, transform ctx.state data, by decide⟩
  else ⟨data, ctx.datalen + 1, ctx.bitlen, ctx.state, by have := ctx.inside; omega⟩

/-- `for (i = 0; i < len; ++i)` with a 32-bit `i` and a 64-bit `len`: past 2^32 bytes `i` starts again
    at 0 and the loop never ends, which is `none` here. -/
def updateLoop (transform : Transform) (data : List UInt8) : Nat → UInt32 → Sha256Ctx → Option Sha256Ctx
  | 0, _, _ => none
  | rounds + 1, i, ctx =>
    if i.toNat < data.length then
      updateLoop transform data rounds (i + 1) (updateByte transform ctx (data.getD i.toNat 0))
    else some ctx

def sha256UpdateWith (transform : Transform) (ctx : Sha256Ctx) (data : List UInt8) : Option Sha256Ctx :=
  updateLoop transform data (data.length + 1) 0 ctx

def zeroFill (data : Vector UInt8 64) (i stop : Nat) : Vector UInt8 64 :=
  (List.range' i (stop - i)).foldl (fun data j => data.setIfInBounds j 0) data

def storeBitlen (data : Vector UInt8 64) (bitlen : UInt64) : Vector UInt8 64 :=
  let data := data.set 63 bitlen.toUInt8
  let data := data.set 62 (bitlen >>> 8).toUInt8
  let data := data.set 61 (bitlen >>> 16).toUInt8
  let data := data.set 60 (bitlen >>> 24).toUInt8
  let data := data.set 59 (bitlen >>> 32).toUInt8
  let data := data.set 58 (bitlen >>> 40).toUInt8
  let data := data.set 57 (bitlen >>> 48).toUInt8
  data.set 56 (bitlen >>> 56).toUInt8

def stateByte (state : Vector UInt32 8) (j : Nat) : UInt8 :=
  (state[j / 4]! >>> UInt32.ofNat (8 * (j % 4))).toUInt8

def vst1qU8 (hash : Vector UInt8 32) (start : Nat) (x : UInt8x16) : Vector UInt8 32 :=
  Vector.ofFn fun i =>
    if inside : start ≤ i.val ∧ i.val < start + 16 then x ⟨i.val - start, by omega⟩ else hash[i]

def storeHash (state : Vector UInt32 8) (hash : Vector UInt8 32) : Vector UInt8 32 :=
  (List.range' 0 2 4).foldl
    (fun hash i => vst1qU8 hash (i * 4) (vrev32qU8 (vld1qU8 (stateByte state) (4 * i)))) hash

def sha256FinalWith (transform : Transform) (ctx : Sha256Ctx) (hash : Vector UInt8 32) :
    Vector UInt8 32 :=
  let (state, data) :=
    if ctx.datalen < 56 then
      (ctx.state, zeroFill (ctx.data.set ctx.datalen 0x80 ctx.inside) (ctx.datalen + 1) 56)
    else
      let data := zeroFill (ctx.data.set ctx.datalen 0x80 ctx.inside) (ctx.datalen + 1) 64
      (transform ctx.state data, zeroFill data 0 56)
  let bitlen := ctx.bitlen + UInt64.ofNat ctx.datalen * 8
  storeHash (transform state (storeBitlen data bitlen)) hash

/-- `none` when an update never ends. `ctxData` and `hash` are the arrays before the call. -/
def sha256HashWith (transform : Transform) (ctxData : Vector UInt8 64) (data : List UInt8)
    (hash : Vector UInt8 32) : Option (Vector UInt8 32) := do
  let ctx ← sha256UpdateWith transform (sha256Init ctxData) data
  return sha256FinalWith transform ctx hash

def sha256Update : Sha256Ctx → List UInt8 → Option Sha256Ctx := sha256UpdateWith sha256Transform
def sha256Final : Sha256Ctx → Vector UInt8 32 → Vector UInt8 32 := sha256FinalWith sha256Transform
def sha256Hash : Vector UInt8 64 → List UInt8 → Vector UInt8 32 → Option (Vector UInt8 32) :=
  sha256HashWith sha256Transform

end DedupModel
