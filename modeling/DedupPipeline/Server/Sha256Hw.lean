import DedupPipeline.Server.Sha256

namespace DedupModel

def kHw : List UInt32 := [
  0x428a2f98, 0x71374491, 0xb5c0fbcf, 0xe9b5dba5,
  0x3956c25b, 0x59f111f1, 0x923f82a4, 0xab1c5ed5,
  0xd807aa98, 0x12835b01, 0x243185be, 0x550c7dc3,
  0x72be5d74, 0x80deb1fe, 0x9bdc06a7, 0xc19bf174,
  0xe49b69c1, 0xefbe4786, 0x0fc19dc6, 0x240ca1cc,
  0x2de92c6f, 0x4a7484aa, 0x5cb0a9dc, 0x76f988da,
  0x983e5152, 0xa831c66d, 0xb00327c8, 0xbf597fc7,
  0xc6e00bf3, 0xd5a79147, 0x06ca6351, 0x14292967,
  0x27b70a85, 0x2e1b2138, 0x4d2c6dfc, 0x53380d13,
  0x650a7354, 0x766a0abb, 0x81c2c92e, 0x92722c85,
  0xa2bfe8a1, 0xa81a664b, 0xc24b8b70, 0xc76c51a3,
  0xd192e819, 0xd6990624, 0xf40e3585, 0x106aa070,
  0x19a4c116, 0x1e376c08, 0x2748774c, 0x34b0bcb5,
  0x391c0cb3, 0x4ed8aa4a, 0x5b9cca4f, 0x682e6ff3,
  0x748f82ee, 0x78a5636f, 0x84c87814, 0x8cc70208,
  0x90befffa, 0xa4506ceb, 0xbef9a3f7, 0xc67178f2]

def rotRight (a b : UInt32) : UInt32 := (a >>> b) ||| (a <<< (32 - b))
def chHw (x y z : UInt32) : UInt32 := (x &&& y) ^^^ (~~~x &&& z)
def majHw (x y z : UInt32) : UInt32 := (x &&& y) ^^^ (x &&& z) ^^^ (y &&& z)
def ep0 (x : UInt32) : UInt32 := rotRight x 2 ^^^ rotRight x 13 ^^^ rotRight x 22
def ep1 (x : UInt32) : UInt32 := rotRight x 6 ^^^ rotRight x 11 ^^^ rotRight x 25
def sig0 (x : UInt32) : UInt32 := rotRight x 7 ^^^ rotRight x 18 ^^^ (x >>> 3)
def sig1 (x : UInt32) : UInt32 := rotRight x 17 ^^^ rotRight x 19 ^^^ (x >>> 10)

structure Registers where
  a : UInt32
  b : UInt32
  c : UInt32
  d : UInt32
  e : UInt32
  f : UInt32
  g : UInt32
  h : UInt32

def scheduleHw (data : Vector UInt8 64) : Vector UInt32 64 :=
  let m : Vector UInt32 64 := Vector.replicate 64 0
  let m := (List.range 16).foldl (fun m i => m.setIfInBounds i
    ((data[i * 4]!.toUInt32 <<< 24) ||| (data[i * 4 + 1]!.toUInt32 <<< 16) |||
      (data[i * 4 + 2]!.toUInt32 <<< 8) ||| data[i * 4 + 3]!.toUInt32)) m
  (List.range' 16 48).foldl (fun m i => m.setIfInBounds i
    (sig1 m[i - 2]! + m[i - 7]! + sig0 m[i - 15]! + m[i - 16]!)) m

def roundHw (m : Vector UInt32 64) (v : Registers) (i : Nat) : Registers :=
  let t1 := v.h + ep1 v.e + chHw v.e v.f v.g + kHw.getD i 0 + m[i]!
  let t2 := ep0 v.a + majHw v.a v.b v.c
  ⟨t1 + t2, v.a, v.b, v.c, v.d + t1, v.e, v.f, v.g⟩

def sha256TransformHw (state : Vector UInt32 8) (data : Vector UInt8 64) : Vector UInt32 8 :=
  let v := (List.range 64).foldl (roundHw (scheduleHw data))
    ⟨state[0], state[1], state[2], state[3], state[4], state[5], state[6], state[7]⟩
  #v[state[0] + v.a, state[1] + v.b, state[2] + v.c, state[3] + v.d, state[4] + v.e, state[5] + v.f,
    state[6] + v.g, state[7] + v.h]

def sha256InitHw (data : Vector UInt8 64) : Sha256Ctx := sha256Init data

def sha256UpdateHw (ctx : Sha256Ctx) (data : List UInt8) : Sha256Ctx :=
  data.foldl (updateByte sha256TransformHw) ctx

def storeHashHw (state : Vector UInt32 8) (hash : Vector UInt8 32) : Vector UInt8 32 :=
  (List.range 4).foldl (fun hash i => (List.range 8).foldl (fun hash j =>
    hash.setIfInBounds (i + 4 * j) ((state[j]! >>> UInt32.ofNat (24 - i * 8)) &&& 0x000000ff).toUInt8)
    hash) hash

def sha256FinalHw (ctx : Sha256Ctx) (hash : Vector UInt8 32) : Vector UInt8 32 :=
  let data := ctx.data.set ctx.datalen 0x80 ctx.inside
  let (state, data) :=
    if ctx.datalen < 56 then (ctx.state, zeroFill data (ctx.datalen + 1) 56)
    else
      let data := zeroFill data (ctx.datalen + 1) 64
      (sha256TransformHw ctx.state data, zeroFill data 0 56)
  let bitlen := ctx.bitlen + (UInt32.ofNat ctx.datalen * 8).toUInt64
  storeHashHw (sha256TransformHw state (storeBitlen data bitlen)) hash

def sha256HashHw (ctxData : Vector UInt8 64) (data : List UInt8) (hashOutput : Vector UInt8 32) :
    Vector UInt8 32 :=
  sha256FinalHw (sha256UpdateHw (sha256InitHw ctxData) data) hashOutput

end DedupModel
