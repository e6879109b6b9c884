import DedupPipeline.Server.Sha256Stream

namespace DedupProof

open DedupModel BlockStream Loop

theorem set_take_append {buffer tail : List UInt8} (byte : UInt8) {i : Nat} (inside : i < buffer.length) :
    (buffer.take (i + 1) ++ tail).set i byte = buffer.take i ++ byte :: tail := by
  have here : (buffer.take i).length = i := List.length_take_of_le (Nat.le_of_lt inside)
  rw [List.take_succ_eq_append_getElem inside, List.append_assoc, List.set_append_right _ _ (by omega), here,
    Nat.sub_self]
  rfl

theorem set_append_drop {front buffer : List UInt8} (byte : UInt8) {i : Nat} (here : front.length = i)
    (inside : i < buffer.length) :
    (front ++ buffer.drop i).set i byte = front ++ [byte] ++ buffer.drop (i + 1) := by
  rw [List.drop_eq_getElem_cons inside, List.set_append_right _ _ (by omega), here, Nat.sub_self, List.set_cons_zero,
    List.append_assoc]
  rfl

theorem zeroFill_toList (data : Vector UInt8 64) {i stop : Nat} (ordered : i ≤ stop) (inside : stop ≤ 64) :
    (zeroFill data i stop).toList = data.toList.take i ++ List.replicate (stop - i) 0 ++ data.toList.drop stop := by
  have filled : (zeroFill data i stop).toList = data.toList.take i ++ List.replicate (i + (stop - i) - i) 0 ++
      data.toList.drop (i + (stop - i)) := by
    apply invariant (fun j (now : Vector UInt8 64) => now.toList =
      data.toList.take i ++ List.replicate (j - i) 0 ++ data.toList.drop j)
    · rw [Nat.sub_self, List.replicate_zero, List.append_nil, List.take_append_drop]
    · intro j now lower upper before
      rw [Vector.toList_setIfInBounds, before, set_append_drop 0 _ (by simp; omega), Nat.sub_add_comm lower,
        List.replicate_succ', ← List.append_assoc]
      simp
      omega
  rwa [Nat.add_sub_of_le ordered] at filled

theorem storeBitlen_toList (data : Vector UInt8 64) (length : Nat) :
    (storeBitlen data (UInt64.ofNat (8 * length))).toList =
      data.toList.take 56 ++ Fips180.lengthBytes length := by
  have size : data.toList.length = 64 := Vector.length_toList
  have set (byte : UInt8) {tail : List UInt8} {i : Nat} (inside : i < 64) :
      (data.toList.take (i + 1) ++ tail).set i byte = data.toList.take i ++ byte :: tail :=
    set_take_append byte (by rwa [size])
  have whole : data.toList = data.toList.take (63 + 1) ++ [] := by
    rw [List.append_nil, List.take_of_length_le (Nat.le_of_eq size)]
  simp only [storeBitlen, Vector.toList_set]
  rw [whole, set _ (by decide), set _ (by decide), set _ (by decide), set _ (by decide), set _ (by decide),
    set _ (by decide), set _ (by decide), set _ (by decide), ← whole]
  rfl

def finalState (transform : Transform) (ctx : Sha256Ctx) (bitlen : UInt64) : Vector UInt32 8 :=
  let data := ctx.data.set ctx.datalen 0x80 ctx.inside
  if ctx.datalen < 56 then
    transform ctx.state (storeBitlen (zeroFill data (ctx.datalen + 1) 56) bitlen)
  else
    let data := zeroFill data (ctx.datalen + 1) 64
    transform (transform ctx.state data) (storeBitlen (zeroFill data 0 56) bitlen)

theorem sha256FinalWith_finalState (transform : Transform) (ctx : Sha256Ctx) (hash : Vector UInt8 32) :
    sha256FinalWith transform ctx hash =
      storeHash (finalState transform ctx (ctx.bitlen + UInt64.ofNat ctx.datalen * 8)) hash := by
  by_cases one : ctx.datalen < 56
  · simp only [sha256FinalWith, finalState, if_pos one]
  · simp only [sha256FinalWith, finalState, if_neg one]

theorem sha256FinalHw_finalState (ctx : Sha256Ctx) (hash : Vector UInt8 32) :
    sha256FinalHw ctx hash = storeHashHw (finalState sha256TransformHw ctx
      (ctx.bitlen + (UInt32.ofNat ctx.datalen * 8).toUInt64)) hash := by
  by_cases one : ctx.datalen < 56
  · simp only [sha256FinalHw, finalState, if_pos one]
  · simp only [sha256FinalHw, finalState, if_neg one]

theorem bitlen_message {message : List UInt8} {ctx : Sha256Ctx} (absorbed : Absorbed message ctx) :
    ctx.bitlen + UInt64.ofNat ctx.datalen * 8 = UInt64.ofNat (8 * message.length) := by
  have bits : 8 * message.length = 512 * (message.length / 64) + message.length % 64 * 8 := by omega
  rw [absorbed.bitlen, absorbed.datalen, bits, UInt64.ofNat_add, UInt64.ofNat_mul (_ % _)]
  rfl

theorem bitlen_message_hw {message : List UInt8} {ctx : Sha256Ctx} (absorbed : Absorbed message ctx) :
    ctx.bitlen + (UInt32.ofNat ctx.datalen * 8).toUInt64 = UInt64.ofNat (8 * message.length) := by
  rw [← bitlen_message absorbed]
  congr 1
  have := ctx.inside
  apply UInt64.toNat_inj.1
  simp
  omega

theorem marked_buffer {message : List UInt8} {ctx : Sha256Ctx} (absorbed : Absorbed message ctx) :
    (ctx.data.set ctx.datalen 0x80 ctx.inside).toList.take (ctx.datalen + 1) = leftover 64 message ++ [0x80] := by
  rw [Vector.toList_set, take_set _ _ (by simpa using ctx.inside), absorbed.pending]

theorem absorb_pad (message : List UInt8) :
    absorb 64 Fips180.compress Fips180.initialHash (Fips180.pad message) =
      absorb 64 Fips180.compress (absorb 64 Fips180.compress Fips180.initialHash message)
        (leftover 64 message ++ [0x80] ++ List.replicate (Fips180.zeroCount message.length) 0 ++
          Fips180.lengthBytes message.length) := by
  have pieces : Fips180.pad message = message ++ ([0x80] ++ List.replicate (Fips180.zeroCount message.length) 0 ++
      Fips180.lengthBytes message.length) := List.append_assoc ..
  rw [pieces, absorb_append _ _ _ (by decide)]
  simp only [List.append_assoc]

theorem absorb_single (chain : Vector UInt32 8) (data : Vector UInt8 64) :
    absorb 64 Fips180.compress chain data.toList = Fips180.compress chain data.toList := by
  rw [← List.append_nil data.toList, absorb_block _ [] (by decide) Vector.length_toList, absorb_short _ (by decide),
    List.append_nil]

theorem finalState_pad {transform : Transform} (correct : Compresses transform) {message : List UInt8}
    {ctx : Sha256Ctx} (absorbed : Absorbed message ctx) :
    finalState transform ctx (UInt64.ofNat (8 * message.length)) =
      absorb 64 Fips180.compress Fips180.initialHash (Fips180.pad message) := by
  have datalen := absorbed.datalen
  have inside := ctx.inside
  rw [absorb_pad, ← absorbed.state, ← marked_buffer absorbed, finalState]
  by_cases one : ctx.datalen < 56
  -- the length fits behind the message in the same block
  · have zeros : Fips180.zeroCount message.length = 56 - (ctx.datalen + 1) := by
      rw [Fips180.zeroCount]
      omega
    have block := storeBitlen_toList
      (zeroFill (ctx.data.set ctx.datalen 0x80 inside) (ctx.datalen + 1) 56) message.length
    rw [zeroFill_toList _ (by omega) (by decide), List.take_left' (by simp; omega)] at block
    rw [if_pos one, correct, zeros, ← block, absorb_single]
  -- zeros up to the end of the block, and the length at the end of another one
  · have zeros : Fips180.zeroCount message.length = (64 - (ctx.datalen + 1)) + 56 := by
      rw [Fips180.zeroCount]
      omega
    generalize marked : ctx.data.set ctx.datalen 0x80 inside = data
    have drained : data.toList.drop 64 = [] := List.drop_of_length_le (Nat.le_of_eq Vector.length_toList)
    have first := zeroFill_toList data (Nat.succ_le_of_lt inside) (Nat.le_refl 64)
    rw [drained, List.append_nil] at first
    have last := storeBitlen_toList (zeroFill (zeroFill data (ctx.datalen + 1) 64) 0 56) message.length
    rw [zeroFill_toList _ (Nat.zero_le 56) (by decide), List.take_zero, List.nil_append,
      List.take_left' (by simp)] at last
    rw [if_neg one, correct, correct, zeros, ← List.replicate_append_replicate, ← List.append_assoc, ← first,
      List.append_assoc, ← last, absorb_block _ _ (by decide) Vector.length_toList, absorb_single]

theorem digestBytes_get (state : Vector UInt32 8) {i : Nat} (inside : i < 32) :
    (Fips180.digestBytes state)[i] = (state[i / 4]! >>> UInt32.ofNat (8 * (3 - i % 4))).toUInt8 := by
  rw [Fips180.digestBytes, Vector.getElem_ofFn, getElem!_pos state (i / 4) (by omega)]

theorem vst1qU8_get (hash : Vector UInt8 32) (start : Nat) (x : UInt8x16) {i : Nat} (inside : i < 32) :
    (vst1qU8 hash start x)[i] =
      if stored : start ≤ i ∧ i < start + 16 then x ⟨i - start, by omega⟩ else hash[i] := by
  rw [vst1qU8, Vector.getElem_ofFn]
  rfl

theorem stateByte_reversed (state : Vector UInt32 8) {start i : Nat} (aligned : start % 16 = 0)
    (stored : start ≤ i ∧ i < start + 16) :
    vrev32qU8 (vld1qU8 (stateByte state) start) ⟨i - start, by omega⟩ =
      (state[i / 4]! >>> UInt32.ofNat (8 * (3 - i % 4))).toUInt8 := by
  have word : (start + (4 * ((i - start) / 4) + (3 - (i - start) % 4))) / 4 = i / 4 := by omega
  have byte : (start + (4 * ((i - start) / 4) + (3 - (i - start) % 4))) % 4 = 3 - i % 4 := by omega
  rw [vrev32qU8, vld1qU8, stateByte, word, byte]

theorem storeHash_digestBytes (state : Vector UInt32 8) (hash : Vector UInt8 32) :
    storeHash state hash = Fips180.digestBytes state := by
  apply Vector.ext
  intro i inside
  rw [digestBytes_get state inside]
  show (vst1qU8 (vst1qU8 hash 0 (vrev32qU8 (vld1qU8 (stateByte state) 0))) 16
    (vrev32qU8 (vld1qU8 (stateByte state) 16)))[i] = _
  rw [vst1qU8_get _ _ _ inside]
  by_cases upper : 16 ≤ i ∧ i < 16 + 16
  · rw [dif_pos upper, stateByte_reversed state rfl upper]
  · have lower : 0 ≤ i ∧ i < 0 + 16 := by omega
    rw [dif_neg upper, vst1qU8_get _ _ _ inside, dif_pos lower, stateByte_reversed state rfl lower]

theorem masked_byte (x : UInt32) : (x &&& 0x000000ff).toUInt8 = x.toUInt8 := by
  rw [UInt32.toUInt8_and]
  exact UInt8.and_neg_one

/-- Round `i` of the outer loop has set the bytes before `i` of every word, and of the first `j` words also
    byte `i`. -/
def StoredHw (state : Vector UInt32 8) (i j : Nat) (hash : Vector UInt8 32) : Prop :=
  ∀ p (inside : p < 32), p % 4 < i ∨ p % 4 = i ∧ p / 4 < j → hash[p] = (Fips180.digestBytes state)[p]

theorem storedHw_byte {state : Vector UInt32 8} {i j : Nat} {hash : Vector UInt8 32} (column : i < 4)
    (stored : StoredHw state i j hash) :
    StoredHw state i (j + 1) (hash.setIfInBounds (i + 4 * j)
      ((state[j]! >>> UInt32.ofNat (24 - i * 8)) &&& 0x000000ff).toUInt8) := by
  intro p inside done
  rw [Vector.getElem_setIfInBounds]
  by_cases here : i + 4 * j = p
  · have word : p / 4 = j := by omega
    have shift : 8 * (3 - p % 4) = 24 - i * 8 := by omega
    rw [if_pos here, digestBytes_get state inside, word, shift, masked_byte]
  · rw [if_neg here]
    exact stored p inside (by omega)

theorem storeHashHw_digestBytes (state : Vector UInt32 8) (hash : Vector UInt8 32) :
    storeHashHw state hash = Fips180.digestBytes state := by
  have all : StoredHw state 4 0 (storeHashHw state hash) := by
    apply range_invariant (fun i hash => StoredHw state i 0 hash)
    · intro p inside done
      omega
    · intro i hash column stored
      have row := range_invariant (fun j hash => StoredHw state i j hash) stored
        (fun j hash (_ : j < 8) stored => storedHw_byte column stored)
      intro p inside done
      exact row p inside (by omega)
  apply Vector.ext
  intro p inside
  exact all p inside (by omega)

theorem sha256FinalWith_digest {transform : Transform} (correct : Compresses transform) {message : List UInt8}
    {ctx : Sha256Ctx} (absorbed : Absorbed message ctx) (hash : Vector UInt8 32) :
    sha256FinalWith transform ctx hash = Fips180.digest message := by
  rw [sha256FinalWith_finalState, bitlen_message absorbed, finalState_pad correct absorbed, storeHash_digestBytes,
    Fips180.digest]

theorem sha256FinalHw_digest {message : List UInt8} {ctx : Sha256Ctx} (absorbed : Absorbed message ctx)
    (hash : Vector UInt8 32) : sha256FinalHw ctx hash = Fips180.digest message := by
  rw [sha256FinalHw_finalState, bitlen_message_hw absorbed, finalState_pad sha256TransformHw_compress absorbed,
    storeHashHw_digestBytes, Fips180.digest]

theorem sha256HashWith_digest {transform : Transform} (correct : Compresses transform) {message : List UInt8}
    (bounded : message.length < 2 ^ 32) (ctxData : Vector UInt8 64) (hash : Vector UInt8 32) :
    sha256HashWith transform ctxData message hash = some (Fips180.digest message) := by
  have absorbed := foldl_updateByte correct message (sha256Init_absorbed ctxData)
  rw [sha256HashWith, sha256UpdateWith_foldl transform _ bounded]
  exact congrArg some (sha256FinalWith_digest correct absorbed hash)

theorem sha256HashHw_digest (message : List UInt8) (ctxData : Vector UInt8 64) (hash : Vector UInt8 32) :
    sha256HashHw ctxData message hash = Fips180.digest message :=
  sha256FinalHw_digest (foldl_updateByte sha256TransformHw_compress message (sha256Init_absorbed ctxData)) hash

/-- SHA-256 over any division of a message into pieces that the 32-bit loop variable can count. -/
theorem sha256_pieces_digest (pieces : List (List UInt8)) (bounded : ∀ piece ∈ pieces, piece.length < 2 ^ 32)
    (short : pieces.flatten.length < 2 ^ 61) (ctxData : Vector UInt8 64) (hash : Vector UInt8 32) :
    (∃ ctx, pieces.foldlM sha256Update (sha256Init ctxData) = some ctx ∧
      ctx.datalen = pieces.flatten.length % 64 ∧
      ctx.bitlen.toNat = 512 * (pieces.flatten.length / 64) ∧
      sha256Final ctx hash = Fips180.digest pieces.flatten) ∧
    (pieces.flatten.length < 2 ^ 32 →
      sha256Hash ctxData pieces.flatten hash = some (Fips180.digest pieces.flatten)) := by
  constructor
  · obtain ⟨ctx, run, absorbed⟩ :=
      foldlM_sha256UpdateWith sha256Transform_compress pieces bounded (sha256Init_absorbed ctxData)
    rw [List.nil_append] at absorbed
    refine ⟨ctx, run, absorbed.datalen, ?_, sha256FinalWith_digest sha256Transform_compress absorbed hash⟩
    rw [absorbed.bitlen, UInt64.toNat_ofNat', Nat.mod_eq_of_lt (by omega)]
  · intro whole
    exact sha256HashWith_digest sha256Transform_compress whole ctxData hash

theorem sha256_pieces_digest_abc :
    (∃ ctx, [[0x61], [], [0x62, 0x63]].foldlM sha256Update (sha256Init (Vector.replicate 64 0xff)) = some ctx ∧
      ctx.datalen = 3 ∧ ctx.bitlen.toNat = 0 ∧
      sha256Final ctx (Vector.replicate 32 0) = Fips180.digest [0x61, 0x62, 0x63]) ∧
    (3 < 2 ^ 32 → sha256Hash (Vector.replicate 64 0xff) [0x61, 0x62, 0x63] (Vector.replicate 32 0) =
      some (Fips180.digest [0x61, 0x62, 0x63])) :=
  sha256_pieces_digest [[0x61], [], [0x62, 0x63]] (by decide) (by decide) (Vector.replicate 64 0xff)
    (Vector.replicate 32 0)

theorem sha256_neon_eq_hw :
    (∀ state data, sha256Transform state data = sha256TransformHw state data ∧
      sha256TransformRolledUp state data = sha256TransformHw state data) ∧
    ∀ (message : List UInt8) (ctxData ctxDataHw : Vector UInt8 64) (hash hashHw : Vector UInt8 32),
      message.length < 2 ^ 32 →
        sha256Hash ctxData message hash = some (sha256HashHw ctxDataHw message hashHw) ∧
        sha256HashWith sha256TransformRolledUp ctxData message hash =
          some (sha256HashHw ctxDataHw message hashHw) := by
  constructor
  · intro state data
    rw [sha256Transform_compress, sha256TransformRolledUp_compress, sha256TransformHw_compress]
    exact ⟨rfl, rfl⟩
  · intro message ctxData ctxDataHw hash hashHw bounded
    rw [sha256HashHw_digest]
    exact ⟨sha256HashWith_digest sha256Transform_compress bounded ctxData hash,
      sha256HashWith_digest sha256TransformRolledUp_compress bounded ctxData hash⟩

theorem sha256_neon_eq_hw_abc :
    sha256Hash (Vector.replicate 64 0xff) [0x61, 0x62, 0x63] (Vector.replicate 32 0) =
      some (sha256HashHw (Vector.replicate 64 0) [0x61, 0x62, 0x63] (Vector.replicate 32 1)) ∧
    sha256HashHw (Vector.replicate 64 0) [0x61, 0x62, 0x63] (Vector.replicate 32 1) =
      #v[0xba, 0x78, 0x16, 0xbf, 0x8f, 0x01, 0xcf, 0xea, 0x41, 0x41, 0x40, 0xde, 0x5d, 0xae, 0x22, 0x23,
        0xb0, 0x03, 0x61, 0xa3, 0x96, 0x17, 0x7a, 0x9c, 0xb4, 0x10, 0xff, 0x61, 0xf2, 0x00, 0x15, 0xad] :=
  ⟨(sha256_neon_eq_hw.2 [0x61, 0x62, 0x63] _ _ _ _ (by decide)).1, by decide +kernel⟩

end DedupProof
