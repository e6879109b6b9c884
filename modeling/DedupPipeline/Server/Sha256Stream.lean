import DedupPipeline.Server.Sha256Rounds
import Mathlib.Data.Nat.Bitwise

namespace DedupProof

open DedupModel BlockStream

def Compresses (transform : Transform) : Prop :=
  ∀ state data, transform state data = Fips180.compress state data.toList

structure Absorbed (message : List UInt8) (ctx : Sha256Ctx) : Prop where
  state : ctx.state = absorb 64 Fips180.compress Fips180.initialHash message
  pending : ctx.data.toList.take ctx.datalen = leftover 64 message
  bitlen : ctx.bitlen = UInt64.ofNat (512 * (message.length / 64))

theorem Absorbed.datalen {message : List UInt8} {ctx : Sha256Ctx} (absorbed : Absorbed message ctx) :
    ctx.datalen = message.length % 64 := by
  have count := congrArg List.length absorbed.pending
  rw [leftover_length, List.length_take, Vector.length_toList, Nat.min_eq_left (Nat.le_of_lt ctx.inside)] at count
  exact count

theorem sha256Init_absorbed (data : Vector UInt8 64) : Absorbed [] (sha256Init data) where
  state := (absorb_short _ (by decide)).symm
  pending := rfl
  bitlen := rfl

theorem take_set (buffer : List UInt8) (byte : UInt8) {i : Nat} (inside : i < buffer.length) :
    (buffer.set i byte).take (i + 1) = buffer.take i ++ [byte] := by
  rw [List.set_eq_take_append_cons_drop, if_pos inside, List.take_append, List.take_take]
  simp [Nat.min_eq_left (Nat.le_of_lt inside)]

theorem updateByte_absorbed {transform : Transform} (correct : Compresses transform) {message : List UInt8}
    {ctx : Sha256Ctx} (absorbed : Absorbed message ctx) (byte : UInt8) :
    Absorbed (message ++ [byte]) (updateByte transform ctx byte) := by
  have stored : (ctx.data.set ctx.datalen byte ctx.inside).toList.take (ctx.datalen + 1) =
      leftover 64 message ++ [byte] := by
    rw [Vector.toList_set, take_set _ byte (by simpa using ctx.inside), absorbed.pending]
  have fed := feed_absorb Fips180.compress Fips180.initialHash message byte (show 0 < 64 by decide)
  have datalen := absorbed.datalen
  rw [feed, leftover_length, ← datalen] at fed
  have longer : (message ++ [byte]).length = message.length + 1 := List.length_append
  by_cases full : ctx.datalen + 1 = 64
  -- the byte completes a block, which is compressed
  · rw [if_pos full, Prod.mk.injEq] at fed
    rw [full, List.take_of_length_le (by simp)] at stored
    rw [updateByte, dif_pos full]
    constructor
    · rw [← fed.1, ← stored, ← absorbed.state]
      exact correct _ _
    · exact fed.2
    · have blocks : 512 * ((message ++ [byte]).length / 64) = 512 * (message.length / 64) + 512 := by omega
      rw [blocks, UInt64.ofNat_add, ← absorbed.bitlen]
      rfl
  · rw [if_neg full, Prod.mk.injEq] at fed
    rw [updateByte, dif_neg full]
    constructor
    · exact absorbed.state.trans fed.1
    · exact stored.trans fed.2
    · have blocks : (message ++ [byte]).length / 64 = message.length / 64 := by omega
      rw [blocks]
      exact absorbed.bitlen

theorem foldl_updateByte {transform : Transform} (correct : Compresses transform) (data : List UInt8)
    {message : List UInt8} {ctx : Sha256Ctx} (absorbed : Absorbed message ctx) :
    Absorbed (message ++ data) (data.foldl (updateByte transform) ctx) := by
  induction data generalizing message ctx with
  | nil => rwa [List.append_nil]
  | cons byte data ih =>
    rw [List.append_cons]
    exact ih (updateByte_absorbed correct absorbed byte)

theorem updateLoop_drop (transform : Transform) {data : List UInt8} (bounded : data.length < 2 ^ 32)
    (rounds : Nat) (i : UInt32) (ctx : Sha256Ctx) (enough : data.length < i.toNat + rounds)
    (inside : i.toNat ≤ data.length) :
    updateLoop transform data rounds i ctx = some ((data.drop i.toNat).foldl (updateByte transform) ctx) := by
  induction rounds generalizing i ctx with
  | zero => omega
  | succ rounds ih =>
    rw [updateLoop]
    by_cases more : i.toNat < data.length
    · have next : (i + 1).toNat = i.toNat + 1 := by
        rw [UInt32.toNat_add, UInt32.toNat_one, Nat.mod_eq_of_lt (by omega)]
      rw [if_pos more, ih _ _ (by omega) (by omega), next, List.drop_eq_getElem_cons more, List.foldl_cons,
        List.getD_eq_getElem _ _ more]
    · rw [if_neg more, List.drop_of_length_le (by omega), List.foldl_nil]

theorem sha256UpdateWith_foldl (transform : Transform) (ctx : Sha256Ctx) {data : List UInt8}
    (bounded : data.length < 2 ^ 32) :
    sha256UpdateWith transform ctx data = some (data.foldl (updateByte transform) ctx) := by
  have all := updateLoop_drop transform bounded (data.length + 1) 0 ctx (by simp) (by simp)
  exact all

theorem foldlM_sha256UpdateWith {transform : Transform} (correct : Compresses transform)
    (pieces : List (List UInt8)) (bounded : ∀ piece ∈ pieces, piece.length < 2 ^ 32) {message : List UInt8}
    {ctx : Sha256Ctx} (absorbed : Absorbed message ctx) :
    ∃ after, pieces.foldlM (sha256UpdateWith transform) ctx = some after ∧
      Absorbed (message ++ pieces.flatten) after := by
  induction pieces generalizing message ctx with
  | nil => exact ⟨ctx, rfl, by rwa [List.flatten_nil, List.append_nil]⟩
  | cons piece pieces ih =>
    obtain ⟨short, others⟩ := List.forall_mem_cons.mp bounded
    obtain ⟨after, run, taken⟩ := ih others (foldl_updateByte correct piece absorbed)
    refine ⟨after, ?_, ?_⟩
    · rw [List.foldlM_cons, sha256UpdateWith_foldl transform ctx short]
      exact run
    · rwa [List.flatten_cons, ← List.append_assoc]

end DedupProof
