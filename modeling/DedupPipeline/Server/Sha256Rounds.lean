import DedupPipeline.Library.Loop
import DedupPipeline.Library.Fips180
import DedupPipeline.Server.Sha256Hw
import Mathlib.Data.List.GetD

namespace DedupProof

open DedupModel

theorem k_constants : k = Fips180.constants := rfl
theorem kHw_constants : kHw = Fips180.constants := rfl

theorem word_ext {x y : UInt32} (bits : ∀ i, x.toBitVec.getLsbD i = y.toBitVec.getLsbD i) : x = y :=
  UInt32.toBitVec_inj.1 (BitVec.eq_of_getLsbD_eq fun i _ => bits i)

theorem shaChoose_ch (x y z : UInt32) : shaChoose x y z = Fips180.ch x y z := by
  apply word_ext
  intro i
  simp only [shaChoose, Fips180.ch, UInt32.toBitVec_xor, UInt32.toBitVec_and, UInt32.toBitVec_not,
    BitVec.getLsbD_xor, BitVec.getLsbD_and, BitVec.getLsbD_not]
  by_cases inside : i < 32
  · cases x.toBitVec.getLsbD i <;> simp [inside]
  · simp [BitVec.getLsbD_of_ge, Nat.le_of_not_lt inside]

theorem shaMajority_maj (x y z : UInt32) : shaMajority x y z = Fips180.maj x y z := by
  apply word_ext
  intro i
  simp only [shaMajority, Fips180.maj, UInt32.toBitVec_xor, UInt32.toBitVec_and, UInt32.toBitVec_or,
    BitVec.getLsbD_xor, BitVec.getLsbD_and, BitVec.getLsbD_or]
  cases x.toBitVec.getLsbD i <;> cases y.toBitVec.getLsbD i <;> simp

def scheduleVector (block : List UInt8) (i : Nat) : UInt32x4 :=
  ⟨Fips180.schedule block (4 * i), Fips180.schedule block (4 * i + 1),
    Fips180.schedule block (4 * i + 2), Fips180.schedule block (4 * i + 3)⟩

theorem schedule_load (block : List UInt8) {t : Nat} (first : t < 16) :
    Fips180.schedule block t = Fips180.blockWord block t := by
  rw [Fips180.schedule, if_pos first]

theorem schedule_extend (block : List UInt8) (t : Nat) :
    Fips180.schedule block (t + 16) =
      Fips180.smallSigma1 (Fips180.schedule block (t + 14)) + Fips180.schedule block (t + 9) +
        Fips180.smallSigma0 (Fips180.schedule block (t + 1)) + Fips180.schedule block t := by
  rw [Fips180.schedule, if_neg (by omega)]
  rfl

theorem vsha256su1_schedule (block : List UInt8) (i : Nat) :
    vsha256su1qU32 (vsha256su0qU32 (scheduleVector block i) (scheduleVector block (i + 1)))
      (scheduleVector block (i + 2)) (scheduleVector block (i + 3)) = scheduleVector block (i + 4) := by
  have lane (t : Nat) : sigmaSu1 (Fips180.schedule block (t + 14)) +
      (sigmaSu0 (Fips180.schedule block (t + 1)) + Fips180.schedule block t) +
      Fips180.schedule block (t + 9) = Fips180.schedule block (t + 16) := by
    rw [schedule_extend]
    show Fips180.smallSigma1 _ + (Fips180.smallSigma0 _ + _) + _ = _
    ac_rfl
  have lane0 := lane (4 * i)
  have lane1 := lane (4 * i + 1)
  have lane2 := lane (4 * i + 2)
  have lane3 := lane (4 * i + 3)
  simp only [scheduleVector, vsha256su1qU32, vsha256su0qU32, Nat.mul_add, Nat.reduceMul, Nat.add_assoc,
    Nat.reduceAdd] at lane0 lane1 lane2 lane3 ⊢
  rw [lane0, lane1, lane2, lane3]

theorem getElem_toList (data : Vector UInt8 64) (j : Nat) : data[j]! = data.toList.getD j 0 := by
  by_cases inside : j < 64
  · rw [getElem!_pos _ j inside, List.getD_eq_getElem _ _ (by simpa using inside), Vector.getElem_toList]
  · rw [getElem!_neg _ j inside, List.getD_eq_default _ _ (by simpa using inside)]
    rfl

theorem elementAt_reversed (data : Vector UInt8 64) (i : Nat) (lane : Fin 13) (aligned : lane.val % 4 = 0) :
    elementAt (vrev32qU8 (vld1qU8 (fun j => data[j]!) (16 * i))) lane =
      Fips180.blockWord data.toList (4 * i + lane.val / 4) := by
  have byte (j : Nat) (small : j < 4) :
      16 * i + (4 * ((lane.val + j) / 4) + (3 - (lane.val + j) % 4)) = 4 * (4 * i + lane.val / 4) + (3 - j) := by
    omega
  have byte0 := byte 0 (by decide)
  have byte1 := byte 1 (by decide)
  have byte2 := byte 2 (by decide)
  have byte3 := byte 3 (by decide)
  rw [Nat.add_zero] at byte0
  simp only [elementAt, vrev32qU8, vld1qU8, getElem_toList]
  rw [byte0, byte1, byte2, byte3, Fips180.blockWord]
  simp only [Nat.sub_self, Nat.add_zero, Nat.sub_zero, Nat.reduceSub]
  rw [UInt32.or_comm, UInt32.or_comm (_ ||| _), UInt32.or_comm (UInt8.toUInt32 _), UInt32.or_assoc, UInt32.or_assoc]

theorem loadBlock_schedule (data : Vector UInt8 64) {i : Nat} (first : i < 4) :
    loadBlock data i = scheduleVector data.toList i := by
  have load (t : Nat) (small : t < 4) := schedule_load data.toList (show 4 * i + t < 16 by omega)
  rw [loadBlock, vreinterpretqU32U8, elementAt_reversed _ _ 0 rfl, elementAt_reversed _ _ 4 rfl,
    elementAt_reversed _ _ 8 rfl, elementAt_reversed _ _ 12 rfl, scheduleVector, load 1 (by decide),
    load 2 (by decide), load 3 (by decide), ← Nat.add_zero (4 * i), load 0 (by decide)]
  rfl

def packWorking (v : Fips180.Working) : HashState := ⟨⟨v.a, v.b, v.c, v.d⟩, ⟨v.e, v.f, v.g, v.h⟩⟩

theorem sha256HashRound_round (v : Fips180.Working) (kw : UInt32) :
    sha256HashRound ((packWorking v).abcd, (packWorking v).efgh) kw =
      ((packWorking (Fips180.round v kw)).abcd, (packWorking (Fips180.round v kw)).efgh) := by
  have sigma0 (x : UInt32) : shaHashSigma0 x = Fips180.bigSigma0 x := rfl
  have sigma1 (x : UInt32) : shaHashSigma1 x = Fips180.bigSigma1 x := rfl
  simp only [sha256HashRound, packWorking, Fips180.round, shaChoose_ch, shaMajority_maj, sigma0, sigma1]
  simp only [UInt32.add_assoc, UInt32.add_comm v.d]

theorem hashStep_rounds (block : List UInt8) (start : Fips180.Working) (i : Nat) :
    hashStep (packWorking (Fips180.rounds block start (4 * i))) (scheduleVector block i) i =
      packWorking (Fips180.rounds block start (4 * (i + 1))) := by
  have input (j : Nat) : Fips180.schedule block (4 * i + j) + k.getD (i * 4 + j) 0 =
      Fips180.roundInput block (4 * i + j) := by
    rw [Fips180.roundInput, k_constants, UInt32.add_comm, Nat.mul_comm]
  have input0 := input 0
  rw [Nat.add_zero, Nat.add_zero] at input0
  simp only [hashStep, vaddqU32, vld1qU32, scheduleVector, vsha256hqU32, vsha256h2qU32, sha256HashRounds,
    List.foldl_cons, List.foldl_nil, sha256HashRound_round, input0, input]
  rfl

theorem loadState_working (state : Vector UInt32 8) : loadState state = packWorking (Fips180.working state) := rfl

open Loop

theorem sched_loaded (data : Vector UInt8 64) (sched : Vector UInt32x4 16) :
    Held (scheduleVector data.toList)
      ((List.range 4).foldl (fun sched i => sched.setIfInBounds i (loadBlock data i)) sched) 4 := by
  apply range_invariant (fun i (sched : Vector UInt32x4 16) => Held (scheduleVector data.toList) sched i) held_zero
  intro i sched first held
  have := held_set (by decide) held
  rwa [Nat.mod_eq_of_lt (by omega), ← loadBlock_schedule data first] at this

theorem sched_extended (block : List UInt8) {sched : Vector UInt32x4 16}
    (loaded : Held (scheduleVector block) sched 4) :
    Held (scheduleVector block) ((List.range' 4 12).foldl (fun sched i => sched.setIfInBounds i
      (vsha256su1qU32 (vsha256su0qU32 sched[i - 4]! sched[i - 3]!) sched[i - 2]! sched[i - 1]!)) sched) 16 := by
  apply invariant (fun i (sched : Vector UInt32x4 16) => Held (scheduleVector block) sched i) loaded
  intro i sched later bound held
  have entry (j : Nat) (made : j < i) : sched[j]! = scheduleVector block j := held.get made (by omega)
  have next := vsha256su1_schedule block (i - 4)
  rw [show i - 4 + 1 = i - 3 by omega, show i - 4 + 2 = i - 2 by omega, show i - 4 + 3 = i - 1 by omega,
    show i - 4 + 4 = i by omega] at next
  have := held_set (by decide) held
  rwa [Nat.mod_eq_of_lt (by omega), ← next, ← entry (i - 4) (by omega), ← entry (i - 3) (by omega),
    ← entry (i - 2) (by omega), ← entry (i - 1) (by omega)] at this

theorem hashStep_foldl (block : List UInt8) (start : Fips180.Working) {sched : Vector UInt32x4 16}
    (extended : Held (scheduleVector block) sched 16) :
    (List.range 16).foldl (fun oldState i => hashStep oldState sched[i]! i) (packWorking start) =
      packWorking (Fips180.rounds block start 64) := by
  apply range_invariant (fun i curState => curState = packWorking (Fips180.rounds block start (4 * i))) rfl
  intro i curState inside now
  rw [now, extended.get inside (Nat.le_refl 16), hashStep_rounds]

theorem sha256Transform_compress (state : Vector UInt32 8) (data : Vector UInt8 64) :
    sha256Transform state data = Fips180.compress state data.toList := by
  have extended := sched_extended data.toList (sched_loaded data (Vector.replicate 16 default))
  have hashed := hashStep_foldl data.toList (Fips180.working state) extended
  exact congrArg (addState · state) hashed

/-- The rolled-up build keeps four entries and has made the rounds of all entries so far. -/
def RolledUp (block : List UInt8) (start : Fips180.Working) (i : Nat) (state : Vector UInt32x4 4 × HashState) :
    Prop :=
  Held (scheduleVector block) state.1 i ∧ state.2 = packWorking (Fips180.rounds block start (4 * i))

theorem rolledUpLoad_preserves (data : Vector UInt8 64) {start : Fips180.Working} {i : Nat}
    {state : Vector UInt32x4 4 × HashState} (first : i < 4) (before : RolledUp data.toList start i state) :
    RolledUp data.toList start (i + 1) (rolledUpLoad data state i) := by
  obtain ⟨held, hashed⟩ := before
  have made := held_set (by decide) held
  rw [Nat.mod_eq_of_lt first, ← loadBlock_schedule data first] at made
  refine ⟨made, ?_⟩
  have entry := made.get (Nat.lt_succ_self i) (by omega)
  rw [rolledUpLoad, entry, hashed, hashStep_rounds]

theorem rolledUpExtend_preserves {block : List UInt8} {start : Fips180.Working} {i : Nat}
    {state : Vector UInt32x4 4 × HashState} (later : 4 ≤ i) (before : RolledUp block start i state) :
    RolledUp block start (i + 1) (rolledUpExtend state i) := by
  obtain ⟨held, hashed⟩ := before
  -- entry `i` overwrites the oldest of the four it is made from
  have entry (j : Nat) (kept : j < 4) : state.1[(i + j) % 4]! = scheduleVector block (i - 4 + j) := by
    have := held (i - 4 + j) (by omega) (by omega)
    rwa [show (i - 4 + j) % 4 = (i + j) % 4 by omega] at this
  have next := vsha256su1_schedule block (i - 4)
  rw [show i - 4 + 4 = i by omega] at next
  have made := held_set (by decide) held
  rw [← next, ← entry 1 (by decide), ← entry 2 (by decide), ← entry 3 (by decide),
    ← Nat.add_zero (i - 4), ← entry 0 (by decide), Nat.add_zero] at made
  refine ⟨made, ?_⟩
  have newest := made i (Nat.lt_succ_self i) (by omega)
  rw [rolledUpExtend, newest, hashed, hashStep_rounds]

theorem sha256TransformRolledUp_compress (state : Vector UInt32 8) (data : Vector UInt8 64) :
    sha256TransformRolledUp state data = Fips180.compress state data.toList := by
  have entry : RolledUp data.toList (Fips180.working state) 0 (Vector.replicate 4 default, loadState state) :=
    ⟨held_zero, loadState_working state⟩
  have loaded := range_invariant (RolledUp data.toList (Fips180.working state)) entry
    (fun i ring (first : i < 4) before => rolledUpLoad_preserves data first before)
  have extended := invariant (RolledUp data.toList (Fips180.working state)) loaded
    (fun i ring later (_ : i < 4 + 12) before => rolledUpExtend_preserves later before)
  exact congrArg (addState · state) extended.2

theorem scheduleHw_loaded (data : Vector UInt8 64) (m : Vector UInt32 64) :
    Held (Fips180.schedule data.toList) ((List.range 16).foldl (fun m i => m.setIfInBounds i
      ((data[i * 4]!.toUInt32 <<< 24) ||| (data[i * 4 + 1]!.toUInt32 <<< 16) |||
        (data[i * 4 + 2]!.toUInt32 <<< 8) ||| data[i * 4 + 3]!.toUInt32)) m) 16 := by
  apply range_invariant (fun i (m : Vector UInt32 64) => Held (Fips180.schedule data.toList) m i) held_zero
  intro i m first held
  have made := held_set (by decide) held
  rw [Nat.mod_eq_of_lt (by omega), schedule_load _ first, Fips180.blockWord, Nat.mul_comm 4] at made
  simpa only [getElem_toList] using made

theorem scheduleHw_extended (block : List UInt8) {m : Vector UInt32 64}
    (loaded : Held (Fips180.schedule block) m 16) :
    Held (Fips180.schedule block) ((List.range' 16 48).foldl (fun m i => m.setIfInBounds i
      (sig1 m[i - 2]! + m[i - 7]! + sig0 m[i - 15]! + m[i - 16]!)) m) 64 := by
  apply invariant (fun i (m : Vector UInt32 64) => Held (Fips180.schedule block) m i) loaded
  intro i m later bound held
  have entry (j : Nat) (made : j < i) := held.get made (by omega)
  have next := schedule_extend block (i - 16)
  rw [show i - 16 + 16 = i by omega, show i - 16 + 14 = i - 2 by omega, show i - 16 + 9 = i - 7 by omega,
    show i - 16 + 1 = i - 15 by omega] at next
  have made := held_set (by decide) held
  rw [Nat.mod_eq_of_lt (by omega), next, ← entry (i - 2) (by omega), ← entry (i - 7) (by omega),
    ← entry (i - 15) (by omega), ← entry (i - 16) (by omega)] at made
  exact made

theorem scheduleHw_get (data : Vector UInt8 64) {t : Nat} (inside : t < 64) :
    (scheduleHw data)[t]! = Fips180.schedule data.toList t :=
  (scheduleHw_extended data.toList (scheduleHw_loaded data (Vector.replicate 64 0))).get inside (Nat.le_refl 64)

def packRegisters (v : Registers) : Fips180.Working := ⟨v.a, v.b, v.c, v.d, v.e, v.f, v.g, v.h⟩

theorem roundHw_round (data : Vector UInt8 64) (v : Registers) {i : Nat} (inside : i < 64) :
    packRegisters (roundHw (scheduleHw data) v i) =
      Fips180.round (packRegisters v) (Fips180.roundInput data.toList i) := by
  have ep (x : UInt32) : ep1 x = Fips180.bigSigma1 x := rfl
  have choose (x y z : UInt32) : chHw x y z = Fips180.ch x y z := rfl
  simp only [roundHw, packRegisters, Fips180.round, Fips180.roundInput, scheduleHw_get data inside,
    kHw_constants, ep, choose, ← UInt32.add_assoc]
  rfl

theorem roundHw_foldl (data : Vector UInt8 64) (v : Registers) :
    packRegisters ((List.range 64).foldl (roundHw (scheduleHw data)) v) =
      Fips180.rounds data.toList (packRegisters v) 64 := by
  apply range_invariant (fun i u => packRegisters u = Fips180.rounds data.toList (packRegisters v) i) rfl
  intro i u inside now
  rw [roundHw_round data u inside, now, Fips180.rounds]

theorem addRegisters_comm (h : Fips180.Working) {v : Registers} {w : Fips180.Working} (same : packRegisters v = w) :
    #v[h.a + v.a, h.b + v.b, h.c + v.c, h.d + v.d, h.e + v.e, h.f + v.f, h.g + v.g, h.h + v.h] =
    #v[w.a + h.a, w.b + h.b, w.c + h.c, w.d + h.d, w.e + h.e, w.f + h.f, w.g + h.g, w.h + h.h] := by
  rw [← same]
  simp only [packRegisters, UInt32.add_comm]

theorem sha256TransformHw_compress (state : Vector UInt32 8) (data : Vector UInt8 64) :
    sha256TransformHw state data = Fips180.compress state data.toList := by
  have hashed := roundHw_foldl data
    ⟨state[0], state[1], state[2], state[3], state[4], state[5], state[6], state[7]⟩
  exact addRegisters_comm (Fips180.working state) hashed

end DedupProof
