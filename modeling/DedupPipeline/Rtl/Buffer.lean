import DedupPipeline.Library.Channel
import Mathlib.Data.Nat.Bitwise
import Mathlib.Data.Nat.ModEq

namespace DedupModel

structure Buffer (α : Type*) where
  mem : Nat → α
  qBuf : α
  waddr : Nat
  raddr : Nat
  mOutPtr : Nat
  fullN : Bool
  emptyN : Bool
  qTmp : α
  showAhead : Bool
  doutBuf : α
  doutValid : Bool

variable {α : Type*} [Inhabited α]

def bufferNext (depth address : Nat) (step : Bool) : Nat :=
  if !step then address else if address = depth - 1 then 0 else address + 1

/-- One clock; `ifDin` is what is on the data input while `if_write` is set. The memory and `q_buf` have no enable. -/
def bufferClock (depth addrWidth : Nat) (sclkEn reset : Bool) (buffer : Buffer α) (ifDin : Option α) (ifRead : Bool) :
    Buffer α :=
  let push := buffer.fullN && ifDin.isSome
  let pop := buffer.emptyN && (!buffer.doutValid || ifRead)
  let wnext := bufferNext depth buffer.waddr push
  let rnext := bufferNext depth buffer.raddr pop
  {
    mem := if push then fun i => if i = buffer.waddr then ifDin.getD (buffer.mem i) else buffer.mem i else buffer.mem
    qBuf := buffer.mem rnext
    waddr := if reset then 0 else if sclkEn then wnext else buffer.waddr
    raddr := if reset then 0 else if sclkEn then rnext else buffer.raddr
    mOutPtr :=
      if reset then 0
      else if sclkEn then
        if push && !pop then (buffer.mOutPtr + 1) % 2 ^ addrWidth
        else if !push && pop then (buffer.mOutPtr + 2 ^ addrWidth - 1) % 2 ^ addrWidth
        else buffer.mOutPtr
      else buffer.mOutPtr
    fullN :=
      if reset then true
      else if sclkEn then
        if push && !pop then buffer.mOutPtr ≠ depth - 1 else if !push && pop then true else buffer.fullN
      else buffer.fullN
    emptyN :=
      if reset then false
      else if sclkEn then
        if push && !pop then true else if !push && pop then buffer.mOutPtr ≠ 1 else buffer.emptyN
      else buffer.emptyN
    qTmp := if reset then default else if sclkEn && push then ifDin.getD buffer.qTmp else buffer.qTmp
    showAhead :=
      if reset then false else if sclkEn then push && buffer.mOutPtr = pop.toNat else buffer.showAhead
    doutBuf :=
      if reset then default
      else if sclkEn && pop then if buffer.showAhead then buffer.qTmp else buffer.qBuf
      else buffer.doutBuf
    doutValid :=
      if reset then false
      else if sclkEn then if pop then true else if ifRead then false else buffer.doutValid
      else buffer.doutValid }

/-- The clock enable is the constant that the top module ties it to. -/
def buffer (α : Type*) [Inhabited α] (depth addrWidth : Nat) : Channel.Component (Buffer α) α α where
  ready := Buffer.fullN
  offer := fun buffer => if buffer.doutValid then some buffer.doutBuf else none
  clock := bufferClock depth addrWidth true false

end DedupModel

namespace DedupProof

open DedupModel Channel

variable {α : Type*}

def ring (depth : Nat) (mem : Nat → α) (first count : Nat) : List α :=
  (List.range count).map fun i => mem ((first + i) % depth)

theorem ring_concat (depth : Nat) (mem : Nat → α) (first count : Nat) :
    ring depth mem first (count + 1) = ring depth mem first count ++ [mem ((first + count) % depth)] := by
  rw [ring, List.range_succ, List.map_append, List.map_singleton, ring]

theorem ring_cons {depth : Nat} {mem : Nat → α} {first : Nat} (inside : first < depth) (count : Nat) :
    ring depth mem first (count + 1) = mem first :: ring depth mem ((first + 1) % depth) count := by
  rw [ring, List.range_succ_eq_map, List.map_cons, List.map_map, Nat.add_zero, Nat.mod_eq_of_lt inside, ring]
  congr 1
  apply List.map_congr_left
  intro i _
  show mem ((first + (i + 1)) % depth) = _
  rw [Nat.mod_add_mod, Nat.add_right_comm, Nat.add_assoc]

theorem bufferNext_eq {depth address : Nat} (inside : address < depth) (step : Bool) :
    bufferNext depth address step = (address + step.toNat) % depth := by
  cases step with
  | false => exact (Nat.mod_eq_of_lt inside).symm
  | true =>
    show (if address = depth - 1 then 0 else address + 1) = (address + 1) % depth
    split
    · rw [show address + 1 = depth by omega, Nat.mod_self]
    · rw [Nat.mod_eq_of_lt (by omega)]

structure Buffer.Counts (depth addrWidth : Nat) (buffer : Buffer α) (count : Nat) : Prop where
  upper : count ≤ depth
  pointer : buffer.mOutPtr = count % 2 ^ addrWidth
  room : buffer.fullN = true ↔ count ≠ depth
  held : buffer.emptyN = true ↔ count ≠ 0

/-- A full buffer of `2 ^ addrWidth` cells has the counter of an empty one. -/
def Buffer.stored (depth : Nat) (buffer : Buffer α) : Nat := if buffer.fullN then buffer.mOutPtr else depth

theorem Buffer.Counts.stored {depth addrWidth : Nat} {buffer : Buffer α} {count : Nat}
    (counts : Buffer.Counts depth addrWidth buffer count) (wide : depth ≤ 2 ^ addrWidth) :
    Buffer.stored depth buffer = count := by
  obtain ⟨upper, pointer, room, _⟩ := counts
  unfold Buffer.stored
  by_cases full : buffer.fullN = true
  · have notFull := room.mp full
    rw [if_pos full, pointer, Nat.mod_eq_of_lt (by omega)]
  · rw [if_neg full]
    by_contra other
    exact full (room.mpr (Ne.symm other))

theorem count_down {count power : Nat} (positive : 0 < count) (fits : count ≤ power) :
    (count % power + power - 1) % power = (count - 1) % power := by
  rcases Nat.lt_or_eq_of_le fits with below | rfl
  · rw [Nat.mod_eq_of_lt below, Nat.sub_add_comm positive, Nat.add_mod_right]
  · rw [Nat.mod_self, Nat.zero_add]

theorem count_one {count power : Nat} (large : 2 ≤ power) (fits : count ≤ power) : count % power = 1 ↔ count = 1 := by
  rcases Nat.lt_or_eq_of_le fits with below | rfl
  · rw [Nat.mod_eq_of_lt below]
  · rw [Nat.mod_self]
    omega

def Buffer.pops (buffer : Buffer α) (ifRead : Bool) : Bool := buffer.emptyN && (!buffer.doutValid || ifRead)

def Buffer.pushes (buffer : Buffer α) (ifDin : Option α) : Bool := buffer.fullN && ifDin.isSome

theorem Buffer.Counts.clock [Inhabited α] {depth addrWidth : Nat} {buffer : Buffer α} {count : Nat}
    (counts : Buffer.Counts depth addrWidth buffer count) (deep : 2 ≤ depth) (wide : depth ≤ 2 ^ addrWidth)
    (ifDin : Option α) (ifRead : Bool) :
    Buffer.Counts depth addrWidth (bufferClock depth addrWidth true false buffer ifDin ifRead)
      (count + (Buffer.pushes buffer ifDin).toNat - (Buffer.pops buffer ifRead).toNat) := by
  obtain ⟨upper, pointer, room, held⟩ := counts
  have pushed : Buffer.pushes buffer ifDin = true → count ≠ depth := fun push =>
    room.mp (Bool.and_eq_true_iff.mp push).1
  have popped : Buffer.pops buffer ifRead = true → count ≠ 0 := fun pop => held.mp (Bool.and_eq_true_iff.mp pop).1
  have one := count_one (deep.trans wide) (upper.trans wide)
  unfold Buffer.pushes Buffer.pops at *
  simp only [bufferClock]
  cases push : buffer.fullN && ifDin.isSome <;> cases pop : buffer.emptyN && (!buffer.doutValid || ifRead) <;>
    rw [push] at pushed <;> rw [pop] at popped
  · exact ⟨upper, pointer, room, held⟩
  · have positive := Nat.pos_of_ne_zero (popped rfl)
    refine ⟨by simp; omega, ?_, ?_, ?_⟩
    · simp [pointer, count_down positive (upper.trans wide)]
    · simp
      omega
    · simp [pointer, one]
      omega
  · have below := Nat.lt_of_le_of_ne upper (pushed rfl)
    refine ⟨by simp; omega, ?_, ?_, ?_⟩
    · simp [pointer]
    · simp [pointer, Nat.mod_eq_of_lt (below.trans_le wide)]
      omega
    · simp
  · refine ⟨by simpa using upper, by simpa using pointer, by simpa using room, by simpa using held⟩

def Buffer.content (depth : Nat) (buffer : Buffer α) : List α :=
  (if buffer.doutValid then [buffer.doutBuf] else []) ++
    ring depth buffer.mem buffer.raddr (Buffer.stored depth buffer)

structure Buffer.Valid (depth addrWidth : Nat) (buffer : Buffer α) : Prop where
  counts : Buffer.Counts depth addrWidth buffer (Buffer.stored depth buffer)
  raddr : buffer.raddr < depth
  waddr : buffer.waddr = (buffer.raddr + Buffer.stored depth buffer) % depth
  /-- What was written in the clock before has not come through the memory yet. -/
  next : Buffer.stored depth buffer ≠ 0 →
    (if buffer.showAhead then buffer.qTmp else buffer.qBuf) = buffer.mem buffer.raddr

theorem Buffer.content_length {depth addrWidth : Nat} {buffer : Buffer α}
    (valid : Buffer.Valid depth addrWidth buffer) : (Buffer.content depth buffer).length ≤ depth + 1 := by
  have upper := valid.counts.upper
  have front : (if buffer.doutValid then [buffer.doutBuf] else []).length ≤ 1 := by split <;> simp
  rw [Buffer.content, List.length_append, ring, List.length_map, List.length_range]
  omega

section Clock

variable {depth addrWidth : Nat} {state : Buffer α} (valid : Buffer.Valid depth addrWidth state) (ifDin : Option α)
  (ifRead : Bool)

include valid

theorem pops_le_stored : (Buffer.pops state ifRead).toNat ≤ Buffer.stored depth state := by
  cases pop : Buffer.pops state ifRead with
  | false => exact Nat.zero_le _
  | true => exact Nat.pos_of_ne_zero (valid.counts.held.mp (Bool.and_eq_true_iff.mp pop).1)

theorem pushes_room (push : Buffer.pushes state ifDin = true) :
    Buffer.stored depth state < depth ∧ ∃ item, ifDin = some item := by
  obtain ⟨full, some⟩ := Bool.and_eq_true_iff.mp push
  exact ⟨Nat.lt_of_le_of_ne valid.counts.upper (valid.counts.room.mp full), Option.isSome_iff_exists.mp some⟩

theorem waddr_apart {i : Nat} (before : i < Buffer.stored depth state) (room : Buffer.stored depth state < depth) :
    (state.raddr + i) % depth ≠ state.waddr := by
  rw [valid.waddr]
  intro same
  have modulo : i % depth = Buffer.stored depth state % depth := Nat.ModEq.add_left_cancel' state.raddr same
  rw [Nat.mod_eq_of_lt room, Nat.mod_eq_of_lt (by omega)] at modulo
  omega

variable [Inhabited α]

theorem bufferClock_addresses :
    (bufferClock depth addrWidth true false state ifDin ifRead).raddr =
        (state.raddr + (Buffer.pops state ifRead).toNat) % depth ∧
      (bufferClock depth addrWidth true false state ifDin ifRead).waddr =
        (state.waddr + (Buffer.pushes state ifDin).toNat) % depth := by
  have inside : state.waddr < depth := by
    rw [valid.waddr]
    exact Nat.mod_lt _ (Nat.lt_of_le_of_lt (Nat.zero_le _) valid.raddr)
  exact ⟨bufferNext_eq valid.raddr _, bufferNext_eq inside _⟩

theorem bufferClock_mem {i : Nat} (before : i < Buffer.stored depth state) :
    (bufferClock depth addrWidth true false state ifDin ifRead).mem ((state.raddr + i) % depth) =
      state.mem ((state.raddr + i) % depth) := by
  show (if Buffer.pushes state ifDin then _ else state.mem) _ = _
  cases push : Buffer.pushes state ifDin with
  | false => rfl
  | true => exact if_neg (waddr_apart valid before (pushes_room valid ifDin push).1)

omit valid in
theorem bufferClock_unwritten (idle : Buffer.pushes state ifDin = false) :
    (bufferClock depth addrWidth true false state ifDin ifRead).mem = state.mem := by
  show (if Buffer.pushes state ifDin then _ else state.mem) = _
  rw [idle]
  rfl

theorem bufferClock_written {item : α} (push : Buffer.pushes state (some item) = true) :
    (bufferClock depth addrWidth true false state (some item) ifRead).mem
      ((state.raddr + Buffer.stored depth state) % depth) = item := by
  rw [← valid.waddr]
  show (if Buffer.pushes state (some item) then _ else state.mem) _ = _
  rw [push]
  exact if_pos rfl

variable (deep : 2 ≤ depth) (wide : depth ≤ 2 ^ addrWidth)

include deep wide

theorem bufferClock_stored : Buffer.stored depth (bufferClock depth addrWidth true false state ifDin ifRead) =
    Buffer.stored depth state + (Buffer.pushes state ifDin).toNat - (Buffer.pops state ifRead).toNat :=
  (valid.counts.clock deep wide ifDin ifRead).stored wide

omit deep in
/-- The item at the next read address has come through the memory, or is the one just written. -/
theorem bufferClock_next :
    (if (bufferClock depth addrWidth true false state ifDin ifRead).showAhead then
        (bufferClock depth addrWidth true false state ifDin ifRead).qTmp
      else (bufferClock depth addrWidth true false state ifDin ifRead).qBuf) =
      (bufferClock depth addrWidth true false state ifDin ifRead).mem
        ((state.raddr + (Buffer.pops state ifRead).toNat) % depth) := by
  have popped := pops_le_stored valid ifRead
  have moved : (bufferClock depth addrWidth true false state ifDin ifRead).qBuf =
      state.mem ((state.raddr + (Buffer.pops state ifRead).toNat) % depth) :=
    congrArg state.mem (bufferNext_eq valid.raddr _)
  have ahead : (bufferClock depth addrWidth true false state ifDin ifRead).showAhead =
      (Buffer.pushes state ifDin && decide (state.mOutPtr = (Buffer.pops state ifRead).toNat)) := rfl
  rw [moved, ahead]
  cases push : Buffer.pushes state ifDin with
  | false =>
    rw [bufferClock_unwritten ifDin ifRead push]
    rfl
  | true =>
    obtain ⟨room, item, rfl⟩ := pushes_room valid ifDin push
    rw [valid.counts.pointer, Nat.mod_eq_of_lt (room.trans_le wide), Bool.true_and]
    by_cases last : Buffer.stored depth state = (Buffer.pops state ifRead).toNat
    · have kept : (bufferClock depth addrWidth true false state (some item) ifRead).qTmp = item := by
        show (if Buffer.pushes state (some item) then item else state.qTmp) = item
        rw [push]
        rfl
      rw [decide_eq_true last, if_pos rfl, kept, ← last, bufferClock_written valid ifRead push]
    · rw [decide_eq_false last, if_neg Bool.false_ne_true, bufferClock_mem valid (some item) ifRead (by omega)]

theorem bufferClock_valid :
    Buffer.Valid depth addrWidth (bufferClock depth addrWidth true false state ifDin ifRead) := by
  have counts := valid.counts.clock deep wide ifDin ifRead
  have stored := bufferClock_stored valid ifDin ifRead deep wide
  have popped := pops_le_stored valid ifRead
  obtain ⟨raddr, waddr⟩ := bufferClock_addresses valid ifDin ifRead
  refine ⟨stored ▸ counts, ?_, ?_, fun _ => ?_⟩
  · rw [raddr]
    exact Nat.mod_lt _ (by omega)
  · rw [raddr, waddr, stored, valid.waddr, Nat.mod_add_mod, Nat.mod_add_mod]
    congr 1
    omega
  · rw [raddr]
    exact bufferClock_next valid ifDin ifRead wide

theorem bufferClock_ring :
    ring depth state.mem state.raddr (Buffer.stored depth state) ++ (if state.fullN then ifDin else none).toList =
      (if Buffer.pops state ifRead then [state.mem state.raddr] else []) ++
        ring depth (bufferClock depth addrWidth true false state ifDin ifRead).mem
          (bufferClock depth addrWidth true false state ifDin ifRead).raddr
          (Buffer.stored depth (bufferClock depth addrWidth true false state ifDin ifRead)) := by
  have popped := pops_le_stored valid ifRead
  have stored := bufferClock_stored valid ifDin ifRead deep wide
  -- first the item that is written, then the one that is read
  have written : ring depth (bufferClock depth addrWidth true false state ifDin ifRead).mem state.raddr
      (Buffer.stored depth state + (Buffer.pushes state ifDin).toNat) =
      ring depth state.mem state.raddr (Buffer.stored depth state) ++
        (if state.fullN then ifDin else none).toList := by
    have kept : ring depth (bufferClock depth addrWidth true false state ifDin ifRead).mem state.raddr
        (Buffer.stored depth state) = ring depth state.mem state.raddr (Buffer.stored depth state) :=
      List.map_congr_left fun i member => bufferClock_mem valid ifDin ifRead (List.mem_range.mp member)
    cases push : Buffer.pushes state ifDin with
    | false =>
      have nothing : (if state.fullN then ifDin else none) = none := by
        unfold Buffer.pushes at push
        cases full : state.fullN <;> cases ifDin <;> simp_all
      rw [nothing, Option.toList_none, List.append_nil]
      exact kept
    | true =>
      have full := (Bool.and_eq_true_iff.mp push).1
      obtain ⟨_, item, rfl⟩ := pushes_room valid ifDin push
      rw [if_pos full]
      show ring _ _ _ (Buffer.stored depth state + 1) = _ ++ [item]
      rw [ring_concat, kept, bufferClock_written valid ifRead push]
  rw [← written, stored, (bufferClock_addresses valid ifDin ifRead).1]
  cases pop : Buffer.pops state ifRead with
  | false =>
    show _ = ring _ _ ((state.raddr + 0) % depth) (_ + _ - 0)
    rw [Nat.add_zero, Nat.mod_eq_of_lt valid.raddr, Nat.sub_zero]
  | true =>
    rw [pop] at popped
    have positive : 0 < Buffer.stored depth state := popped
    have first := bufferClock_mem valid ifDin ifRead positive
    rw [Nat.add_zero, Nat.mod_eq_of_lt valid.raddr] at first
    obtain ⟨rest, count⟩ : ∃ rest, Buffer.stored depth state + (Buffer.pushes state ifDin).toNat = rest + 1 :=
      ⟨_, (Nat.sub_add_cancel (by omega)).symm⟩
    rw [count, ring_cons valid.raddr, first]
    rfl

end Clock

theorem buffer_queues [Inhabited α] {depth addrWidth : Nat} (deep : 2 ≤ depth) (wide : depth ≤ 2 ^ addrWidth) :
    Queues (buffer α depth addrWidth) (Buffer.Valid depth addrWidth) (Buffer.content depth) where
  kept := fun _ ifDin ifRead valid => bufferClock_valid valid ifDin ifRead deep wide
  conserved := by
    intro state ifDin ifRead valid
    have behind := bufferClock_ring valid ifDin ifRead deep wide
    have front : (if state.doutValid then [state.doutBuf] else []) ++
          (if Buffer.pops state ifRead then [state.mem state.raddr] else []) =
        ((buffer α depth addrWidth).delivered state ifRead).toList ++
          (if (bufferClock depth addrWidth true false state ifDin ifRead).doutValid then
            [(bufferClock depth addrWidth true false state ifDin ifRead).doutBuf] else []) := by
      have loaded : Buffer.pops state ifRead = true →
          (if state.showAhead then state.qTmp else state.qBuf) = state.mem state.raddr := fun pop =>
        valid.next (valid.counts.held.mp (Bool.and_eq_true_iff.mp pop).1)
      unfold Buffer.pops at *
      cases out : state.doutValid <;> cases held : state.emptyN <;> cases ifRead <;> rw [out, held] at loaded <;>
        simp [buffer, bufferClock, Component.delivered, out, held, loaded]
    rw [flatMap_singleton_eq]
    show Buffer.content depth state ++ (if state.fullN then ifDin else none).toList =
      _ ++ Buffer.content depth (bufferClock depth addrWidth true false state ifDin ifRead)
    rw [Buffer.content, Buffer.content, List.append_assoc, behind, ← List.append_assoc, front, List.append_assoc]

def Buffer.size (depth : Nat) (buffer : Buffer α) : Nat :=
  2 * Buffer.stored depth buffer + buffer.doutValid.toNat

section Drain

variable {depth addrWidth : Nat}

theorem Buffer.size_le {buffer : Buffer α} (valid : Buffer.Valid depth addrWidth buffer) :
    Buffer.size depth buffer ≤ 2 * depth + 1 := by
  have upper := valid.counts.upper
  have output := Bool.toNat_le buffer.doutValid
  unfold Buffer.size
  omega

theorem Buffer.content_eq_nil {buffer : Buffer α} (empty : Buffer.stored depth buffer = 0)
    (output : buffer.doutValid = false) : Buffer.content depth buffer = [] := by
  rw [Buffer.content, empty, output]
  rfl

variable [Inhabited α] {state : Buffer α}

theorem bufferClock_doutValid (ifDin : Option α) (ifRead : Bool) :
    (bufferClock depth addrWidth true false state ifDin ifRead).doutValid =
      (Buffer.pops state ifRead || state.doutValid && !ifRead) := by
  simp only [bufferClock, Buffer.pops]
  cases state.doutValid <;> cases state.emptyN <;> cases ifRead <;> rfl

theorem pushes_none {ifDin : Option α} (idle : (buffer α depth addrWidth).accepted state ifDin = none) :
    Buffer.pushes state ifDin = false := by
  unfold Component.accepted at idle
  unfold Buffer.pushes
  cases full : state.fullN with
  | false => rfl
  | true =>
    rw [if_pos (show (buffer α depth addrWidth).ready state = true from full)] at idle
    rw [idle]
    rfl

theorem buffer_drains (deep : 2 ≤ depth) (wide : depth ≤ 2 ^ addrWidth) :
    Drains (buffer α depth addrWidth) (Buffer.Valid depth addrWidth) (Buffer.content depth) (Buffer.size depth)
      2 := by
  constructor
  · intro state ifDin ifRead valid idle
    have stored := bufferClock_stored valid ifDin ifRead deep wide
    have popped := pops_le_stored valid ifRead
    rw [pushes_none idle] at stored
    show Buffer.size depth (bufferClock depth addrWidth true false state ifDin ifRead) ≤ _
    rw [Buffer.size, Buffer.size, bufferClock_doutValid, stored]
    cases pop : Buffer.pops state ifRead <;> cases state.doutValid <;> cases ifRead <;> rw [pop] at popped <;>
      simp at popped ⊢ <;> omega
  · intro state ifDin valid some idle
    have stored := bufferClock_stored valid ifDin true deep wide
    have popped := pops_le_stored valid true
    have pops : Buffer.pops state true = state.emptyN := by simp [Buffer.pops]
    rw [pushes_none idle] at stored
    show Buffer.size depth (bufferClock depth addrWidth true false state ifDin true) < _
    rw [Buffer.size, Buffer.size, bufferClock_doutValid, stored]
    rw [pops] at popped ⊢
    cases held : state.emptyN with
    | true =>
      rw [held] at popped
      simp at popped ⊢
      omega
    | false =>
      have none : Buffer.stored depth state = 0 := by
        by_contra items
        rw [valid.counts.held.mpr items] at held
        cases held
      cases output : state.doutValid with
      | false => exact absurd (Buffer.content_eq_nil none output) some
      | true => simp [none]
  · intro state ifDin ifRead valid
    have stored := bufferClock_stored valid ifDin ifRead deep wide
    have popped := pops_le_stored valid ifRead
    have single := Bool.toNat_le (Buffer.pushes state ifDin)
    show Buffer.size depth (bufferClock depth addrWidth true false state ifDin ifRead) ≤ _
    rw [Buffer.size, Buffer.size, bufferClock_doutValid, stored]
    cases pop : Buffer.pops state ifRead <;> cases state.doutValid <;> cases ifRead <;> rw [pop] at popped <;>
      simp at popped ⊢ <;> omega

end Drain

theorem buffer_reset [Inhabited α] {depth addrWidth : Nat} (positive : 0 < depth) (sclkEn : Bool) (state : Buffer α)
    (ifDin : Option α) (ifRead : Bool) :
    Buffer.Valid depth addrWidth (bufferClock depth addrWidth sclkEn true state ifDin ifRead) ∧
      Buffer.content depth (bufferClock depth addrWidth sclkEn true state ifDin ifRead) = [] := by
  have none : Buffer.stored depth (bufferClock depth addrWidth sclkEn true state ifDin ifRead) = 0 := rfl
  refine ⟨⟨⟨?_, ?_, ?_, ?_⟩, positive, ?_, fun some => absurd none some⟩, rfl⟩
  · rw [none]
    exact Nat.zero_le _
  · rw [none, Nat.zero_mod]
    rfl
  · rw [none]
    exact iff_of_true rfl (Nat.ne_of_lt positive)
  · rw [none]
    exact iff_of_false Bool.false_ne_true fun some => some rfl
  · rw [none, Nat.add_zero]
    exact (Nat.mod_eq_of_lt positive).symm

/-- From a reset on, the items come out as they went in, `depth + 1` at most are held, and all come out when they are
    read for long enough; also an item that goes through the empty buffer past the memory. -/
theorem buffer_in_order [Inhabited α] {depth addrWidth : Nat} (deep : 2 ≤ depth) (wide : depth ≤ 2 ^ addrWidth)
    (state : Buffer α) (ifDin : Option α) (ifRead : Bool) (inputs : List (Input α)) {clocks : Nat}
    (enough : 2 * depth + 1 ≤ clocks) :
    ∃ held, (buffer α depth addrWidth).acceptedAll (bufferClock depth addrWidth true true state ifDin ifRead) inputs =
        (buffer α depth addrWidth).deliveredAll (bufferClock depth addrWidth true true state ifDin ifRead) inputs ++
          held ∧
      held.length ≤ depth + 1 ∧
      (buffer α depth addrWidth).deliveredAll (bufferClock depth addrWidth true true state ifDin ifRead)
          (inputs ++ draining α clocks) =
        (buffer α depth addrWidth).acceptedAll (bufferClock depth addrWidth true true state ifDin ifRead) inputs := by
  obtain ⟨valid, empty⟩ : Buffer.Valid depth addrWidth _ ∧ _ :=
    buffer_reset (show 0 < depth by omega) true state ifDin ifRead
  have queues := buffer_queues (α := α) deep wide
  have after := (Carries.run queues valid inputs).1
  exact ⟨_, Queues.run_empty queues valid empty inputs, Buffer.content_length after,
    Queues.deliveredAll_drained queues (buffer_drains deep wide) (fun _ valid => Buffer.size_le valid) valid empty
      inputs enough⟩

theorem buffer_in_order_kernel : (buffer Nat 256 8).deliveredAll
    (bufferClock 256 8 true true ⟨fun i => i, 0, 3, 4, 255, false, true, 1, true, 2, true⟩ none false)
    ([⟨some 5, false⟩, ⟨some 6, false⟩] ++ draining Nat 513) = [5, 6] := by
  obtain ⟨_, _, _, drained⟩ := buffer_in_order (show 2 ≤ 256 by decide) (show 256 ≤ 2 ^ 8 by decide)
    ⟨fun i => i, 0, 3, 4, 255, false, true, 1, true, 2, true⟩ none false [⟨some 5, false⟩, ⟨some 6, false⟩]
    (show 2 * 256 + 1 ≤ 513 by decide)
  exact drained

end DedupProof
