import DedupPipeline.Library.Channel
import Mathlib.Data.Nat.Bitwise

namespace DedupModel

/-- `mem` is shifted; the oldest item in it is at `pout`. -/
structure Fifo (α : Type*) where
  emptyN : Bool
  fullN : Bool
  q : α
  dataVld : Bool
  pout : Nat
  mem : Nat → α

variable {α : Type*} [Inhabited α]

def fifoClock (depth depthBits : Nat) (sclkEn reset : Bool) (fifo : Fifo α) (data : Option α) (rdreq : Bool) :
    Fifo α :=
  let wrreq := data.isSome
  let push := fifo.fullN && wrreq
  let free := !(fifo.emptyN && !rdreq)
  let pop := fifo.dataVld && free
  let fullCond := if 2 ≤ depth then push && !pop && fifo.pout = depth - 2 && fifo.dataVld else push && !pop
  {
    q := if reset then default else if sclkEn && free then fifo.mem fifo.pout else fifo.q
    emptyN := if reset then false else if sclkEn && free then fifo.dataVld else fifo.emptyN
    dataVld :=
      if reset then false
      else if sclkEn then
        if push then true else if !push && pop && fifo.pout = 0 then false else fifo.dataVld
      else fifo.dataVld
    fullN :=
      if reset then true
      else if sclkEn then if pop then true else if fullCond then false else fifo.fullN
      else fifo.fullN
    pout :=
      if reset then 0
      else if sclkEn then
        if push && !pop && fifo.dataVld then (fifo.pout + 1) % 2 ^ depthBits
        else if !push && pop && fifo.pout ≠ 0 then fifo.pout - 1
        else fifo.pout
      else fifo.pout
    mem :=
      if sclkEn && push then fun i =>
        if i = 0 then data.getD (fifo.mem 0) else if i < depth then fifo.mem (i - 1) else fifo.mem i
      else fifo.mem }

def fifo (α : Type*) [Inhabited α] (depth depthBits : Nat) : Channel.Component (Fifo α) α α where
  ready := Fifo.fullN
  offer := fun fifo => if fifo.emptyN then some fifo.q else none
  clock := fifoClock depth depthBits true false

end DedupModel

namespace DedupProof

open DedupModel Channel

variable {α : Type*}

/-- The items in `mem` from `mem[count - 1]` to `mem[0]`, the oldest first. -/
def shifted (mem : Nat → α) (count : Nat) : List α := (List.range count).reverse.map mem

theorem shifted_succ (mem : Nat → α) (count : Nat) : shifted mem (count + 1) = mem count :: shifted mem count := by
  rw [shifted, List.range_succ, List.reverse_concat, List.map_cons, shifted]

theorem shifted_push {mem after : Nat → α} {count : Nat} {item : α} (first : after 0 = item)
    (moved : ∀ i < count, after (i + 1) = mem i) : shifted after (count + 1) = shifted mem count ++ [item] := by
  induction count with
  | zero => rw [shifted_succ, first]; rfl
  | succ count ih =>
    rw [shifted_succ, moved count (Nat.lt_succ_self count), ih fun i inside => moved i (Nat.lt_succ_of_lt inside),
      shifted_succ, List.cons_append]

theorem shifted_pushed {mem : Nat → α} {depth count : Nat} {item : α} (inside : count < depth) :
    shifted (fun i => if i = 0 then item else if i < depth then mem (i - 1) else mem i) (count + 1) =
      shifted mem count ++ [item] := by
  refine shifted_push rfl fun i below => ?_
  rw [if_neg (Nat.succ_ne_zero i), if_pos (by omega), Nat.add_sub_cancel]

def Fifo.stored (fifo : Fifo α) : Nat := if fifo.dataVld then fifo.pout + 1 else 0

def Fifo.content (fifo : Fifo α) : List α :=
  (if fifo.emptyN then [fifo.q] else []) ++ shifted fifo.mem (Fifo.stored fifo)

structure Fifo.Valid (depth : Nat) (fifo : Fifo α) : Prop where
  start : fifo.dataVld = false → fifo.pout = 0
  inside : fifo.pout < depth
  full : fifo.fullN = false ↔ fifo.dataVld = true ∧ fifo.pout = depth - 1

def Fifo.pops (fifo : Fifo α) (rdreq : Bool) : Bool := fifo.dataVld && !(fifo.emptyN && !rdreq)

theorem Fifo.content_length {depth : Nat} {fifo : Fifo α} (valid : Fifo.Valid depth fifo) :
    (Fifo.content fifo).length ≤ depth + 1 := by
  have inside := valid.inside
  have front : (if fifo.emptyN then [fifo.q] else []).length ≤ 1 := by split <;> simp
  have behind : (shifted fifo.mem (Fifo.stored fifo)).length ≤ depth := by
    rw [shifted, List.length_map, List.length_reverse, List.length_range, Fifo.stored]
    split <;> omega
  rw [Fifo.content, List.length_append]
  omega

section Clock

variable [Inhabited α] {depth depthBits : Nat} (deep : 2 ≤ depth) (wide : depth ≤ 2 ^ depthBits) {state : Fifo α}
  (valid : Fifo.Valid depth state) (data : Option α) (rdreq : Bool)

include deep wide valid

theorem fifoClock_valid : Fifo.Valid depth (fifoClock depth depthBits true false state data rdreq) := by
  obtain ⟨emptyN, fullN, q, dataVld, pout, mem⟩ := state
  obtain ⟨start, inside, full⟩ := valid
  have room : (fullN && data.isSome) = true → fullN = true := by cases fullN <;> simp
  have held : (dataVld && !(emptyN && !rdreq)) = true → dataVld = true := by cases dataVld <;> simp
  dsimp only at start inside full
  simp only [fifoClock, if_pos deep]
  generalize (fullN && data.isSome) = push at room ⊢
  generalize (dataVld && !(emptyN && !rdreq)) = pop at held ⊢
  have grown : pout ≠ depth - 1 → (pout + 1) % 2 ^ depthBits = pout + 1 := fun below => Nat.mod_eq_of_lt (by omega)
  constructor
  · cases push <;> cases pop <;> cases dataVld <;> simp_all
  · by_cases first : pout = 0 <;> cases push <;> cases pop <;> cases dataVld <;> simp_all <;> omega
  · by_cases first : pout = 0 <;> cases push <;> cases pop <;> cases dataVld <;> simp_all <;> omega

theorem fifoClock_mem :
    shifted state.mem (Fifo.stored state) ++ (if state.fullN then data else none).toList =
      (if Fifo.pops state rdreq then [state.mem state.pout] else []) ++
        shifted (fifoClock depth depthBits true false state data rdreq).mem
          (Fifo.stored (fifoClock depth depthBits true false state data rdreq)) := by
  obtain ⟨emptyN, fullN, q, dataVld, pout, mem⟩ := state
  obtain ⟨start, inside, full⟩ := valid
  dsimp only at start inside full
  simp only [fifoClock, Fifo.pops, Fifo.stored]
  have pushed (item : α) {count : Nat} (below : count < depth) :
      shifted (fun i => if i = 0 then item else if i < depth then mem (i - 1) else mem i) (count + 1) =
        shifted mem count ++ [item] := shifted_pushed below
  have grown : pout ≠ depth - 1 → (pout + 1) % 2 ^ depthBits = pout + 1 := fun below => Nat.mod_eq_of_lt (by omega)
  have lower : shifted mem (pout + 1) =
      mem pout :: shifted mem (if pout = 0 then 0 else (if pout = 0 then pout else pout - 1) + 1) := by
    rw [shifted_succ]
    by_cases first : pout = 0
    · simp [first]
    · simp [first, Nat.sub_add_cancel (Nat.pos_of_ne_zero first)]
  cases dataVld with
  | false =>
    have room : fullN = true := by simpa using full
    cases data with
    | none => simp [room, shifted]
    | some item =>
      obtain rfl : pout = 0 := start rfl
      simp [room, pushed item inside]
  | true =>
    cases fullN with
    | false => rcases Bool.eq_false_or_eq_true (!(emptyN && !rdreq)) with free | free <;> simp [free, lower]
    | true =>
      have below : pout + 1 < depth := by
        have notFull : ¬pout = depth - 1 := by simpa using full
        omega
      cases data with
      | none => rcases Bool.eq_false_or_eq_true (!(emptyN && !rdreq)) with free | free <;> simp [free, lower]
      | some item =>
        rcases Bool.eq_false_or_eq_true (!(emptyN && !rdreq)) with free | free
        · simp [free, pushed item inside, shifted_succ]
        · simp [free, grown (by omega), pushed item below]

end Clock

section Queue

variable [Inhabited α] {depth depthBits : Nat} (deep : 2 ≤ depth) (wide : depth ≤ 2 ^ depthBits)

include deep wide

theorem fifo_queues : Queues (fifo α depth depthBits) (Fifo.Valid depth) Fifo.content where
  kept := fun _ data rdreq valid => fifoClock_valid deep wide valid data rdreq
  conserved := by
    intro state data rdreq valid
    have behind := fifoClock_mem deep wide valid data rdreq
    -- the output register gives its item away, or keeps it, and is filled again from `mem`
    have front : (if state.emptyN then [state.q] else []) ++
          (if Fifo.pops state rdreq then [state.mem state.pout] else []) =
        ((fifo α depth depthBits).delivered state rdreq).toList ++
          (if (fifoClock depth depthBits true false state data rdreq).emptyN then
            [(fifoClock depth depthBits true false state data rdreq).q] else []) := by
      obtain ⟨emptyN, fullN, q, dataVld, pout, mem⟩ := state
      cases emptyN <;> cases dataVld <;> cases rdreq <;> simp [fifo, fifoClock, Fifo.pops, Component.delivered]
    rw [flatMap_singleton_eq]
    show Fifo.content state ++ (if state.fullN then data else none).toList =
      _ ++ Fifo.content (fifoClock depth depthBits true false state data rdreq)
    rw [Fifo.content, Fifo.content, List.append_assoc, behind, ← List.append_assoc, front, List.append_assoc]

end Queue

def Fifo.size (fifo : Fifo α) : Nat := 2 * Fifo.stored fifo + fifo.emptyN.toNat

theorem Fifo.size_le {depth : Nat} {fifo : Fifo α} (valid : Fifo.Valid depth fifo) :
    Fifo.size fifo ≤ 2 * depth + 1 := by
  have inside := valid.inside
  have output := Bool.toNat_le fifo.emptyN
  unfold Fifo.size Fifo.stored
  split <;> omega

theorem Fifo.content_ne_nil {depth : Nat} {fifo : Fifo α} (valid : Fifo.Valid depth fifo)
    (full : fifo.fullN = false) : Fifo.content fifo ≠ [] := by
  have held := (valid.full.mp full).1
  rw [Fifo.content, Fifo.stored, if_pos held, shifted_succ]
  simp

theorem Fifo.content_eq_nil {fifo : Fifo α} (empty : Fifo.stored fifo = 0) (output : fifo.emptyN = false) :
    Fifo.content fifo = [] := by
  rw [Fifo.content, empty, output]
  rfl

section Drain

variable [Inhabited α] {depth depthBits : Nat} (deep : 2 ≤ depth) (wide : depth ≤ 2 ^ depthBits)

include deep wide

theorem fifoClock_stored {state : Fifo α} (valid : Fifo.Valid depth state) (data : Option α) (rdreq : Bool) :
    Fifo.stored state + (if state.fullN then data else none).toList.length =
      (Fifo.pops state rdreq).toNat + Fifo.stored (fifoClock depth depthBits true false state data rdreq) := by
  have lengths := congrArg List.length (fifoClock_mem deep wide valid data rdreq)
  rw [List.length_append, List.length_append, shifted, shifted, List.length_map, List.length_map, List.length_reverse,
    List.length_reverse, List.length_range, List.length_range] at lengths
  rw [lengths]
  cases Fifo.pops state rdreq <;> rfl

omit deep wide in
theorem fifoClock_emptyN (state : Fifo α) (data : Option α) (rdreq : Bool) :
    (fifoClock depth depthBits true false state data rdreq).emptyN =
      (Fifo.pops state rdreq || state.emptyN && !rdreq) := by
  simp only [fifoClock, Fifo.pops]
  cases state.emptyN <;> cases state.dataVld <;> cases rdreq <;> rfl

theorem fifo_drains : Drains (fifo α depth depthBits) (Fifo.Valid depth) Fifo.content Fifo.size 2 := by
  constructor
  · intro state data rdreq valid idle
    have stored := fifoClock_stored deep wide valid data rdreq
    rw [show (if state.fullN then data else none) = none from idle, Option.toList_none, List.length_nil] at stored
    show Fifo.size (fifoClock depth depthBits true false state data rdreq) ≤ _
    rw [Fifo.size, Fifo.size, fifoClock_emptyN]
    cases pop : Fifo.pops state rdreq <;> cases state.emptyN <;> cases rdreq <;> rw [pop] at stored <;>
      simp at stored ⊢ <;> omega
  · intro state data valid some idle
    have stored := fifoClock_stored deep wide valid data true
    rw [show (if state.fullN then data else none) = none from idle, Option.toList_none, List.length_nil] at stored
    have pops : Fifo.pops state true = state.dataVld := by simp [Fifo.pops]
    show Fifo.size (fifoClock depth depthBits true false state data true) < _
    rw [Fifo.size, Fifo.size, fifoClock_emptyN]
    rw [pops] at stored ⊢
    cases held : state.dataVld with
    | true =>
      rw [held] at stored
      simp at stored ⊢
      omega
    | false =>
      have none : Fifo.stored state = 0 := by simp [Fifo.stored, held]
      cases output : state.emptyN with
      | false => exact absurd (Fifo.content_eq_nil none output) some
      | true =>
        rw [held, none] at stored
        simp at stored ⊢
        omega
  · intro state data rdreq valid
    have stored := fifoClock_stored deep wide valid data rdreq
    have single : (if state.fullN then data else none).toList.length ≤ 1 := by
      cases (if state.fullN then data else none) <;> simp
    show Fifo.size (fifoClock depth depthBits true false state data rdreq) ≤ _
    rw [Fifo.size, Fifo.size, fifoClock_emptyN]
    cases pop : Fifo.pops state rdreq <;> cases state.emptyN <;> cases rdreq <;> rw [pop] at stored <;>
      simp at stored ⊢ <;> omega

end Drain

theorem fifo_reset [Inhabited α] (depth depthBits : Nat) (positive : 2 ≤ depth) (sclkEn : Bool) (state : Fifo α)
    (data : Option α) (rdreq : Bool) :
    Fifo.Valid depth (fifoClock depth depthBits sclkEn true state data rdreq) ∧
      Fifo.content (fifoClock depth depthBits sclkEn true state data rdreq) = [] := by
  refine ⟨⟨fun _ => rfl, by show 0 < depth; omega, ?_⟩, rfl⟩
  simp [fifoClock]

end DedupProof
