import DedupPipeline.Library.Channel

namespace DedupModel

inductive RegSliceState where
  | zero
  | one
  | two
  | undefined
  deriving DecidableEq

structure RegSlice (α : Type*) where
  dataP1 : α
  dataP2 : α
  sReadyT : Bool
  state : RegSliceState

variable {α : Type*}

def RegSlice.sReady (slice : RegSlice α) : Bool := slice.sReadyT

def RegSlice.mValid (slice : RegSlice α) : Bool := slice.state = .one ∨ slice.state = .two

def regSliceNext (slice : RegSlice α) (sValid mReady : Bool) : RegSliceState :=
  match slice.state with
  | .zero => if sValid && slice.sReady then .one else .zero
  | .one => if !sValid && mReady then .zero else if sValid && !mReady then .two else .one
  | .two => if mReady then .one else .two
  | .undefined => .zero

/-- One clock; `sData` is what is on the slave side while `s_valid` is set. -/
def regSliceClock (reset : Bool) (slice : RegSlice α) (sData : Option α) (mReady : Bool) : RegSlice α :=
  let sValid := sData.isSome
  let next := regSliceNext slice sValid mReady
  let loadP1 :=
    slice.state = .zero && sValid || slice.state = .one && sValid && mReady || slice.state = .two && mReady
  let loadP2 := sValid && slice.sReady
  {
    dataP1 := if loadP1 then if slice.state = .two then slice.dataP2 else sData.getD slice.dataP1 else slice.dataP1
    dataP2 := if loadP2 then sData.getD slice.dataP2 else slice.dataP2
    sReadyT :=
      if reset then false
      else if slice.state = .zero then true
      else if slice.state = .one && next = .two then false
      else if slice.state = .two && next = .one then true
      else slice.sReadyT
    state := if reset then .zero else next }

def regSlice (α : Type*) : Channel.Component (RegSlice α) α α where
  ready := RegSlice.sReady
  offer := fun slice => if slice.mValid then some slice.dataP1 else none
  clock := regSliceClock false

end DedupModel

namespace DedupProof

open DedupModel Channel

variable {α : Type*}

def RegSlice.content (slice : RegSlice α) : List α :=
  match slice.state with
  | .zero => []
  | .one => [slice.dataP1]
  | .two => [slice.dataP1, slice.dataP2]
  | .undefined => []

def RegSlice.Valid (slice : RegSlice α) : Prop :=
  slice.state ≠ .undefined ∧ (slice.state = .one → slice.sReady = true) ∧ (slice.state = .two → slice.sReady = false)

theorem regSlice_queues : Queues (regSlice α) RegSlice.Valid RegSlice.content := by
  constructor
  · rintro ⟨p1, p2, ready, state⟩ item taking valid
    cases state <;> cases ready <;> cases item <;> cases taking <;>
      simp_all [RegSlice.Valid, regSlice, regSliceClock, regSliceNext, RegSlice.sReady]
  · rintro ⟨p1, p2, ready, state⟩ item taking valid
    cases state <;> cases ready <;> cases item <;> cases taking <;>
      simp_all [RegSlice.Valid, regSlice, regSliceClock, regSliceNext, RegSlice.sReady, RegSlice.mValid,
        RegSlice.content, Component.accepted, Component.delivered, List.singleton]

theorem RegSlice.content_length (slice : RegSlice α) : (RegSlice.content slice).length ≤ 2 := by
  unfold RegSlice.content
  split <;> simp

theorem regSlice_drains : Drains (regSlice α) RegSlice.Valid RegSlice.content
    (fun slice => (RegSlice.content slice).length) 1 := by
  constructor
  · rintro ⟨p1, p2, ready, state⟩ item taking valid idle
    cases state <;> cases ready <;> cases item <;> cases taking <;>
      simp_all [RegSlice.Valid, regSlice, regSliceClock, regSliceNext, RegSlice.sReady, RegSlice.content,
        Component.accepted]
  · rintro ⟨p1, p2, ready, state⟩ item valid some idle
    cases state <;> cases ready <;> cases item <;>
      simp_all [RegSlice.Valid, regSlice, regSliceClock, regSliceNext, RegSlice.sReady, RegSlice.content,
        Component.accepted]
  · rintro ⟨p1, p2, ready, state⟩ item taking valid
    cases state <;> cases ready <;> cases item <;> cases taking <;>
      simp_all [RegSlice.Valid, regSlice, regSliceClock, regSliceNext, RegSlice.sReady, RegSlice.content]

theorem regSlice_reset (slice : RegSlice α) (sData : Option α) (mReady : Bool) :
    RegSlice.Valid (regSliceClock true slice sData mReady) ∧
      RegSlice.content (regSliceClock true slice sData mReady) = [] := by
  simp [RegSlice.Valid, RegSlice.content, regSliceClock]

end DedupProof
