import DedupPipeline.Rtl.Fifo
import DedupPipeline.Rtl.RegSlice

namespace DedupModel

variable (α : Type*) [Inhabited α]

def requestPath (depth depthBits : Nat) : Channel.Component (RegSlice α × Fifo α) α α :=
  (regSlice α).series (fifo α depth depthBits)

variable {α}

def requestPathReset (depth depthBits : Nat) (state : RegSlice α × Fifo α) (request : Option α) (read : Bool) :
    RegSlice α × Fifo α :=
  (regSliceClock true state.1 request state.2.fullN,
    fifoClock depth depthBits true true state.2 ((regSlice α).offer state.1) read)

end DedupModel

namespace DedupProof

open DedupModel Channel

variable {α : Type*} [Inhabited α]

def RequestPath.Valid (depth : Nat) (state : RegSlice α × Fifo α) : Prop :=
  RegSlice.Valid state.1 ∧ Fifo.Valid depth state.2

def RequestPath.content (state : RegSlice α × Fifo α) : List α := Fifo.content state.2 ++ RegSlice.content state.1

def RequestPath.size (state : RegSlice α × Fifo α) : Nat :=
  (2 + 1) * (RegSlice.content state.1).length + Fifo.size state.2

section

variable {depth depthBits : Nat} (deep : 2 ≤ depth) (wide : depth ≤ 2 ^ depthBits)

include deep

theorem requestPath_reset (state : RegSlice α × Fifo α) (request : Option α) (read : Bool) :
    RequestPath.Valid depth (requestPathReset depth depthBits state request read) ∧
      RequestPath.content (requestPathReset depth depthBits state request read) = [] := by
  obtain ⟨slice, sliceEmpty⟩ := regSlice_reset state.1 request state.2.fullN
  obtain ⟨queue, queueEmpty⟩ := fifo_reset depth depthBits deep true state.2 ((regSlice α).offer state.1) read
  refine ⟨⟨slice, queue⟩, ?_⟩
  show Fifo.content _ ++ RegSlice.content _ = []
  rw [requestPathReset, sliceEmpty, queueEmpty]
  rfl

include wide

theorem requestPath_queues :
    Queues (requestPath α depth depthBits) (RequestPath.Valid depth) RequestPath.content :=
  Queues.series regSlice_queues (fifo_queues deep wide)

theorem requestPath_drains : Drains (requestPath α depth depthBits) (RequestPath.Valid depth) RequestPath.content
    RequestPath.size ((2 + 1) * 1 + 2) :=
  Queues.series_drains regSlice_queues regSlice_drains (fifo_drains deep wide)
    fun _ valid full => Fifo.content_ne_nil valid full

/-- From a reset on, the requests come out as they went in: none is lost, repeated or overtaken, at most `depth + 3`
    wait, and all come out when they are read for long enough. -/
theorem request_path_in_order (state : RegSlice α × Fifo α) (request : Option α) (read : Bool)
    (inputs : List (Input α)) {clocks : Nat} (enough : 2 * depth + 7 ≤ clocks) :
    ∃ waiting, (requestPath α depth depthBits).acceptedAll (requestPathReset depth depthBits state request read)
          inputs =
        (requestPath α depth depthBits).deliveredAll (requestPathReset depth depthBits state request read) inputs ++
          waiting ∧
      waiting.length ≤ depth + 3 ∧
      (requestPath α depth depthBits).deliveredAll (requestPathReset depth depthBits state request read)
          (inputs ++ draining α clocks) =
        (requestPath α depth depthBits).acceptedAll (requestPathReset depth depthBits state request read) inputs := by
  obtain ⟨valid, empty⟩ : RequestPath.Valid depth (requestPathReset depth depthBits state request read) ∧ _ :=
    requestPath_reset deep state request read
  have queues := requestPath_queues (α := α) deep wide
  have after := (Carries.run queues valid inputs).1
  refine ⟨_, Queues.run_empty queues valid empty inputs, ?_, ?_⟩
  · have slice := RegSlice.content_length
      ((requestPath α depth depthBits).run (requestPathReset depth depthBits state request read) inputs).1
    have queue := Fifo.content_length after.2
    rw [RequestPath.content, List.length_append]
    omega
  · refine Queues.deliveredAll_drained queues (requestPath_drains deep wide) ?_ valid empty inputs enough
    intro state valid
    have slice := RegSlice.content_length state.1
    have queue := Fifo.size_le valid.2
    unfold RequestPath.size
    omega

end

theorem request_path_in_order_kernel :
    (requestPath Nat 69 7).deliveredAll
      (requestPathReset 69 7 (⟨7, 8, false, .two⟩, ⟨true, false, 9, true, 68, fun i => i⟩) none false)
      ([⟨none, false⟩, ⟨some 5, false⟩, ⟨some 6, false⟩] ++ draining Nat 145) = [5, 6] := by
  obtain ⟨_, _, _, drained⟩ := request_path_in_order (show 2 ≤ 69 by decide) (show 69 ≤ 2 ^ 7 by decide)
    (⟨7, 8, false, .two⟩, ⟨true, false, 9, true, 68, fun i => i⟩) none false
    [⟨none, false⟩, ⟨some 5, false⟩, ⟨some 6, false⟩] (show 2 * 69 + 7 ≤ 145 by decide)
  exact drained

end DedupProof
