import DedupPipeline.Hls.Host
import DedupPipeline.Library.CommandQueue
import Mathlib.Data.UInt

namespace DedupModel

open CommandQueue

/-- Beside the state of the loop, what the commands and the host exchange. -/
structure HostMemory where
  host : HostState
  inputDataHost : Memory.Store UInt8
  inputSizeArg : UInt16
  compressedSize : UInt32
  compressedDataHost : List UInt8
  returned : Bool

def HostMemory.setDevice (memory : HostMemory) (device : Device) : HostMemory :=
  { memory with host := { memory.host with device := device } }

inductive Command where
  | writeCompressedSize
  | mapInput
  | unmapInput
  | migrate
  | task (inputSize : UInt16)
  | readCompressedSize
  | readOutput (size : UInt32)

def commandEffect : Command → HostMemory → HostMemory
  | .writeCompressedSize, memory =>
    memory.setDevice { memory.host.device with compressedSizeBuf := memory.compressedSize }
  | .mapInput, memory => { memory with inputDataHost := memory.host.device.inputBuf }
  | .unmapInput, memory => memory.setDevice { memory.host.device with inputBuf := memory.inputDataHost }
  | .migrate, memory => memory
  | .task inputSize, memory => memory.setDevice (enqueueTask memory.host.device inputSize)
  | .readCompressedSize, memory => { memory with compressedSize := memory.host.device.compressedSizeBuf }
  | .readOutput size, memory =>
    { memory with compressedDataHost := Memory.read memory.host.device.outputBuf 0 size.toNat }

abbrev HostProgram := Program Command HostMemory

def HostMemory.appendChunk (chunk : List UInt8) (memory : HostMemory) : HostMemory :=
  { memory with host := { memory.host with
      outputData := appendCompressed memory.host.outputData memory.compressedSize memory.compressedDataHost
      counters := countCompressed memory.host.counters memory.compressedSize chunk.length } }

def hostNewProgram (chunk : List UInt8) (next : HostProgram) : HostProgram :=
  .compute (fun memory => { memory with compressedSize := 0 }) <|
  .blocking (fun _ => .writeCompressedSize) <|
  .finish <|
  if inputSize < chunk.length then .compute (fun memory => { memory with returned := true }) .done
  else
    .blocking (fun _ => .mapInput) <|
    .compute (fun memory => { memory with inputDataHost := Memory.write memory.inputDataHost 0 chunk }) <|
    .enqueue (fun _ => .unmapInput) <|
    .finish <|
    .compute (fun memory => { memory with inputSizeArg := UInt16.ofNat chunk.length }) <|
    .enqueue (fun _ => .migrate) <|
    .finish <|
    .enqueue (fun memory => .task memory.inputSizeArg) <|
    .waitLast <|
    .finish <|
    .blocking (fun _ => .readCompressedSize) <|
    .finish <|
    .blocking (fun memory => .readOutput memory.compressedSize) <|
    .compute (HostMemory.appendChunk chunk) next

def hostChunkProgram (file : List UInt8) (bounds : Nat × Nat) (next : HostProgram) : HostProgram :=
  let (start, stop) := bounds
  let chunkSize := stop - start
  let chunk := (file.drop start).take chunkSize
  if chunkSize = 0 ∨ maxChunkSize < chunkSize then next
  else .choose fun memory =>
    let (duplicateIndex, chunkHashMap, lzwChunkIndex) :=
      dedup (chunkHash chunk) memory.host.chunkHashMap memory.host.lzwChunkIndex
    .compute (fun memory => { memory with host := { memory.host with
      chunkHashMap := chunkHashMap, lzwChunkIndex := lzwChunkIndex } }) <|
    if duplicateIndex ≠ -1 then
      .compute (fun memory => { memory with host := hostDuplicate memory.host duplicateIndex chunk.length }) next
    else hostNewProgram chunk next

def HostMemory.start (locals : HostMemory) (device : Device) (counters : Counters) : HostMemory :=
  { locals with host := hostStart device counters, returned := false }

def hostProgram (file : List UInt8) : HostProgram := (chunkBounds file).foldr (hostChunkProgram file) .done

end DedupModel

namespace DedupProof

open DedupModel CommandQueue

theorem hostNewProgram_synced (chunk : List UInt8) {next : HostProgram} (synced : next.Synced) :
    (hostNewProgram chunk next).Synced := by
  unfold hostNewProgram
  split
  · exact ⟨trivial, trivial⟩
  · exact ⟨trivial, trivial, trivial, trivial, trivial, trivial, trivial, synced⟩

theorem hostChunkProgram_synced (file : List UInt8) (bounds : Nat × Nat) {next : HostProgram}
    (synced : next.Synced) : (hostChunkProgram file bounds next).Synced := by
  unfold hostChunkProgram
  dsimp only
  split
  · exact synced
  · intro memory
    dsimp only [Program.Synced]
    split
    · exact synced
    · exact hostNewProgram_synced _ synced

theorem hostProgram_synced (file : List UInt8) : (hostProgram file).Synced := by
  unfold hostProgram
  induction chunkBounds file with
  | nil => exact trivial
  | cons bounds rest ih => exact hostChunkProgram_synced file bounds ih

theorem inOrder_hostNewProgram {chunk : List UInt8} {memory : HostMemory} {after : HostState}
    (made : hostNew memory.host chunk = some after) (next : HostProgram) :
    ∃ later, inOrder commandEffect (hostNewProgram chunk next) memory = inOrder commandEffect next later ∧
      later.host = after ∧ later.returned = memory.returned := by
  unfold hostNew at made
  dsimp only at made
  split at made
  · cases made
  · rename_i fits
    obtain rfl := Option.some.inj made
    rw [hostNewProgram, if_neg fits]
    exact ⟨_, rfl, rfl, rfl⟩

theorem inOrder_hostChunkProgram {file : List UInt8} {bounds : Nat × Nat} {memory : HostMemory} {after : HostState}
    (made : hostChunk file memory.host bounds = some after) (next : HostProgram) :
    ∃ later, inOrder commandEffect (hostChunkProgram file bounds next) memory = inOrder commandEffect next later ∧
      later.host = after ∧ later.returned = memory.returned := by
  unfold hostChunk at made
  unfold hostChunkProgram
  dsimp only at made ⊢
  split at made
  · rename_i invalid
    obtain rfl := Option.some.inj made
    rw [if_pos invalid]
    exact ⟨memory, rfl, rfl, rfl⟩
  · rename_i valid
    rw [if_neg valid, inOrder]
    split at made
    · rename_i duplicate
      obtain rfl := Option.some.inj made
      rw [if_pos duplicate]
      exact ⟨_, rfl, rfl, rfl⟩
    · rename_i new
      rw [if_neg new, inOrder]
      exact inOrder_hostNewProgram made next

theorem inOrder_hostProgram {file : List UInt8} {memory : HostMemory} {final : HostState}
    (ran : (chunkBounds file).foldlM (hostChunk file) memory.host = some final) :
    (inOrder commandEffect (hostProgram file) memory).host = final ∧
      (inOrder commandEffect (hostProgram file) memory).returned = memory.returned := by
  unfold hostProgram
  generalize chunkBounds file = bounds at ran ⊢
  induction bounds generalizing memory with
  | nil => exact ⟨Option.some.inj ran, rfl⟩
  | cons bounds rest ih =>
    obtain ⟨after, made, later⟩ := Option.bind_eq_some_iff.mp ran
    obtain ⟨middle, same, rfl, kept⟩ :=
      inOrder_hostChunkProgram made (rest.foldr (hostChunkProgram file) Program.done)
    rw [List.foldr_cons, same, ← kept]
    exact ih later

theorem hostChunkLoop_returns (device : Device) (counters : Counters) {file : List UInt8}
    (short : file.length < 70000000) : ∃ final, hostChunkLoop device counters file = some final := by
  have related := chunkBounds_chunks (show file.length < 2 ^ 32 by omega)
  have start : HostMatches (hostStart device counters) (encoderStart encoderGlobals []) := ⟨rfl, rfl, rfl⟩
  obtain ⟨final, ran, _⟩ := Loop.foldlM_lockstep related
    (fun _ _ _ _ before isChunk => hostChunk_matches before isChunk) start
  exact ⟨final, ran⟩

/-- Whatever order the queue takes its commands in, no schedule goes on for ever or gets stuck, and each ends with
    what the calls do in program order. -/
theorem host_out_of_order (locals : HostMemory) (device : Device) (counters : Counters) {file : List UInt8}
    (short : file.length < 70000000) {actions : List Action} {state : State Command HostMemory}
    (ran : run commandEffect (start (hostProgram file) (locals.start device counters)) actions = some state) :
    Acc (fun next state => ∃ action, step commandEffect state action = some next) state ∧
    (state.program = .done ∨ ∃ action next, step commandEffect state action = some next) ∧
    (state.program = .done → state.pending = [] ∧ state.memory.returned = false ∧
      hostChunkLoop device counters file = some state.memory.host) := by
  have follows := (Follows.start (hostProgram_synced file) _).run ran
  obtain ⟨final, looped⟩ := hostChunkLoop_returns device counters short
  have ordered : (chunkBounds file).foldlM (hostChunk file) (locals.start device counters).host = some final :=
    looped
  obtain ⟨host, returned⟩ := inOrder_hostProgram ordered
  refine ⟨step_terminates commandEffect state, follows.progress, fun done => ?_⟩
  obtain ⟨empty, meaning⟩ := follows.finished done
  rw [meaning, looped, host]
  exact ⟨empty, returned, rfl⟩

theorem host_out_of_order_twice : ∃ actions state,
    run commandEffect (start (hostProgram [27, 27])
      (HostMemory.start ⟨hostStart ⟨0, 0, 0, initialGlobals⟩ Counters.zero, 0, 0, 7, [], true⟩
        ⟨0, 0, 0, initialGlobals⟩ Counters.zero)) actions = some state ∧
    state.pending = [] ∧
    hostChunkLoop ⟨0, 0, 0, initialGlobals⟩ Counters.zero [27, 27] = some state.memory.host := by
  have follows : Follows commandEffect _ (start (hostProgram [27, 27])
      (HostMemory.start ⟨hostStart ⟨0, 0, 0, initialGlobals⟩ Counters.zero, 0, 0, 7, [], true⟩
        ⟨0, 0, 0, initialGlobals⟩ Counters.zero)) := Follows.start (hostProgram_synced _) _
  obtain ⟨actions, state, ran, done⟩ := follows.completes
  obtain ⟨_, _, complete⟩ := host_out_of_order _ _ _ (by decide) ran
  exact ⟨actions, state, ran, (complete done).1, (complete done).2.2⟩

end DedupProof
