import DedupPipeline.Rtl.Driver
import DedupPipeline.Rtl.Handshake

namespace DedupProof

open DedupModel Clocked

def owedStart (system : System) : List Arguments :=
  if system.control.intApStart && system.kernel.apCsFsm = .state1 then [arguments system.control] else []

def owedEnd (system : System) : List Unit := if system.control.intApStart then [()] else []

/-- Without automatic restart, the kernel waits, runs, has a result that is not acknowledged, or gets the
    acknowledgement. -/
inductive Stage where
  | idle
  | busy
  | done
  | continuing

structure InStage (stage : Stage) (system : System) : Prop where
  noRestart : system.control.intAutoRestart = false
  start : system.control.intApStart = true ↔ stage = .busy
  doneReg : system.kernel.apDoneReg = true ↔ stage = .done ∨ stage = .continuing
  continues : system.control.intApContinue = true ↔ stage = .continuing
  first : stage ≠ .busy → system.kernel.apCsFsm = .state1

def Stage.next : Stage → Stage
  | .idle => .idle
  | .busy => .busy
  | .done => .done
  | .continuing => .idle

theorem arguments_kept {system : System} {input : SystemInput} (quiet : system.control.write input.bus = none) :
    arguments (systemClock false system input).control = arguments system.control := by
  simp [arguments, systemClock, controlClock, quiet, writeHalves]

section Quiet

variable {system : System} {input : SystemInput} (quiet : system.control.write input.bus = none)

include quiet

theorem quiet_waiting {stage : Stage} (waits : stage ≠ .busy) (inStage : InStage stage system) :
    InStage stage.next (systemClock false system input) ∧ startSeen system input = [] ∧
      endSeen system input = [] := by
  obtain ⟨noRestart, start, doneReg, continues, first⟩ := inStage
  rw [write_none] at quiet
  cases stage <;> simp at start doneReg continues first waits <;> refine ⟨⟨?_, ?_, ?_, ?_, ?_⟩, ?_, ?_⟩ <;>
    simp [systemClock, controlClock, kernelClock, System.output, System.starts, System.ends, startSeen, endSeen,
      Stage.next, quiet, noRestart, start, doneReg, continues, first]

theorem quiet_busy (inStage : InStage .busy system) :
    (InStage .busy (systemClock false system input) ∨ InStage .done (systemClock false system input)) ∧
      owedStart system = startSeen system input ++ owedStart (systemClock false system input) ∧
      owedEnd system = endSeen system input ++ owedEnd (systemClock false system input) := by
  obtain ⟨noRestart, start, doneReg, continues, _⟩ := inStage
  have kept := arguments_kept quiet
  rw [write_none] at quiet
  simp at start doneReg continues
  by_cases ends : system.ends input = true
  · have last : system.kernel.apCsFsm = .state293 := by
      unfold System.ends at ends
      simpa using (Bool.and_eq_true_iff.mp ends).1
    refine ⟨Or.inr ⟨?_, ?_, ?_, ?_, ?_⟩, ?_, ?_⟩ <;>
      simp [systemClock, controlClock, kernelClock, System.output, System.starts, startSeen, endSeen, owedStart,
        owedEnd, ends, last, quiet, noRestart, start, continues]
  · rw [Bool.not_eq_true] at ends
    refine ⟨Or.inl ⟨?_, ?_, ?_, ?_, ?_⟩, ?_, ?_⟩
    · simp [systemClock, controlClock, System.output, ends, quiet, noRestart]
    · simp [systemClock, controlClock, System.output, ends, quiet, start]
    · simp [systemClock, kernelClock, ends, doneReg, continues]
    · simp [systemClock, controlClock, System.output, ends, quiet, noRestart]
    · simp
    · unfold owedStart
      rw [kept]
      cases state : system.kernel.apCsFsm <;> cases worked : input.worked <;>
        simp [systemClock, controlClock, kernelClock, System.output, System.starts, startSeen, ends, quiet, start,
          doneReg, state, worked]
    · simp [systemClock, controlClock, System.output, endSeen, owedEnd, ends, quiet, start]

end Quiet

section Write

variable {system : System} {input : SystemInput}

theorem start_clock (inStage : InStage .idle system)
    (written : system.control.write input.bus = some (addrApCtrl, 0x01, 0xf)) :
    InStage .busy (systemClock false system input) ∧
      owedStart (systemClock false system input) = [arguments system.control] ∧
      owedEnd (systemClock false system input) = [()] ∧ startSeen system input = [] ∧ endSeen system input = [] := by
  obtain ⟨noRestart, start, doneReg, continues, first⟩ := inStage
  have kept : arguments (systemClock false system input).control = arguments system.control := by
    simp [arguments, systemClock, controlClock, written, writeHalves, high_append_low, addrApCtrl, addrInputDataData0,
      addrInputDataData1, addrInputSizeData0, addrInputSizeData1, addrCompressedDataData0, addrCompressedDataData1]
  obtain ⟨valid, address, data, strobes⟩ := write_some written
  simp at start doneReg continues first
  refine ⟨⟨?_, ?_, ?_, ?_, ?_⟩, ?_, ?_, ?_, ?_⟩
  · simp [systemClock, controlClock, valid, address, data, strobes]
  · simp [systemClock, controlClock, valid, address, data, strobes]
  · simp [systemClock, kernelClock, System.ends, continues, doneReg, first]
  · simp [systemClock, controlClock, valid, address, data, strobes, noRestart]
  · simp
  · unfold owedStart
    rw [kept]
    simp [systemClock, controlClock, kernelClock, System.starts, valid, address, data, strobes, start, first]
  · simp [owedEnd, systemClock, controlClock, valid, address, data, strobes]
  · simp [startSeen, System.starts, start]
  · simp [endSeen, System.ends, first]

theorem continue_clock (inStage : InStage .done system)
    (written : system.control.write input.bus = some (addrApCtrl, 0x10, 0xf)) :
    InStage .continuing (systemClock false system input) ∧ startSeen system input = [] ∧
      endSeen system input = [] := by
  obtain ⟨_, start, doneReg, continues, first⟩ := inStage
  obtain ⟨valid, address, data, strobes⟩ := write_some written
  simp at start doneReg continues first
  refine ⟨⟨?_, ?_, ?_, ?_, ?_⟩, ?_, ?_⟩ <;>
    simp [systemClock, controlClock, kernelClock, System.output, System.starts, System.ends, startSeen, endSeen,
      valid, address, data, strobes, start, doneReg, continues, first]

theorem other_clock (inStage : InStage .idle system) {waddr : BitVec 6} {wdata : BitVec 32} {wstrb : BitVec 4}
    (written : system.control.write input.bus = some (waddr, wdata, wstrb)) (other : waddr ≠ addrApCtrl) :
    InStage .idle (systemClock false system input) ∧ startSeen system input = [] ∧ endSeen system input = [] := by
  obtain ⟨noRestart, start, doneReg, continues, first⟩ := inStage
  obtain ⟨valid, rfl, data, strobes⟩ := write_some written
  simp at start doneReg continues first
  refine ⟨⟨?_, ?_, ?_, ?_, ?_⟩, ?_, ?_⟩ <;>
    simp [systemClock, controlClock, kernelClock, System.output, System.starts, System.ends, startSeen, endSeen,
      other, noRestart, start, doneReg, continues, first]

end Write

theorem write_of_seen {system : System} {input : SystemInput} (quiet : writeSeen system input = []) :
    system.control.write input.bus = none := Option.toList_eq_nil_iff.mp quiet

section QuietRun

variable {system : System} {inputs : List SystemInput} (quiet : seen writeSeen system inputs = [])

include quiet

theorem quiet_run {stage : Stage} (stays : stage.next = stage) (waits : stage ≠ .busy)
    (inStage : InStage stage system) : InStage stage (after system inputs) ∧ seen startSeen system inputs = [] ∧
      seen endSeen system inputs = [] := by
  have kept (system : System) (input : SystemInput) (quiet : writeSeen system input = [])
      (inStage : InStage stage system) : InStage stage (systemClock false system input) := by
    have next := (quiet_waiting (write_of_seen quiet) waits inStage).1
    rwa [stays] at next
  have starts := conserved_while kept (fun system input quiet inStage =>
    (show ([] : List Arguments) = startSeen system input ++ [] by
      rw [(quiet_waiting (write_of_seen quiet) waits inStage).2.1]; rfl)) inStage quiet
  have ends := conserved_while kept (fun system input quiet inStage =>
    (show ([] : List Unit) = endSeen system input ++ [] by
      rw [(quiet_waiting (write_of_seen quiet) waits inStage).2.2]; rfl)) inStage quiet
  exact ⟨run_invariant_while kept inStage quiet, (List.append_eq_nil_iff.mp starts.symm).1,
    (List.append_eq_nil_iff.mp ends.symm).1⟩

def Running (system : System) : Prop := InStage .busy system ∨ InStage .done system

omit quiet in
theorem running_clock {system : System} {input : SystemInput} (quiet : writeSeen system input = [])
    (running : Running system) : Running (systemClock false system input) ∧
      owedStart system = startSeen system input ++ owedStart (systemClock false system input) ∧
      owedEnd system = endSeen system input ++ owedEnd (systemClock false system input) := by
  rcases running with busy | done
  · exact quiet_busy (write_of_seen quiet) busy
  · obtain ⟨later, starts, ends⟩ := quiet_waiting (write_of_seen quiet) (by simp) done
    have before : system.control.intApStart = false := by simpa using done.start
    have behind : (systemClock false system input).control.intApStart = false := by
      simpa [Stage.next] using later.start
    refine ⟨Or.inr later, ?_, ?_⟩ <;> simp [owedStart, owedEnd, before, behind, starts, ends]

omit quiet in
theorem done_clock {system : System} {input : SystemInput} (quiet : writeSeen system input = [])
    (running : Running system) (apDone : (system.output input).apDone = true) :
    InStage .done (systemClock false system input) := by
  rcases running with busy | done
  · refine (quiet_busy (write_of_seen quiet) busy).1.resolve_left fun later => ?_
    have doneReg : system.kernel.apDoneReg = false := by simpa using busy.doneReg
    have ends : system.ends input = true := by simpa [System.output, doneReg] using apDone
    have silent := write_none.mp (write_of_seen quiet)
    have start : (systemClock false system input).control.intApStart = true := later.start.mpr rfl
    simp [systemClock, controlClock, System.output, silent, ends, busy.noRestart] at start
  · exact (quiet_waiting (write_of_seen quiet) (by simp) done).1

theorem running_run (running : Running system) : Running (after system inputs) ∧
    owedStart system = seen startSeen system inputs ++ owedStart (after system inputs) ∧
    owedEnd system = seen endSeen system inputs ++ owedEnd (after system inputs) :=
  have kept (system : System) (input : SystemInput) (quiet : writeSeen system input = []) (running : Running system) :
      Running (systemClock false system input) := (running_clock quiet running).1
  ⟨run_invariant_while kept running quiet,
    conserved_while kept (fun _ _ quiet running => (running_clock quiet running).2.1) running quiet,
    conserved_while kept (fun _ _ quiet running => (running_clock quiet running).2.2) running quiet⟩

end QuietRun

theorem InStage.owed {stage : Stage} {system : System} (inStage : InStage stage system) (waits : stage ≠ .busy) :
    owedStart system = [] ∧ owedEnd system = [] := by
  have start : system.control.intApStart = false := by
    have notBusy := inStage.start
    simpa [waits] using notBusy
  simp [owedStart, owedEnd, start]

theorem control_bits {control : ControlAxi} (noRestart : control.intAutoRestart = false) (kernel : KernelSignals) :
    readRegister control kernel addrApCtrl &&& 0x80 = 0 ∧
      ((readRegister control kernel addrApCtrl >>> 1) &&& 0x1 = 1 ↔ kernel.apDone = true) := by
  have bits : readRegister control kernel addrApCtrl = 0#24 ++ BitVec.ofBool control.intAutoRestart ++ 0#2 ++
      BitVec.ofBool control.intApContinue ++ BitVec.ofBool control.intApReady ++ BitVec.ofBool control.intApIdle ++
      BitVec.ofBool kernel.apDone ++ BitVec.ofBool control.intApStart := rfl
  rw [bits, noRestart]
  cases control.intApContinue <;> cases control.intApReady <;> cases control.intApIdle <;> cases kernel.apDone <;>
    cases control.intApStart <;> decide

theorem arguments_quiet {system : System} {inputs : List SystemInput} (quiet : seen writeSeen system inputs = []) :
    arguments (after system inputs).control = arguments system.control := by
  have data : Argument.value _ .inputData = _ := argument_quiet quiet
  have size : Argument.value _ .inputSize = _ := argument_quiet quiet
  have compressed : Argument.value _ .compressedData = _ := argument_quiet quiet
  exact Prod.ext data (Prod.ext size compressed)

theorem seen_around {β : Type} (see : System → SystemInput → List β) (system : System) (before : List SystemInput)
    (input : SystemInput) (rest : List SystemInput) : seen see system (before ++ input :: rest) =
      seen see system before ++ (see (after system before) input ++
        seen see (systemClock false (after system before) input) rest) :=
  seen_append see system before (input :: rest)

theorem after_around (system : System) (before : List SystemInput) (input : SystemInput) (rest : List SystemInput) :
    after system (before ++ input :: rest) = after (systemClock false (after system before) input) rest :=
  after_append system before (input :: rest)

section Performed

variable {system : System} (settled : Settled system) {inputs : List SystemInput}

include settled

theorem other_written {offset : BitVec 6} {data : BitVec 32} (write : WriteTransaction system inputs offset data)
    (other : offset ≠ addrApCtrl) (inStage : InStage .idle system) : InStage .idle (after system inputs) ∧
      seen startSeen system inputs = [] ∧ seen endSeen system inputs = [] := by
  obtain ⟨before, input, rest, rfl, unwritten, written, _, remaining⟩ := write_clock settled write
  obtain ⟨inStage, starts, ends⟩ := quiet_run unwritten rfl (by simp) inStage
  obtain ⟨inStage, start, end_⟩ := other_clock inStage written other
  obtain ⟨inStage, laterStarts, laterEnds⟩ := quiet_run remaining rfl (by simp) inStage
  rw [after_around, seen_around, seen_around, starts, start, laterStarts, ends, end_, laterEnds]
  exact ⟨inStage, rfl, rfl⟩

theorem start_written (write : WriteTransaction system inputs addrApCtrl 0x01) (inStage : InStage .idle system) :
    Running (after system inputs) ∧
      [arguments system.control] = seen startSeen system inputs ++ owedStart (after system inputs) ∧
      [()] = seen endSeen system inputs ++ owedEnd (after system inputs) := by
  obtain ⟨before, input, rest, rfl, unwritten, written, _, remaining⟩ := write_clock settled write
  obtain ⟨inStage, starts, ends⟩ := quiet_run unwritten rfl (by simp) inStage
  obtain ⟨busy, owed, owedEnds, start, end_⟩ := start_clock inStage written
  obtain ⟨running, laterStarts, laterEnds⟩ := running_run remaining (Or.inl busy)
  rw [after_around, seen_around, seen_around, starts, start, ends, end_, ← arguments_quiet unwritten, ← owed,
    ← owedEnds]
  exact ⟨running, laterStarts, laterEnds⟩

theorem continue_written (write : WriteTransaction system inputs addrApCtrl 0x10) (inStage : InStage .done system) :
    InStage .idle (after system inputs) ∧ seen startSeen system inputs = [] ∧ seen endSeen system inputs = [] := by
  obtain ⟨before, input, rest, rfl, unwritten, written, later, remaining⟩ := write_clock settled write
  obtain ⟨inStage, starts, ends⟩ := quiet_run unwritten rfl (by simp) inStage
  obtain ⟨inStage, start, end_⟩ := continue_clock inStage written
  -- the acknowledgement clears itself while the response to the write is on its way
  obtain ⟨next, rest, rfl⟩ := List.exists_cons_of_ne_nil later
  obtain ⟨now, remaining⟩ := List.append_eq_nil_iff.mp remaining
  obtain ⟨inStage, nextStarts, nextEnds⟩ := quiet_waiting (write_of_seen now) (by simp) inStage
  obtain ⟨inStage, laterStarts, laterEnds⟩ := quiet_run remaining rfl (by simp [Stage.next]) inStage
  rw [after_around, seen_around, seen_around, starts, start, ends, end_]
  refine ⟨inStage, ?_, ?_⟩
  · show [] ++ ([] ++ (startSeen _ next ++ seen startSeen _ rest)) = []
    rw [nextStarts, laterStarts]
    rfl
  · show [] ++ ([] ++ (endSeen _ next ++ seen endSeen _ rest)) = []
    rw [nextEnds, laterEnds]
    rfl

theorem leavesControl_performed {α : Type} {driver : Driver α} {result : α}
    (performed : Performs system driver inputs result) (leaves : Leaves addrApCtrl driver)
    (inStage : InStage .idle system) : InStage .idle (after system inputs) ∧ seen startSeen system inputs = [] ∧
      seen endSeen system inputs = [] := by
  induction performed with
  | pure quiet noRead => exact quiet_run (quiet_settled settled quiet noRead).2 rfl (by simp) inStage
  | readReg read _ ih =>
    obtain ⟨settled, unwritten, _⟩ := read_settled settled read
    obtain ⟨inStage, starts, ends⟩ := quiet_run unwritten rfl (by simp) inStage
    rw [after_append, seen_append, seen_append, starts, ends]
    exact ih settled (leaves _) inStage
  | writeReg write _ ih =>
    obtain ⟨inStage, starts, ends⟩ := other_written settled write leaves.1 inStage
    rw [after_append, seen_append, seen_append, starts, ends]
    exact ih (write_settled settled write).1 leaves.2 inStage

theorem start_performed {result : Unit} (performed : Performs system xLzwEncodeHwStart inputs result)
    (inStage : InStage .idle system) : Running (after system inputs) ∧
      [arguments system.control] = seen startSeen system inputs ++ owedStart (after system inputs) ∧
      [()] = seen endSeen system inputs ++ owedEnd (after system inputs) := by
  have steps : Performs system (.readReg addrApCtrl fun data =>
    .writeReg addrApCtrl ((data &&& 0x80) ||| 0x01) (.pure ())) inputs result := performed
  obtain ⟨reading, rest, data, rfl, read, steps⟩ := steps.readReg_inv
  obtain ⟨writing, last, rfl, write, steps⟩ := steps.writeReg_inv
  obtain ⟨quiet, noRead, _⟩ := steps.pure_inv
  obtain ⟨before, input, later, split, earlier, _, _, rfl⟩ := read_clock settled read
  obtain ⟨settled, unwritten, _⟩ := read_settled settled read
  have bits := (control_bits (quiet_run earlier rfl (by simp) inStage).1.noRestart
    ((after system before).output input)).1
  rw [bits] at write
  have kept := arguments_quiet unwritten
  obtain ⟨inStage, starts, ends⟩ := quiet_run unwritten rfl (by simp) inStage
  obtain ⟨running, owed, owedEnds⟩ := start_written settled write inStage
  obtain ⟨running, laterStarts, laterEnds⟩ :=
    running_run (quiet_settled (write_settled settled write).1 quiet noRead).2 running
  rw [after_append, after_append, seen_append, seen_append, seen_append, seen_append, starts, ends, ← kept, owed,
    owedEnds, laterStarts, laterEnds]
  exact ⟨running, by simp, by simp⟩

theorem continue_performed {result : Unit} (performed : Performs system xLzwEncodeHwContinue inputs result)
    (inStage : InStage .done system) : InStage .idle (after system inputs) ∧ seen startSeen system inputs = [] ∧
      seen endSeen system inputs = [] := by
  have steps : Performs system (.readReg addrApCtrl fun data =>
    .writeReg addrApCtrl ((data &&& 0x80) ||| 0x10) (.pure ())) inputs result := performed
  obtain ⟨reading, rest, data, rfl, read, steps⟩ := steps.readReg_inv
  obtain ⟨writing, last, rfl, write, steps⟩ := steps.writeReg_inv
  obtain ⟨quiet, noRead, _⟩ := steps.pure_inv
  obtain ⟨before, input, later, split, earlier, _, _, rfl⟩ := read_clock settled read
  obtain ⟨settled, unwritten, _⟩ := read_settled settled read
  have bits := (control_bits (quiet_run earlier rfl (by simp) inStage).1.noRestart
    ((after system before).output input)).1
  rw [bits] at write
  obtain ⟨inStage, starts, ends⟩ := quiet_run unwritten rfl (by simp) inStage
  obtain ⟨inStage, writeStarts, writeEnds⟩ := continue_written settled write inStage
  obtain ⟨inStage, laterStarts, laterEnds⟩ :=
    quiet_run (quiet_settled (write_settled settled write).1 quiet noRead).2 rfl (by simp) inStage
  rw [after_append, after_append, seen_append, seen_append, seen_append, seen_append, starts, ends, writeStarts,
    writeEnds, laterStarts, laterEnds]
  exact ⟨inStage, rfl, rfl⟩

theorem isDone_performed {result : BitVec 32} (performed : Performs system xLzwEncodeHwIsDone inputs result)
    (running : Running system) : Running (after system inputs) ∧
      owedStart system = seen startSeen system inputs ++ owedStart (after system inputs) ∧
      owedEnd system = seen endSeen system inputs ++ owedEnd (after system inputs) ∧
      (result = 1 → InStage .done (after system inputs)) := by
  have steps : Performs system (.readReg addrApCtrl fun data => .pure ((data >>> 1) &&& 0x1)) inputs result :=
    performed
  obtain ⟨reading, last, data, rfl, read, steps⟩ := steps.readReg_inv
  obtain ⟨quiet, noRead, rfl⟩ := steps.pure_inv
  obtain ⟨before, input, later, rfl, earlier, remaining, _, rfl⟩ := read_clock settled read
  obtain ⟨settled, unwritten, _⟩ := read_settled settled read
  have nothing := (quiet_settled settled quiet noRead).2
  obtain ⟨now, remaining⟩ := List.append_eq_nil_iff.mp remaining
  have reading := (running_run earlier running).1
  have noRestart : (after system before).control.intAutoRestart = false := reading.elim (·.noRestart) (·.noRestart)
  obtain ⟨final, starts, ends⟩ := running_run unwritten running
  obtain ⟨final, laterStarts, laterEnds⟩ := running_run nothing final
  rw [after_append, seen_append startSeen system (before ++ input :: later),
    seen_append endSeen system (before ++ input :: later), starts, ends, laterStarts, laterEnds, List.append_assoc,
    List.append_assoc]
  refine ⟨final, rfl, rfl, fun one => ?_⟩
  have apDone := (control_bits noRestart ((after system before).output input)).2.mp one
  have done := quiet_run remaining rfl (by simp) (done_clock now reading apDone)
  rw [after_around] at nothing ⊢
  exact (quiet_run nothing rfl (by simp) done.1).1

end Performed

def waitDone : Nat → Driver Bool
  | 0 => return false
  | polls + 1 => do
    if (← xLzwEncodeHwIsDone) = 1 then return true
    waitDone polls

/-- One use of the kernel: `Start` behind the arguments, `Continue` when it is done. -/
def runKernel (job : Arguments) (polls : Nat) : Driver Bool := do
  xLzwEncodeHwSetInputData job.1
  xLzwEncodeHwSetInputSize job.2.1
  xLzwEncodeHwSetCompressedData job.2.2
  xLzwEncodeHwStart
  if ← waitDone polls then
    xLzwEncodeHwContinue
    return true
  return false

def runKernels : List (Arguments × Nat) → Driver Bool
  | [] => return true
  | (job, polls) :: jobs => do
    if ← runKernel job polls then runKernels jobs else return false

section Jobs

variable {system : System} {inputs : List SystemInput} {result : Bool}

theorem waitDone_performed (settled : Settled system) {polls : Nat}
    (performed : Performs system (waitDone polls) inputs result) (running : Running system) :
    Running (after system inputs) ∧
      owedStart system = seen startSeen system inputs ++ owedStart (after system inputs) ∧
      owedEnd system = seen endSeen system inputs ++ owedEnd (after system inputs) ∧
      (result = true → InStage .done (after system inputs)) := by
  induction polls generalizing system inputs with
  | zero =>
    obtain ⟨quiet, noRead, rfl⟩ := Performs.pure_inv performed
    obtain ⟨running, starts, ends⟩ := running_run (quiet_settled settled quiet noRead).2 running
    exact ⟨running, starts, ends, fun impossible => by cases impossible⟩
  | succ polls ih =>
    have steps : Performs system (xLzwEncodeHwIsDone.bind fun done =>
      if done = 1 then .pure true else waitDone polls) inputs result := performed
    obtain ⟨asking, rest, done, rfl, asked, steps⟩ := steps.bind_inv
    obtain ⟨running, starts, ends, isDone⟩ := isDone_performed settled asked running
    have settled := asked.settled settled
    rw [after_append, seen_append, seen_append, starts, ends, List.append_assoc, List.append_assoc]
    by_cases one : done = 1
    · rw [if_pos one] at steps
      obtain ⟨quiet, noRead, rfl⟩ := steps.pure_inv
      have nothing := (quiet_settled settled quiet noRead).2
      obtain ⟨running, laterStarts, laterEnds⟩ := running_run nothing running
      rw [← laterStarts, ← laterEnds]
      exact ⟨running, rfl, rfl, fun _ => (quiet_run nothing rfl (by simp) (isDone one)).1⟩
    · rw [if_neg one] at steps
      obtain ⟨running, laterStarts, laterEnds, isDone⟩ := ih settled steps running
      rw [← laterStarts, ← laterEnds]
      exact ⟨running, rfl, rfl, isDone⟩

theorem setData_keeps {argument other : Argument} (different : argument ≠ other) (data : BitVec 64) :
    Keeps other (setData argument.offset data) := by
  cases argument <;> cases other <;>
    first
    | exact absurd rfl different
    | exact ⟨⟨by decide, by decide, trivial⟩, ⟨by decide, by decide, trivial⟩⟩

theorem setData_idle (settled : Settled system) {argument : Argument} {data : BitVec 64} {done : Unit}
    (performed : Performs system (setData argument.offset data) inputs done) (inStage : InStage .idle system) :
    Settled (after system inputs) ∧ InStage .idle (after system inputs) ∧ seen startSeen system inputs = [] ∧
      seen endSeen system inputs = [] := by
  refine ⟨performed.settled settled, leavesControl_performed settled performed ?_ inStage⟩
  cases argument <;> exact ⟨by decide, by decide, trivial⟩

theorem setArguments_performed (settled : Settled system) (inStage : InStage .idle system) {job : Arguments}
    {done : Unit}
    (performed : Performs system ((xLzwEncodeHwSetInputData job.1).bind fun _ =>
      (xLzwEncodeHwSetInputSize job.2.1).bind fun _ => xLzwEncodeHwSetCompressedData job.2.2) inputs done) :
    Settled (after system inputs) ∧ InStage .idle (after system inputs) ∧
      arguments (after system inputs).control = job ∧ seen startSeen system inputs = [] ∧
      seen endSeen system inputs = [] := by
  obtain ⟨first, rest, _, rfl, data, steps⟩ := performed.bind_inv
  obtain ⟨second, third, _, rfl, size, compressed⟩ := steps.bind_inv
  have data : Performs system (setData Argument.inputData.offset job.1) first _ := data
  have size : Performs _ (setData Argument.inputSize.offset job.2.1) second _ := size
  have compressed : Performs _ (setData Argument.compressedData.offset job.2.2) third _ := compressed
  have dataSet := setData_performed settled data
  obtain ⟨settled, inStage, starts, ends⟩ := setData_idle settled data inStage
  have sizeSet := setData_performed settled size
  have dataKept : Argument.value _ .inputData = _ :=
    keeps_performed settled size (setData_keeps (by simp) _)
  obtain ⟨settled, inStage, sizeStarts, sizeEnds⟩ := setData_idle settled size inStage
  have compressedSet := setData_performed settled compressed
  have dataStays : Argument.value _ .inputData = _ :=
    keeps_performed settled compressed (setData_keeps (by simp) _)
  have sizeKept : Argument.value _ .inputSize = _ :=
    keeps_performed settled compressed (setData_keeps (by simp) _)
  obtain ⟨settled, inStage, laterStarts, laterEnds⟩ := setData_idle settled compressed inStage
  rw [after_append, after_append, seen_append, seen_append, seen_append, seen_append, starts, sizeStarts, laterStarts,
    ends, sizeEnds, laterEnds]
  refine ⟨settled, inStage, ?_, rfl, rfl⟩
  exact Prod.ext (dataStays.trans (dataKept.trans dataSet)) (Prod.ext (sizeKept.trans sizeSet) compressedSet)

theorem startAndWait_performed (settled : Settled system) (inStage : InStage .idle system) {job : Arguments}
    {polls : Nat} (performed : Performs system (((xLzwEncodeHwSetInputData job.1).bind fun _ =>
        (xLzwEncodeHwSetInputSize job.2.1).bind fun _ => xLzwEncodeHwSetCompressedData job.2.2).bind fun _ =>
      xLzwEncodeHwStart.bind fun _ => waitDone polls) inputs result) :
    Settled (after system inputs) ∧ Running (after system inputs) ∧
      [job] = seen startSeen system inputs ++ owedStart (after system inputs) ∧
      [()] = seen endSeen system inputs ++ owedEnd (after system inputs) ∧
      (result = true → InStage .done (after system inputs)) := by
  obtain ⟨setting, rest, _, rfl, set, steps⟩ := performed.bind_inv
  obtain ⟨starting, waiting, _, rfl, start, wait⟩ := steps.bind_inv
  obtain ⟨settled, inStage, given, setStarts, setEnds⟩ := setArguments_performed settled inStage set
  obtain ⟨running, starts, ends⟩ := start_performed settled start inStage
  have settled := start.settled settled
  obtain ⟨running, waitStarts, waitEnds, isDone⟩ := waitDone_performed settled wait running
  rw [after_append, after_append, seen_append, seen_append, seen_append, seen_append, setStarts, setEnds,
    List.nil_append, List.nil_append, List.append_assoc, List.append_assoc, ← waitStarts, ← waitEnds, ← given]
  exact ⟨wait.settled settled, running, starts, ends, isDone⟩

structure Job (system : System) (inputs : List SystemInput) (job : Arguments) (result : Bool) : Prop where
  starts : seen startSeen system inputs <+: [job]
  ends : (seen endSeen system inputs).length ≤ (seen startSeen system inputs).length
  done : result = true → InStage .idle (after system inputs) ∧ seen startSeen system inputs = [job] ∧
    seen endSeen system inputs = [()]

theorem owedStart_le_owedEnd (system : System) : (owedStart system).length ≤ (owedEnd system).length := by
  unfold owedStart owedEnd
  cases system.control.intApStart <;> simp
  split <;> simp

theorem runKernel_performed (settled : Settled system) (inStage : InStage .idle system) {job : Arguments}
    {polls : Nat} (performed : Performs system (runKernel job polls) inputs result) :
    Job system inputs job result := by
  have steps : Performs system ((((xLzwEncodeHwSetInputData job.1).bind fun _ =>
      (xLzwEncodeHwSetInputSize job.2.1).bind fun _ => xLzwEncodeHwSetCompressedData job.2.2).bind fun _ =>
    xLzwEncodeHwStart.bind fun _ => waitDone polls).bind fun done =>
      if done then xLzwEncodeHwContinue.bind fun _ => .pure true else .pure false) inputs result := performed
  obtain ⟨working, rest, done, rfl, work, steps⟩ := steps.bind_inv
  obtain ⟨settled, running, starts, ends, isDone⟩ := startAndWait_performed settled inStage work
  cases done with
  | true =>
    obtain ⟨continuing, last, _, rfl, acknowledge, steps⟩ := Performs.bind_inv steps
    obtain ⟨quiet, noRead, rfl⟩ := steps.pure_inv
    obtain ⟨owed, owedEnds⟩ := (isDone rfl).owed (by simp)
    obtain ⟨inStage, noStarts, noEnds⟩ := continue_performed settled acknowledge (isDone rfl)
    have nothing := (quiet_settled (acknowledge.settled settled) quiet noRead).2
    obtain ⟨inStage, lastStarts, lastEnds⟩ := quiet_run nothing rfl (by simp) inStage
    rw [owed, List.append_nil] at starts
    rw [owedEnds, List.append_nil] at ends
    have allStarts : seen startSeen system (working ++ (continuing ++ last)) = [job] := by
      rw [seen_append, seen_append, ← starts, noStarts, lastStarts]
      rfl
    have allEnds : seen endSeen system (working ++ (continuing ++ last)) = [()] := by
      rw [seen_append, seen_append, ← ends, noEnds, lastEnds]
      rfl
    refine ⟨allStarts ▸ List.prefix_refl _, by rw [allStarts, allEnds]; rfl, fun _ => ⟨?_, allStarts, allEnds⟩⟩
    rw [after_append, after_append]
    exact inStage
  | false =>
    obtain ⟨quiet, noRead, rfl⟩ := Performs.pure_inv steps
    obtain ⟨_, lastStarts, lastEnds⟩ := running_run (quiet_settled settled quiet noRead).2 running
    rw [lastStarts, ← List.append_assoc, ← seen_append] at starts
    rw [lastEnds, ← List.append_assoc, ← seen_append] at ends
    refine ⟨⟨_, starts.symm⟩, ?_, fun impossible => by cases impossible⟩
    have owed := owedStart_le_owedEnd (after (after system working) rest)
    have startCount := congrArg List.length starts
    have endCount := congrArg List.length ends
    rw [List.length_append, List.length_singleton] at startCount endCount
    omega

/-- What the uses come to when one of them is not seen to end: it is the last one for which the kernel starts, if it
    does, and those in front of it have ended. -/
structure Cut (system : System) (inputs : List SystemInput) (jobs : List (Arguments × Nat))
    (earlier : List (Arguments × Nat)) (job : Arguments) (polls : Nat) (front back : List SystemInput) : Prop where
  uses : earlier ++ [(job, polls)] <+: jobs
  clocks : inputs = front ++ back
  starts : seen startSeen system front = earlier.map Prod.fst
  ends : (seen endSeen system front).length = earlier.length
  unseen : Performs (after system front) (runKernel job polls) back false
  last : seen startSeen (after system front) back <+: [job]

theorem Cut.behind {first inputs front back : List SystemInput} {jobs earlier : List (Arguments × Nat)}
    {job next : Arguments} {polls count : Nat}
    (cut : Cut (after system first) inputs jobs earlier job polls front back)
    (starts : seen startSeen system first = [next]) (ends : seen endSeen system first = [()]) :
    Cut system (first ++ inputs) ((next, count) :: jobs) ((next, count) :: earlier) job polls (first ++ front)
      back where
  uses := (List.prefix_cons_inj _).mpr cut.uses
  clocks := by rw [cut.clocks, List.append_assoc]
  starts := by rw [seen_append, starts, cut.starts]; rfl
  ends := by
    rw [seen_append, ends, List.length_append, cut.ends, List.length_singleton, List.length_cons, Nat.add_comm]
  unseen := by rw [after_append]; exact cut.unseen
  last := by rw [after_append]; exact cut.last

/-- Uses of the kernel one after the other: it starts once for each of them, in order and with the arguments of that
    use, up to the first one that is not seen to end; each start has ended when all are done. -/
theorem kernel_runs_in_order (settled : Settled system) (inStage : InStage .idle system)
    {jobs : List (Arguments × Nat)} (performed : Performs system (runKernels jobs) inputs result) :
    seen startSeen system inputs <+: jobs.map Prod.fst ∧
      (seen endSeen system inputs).length ≤ (seen startSeen system inputs).length ∧
      (result = true → InStage .idle (after system inputs) ∧
        seen startSeen system inputs = jobs.map Prod.fst ∧
        (seen endSeen system inputs).length = jobs.length) ∧
      (result = false → ∃ earlier job polls front back, Cut system inputs jobs earlier job polls front back) := by
  induction jobs generalizing system inputs with
  | nil =>
    obtain ⟨quiet, noRead, rfl⟩ := Performs.pure_inv performed
    obtain ⟨inStage, starts, ends⟩ := quiet_run (quiet_settled settled quiet noRead).2 rfl (by simp) inStage
    rw [starts, ends]
    exact ⟨List.prefix_refl _, Nat.le_refl _, fun _ => ⟨inStage, rfl, rfl⟩, fun impossible => by cases impossible⟩
  | cons head jobs ih =>
    obtain ⟨job, polls⟩ := head
    have steps : Performs system ((runKernel job polls).bind fun done =>
      if done then runKernels jobs else .pure false) inputs result := performed
    obtain ⟨front, back, done, rfl, first, steps⟩ := steps.bind_inv
    cases done with
    | true =>
      have ran := runKernel_performed settled inStage first
      obtain ⟨inStage, starts, ends⟩ := ran.done rfl
      obtain ⟨started, ended, all, cut⟩ := ih (first.settled settled) inStage steps
      rw [after_append, seen_append, seen_append, List.map_cons, starts, ends]
      refine ⟨?_, ?_, fun finished => ?_, fun unfinished => ?_⟩
      · exact (List.prefix_append_right_inj [job]).mpr started
      · simpa using ended
      · obtain ⟨inStage, allStarts, allEnds⟩ := all finished
        refine ⟨inStage, by rw [allStarts]; rfl, ?_⟩
        rw [List.length_append, allEnds, List.length_singleton, List.length_cons, Nat.add_comm]
      · obtain ⟨earlier, other, count, before, behind, cut⟩ := cut unfinished
        exact ⟨(job, polls) :: earlier, other, count, front ++ before, behind, cut.behind starts ends⟩
    | false =>
      obtain ⟨quiet, noRead, rfl⟩ := Performs.pure_inv steps
      have first := first.quiet_append quiet noRead
      have ran := runKernel_performed settled inStage first
      refine ⟨ran.starts.trans (List.prefix_append [job] _), ran.ends, nofun, ?_⟩
      exact fun _ => ⟨[], job, polls, [], front ++ back, List.prefix_append _ _, rfl, rfl, rfl, first, ran.starts⟩

end Jobs

theorem started_idle (system : System) (first second : SystemInput) :
    InStage .idle (started system first second) := by
  constructor <;>
    simp [started, systemClock, controlClock, kernelClock, System.output, System.ends, System.starts, ControlAxi.wHs]

theorem kernel_runs_in_order_two :
    seen startSeen someStarted (perform someStarted (runKernels [((1, 2, 3), 4), ((5, 6, 7), 4)])).1 =
      [(1, 2, 3), (5, 6, 7)] := by
  have settled : Settled someStarted := started_settled _ _ _
  have inStage : InStage .idle someStarted := started_idle _ _ _
  exact ((kernel_runs_in_order settled inStage (driver_served settled _)).2.2.1 (by decide +kernel)).2.1

end DedupProof
