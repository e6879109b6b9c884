import DedupPipeline.Rtl.ControlBus

namespace DedupProof

open DedupModel Clocked

abbrev Arguments := BitVec 64 × BitVec 64 × BitVec 64

def arguments (control : ControlAxi) : Arguments :=
  (control.intInputData, control.intInputSize, control.intCompressedData)

def startSeen (system : System) (_ : SystemInput) : List Arguments :=
  if system.starts then [arguments system.control] else []

def endSeen (system : System) (input : SystemInput) : List Unit := if system.ends input then [()] else []

theorem write_none {system : System} {input : SystemInput} :
    system.control.write input.bus = none ↔ system.control.wHs input.bus = false := by
  unfold ControlAxi.write
  split <;> simp_all

theorem write_some {system : System} {input : SystemInput} {waddr : BitVec 6} {wdata : BitVec 32} {wstrb : BitVec 4}
    (written : system.control.write input.bus = some (waddr, wdata, wstrb)) :
    system.control.wHs input.bus = true ∧ system.control.waddr = waddr ∧ input.bus.wdata = wdata ∧
      input.bus.wstrb = wstrb := by
  unfold ControlAxi.write at written
  split at written
  · rename_i valid
    simpa [valid] using written
  · cases written

def controlBit (i : Nat) (system : System) (input : SystemInput) : Bool :=
  system.control.wHs input.bus && system.control.waddr = addrApCtrl && input.bus.wstrb.getLsbD 0 &&
    input.bus.wdata.getLsbD i

def bitSeen (i : Nat) (system : System) (input : SystemInput) : List Unit :=
  if controlBit i system input then [()] else []

/-- Without automatic restart, the kernel keeps its start while it works, and has no result then. -/
structure Handshake (system : System) : Prop where
  noRestart : system.control.intAutoRestart = false
  working : system.kernel.apCsFsm ≠ .state1 →
    system.control.intApStart = true ∧ system.kernel.apDoneReg = false

theorem controlBit_of_seen {i : Nat} {system : System} {input : SystemInput} (nothing : bitSeen i system input = []) :
    controlBit i system input = false := by
  unfold bitSeen at nothing
  split at nothing
  · cases nothing
  · rename_i unset
    exact Bool.not_eq_true _ ▸ unset

theorem length_bitSeen (i : Nat) (system : System) (input : SystemInput) :
    (bitSeen i system input).length = (controlBit i system input).toNat := by
  unfold bitSeen
  cases controlBit i system input <;> rfl

section Clock

variable {system : System} {input : SystemInput}

theorem intApStart_clock (off : system.control.intAutoRestart = false) :
    (systemClock false system input).control.intApStart =
      (controlBit 0 system input || system.control.intApStart && !system.ends input) := by
  show (if controlBit 0 system input then true else if system.ends input then system.control.intAutoRestart
    else system.control.intApStart) = _
  rw [off]
  cases controlBit 0 system input <;> cases system.ends input <;> simp

theorem intApContinue_clock (off : system.control.intAutoRestart = false) :
    (systemClock false system input).control.intApContinue = controlBit 4 system input := by
  show (if controlBit 4 system input then true else if (system.output input).apDone &&
    !system.control.intApContinue && system.control.intAutoRestart then true else false) = _
  rw [off]
  cases controlBit 4 system input <;> simp

theorem intAutoRestart_clock (off : system.control.intAutoRestart = false)
    (noRestart : controlBit 7 system input = false) :
    (systemClock false system input).control.intAutoRestart = false := by
  show (if system.control.wHs input.bus && system.control.waddr = addrApCtrl && input.bus.wstrb.getLsbD 0 then
    input.bus.wdata.getLsbD 7 else system.control.intAutoRestart) = false
  unfold controlBit at noRestart
  split
  · rename_i written
    rwa [written, Bool.true_and] at noRestart
  · exact off

theorem apDoneReg_clock : (systemClock false system input).kernel.apDoneReg =
    (!system.control.intApContinue && (system.ends input || system.kernel.apDoneReg)) := by
  show (if system.control.intApContinue then false else if system.ends input then true
    else system.kernel.apDoneReg) = _
  cases system.control.intApContinue <;> cases system.ends input <;> simp

theorem apCsFsm_clock : (systemClock false system input).kernel.apCsFsm =
    match system.kernel.apCsFsm with
    | .state1 => if system.starts then .work else .state1
    | .work => if input.worked then .state293 else .work
    | .state293 => if system.ends input then .state1 else .state293 := rfl

end Clock

theorem handshake_kept (system : System) (input : SystemInput) (noRestart : bitSeen 7 system input = [])
    (handshake : Handshake system) : Handshake (systemClock false system input) := by
  obtain ⟨off, working⟩ := handshake
  refine ⟨intAutoRestart_clock off (controlBit_of_seen noRestart), ?_⟩
  rw [apCsFsm_clock, intApStart_clock off, apDoneReg_clock]
  cases state : system.kernel.apCsFsm with
  | state1 =>
    have goesOn : system.ends input = false := by simp [System.ends, state]
    cases starts : system.starts with
    | true =>
      have asked : system.kernel.apDoneReg = false ∧ system.control.intApStart = true := by
        simpa [System.starts, state] using starts
      simp [goesOn, asked]
    | false => simp
  | work =>
    have goesOn : system.ends input = false := by simp [System.ends, state]
    obtain ⟨start, noResult⟩ := working (by simp [state])
    simp [goesOn, start, noResult]
  | state293 =>
    obtain ⟨start, noResult⟩ := working (by simp [state])
    cases ends : system.ends input <;> simp [start, noResult]

def asked (system : System) : Nat := (system.control.intApStart && system.kernel.apCsFsm = .state1).toNat

/-- The kernel can take a start without an acknowledgement, or one is under way. -/
def acknowledged (system : System) : Nat :=
  (!system.kernel.apDoneReg && system.kernel.apCsFsm = .state1).toNat + system.control.intApContinue.toNat

def working (system : System) : Nat := (decide (system.kernel.apCsFsm ≠ .state1)).toNat

def resting (system : System) : Nat := (decide (system.kernel.apCsFsm = .state1)).toNat

section Counts

variable {system : System} {input : SystemInput} (handshake : Handshake system)

include handshake

theorem starts_asked : (startSeen system input).length + asked (systemClock false system input) ≤
    (bitSeen 0 system input).length + asked system := by
  rw [length_bitSeen]
  unfold asked startSeen
  rw [intApStart_clock handshake.noRestart, apCsFsm_clock]
  have taken := handshake.working
  cases state : system.kernel.apCsFsm <;> cases start : system.control.intApStart <;>
    cases result : system.kernel.apDoneReg <;> cases blocked : input.blocked <;> cases worked : input.worked <;>
    cases controlBit 0 system input <;>
    simp_all [System.starts, System.ends]

theorem starts_acknowledged : (startSeen system input).length + acknowledged (systemClock false system input) ≤
    (bitSeen 4 system input).length + acknowledged system := by
  rw [length_bitSeen]
  unfold acknowledged startSeen
  rw [intApContinue_clock handshake.noRestart, apDoneReg_clock, apCsFsm_clock]
  have taken := handshake.working
  cases state : system.kernel.apCsFsm <;> cases start : system.control.intApStart <;>
    cases result : system.kernel.apDoneReg <;> cases continues : system.control.intApContinue <;>
    cases blocked : input.blocked <;> cases worked : input.worked <;> cases controlBit 4 system input <;>
    simp_all [System.starts, System.ends]

omit handshake in
theorem ends_starts : (endSeen system input).length + working (systemClock false system input) ≤
      (startSeen system input).length + working system ∧
    (startSeen system input).length + resting (systemClock false system input) ≤
      (endSeen system input).length + resting system := by
  unfold working resting startSeen endSeen
  rw [apCsFsm_clock]
  cases state : system.kernel.apCsFsm <;> cases start : system.control.intApStart <;>
    cases result : system.kernel.apDoneReg <;> cases blocked : input.blocked <;> cases worked : input.worked <;>
    simp_all [System.starts, System.ends]

end Counts

theorem started_counts (system : System) (first second : SystemInput) :
    asked (started system first second) = 0 ∧ acknowledged (started system first second) = 1 ∧
      working (started system first second) = 0 ∧ resting (started system first second) = 1 := by
  refine ⟨?_, ?_, rfl, rfl⟩ <;>
    simp [asked, acknowledged, started, systemClock, controlClock, kernelClock, ControlAxi.wHs, System.output,
      System.starts, System.ends]

theorem started_handshake (system : System) (first second : SystemInput) :
    Handshake (started system first second) := by
  constructor
  · simp [started, systemClock, controlClock, ControlAxi.wHs]
  · exact fun working => absurd rfl working

/-- Whatever is written over the bus from a reset on, as long as it is no automatic restart: the kernel starts no more
    often than it is asked to, and again only when the run before has ended and has been acknowledged. -/
theorem kernel_starts_bounded (system : System) (first second : SystemInput) {inputs : List SystemInput}
    (noRestart : seen (bitSeen 7) (started system first second) inputs = []) :
    (seen startSeen (started system first second) inputs).length ≤
        (seen (bitSeen 0) (started system first second) inputs).length ∧
      (seen startSeen (started system first second) inputs).length ≤
        (seen (bitSeen 4) (started system first second) inputs).length + 1 ∧
      (seen endSeen (started system first second) inputs).length ≤
        (seen startSeen (started system first second) inputs).length ∧
      (seen startSeen (started system first second) inputs).length ≤
        (seen endSeen (started system first second) inputs).length + 1 := by
  have handshake := started_handshake system first second
  have asked := count_le_while handshake_kept (fun _ _ _ handshake => starts_asked handshake) handshake noRestart
  have acknowledged :=
    count_le_while handshake_kept (fun _ _ _ handshake => starts_acknowledged handshake) handshake noRestart
  have ends := count_le_while handshake_kept (fun _ _ _ _ => ends_starts.1) handshake noRestart
  have starts := count_le_while handshake_kept (fun _ _ _ _ => ends_starts.2) handshake noRestart
  obtain ⟨noneAsked, oneAcknowledged, noneWorking, oneResting⟩ := started_counts system first second
  rw [noneAsked] at asked
  rw [oneAcknowledged] at acknowledged
  rw [noneWorking] at ends
  rw [oneResting] at starts
  exact ⟨Nat.le_of_add_right_le asked, Nat.le_of_add_right_le acknowledged, Nat.le_of_add_right_le ends,
    Nat.le_of_add_right_le starts⟩

theorem kernel_starts_bounded_twice : (seen startSeen someStarted
    (writeClocks addrApCtrl 0x01 ++ writeClocks addrApCtrl 0x01 ++ writeClocks addrGie 0)).length ≤ 1 :=
  (kernel_starts_bounded someSystem ⟨silent, true, false, 0⟩ ⟨silent, true, false, 0⟩ (by decide +kernel)).2.1.trans
    (by decide +kernel)

end DedupProof
