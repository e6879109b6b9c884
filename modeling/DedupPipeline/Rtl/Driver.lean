import DedupPipeline.Rtl.ControlBus

namespace DedupModel

/-- What a function of `xlzw_encode_hw.c` does with the registers, up to its result; its assertions on the instance are
    left out. -/
inductive Driver (α : Type) where
  | pure (value : α)
  | readReg (offset : BitVec 6) (next : BitVec 32 → Driver α)
  | writeReg (offset : BitVec 6) (data : BitVec 32) (next : Driver α)

namespace Driver

variable {α β : Type}

def bind : Driver α → (α → Driver β) → Driver β
  | .pure value, then_ => then_ value
  | .readReg offset next, then_ => .readReg offset fun value => bind (next value) then_
  | .writeReg offset data next, then_ => .writeReg offset data (bind next then_)

instance : Monad Driver where
  pure := Driver.pure
  bind := Driver.bind

def read (offset : BitVec 6) : Driver (BitVec 32) := .readReg offset .pure

def write (offset : BitVec 6) (data : BitVec 32) : Driver Unit := .writeReg offset data (.pure ())

end Driver

def xLzwEncodeHwStart : Driver Unit := do
  let data ← Driver.read addrApCtrl
  Driver.write addrApCtrl ((data &&& 0x80) ||| 0x01)

def xLzwEncodeHwIsDone : Driver (BitVec 32) := do
  let data ← Driver.read addrApCtrl
  return (data >>> 1) &&& 0x1

def xLzwEncodeHwContinue : Driver Unit := do
  let data ← Driver.read addrApCtrl
  Driver.write addrApCtrl ((data &&& 0x80) ||| 0x10)

def setData (offset : BitVec 6) (data : BitVec 64) : Driver Unit := do
  Driver.write offset (low data)
  Driver.write (offset + 4) (high data)

def getData (offset : BitVec 6) : Driver (BitVec 64) := do
  let first ← Driver.read offset
  let second ← Driver.read (offset + 4)
  return first.setWidth 64 + second.setWidth 64 <<< 32

def xLzwEncodeHwSetInputData : BitVec 64 → Driver Unit := setData addrInputDataData0

def xLzwEncodeHwGetInputData : Driver (BitVec 64) := getData addrInputDataData0

def xLzwEncodeHwSetInputSize : BitVec 64 → Driver Unit := setData addrInputSizeData0

def xLzwEncodeHwGetInputSize : Driver (BitVec 64) := getData addrInputSizeData0

def xLzwEncodeHwSetCompressedData : BitVec 64 → Driver Unit := setData addrCompressedDataData0

def xLzwEncodeHwGetCompressedData : Driver (BitVec 64) := getData addrCompressedDataData0

def xLzwEncodeHwInterruptEnable (mask : BitVec 32) : Driver Unit := do
  let register ← Driver.read addrIer
  Driver.write addrIer (register ||| mask)

def xLzwEncodeHwInterruptClear (mask : BitVec 32) : Driver Unit := Driver.write addrIsr mask

def xLzwEncodeHwInterruptGetStatus : Driver (BitVec 32) := Driver.read addrIsr

end DedupModel

namespace DedupProof

open DedupModel Clocked

/-- The driver goes through `inputs` on the bus and returns the value. -/
inductive Performs {α : Type} : System → Driver α → List SystemInput → α → Prop where
  | pure {system : System} {inputs : List SystemInput} {value : α} (quiet : seen awSeen system inputs = [])
      (noRead : seen arSeen system inputs = []) : Performs system (.pure value) inputs value
  | readReg {system : System} {offset : BitVec 6} {next : BitVec 32 → Driver α} {front back : List SystemInput}
      {register : BitVec 32} {value : α} (read : ReadTransaction system front offset register)
      (rest : Performs (after system front) (next register) back value) :
      Performs system (.readReg offset next) (front ++ back) value
  | writeReg {system : System} {offset : BitVec 6} {data : BitVec 32} {next : Driver α}
      {front back : List SystemInput} {value : α} (write : WriteTransaction system front offset data)
      (rest : Performs (after system front) next back value) :
      Performs system (.writeReg offset data next) (front ++ back) value

section Steps

variable {α β : Type} {system : System} {inputs : List SystemInput}

theorem Performs.pure_inv {value result : α} (performed : Performs system (.pure value) inputs result) :
    seen awSeen system inputs = [] ∧ seen arSeen system inputs = [] ∧ result = value := by
  cases performed with
  | pure quiet noRead => exact ⟨quiet, noRead, rfl⟩

theorem Performs.readReg_inv {offset : BitVec 6} {next : BitVec 32 → Driver α} {result : α}
    (performed : Performs system (.readReg offset next) inputs result) :
    ∃ front back register, inputs = front ++ back ∧ ReadTransaction system front offset register ∧
      Performs (after system front) (next register) back result := by
  cases performed with
  | readReg read rest => exact ⟨_, _, _, rfl, read, rest⟩

theorem Performs.writeReg_inv {offset : BitVec 6} {data : BitVec 32} {next : Driver α} {result : α}
    (performed : Performs system (.writeReg offset data next) inputs result) :
    ∃ front back, inputs = front ++ back ∧ WriteTransaction system front offset data ∧
      Performs (after system front) next back result := by
  cases performed with
  | writeReg write rest => exact ⟨_, _, rfl, write, rest⟩

theorem after_append (system : System) (front back : List SystemInput) :
    after system (front ++ back) = after (after system front) back := run_append system front back

theorem seen_append (see : System → SystemInput → List β) (system : System) (front back : List SystemInput) :
    seen see system (front ++ back) = seen see system front ++ seen see (after system front) back :=
  observe_append system front back

theorem Performs.bind_inv {driver : Driver α} {then_ : α → Driver β} {result : β}
    (performed : Performs system (driver.bind then_) inputs result) :
    ∃ front back value, inputs = front ++ back ∧ Performs system driver front value ∧
      Performs (after system front) (then_ value) back result := by
  induction driver generalizing system inputs with
  | pure value => exact ⟨[], inputs, value, rfl, .pure rfl rfl, performed⟩
  | readReg offset next ih =>
    obtain ⟨first, rest, register, rfl, read, remaining⟩ := performed.readReg_inv
    obtain ⟨front, back, value, rfl, done, later⟩ := ih register remaining
    refine ⟨first ++ front, back, value, (List.append_assoc first front back).symm, .readReg read done, ?_⟩
    rwa [after_append]
  | writeReg offset data next ih =>
    obtain ⟨first, rest, rfl, write, remaining⟩ := performed.writeReg_inv
    obtain ⟨front, back, value, rfl, done, later⟩ := ih remaining
    refine ⟨first ++ front, back, value, (List.append_assoc first front back).symm, .writeReg write done, ?_⟩
    rwa [after_append]

theorem Performs.quiet_append {driver : Driver α} {result : α} (performed : Performs system driver inputs result)
    {back : List SystemInput} (quiet : seen awSeen (after system inputs) back = [])
    (noRead : seen arSeen (after system inputs) back = []) : Performs system driver (inputs ++ back) result := by
  induction performed with
  | pure before noReadBefore =>
    exact .pure (by rw [seen_append, before, quiet]; rfl) (by rw [seen_append, noReadBefore, noRead]; rfl)
  | readReg read _ ih =>
    rw [after_append] at quiet noRead
    rw [List.append_assoc]
    exact .readReg read (ih quiet noRead)
  | writeReg write _ ih =>
    rw [after_append] at quiet noRead
    rw [List.append_assoc]
    exact .writeReg write (ih quiet noRead)

theorem Performs.settled {driver : Driver α} {result : α} (performed : Performs system driver inputs result)
    (settled : Settled system) : Settled (after system inputs) := by
  induction performed with
  | pure quiet noRead => exact (quiet_settled settled quiet noRead).1
  | readReg read _ ih =>
    rw [after_append]
    exact ih (read_settled settled read).1
  | writeReg write _ ih =>
    rw [after_append]
    exact ih (write_settled settled write).1

end Steps

inductive Argument where
  | inputData
  | inputSize
  | compressedData

def Argument.offset : Argument → BitVec 6
  | .inputData => addrInputDataData0
  | .inputSize => addrInputSizeData0
  | .compressedData => addrCompressedDataData0

def Argument.value (control : ControlAxi) : Argument → BitVec 64
  | .inputData => control.intInputData
  | .inputSize => control.intInputSize
  | .compressedData => control.intCompressedData

def Argument.set : Argument → BitVec 64 → Driver Unit
  | .inputData => xLzwEncodeHwSetInputData
  | .inputSize => xLzwEncodeHwSetInputSize
  | .compressedData => xLzwEncodeHwSetCompressedData

def Argument.get : Argument → Driver (BitVec 64)
  | .inputData => xLzwEncodeHwGetInputData
  | .inputSize => xLzwEncodeHwGetInputSize
  | .compressedData => xLzwEncodeHwGetCompressedData

theorem Argument.set_eq (argument : Argument) : argument.set = setData argument.offset := by cases argument <;> rfl

theorem Argument.get_eq (argument : Argument) : argument.get = getData argument.offset := by cases argument <;> rfl

def Leaves {α : Type} (register : BitVec 6) : Driver α → Prop
  | .pure _ => True
  | .readReg _ next => ∀ value, Leaves register (next value)
  | .writeReg offset _ next => offset ≠ register ∧ Leaves register next

def Keeps {α : Type} (argument : Argument) (driver : Driver α) : Prop :=
  Leaves argument.offset driver ∧ Leaves (argument.offset + 4) driver

theorem writeHalves_full (addr0 addr1 : BitVec 6) (value : BitVec 64) (waddr : BitVec 6) (wdata : BitVec 32) :
    writeHalves addr0 addr1 value (some (waddr, wdata, 0xf)) =
      (if waddr = addr1 then wdata else high value) ++ (if waddr = addr0 then wdata else low value) := by
  have mask : wmask 0xf#4 = BitVec.allOnes 32 := by decide
  simp only [writeHalves, show (0xf : BitVec 4) = 0xf#4 from rfl, mask, BitVec.and_allOnes, BitVec.not_allOnes,
    BitVec.and_zero, BitVec.or_zero]

theorem toNat_low (value : BitVec 64) : (low value).toNat = value.toNat % 2 ^ 32 := by
  rw [low, BitVec.extractLsb'_toNat, Nat.shiftRight_zero]

theorem toNat_high (value : BitVec 64) : (high value).toNat = value.toNat / 2 ^ 32 := by
  have bound := value.isLt
  rw [high, BitVec.extractLsb'_toNat, Nat.shiftRight_eq_div_pow]
  omega

theorem toNat_halves (first second : BitVec 32) : (first ++ second).toNat = first.toNat * 2 ^ 32 + second.toNat := by
  rw [BitVec.toNat_append, ← Nat.shiftLeft_add_eq_or_of_lt second.isLt, Nat.shiftLeft_eq]

theorem high_append_low (value : BitVec 64) : high value ++ low value = value := by
  apply BitVec.eq_of_toNat_eq
  rw [toNat_halves, toNat_low, toNat_high]
  omega

theorem low_append (first second : BitVec 32) : low (first ++ second) = second := by
  apply BitVec.eq_of_toNat_eq
  have bound := second.isLt
  rw [toNat_low, toNat_halves]
  omega

theorem word_sum (value : BitVec 64) : (low value).setWidth 64 + (high value).setWidth 64 <<< 32 = value := by
  apply BitVec.eq_of_toNat_eq
  have bound := value.isLt
  rw [BitVec.toNat_add, BitVec.toNat_shiftLeft, BitVec.toNat_setWidth, BitVec.toNat_setWidth, toNat_low, toNat_high,
    Nat.shiftLeft_eq]
  omega

section Arguments

variable {argument : Argument}

theorem Argument.offset_ne (argument : Argument) : argument.offset ≠ argument.offset + 4 := by
  cases argument <;> decide

theorem argument_after (system : System) (inputs : List SystemInput) :
    argument.value (after system inputs).control = (seen writeSeen system inputs).foldl
      (fun value write => writeHalves argument.offset (argument.offset + 4) value (some write))
      (argument.value system.control) := by
  refine tracked (fun (_ : System) (_ : SystemInput) (_ : True) => trivial)
    (fun system => argument.value system.control) _ ?_ trivial inputs
  intro system input _
  unfold writeSeen
  cases written : system.control.write input.bus <;> cases argument <;>
    simp [Argument.value, systemClock, controlClock, written, writeHalves, Argument.offset] <;> rfl

theorem argument_quiet {system : System} {inputs : List SystemInput} (quiet : seen writeSeen system inputs = []) :
    argument.value (after system inputs).control = argument.value system.control := by
  rw [argument_after, quiet]
  rfl

theorem argument_read (argument : Argument) (control : ControlAxi) (kernel : KernelSignals) :
    readRegister control kernel argument.offset = low (argument.value control) ∧
      readRegister control kernel (argument.offset + 4) = high (argument.value control) := by
  cases argument <;> exact ⟨rfl, rfl⟩

section Performed

variable {system : System} (settled : Settled system) {inputs : List SystemInput}

include settled

theorem setData_performed {data : BitVec 64} {result : Unit}
    (performed : Performs system (setData argument.offset data) inputs result) :
    argument.value (after system inputs).control = data := by
  have steps : Performs system (.writeReg argument.offset (low data)
    (.writeReg (argument.offset + 4) (high data) (.pure ()))) inputs result := performed
  obtain ⟨first, rest, rfl, lower, steps⟩ := steps.writeReg_inv
  obtain ⟨second, last, rfl, upper, steps⟩ := steps.writeReg_inv
  obtain ⟨quiet, noRead, _⟩ := steps.pure_inv
  obtain ⟨settled, lowWritten⟩ := write_settled settled lower
  obtain ⟨settled, highWritten⟩ := write_settled settled upper
  have nothing := (quiet_settled settled quiet noRead).2
  have apart := argument.offset_ne
  rw [after_append, after_append, argument_quiet nothing, argument_after, highWritten, argument_after, lowWritten,
    List.foldl_cons, List.foldl_nil, List.foldl_cons, List.foldl_nil, writeHalves_full, writeHalves_full,
    if_pos rfl, if_neg (Ne.symm apart), if_neg apart, if_pos rfl, low_append, high_append_low]

theorem getData_performed {result : BitVec 64}
    (performed : Performs system (getData argument.offset) inputs result) :
    result = argument.value system.control ∧
      argument.value (after system inputs).control = argument.value system.control := by
  have steps : Performs system (.readReg argument.offset fun first => .readReg (argument.offset + 4) fun second =>
    .pure (first.setWidth 64 + second.setWidth 64 <<< 32)) inputs result := performed
  obtain ⟨first, rest, lower, rfl, read, steps⟩ := steps.readReg_inv
  obtain ⟨second, last, upper, rfl, readUpper, steps⟩ := steps.readReg_inv
  obtain ⟨quiet, noRead, rfl⟩ := steps.pure_inv
  have kept (control : ControlAxi) (kernel : KernelSignals) := argument_read argument control kernel
  obtain ⟨before, input, later, split, unwritten, _, _, rfl⟩ := read_clock settled read
  obtain ⟨settled, lowUnwritten, _⟩ := read_settled settled read
  obtain ⟨before', input', later', split', unwritten', _, _, rfl⟩ := read_clock settled readUpper
  obtain ⟨settled, highUnwritten, _⟩ := read_settled settled readUpper
  have nothing := (quiet_settled settled quiet noRead).2
  rw [(kept _ _).1, (kept _ _).2, argument_quiet unwritten, argument_quiet unwritten', argument_quiet lowUnwritten,
    after_append, after_append, argument_quiet nothing, argument_quiet highUnwritten, argument_quiet lowUnwritten]
  exact ⟨word_sum _, rfl⟩

theorem keeps_performed {α : Type} {driver : Driver α} {result : α} (performed : Performs system driver inputs result)
    (keeps : Keeps argument driver) :
    argument.value (after system inputs).control = argument.value system.control := by
  induction performed with
  | pure quiet noRead => exact argument_quiet (quiet_settled settled quiet noRead).2
  | readReg read _ ih =>
    obtain ⟨settled, unwritten, _⟩ := read_settled settled read
    rw [after_append, ih settled ⟨keeps.1 _, keeps.2 _⟩, argument_quiet unwritten]
  | writeReg write _ ih =>
    obtain ⟨⟨other, keepsLower⟩, otherUpper, keepsUpper⟩ := keeps
    obtain ⟨settled, written⟩ := write_settled settled write
    rw [after_append, ih settled ⟨keepsLower, keepsUpper⟩, argument_after, written, List.foldl_cons,
      List.foldl_nil, writeHalves_full, if_neg otherUpper, if_neg other, high_append_low]

end Performed

/-- What the driver sets it gets, and the kernel too, at any timing of the bus and of the kernel, and whatever else
    the driver does in between. -/
theorem driver_set_get {α : Type} (argument : Argument) {data : BitVec 64} {between : Driver α}
    (keeps : Keeps argument between) {system : System} (settled : Settled system) {inputs : List SystemInput}
    {result : BitVec 64}
    (performed : Performs system
      (do argument.set data; let _ ← between; argument.get) inputs result) :
    result = data ∧ argument.value (after system inputs).control = data := by
  rw [argument.set_eq, argument.get_eq] at performed
  have steps : Performs system ((setData argument.offset data).bind fun _ => between.bind fun _ =>
    getData argument.offset) inputs result := performed
  obtain ⟨setting, rest, _, rfl, set, steps⟩ := steps.bind_inv
  obtain ⟨others, getting, _, rfl, other, get⟩ := steps.bind_inv
  have setSettled := set.settled settled
  obtain ⟨got, kept⟩ := getData_performed (other.settled setSettled) get
  rw [after_append, after_append, kept, got, keeps_performed setSettled other keeps, setData_performed settled set]
  exact ⟨rfl, rfl⟩

end Arguments

section Served

def readClocks (offset : BitVec 6) : List SystemInput :=
  [⟨{ silent with araddr := offset, arvalid := true }, true, false, 0⟩,
    ⟨{ silent with rready := true }, true, false, 0⟩]

def perform {α : Type} : System → Driver α → List SystemInput × α
  | _, .pure value => ([], value)
  | system, .readReg offset next =>
    let later := after system (readClocks offset)
    let rest := perform later (next later.control.rdata)
    (readClocks offset ++ rest.1, rest.2)
  | system, .writeReg offset data next =>
    let rest := perform (after system (writeClocks offset data)) next
    (writeClocks offset data ++ rest.1, rest.2)

variable {system : System} (settled : Settled system)

include settled

theorem write_served (offset : BitVec 6) (data : BitVec 32) :
    WriteTransaction system (writeClocks offset data) offset data := by
  obtain ⟨writing, reading⟩ := settled
  constructor <;>
    simp [seen, observe, writeClocks, silent, awSeen, wSeen, bSeen, arSeen, ControlAxi.awHs, ControlAxi.wHs,
      ControlAxi.arHs, systemClock, controlClock, wnext, rnext, writing, reading]

theorem read_served (offset : BitVec 6) : ReadTransaction system (readClocks offset) offset
    (after system (readClocks offset)).control.rdata := by
  obtain ⟨writing, reading⟩ := settled
  constructor <;>
    simp [seen, observe, after, run, readClocks, silent, awSeen, wSeen, arSeen, rSeen, ControlAxi.awHs,
      ControlAxi.wHs, ControlAxi.arHs, systemClock, controlClock, wnext, rnext, writing, reading]

/-- No function of the driver waits for the bus without end. -/
theorem driver_served {α : Type} (driver : Driver α) :
    Performs system driver (perform system driver).1 (perform system driver).2 := by
  induction driver generalizing system with
  | pure value => exact .pure rfl rfl
  | readReg offset next ih =>
    have read := read_served settled offset
    exact .readReg read (ih _ (read_settled settled read).1)
  | writeReg offset data next ih =>
    have write := write_served settled offset data
    exact .writeReg write (ih (write_settled settled write).1)

end Served

theorem driver_set_get_start : (perform someStarted (do
    Argument.set .inputData 0x123456789a
    let _ ← xLzwEncodeHwStart
    Argument.get .inputData)).2 = 0x123456789a :=
  have keeps : Keeps .inputData xLzwEncodeHwStart := ⟨fun _ => ⟨by decide, trivial⟩, fun _ => ⟨by decide, trivial⟩⟩
  have settled : Settled someStarted := started_settled _ _ _
  (driver_set_get .inputData keeps settled (driver_served settled _)).1

end DedupProof
