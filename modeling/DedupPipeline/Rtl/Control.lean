import DedupPipeline.Library.Clocked
import Mathlib.Data.Nat.Bitwise

namespace DedupModel

def addrApCtrl : BitVec 6 := 0x00
def addrGie : BitVec 6 := 0x04
def addrIer : BitVec 6 := 0x08
def addrIsr : BitVec 6 := 0x0c
def addrInputDataData0 : BitVec 6 := 0x10
def addrInputDataData1 : BitVec 6 := 0x14
def addrInputSizeData0 : BitVec 6 := 0x1c
def addrInputSizeData1 : BitVec 6 := 0x20
def addrCompressedDataData0 : BitVec 6 := 0x28
def addrCompressedDataData1 : BitVec 6 := 0x2c
def addrCompressedSizeData0 : BitVec 6 := 0x34
def addrCompressedSizeData1 : BitVec 6 := 0x38

inductive WState where
  | wridle
  | wrdata
  | wrresp
  | wrreset
  deriving DecidableEq

/-- `undefined` is the code of two bits that is none of the states. -/
inductive RState where
  | rdidle
  | rddata
  | rdreset
  | undefined
  deriving DecidableEq

structure ControlAxi where
  wstate : WState
  waddr : BitVec 6
  rstate : RState
  rdata : BitVec 32
  intApIdle : Bool
  intApContinue : Bool
  intApReady : Bool
  intApStart : Bool
  intAutoRestart : Bool
  intGie : Bool
  intIer : BitVec 2
  intIsr : BitVec 2
  intInputData : BitVec 64
  intInputSize : BitVec 64
  intCompressedData : BitVec 64
  intCompressedSize : BitVec 64

structure BusInput where
  awaddr : BitVec 6
  awvalid : Bool
  wdata : BitVec 32
  wstrb : BitVec 4
  wvalid : Bool
  bready : Bool
  araddr : BitVec 6
  arvalid : Bool
  rready : Bool

structure KernelSignals where
  apDone : Bool
  apReady : Bool
  apIdle : Bool
  compressedSize : BitVec 64

namespace ControlAxi

def awHs (control : ControlAxi) (bus : BusInput) : Bool := bus.awvalid && control.wstate = .wridle

def wHs (control : ControlAxi) (bus : BusInput) : Bool := bus.wvalid && control.wstate = .wrdata

def arHs (control : ControlAxi) (bus : BusInput) : Bool := bus.arvalid && control.rstate = .rdidle

def interrupt (control : ControlAxi) : Bool := control.intGie && control.intIsr ≠ 0

end ControlAxi

def wmask (wstrb : BitVec 4) : BitVec 32 :=
  (BitVec.ofBool (wstrb.getLsbD 3)).replicate 8 ++ (BitVec.ofBool (wstrb.getLsbD 2)).replicate 8 ++
    (BitVec.ofBool (wstrb.getLsbD 1)).replicate 8 ++ (BitVec.ofBool (wstrb.getLsbD 0)).replicate 8

def wnext (control : ControlAxi) (bus : BusInput) : WState :=
  match control.wstate with
  | .wridle => if bus.awvalid then .wrdata else .wridle
  | .wrdata => if bus.wvalid then .wrresp else .wrdata
  | .wrresp => if bus.bready then .wridle else .wrresp
  | .wrreset => .wridle

def rnext (control : ControlAxi) (bus : BusInput) : RState :=
  match control.rstate with
  | .rdidle => if bus.arvalid then .rddata else .rdidle
  | .rddata => if bus.rready then .rdidle else .rddata
  | .rdreset => .rdidle
  | .undefined => .rdidle

def low (value : BitVec 64) : BitVec 32 := value.extractLsb' 0 32

def high (value : BitVec 64) : BitVec 32 := value.extractLsb' 32 32

def readRegister (control : ControlAxi) (kernel : KernelSignals) (raddr : BitVec 6) : BitVec 32 :=
  if raddr = addrApCtrl then
    0#24 ++ BitVec.ofBool control.intAutoRestart ++ 0#2 ++ BitVec.ofBool control.intApContinue ++
      BitVec.ofBool control.intApReady ++ BitVec.ofBool control.intApIdle ++ BitVec.ofBool kernel.apDone ++
      BitVec.ofBool control.intApStart
  else if raddr = addrGie then (BitVec.ofBool control.intGie).setWidth 32
  else if raddr = addrIer then control.intIer.setWidth 32
  else if raddr = addrIsr then control.intIsr.setWidth 32
  else if raddr = addrInputDataData0 then low control.intInputData
  else if raddr = addrInputDataData1 then high control.intInputData
  else if raddr = addrInputSizeData0 then low control.intInputSize
  else if raddr = addrInputSizeData1 then high control.intInputSize
  else if raddr = addrCompressedDataData0 then low control.intCompressedData
  else if raddr = addrCompressedDataData1 then high control.intCompressedData
  else if raddr = addrCompressedSizeData0 then low control.intCompressedSize
  else if raddr = addrCompressedSizeData1 then high control.intCompressedSize
  else 0

/-- Both halves of a register of 64 bits; `write` has the address, the data and the strobes of a write, if there is
    one in this clock. -/
def writeHalves (addr0 addr1 : BitVec 6) (value : BitVec 64) (write : Option (BitVec 6 × BitVec 32 × BitVec 4)) :
    BitVec 64 :=
  match write with
  | none => value
  | some (waddr, wdata, wstrb) =>
    (if waddr = addr1 then (wdata &&& wmask wstrb) ||| (high value &&& ~~~wmask wstrb) else high value) ++
      (if waddr = addr0 then (wdata &&& wmask wstrb) ||| (low value &&& ~~~wmask wstrb) else low value)

def ControlAxi.write (control : ControlAxi) (bus : BusInput) : Option (BitVec 6 × BitVec 32 × BitVec 4) :=
  if control.wHs bus then some (control.waddr, bus.wdata, bus.wstrb) else none

/-- Bit `i` of a bit vector of two interrupts: set by its event, else toggled by a write. -/
def isrBit (control : ControlAxi) (bus : BusInput) (event : Bool) (i : Nat) : Bool :=
  if control.intIer.getLsbD i && event then true
  else if control.wHs bus && control.waddr = addrIsr && bus.wstrb.getLsbD 0 then
    control.intIsr.getLsbD i ^^ bus.wdata.getLsbD i
  else control.intIsr.getLsbD i

/-- One clock; `ACLK_EN` is tied to one. -/
def controlClock (areset : Bool) (control : ControlAxi) (bus : BusInput) (kernel : KernelSignals) : ControlAxi :=
  let ctrl := control.wHs bus && control.waddr = addrApCtrl && bus.wstrb.getLsbD 0
  {
    wstate := if areset then .wrreset else wnext control bus
    waddr := if control.awHs bus then bus.awaddr else control.waddr
    rstate := if areset then .rdreset else rnext control bus
    rdata := if control.arHs bus then readRegister control kernel bus.araddr else control.rdata
    intApIdle := if areset then false else kernel.apIdle
    intApContinue :=
      if areset then false
      else if ctrl && bus.wdata.getLsbD 4 then true
      -- auto restart
      else if kernel.apDone && !control.intApContinue && control.intAutoRestart then true
      -- self clear
      else false
    intApReady := if areset then false else kernel.apReady
    intApStart :=
      if areset then false
      else if ctrl && bus.wdata.getLsbD 0 then true
      -- clear on handshake/auto restart
      else if kernel.apReady then control.intAutoRestart
      else control.intApStart
    intAutoRestart := if areset then false else if ctrl then bus.wdata.getLsbD 7 else control.intAutoRestart
    intGie :=
      if areset then false
      else if control.wHs bus && control.waddr = addrGie && bus.wstrb.getLsbD 0 then bus.wdata.getLsbD 0
      else control.intGie
    intIer :=
      if areset then 0
      else if control.wHs bus && control.waddr = addrIer && bus.wstrb.getLsbD 0 then bus.wdata.extractLsb' 0 2
      else control.intIer
    intIsr :=
      if areset then 0
      else BitVec.ofBool (isrBit control bus kernel.apReady 1) ++ BitVec.ofBool (isrBit control bus kernel.apDone 0)
    intInputData :=
      if areset then 0
      else writeHalves addrInputDataData0 addrInputDataData1 control.intInputData (control.write bus)
    intInputSize :=
      if areset then 0
      else writeHalves addrInputSizeData0 addrInputSizeData1 control.intInputSize (control.write bus)
    intCompressedData :=
      if areset then 0
      else writeHalves addrCompressedDataData0 addrCompressedDataData1 control.intCompressedData (control.write bus)
    intCompressedSize := if areset then 0 else kernel.compressedSize }

inductive KernelState where
  | state1
  | work
  | state293
  deriving DecidableEq

structure Kernel where
  apCsFsm : KernelState
  apDoneReg : Bool

structure System where
  control : ControlAxi
  kernel : Kernel

/-- In a clock: the signals of the bus, whether the work goes on to the last state, whether the last state still waits
    for the response to a write, and the value of `compressed_size`. -/
structure SystemInput where
  bus : BusInput
  worked : Bool
  blocked : Bool
  compressedSize : BitVec 64

namespace System

def starts (system : System) : Bool :=
  system.kernel.apCsFsm = .state1 && !(system.kernel.apDoneReg || !system.control.intApStart)

/-- The kernel leaves its last state: `ap_ready`. -/
def ends (system : System) (input : SystemInput) : Bool := system.kernel.apCsFsm = .state293 && !input.blocked

def output (system : System) (input : SystemInput) : KernelSignals where
  apDone := if system.ends input then true else system.kernel.apDoneReg
  apReady := system.ends input
  apIdle := !system.control.intApStart && system.kernel.apCsFsm = .state1
  compressedSize := input.compressedSize

end System

def kernelClock (reset : Bool) (system : System) (input : SystemInput) : Kernel where
  apCsFsm :=
    if reset then .state1
    else match system.kernel.apCsFsm with
      | .state1 => if system.starts then .work else .state1
      | .work => if input.worked then .state293 else .work
      | .state293 => if system.ends input then .state1 else .state293
  apDoneReg :=
    if reset then false
    else if system.control.intApContinue then false
    else if system.ends input then true
    else system.kernel.apDoneReg

def systemClock (reset : Bool) (system : System) (input : SystemInput) : System where
  control := controlClock reset system.control input.bus (system.output input)
  kernel := kernelClock reset system input

end DedupModel
