import DedupPipeline.Rtl.Control

namespace DedupProof

open DedupModel Clocked

/-- What is seen in a clock: the addresses, the data and the responses that are handed over. -/
def awSeen (system : System) (input : SystemInput) : List (BitVec 6) :=
  if system.control.awHs input.bus then [input.bus.awaddr] else []

def wSeen (system : System) (input : SystemInput) : List (BitVec 32 × BitVec 4) :=
  if system.control.wHs input.bus then [(input.bus.wdata, input.bus.wstrb)] else []

def bSeen (system : System) (input : SystemInput) : List Unit :=
  if system.control.wstate = .wrresp ∧ input.bus.bready then [()] else []

def arSeen (system : System) (input : SystemInput) : List (BitVec 6) :=
  if system.control.arHs input.bus then [input.bus.araddr] else []

def rSeen (system : System) (input : SystemInput) : List (BitVec 32) :=
  if system.control.rstate = .rddata ∧ input.bus.rready then [system.control.rdata] else []

def writeSeen (system : System) (input : SystemInput) : List (BitVec 6 × BitVec 32 × BitVec 4) :=
  (system.control.write input.bus).toList

def readSeen (system : System) (input : SystemInput) : List (BitVec 6 × BitVec 32) :=
  if system.control.arHs input.bus then
    [(input.bus.araddr, readRegister system.control (system.output input) input.bus.araddr)]
  else []

section

variable {β : Type} (see : System → SystemInput → List β) (system : System) (inputs : List SystemInput)

def seen : List β := observe (systemClock false) see system inputs

def after : System := run (systemClock false) system inputs

end

/-- The address of a write whose data has not come yet. -/
def pendingAddress (system : System) : List (BitVec 6) :=
  if system.control.wstate = .wrdata then [system.control.waddr] else []

def pendingResponse (system : System) : List Unit := if system.control.wstate = .wrresp then [()] else []

def pendingValue (system : System) : List (BitVec 32) :=
  if system.control.rstate = .rddata then [system.control.rdata] else []

def Operating (system : System) : Prop :=
  system.control.wstate ≠ .wrreset ∧ (system.control.rstate = .rdidle ∨ system.control.rstate = .rddata)

theorem systemClock_operating (system : System) (input : SystemInput) (operating : Operating system) :
    Operating (systemClock false system input) := by
  obtain ⟨writing, reading⟩ := operating
  constructor
  · cases state : system.control.wstate <;> simp [systemClock, controlClock, wnext, state] <;>
      first | exact absurd state writing | split <;> simp
  · rcases reading with state | state <;> simp only [systemClock, controlClock, rnext, state] <;>
      cases input.bus.arvalid <;> cases input.bus.rready <;> simp

theorem after_operating {system : System} (operating : Operating system) (inputs : List SystemInput) :
    Operating (after system inputs) := run_invariant systemClock_operating operating inputs

section Conserved

variable {system : System} (operating : Operating system) (inputs : List SystemInput)

include operating

theorem addresses_conserved : pendingAddress system ++ seen awSeen system inputs =
    (seen writeSeen system inputs).map Prod.fst ++ pendingAddress (after system inputs) := by
  rw [seen, seen, observe_map]
  refine conserved systemClock_operating ?_ operating inputs
  intro system input _
  cases state : system.control.wstate <;> cases address : input.bus.awvalid <;> cases data : input.bus.wvalid <;>
    cases response : input.bus.bready <;>
    simp [pendingAddress, awSeen, writeSeen, ControlAxi.write, ControlAxi.awHs, ControlAxi.wHs, systemClock,
      controlClock, wnext, state, address, data, response]

theorem responses_conserved : pendingResponse system ++ (seen writeSeen system inputs).map (fun _ => ()) =
    seen bSeen system inputs ++ pendingResponse (after system inputs) := by
  rw [seen, seen, observe_map]
  refine conserved systemClock_operating ?_ operating inputs
  intro system input _
  cases state : system.control.wstate <;> cases address : input.bus.awvalid <;> cases data : input.bus.wvalid <;>
    cases response : input.bus.bready <;>
    simp [pendingResponse, bSeen, writeSeen, ControlAxi.write, ControlAxi.wHs, systemClock, controlClock, wnext,
      state, address, data, response]

theorem values_conserved : pendingValue system ++ (seen readSeen system inputs).map Prod.snd =
    seen rSeen system inputs ++ pendingValue (after system inputs) := by
  rw [seen, seen, observe_map]
  refine conserved systemClock_operating ?_ operating inputs
  rintro system input ⟨_, reading⟩
  rcases reading with state | state <;> cases address : input.bus.arvalid <;> cases value : input.bus.rready <;>
    simp [pendingValue, readSeen, rSeen, ControlAxi.arHs, systemClock, controlClock, rnext, state, address, value]

end Conserved

theorem seen_eq_of_step {β γ : Type} {one : System → SystemInput → List β} {two : System → SystemInput → List γ}
    {f : β → γ} (same : ∀ system input, (one system input).map f = two system input) (system : System)
    (inputs : List SystemInput) : (seen one system inputs).map f = seen two system inputs := by
  rw [seen, observe_map, funext₂ same]
  rfl

theorem payloads_eq (system : System) (inputs : List SystemInput) :
    (seen writeSeen system inputs).map Prod.snd = seen wSeen system inputs := by
  refine seen_eq_of_step (fun system input => ?_) system inputs
  unfold writeSeen ControlAxi.write wSeen
  split <;> rfl

theorem addresses_eq (system : System) (inputs : List SystemInput) :
    (seen readSeen system inputs).map Prod.fst = seen arSeen system inputs := by
  refine seen_eq_of_step (fun system input => ?_) system inputs
  unfold readSeen arSeen
  split <;> rfl

def Settled (system : System) : Prop := system.control.wstate = .wridle ∧ system.control.rstate = .rdidle

theorem Settled.operating {system : System} (settled : Settled system) : Operating system := by
  rw [Operating, settled.1, settled.2]
  simp

/-- The clocks in which the master reads the register at `offset`, and nothing else. -/
structure ReadTransaction (system : System) (inputs : List SystemInput) (offset : BitVec 6) (value : BitVec 32) :
    Prop where
  ar : seen arSeen system inputs = [offset]
  r : seen rSeen system inputs = [value]
  aw : seen awSeen system inputs = []
  w : seen wSeen system inputs = []

structure WriteTransaction (system : System) (inputs : List SystemInput) (offset : BitVec 6) (data : BitVec 32) :
    Prop where
  aw : seen awSeen system inputs = [offset]
  w : seen wSeen system inputs = [(data, 0xf)]
  b : seen bSeen system inputs = [()]
  ar : seen arSeen system inputs = []

theorem pendingAddress_eq_nil {system : System} : pendingAddress system = [] ↔ system.control.wstate ≠ .wrdata := by
  unfold pendingAddress
  split <;> simp_all

theorem pendingResponse_eq_nil {system : System} : pendingResponse system = [] ↔ system.control.wstate ≠ .wrresp := by
  unfold pendingResponse
  split <;> simp_all

theorem pendingValue_eq_nil {system : System} : pendingValue system = [] ↔ system.control.rstate ≠ .rddata := by
  unfold pendingValue
  split <;> simp_all

theorem Settled.pending {system : System} (settled : Settled system) :
    pendingAddress system = [] ∧ pendingResponse system = [] ∧ pendingValue system = [] := by
  rw [pendingAddress_eq_nil, pendingResponse_eq_nil, pendingValue_eq_nil, settled.1, settled.2]
  simp

theorem settled_of_pending {system : System} (operating : Operating system) (address : pendingAddress system = [])
    (response : pendingResponse system = []) (value : pendingValue system = []) : Settled system := by
  rw [pendingAddress_eq_nil] at address
  rw [pendingResponse_eq_nil] at response
  rw [pendingValue_eq_nil] at value
  obtain ⟨writing, reading⟩ := operating
  refine ⟨?_, reading.resolve_right value⟩
  cases state : system.control.wstate <;> simp_all

section Transactions

variable {system : System} (settled : Settled system) {inputs : List SystemInput} {offset : BitVec 6}

include settled

theorem quiet_settled (quiet : seen awSeen system inputs = []) (noRead : seen arSeen system inputs = []) :
    Settled (after system inputs) ∧ seen writeSeen system inputs = [] := by
  obtain ⟨address, response, result⟩ := settled.pending
  have addresses := addresses_conserved settled.operating inputs
  have responses := responses_conserved settled.operating inputs
  have values := values_conserved settled.operating inputs
  have reads := addresses_eq system inputs
  rw [noRead, List.map_eq_nil_iff] at reads
  rw [address, quiet, List.nil_append] at addresses
  obtain ⟨writes, noAddress⟩ := List.append_eq_nil_iff.mp addresses.symm
  rw [List.map_eq_nil_iff] at writes
  rw [response, writes, List.map_nil, List.nil_append] at responses
  rw [result, reads, List.map_nil, List.nil_append] at values
  exact ⟨settled_of_pending (after_operating settled.operating inputs) noAddress
    (List.append_eq_nil_iff.mp responses.symm).2 (List.append_eq_nil_iff.mp values.symm).2, writes⟩

theorem read_settled {value : BitVec 32} (read : ReadTransaction system inputs offset value) :
    Settled (after system inputs) ∧ seen writeSeen system inputs = [] ∧
      seen readSeen system inputs = [(offset, value)] := by
  obtain ⟨address, response, result⟩ := settled.pending
  have addresses := addresses_conserved settled.operating inputs
  have responses := responses_conserved settled.operating inputs
  have values := values_conserved settled.operating inputs
  have reads := addresses_eq system inputs
  rw [address, read.aw, List.nil_append] at addresses
  obtain ⟨writes, noAddress⟩ := List.append_eq_nil_iff.mp addresses.symm
  rw [List.map_eq_nil_iff] at writes
  rw [response, writes, List.map_nil, List.nil_append] at responses
  rw [read.ar] at reads
  obtain ⟨⟨other, register⟩, single, rfl⟩ := List.map_eq_singleton_iff.mp reads
  rw [result, single, read.r] at values
  obtain ⟨rfl, noValue⟩ := List.cons.inj values
  exact ⟨settled_of_pending (after_operating settled.operating inputs) noAddress
    (List.append_eq_nil_iff.mp responses.symm).2 noValue.symm, writes, single⟩

theorem write_settled {data : BitVec 32} (write : WriteTransaction system inputs offset data) :
    Settled (after system inputs) ∧ seen writeSeen system inputs = [(offset, data, 0xf)] := by
  obtain ⟨address, response, result⟩ := settled.pending
  have addresses := addresses_conserved settled.operating inputs
  have responses := responses_conserved settled.operating inputs
  have values := values_conserved settled.operating inputs
  have reads := addresses_eq system inputs
  have payloads := payloads_eq system inputs
  rw [write.w] at payloads
  obtain ⟨⟨other, payload⟩, single, rfl⟩ := List.map_eq_singleton_iff.mp payloads
  rw [address, write.aw, single] at addresses
  have parts := List.cons.inj addresses
  rw [response, single, write.b] at responses
  rw [write.ar, List.map_eq_nil_iff] at reads
  rw [result, reads] at values
  refine ⟨settled_of_pending (after_operating settled.operating inputs) parts.2.symm (List.cons.inj responses).2.symm
    (List.append_eq_nil_iff.mp values.symm).2, ?_⟩
  rw [single, parts.1]

theorem read_clock {value : BitVec 32} (read : ReadTransaction system inputs offset value) :
    ∃ before input rest, inputs = before ++ input :: rest ∧ seen writeSeen system before = [] ∧
      seen writeSeen (after system before) (input :: rest) = [] ∧
      readSeen (after system before) input = [(offset, value)] ∧
      value = readRegister (after system before).control ((after system before).output input) offset := by
  obtain ⟨_, writes, reads⟩ := read_settled settled read
  have single (system : System) (input : SystemInput) : (readSeen system input).length ≤ 1 := by
    unfold readSeen
    split <;> simp
  obtain ⟨before, input, rest, rfl, _, found, _⟩ := observe_single single reads
  rw [seen, observe_append] at writes
  obtain ⟨earlier, later⟩ := List.append_eq_nil_iff.mp writes
  refine ⟨before, input, rest, rfl, earlier, later, found, ?_⟩
  unfold readSeen at found
  split at found
  · obtain ⟨rfl, rfl⟩ := Prod.mk.inj (List.cons.inj found).1
    rfl
  · cases found

/-- The clock in which a write takes effect; the clock of its response comes later. -/
theorem write_clock {data : BitVec 32} (write : WriteTransaction system inputs offset data) :
    ∃ before input rest, inputs = before ++ input :: rest ∧ seen writeSeen system before = [] ∧
      (after system before).control.write input.bus = some (offset, data, 0xf) ∧ rest ≠ [] ∧
      seen writeSeen (systemClock false (after system before) input) rest = [] := by
  obtain ⟨final, writes⟩ := write_settled settled write
  have single (system : System) (input : SystemInput) : (writeSeen system input).length ≤ 1 := by
    unfold writeSeen
    cases system.control.write input.bus <;> simp
  obtain ⟨before, input, rest, rfl, earlier, found, later⟩ := observe_single single writes
  have effect : (after system before).control.write input.bus = some (offset, data, 0xf) := by
    unfold writeSeen at found
    exact Option.toList_eq_singleton_iff.mp found
  refine ⟨before, input, rest, rfl, earlier, effect, ?_, later⟩
  rintro rfl
  rw [after, run_append] at final
  have resp : (systemClock false (after system before) input).control.wstate = .wrresp := by
    have handshake : (after system before).control.wHs input.bus = true := by
      unfold ControlAxi.write at effect
      by_contra silent
      rw [if_neg silent] at effect
      cases effect
    obtain ⟨valid, state⟩ := Bool.and_eq_true_iff.mp handshake
    simp [systemClock, controlClock, wnext, of_decide_eq_true state, valid]
  have idle : (systemClock false (after system before) input).control.wstate = .wridle := final.1
  rw [resp] at idle
  cases idle

end Transactions

def silent : BusInput := ⟨0, false, 0, 0, false, false, 0, false, false⟩

def writeClocks (offset : BitVec 6) (data : BitVec 32) : List SystemInput :=
  [⟨{ silent with awaddr := offset, awvalid := true }, true, false, 0⟩,
    ⟨{ silent with wdata := data, wstrb := 0xf, wvalid := true }, true, false, 0⟩,
    ⟨{ silent with bready := true }, true, false, 0⟩]

/-- The clock after a reset, from a system of which nothing is known. -/
def started (system : System) (first second : SystemInput) : System :=
  systemClock false (systemClock true system first) second

theorem started_settled (system : System) (first second : SystemInput) : Settled (started system first second) :=
  ⟨rfl, rfl⟩

def someSystem : System :=
  ⟨⟨.wrresp, 1, .rddata, 2, true, true, true, true, true, true, 3, 3, 4, 5, 6, 7⟩, ⟨.work, true⟩⟩

def someStarted : System := started someSystem ⟨silent, true, false, 0⟩ ⟨silent, true, false, 0⟩

end DedupProof
