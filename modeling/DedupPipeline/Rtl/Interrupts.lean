import DedupPipeline.Rtl.KernelRuns

namespace DedupModel

/-- What a program does each time it looks at the interrupts, with other things between. -/
def acknowledge : List (Driver Unit) → Driver (List (BitVec 32))
  | [] => pure []
  | between :: rest => do
    between
    let status ← xLzwEncodeHwInterruptGetStatus
    xLzwEncodeHwInterruptClear status
    let statuses ← acknowledge rest
    return status :: statuses

end DedupModel

namespace DedupProof

open DedupModel Clocked

inductive Interrupt where
  | done
  | ready

namespace Interrupt

def bit : Interrupt → Nat
  | .done => 0
  | .ready => 1

def event (system : System) (input : SystemInput) : Interrupt → Bool
  | .done => (system.output input).apDone
  | .ready => (system.output input).apReady

def flag (interrupt : Interrupt) (system : System) : Bool := system.control.intIsr.getLsbD interrupt.bit

/-- The flag behind a clock in which the kernel raises nothing. -/
def kept (interrupt : Interrupt) (system : System) (input : SystemInput) : Bool :=
  isrBit system.control input.bus false interrupt.bit

/-- The kernel raises the interrupt, and the flag would be clear but for that. -/
def raised (interrupt : Interrupt) (system : System) (input : SystemInput) : List Unit :=
  if system.control.intIer.getLsbD interrupt.bit && interrupt.event system input && !interrupt.kept system input then
    [()]
  else []

end Interrupt

theorem two_bits (first second : Bool) : (BitVec.ofBool first ++ BitVec.ofBool second).getLsbD 0 = second ∧
    (BitVec.ofBool first ++ BitVec.ofBool second).getLsbD 1 = first := by
  cases first <;> cases second <;> decide

section Clock

variable (interrupt : Interrupt) (system : System) (input : SystemInput)

theorem flag_clock : interrupt.flag (systemClock false system input) =
    isrBit system.control input.bus (interrupt.event system input) interrupt.bit := by
  cases interrupt
  · exact (two_bits _ _).1
  · exact (two_bits _ _).2

theorem flag_eq : interrupt.flag (systemClock false system input) =
    (system.control.intIer.getLsbD interrupt.bit && interrupt.event system input || interrupt.kept system input) := by
  rw [flag_clock, Interrupt.kept, isrBit, isrBit, Bool.and_false]
  cases system.control.intIer.getLsbD interrupt.bit && interrupt.event system input <;> rfl

theorem flag_count : (interrupt.flag (systemClock false system input)).toNat =
    (interrupt.kept system input).toNat + (interrupt.raised system input).length := by
  rw [flag_eq, Interrupt.raised]
  cases system.control.intIer.getLsbD interrupt.bit && interrupt.event system input <;>
    cases interrupt.kept system input <;> rfl

variable {interrupt system input}

theorem flag_of_raised (raised : interrupt.raised system input ≠ []) :
    interrupt.kept system input = false ∧ interrupt.flag (systemClock false system input) = true := by
  rw [flag_eq]
  unfold Interrupt.raised at raised
  cases here : system.control.intIer.getLsbD interrupt.bit && interrupt.event system input <;>
    cases kept : interrupt.kept system input <;> simp_all

theorem raised_of_flag (clear : interrupt.kept system input = false)
    (up : interrupt.flag (systemClock false system input) = true) : interrupt.raised system input ≠ [] := by
  have count := flag_count interrupt system input
  rw [clear, up] at count
  intro nothing
  rw [nothing] at count
  cases count

theorem flag_of_kept (kept : interrupt.kept system input = true) :
    interrupt.flag (systemClock false system input) = true := by
  rw [flag_eq, kept, Bool.or_true]

end Clock

def isrSeen (system : System) (input : SystemInput) : List (BitVec 6 × BitVec 32 × BitVec 4) :=
  (writeSeen system input).flatMap fun write => if write.1 = addrIsr then [write] else []

section Kept

variable {interrupt : Interrupt} {system : System} {input : SystemInput}

theorem kept_unwritten (unwritten : isrSeen system input = []) :
    interrupt.kept system input = interrupt.flag system := by
  have elsewhere : (system.control.wHs input.bus && system.control.waddr = addrIsr &&
      input.bus.wstrb.getLsbD 0) = false := by
    cases handshake : system.control.wHs input.bus <;>
      simp_all [isrSeen, writeSeen, ControlAxi.write]
  rw [Interrupt.kept, isrBit, elsewhere, Bool.and_false]
  rfl

theorem kept_written {data : BitVec 32} (written : system.control.write input.bus = some (addrIsr, data, 0xf)) :
    interrupt.kept system input = (interrupt.flag system ^^ data.getLsbD interrupt.bit) := by
  obtain ⟨valid, address, rfl, strobes⟩ := write_some written
  have strobe : (0xf : BitVec 4).getLsbD 0 = true := by decide
  rw [Interrupt.kept, isrBit, valid, address, strobes, strobe, Bool.and_false]
  rfl

end Kept

def Told (interrupt : Interrupt) (system : System) (inputs : List SystemInput) (statuses : List (BitVec 32)) : Prop :=
  ∃ status ∈ statuses, (addrIsr, status) ∈ seen readSeen system inputs ∧ status.getLsbD interrupt.bit = true

/-- What the words tell of the interrupt: its flag goes up only when it is raised, and each time it is raised, a later
    word tells of it or the flag is still up; there are as many words that tell of it as times it was raised. -/
structure Reported (interrupt : Interrupt) (system : System) (inputs : List SystemInput)
    (statuses : List (BitVec 32)) : Prop where
  real : ∀ front input back, inputs = front ++ input :: back → interrupt.flag (after system front) = false →
    interrupt.flag (systemClock false (after system front) input) = true →
    interrupt.raised (after system front) input ≠ []
  told : ∀ front input back, inputs = front ++ input :: back → interrupt.raised (after system front) input ≠ [] →
    Told interrupt (systemClock false (after system front) input) back statuses ∨
      interrupt.flag (after system inputs) = true
  stays : interrupt.flag system = true →
    Told interrupt system inputs statuses ∨ interrupt.flag (after system inputs) = true
  count : statuses.countP (·.getLsbD interrupt.bit) + (interrupt.flag (after system inputs)).toNat =
    (interrupt.flag system).toNat + (seen interrupt.raised system inputs).length

section Reported

variable {interrupt : Interrupt} {system : System} {inputs back : List SystemInput}
  {statuses later : List (BitVec 32)}

theorem Told.behind (told : Told interrupt (after system inputs) back later) :
    Told interrupt system (inputs ++ back) (statuses ++ later) := by
  obtain ⟨status, member, read, up⟩ := told
  exact ⟨status, List.mem_append_right _ member, by rw [seen_append]; exact List.mem_append_right _ read, up⟩

theorem Told.before (told : Told interrupt system inputs statuses) :
    Told interrupt system (inputs ++ back) (statuses ++ later) := by
  obtain ⟨status, member, read, up⟩ := told
  exact ⟨status, List.mem_append_left _ member, by rw [seen_append]; exact List.mem_append_left _ read, up⟩

theorem clock_cases {first second front rest : List SystemInput} {input : SystemInput}
    (split : first ++ second = front ++ input :: rest) :
    (∃ middle, first = front ++ input :: middle ∧ rest = middle ++ second) ∨
      ∃ middle, front = first ++ middle ∧ second = middle ++ input :: rest := by
  rcases List.append_eq_append_iff.mp split with ⟨middle, longer, second⟩ | ⟨middle, longer, rest⟩
  · exact Or.inr ⟨middle, longer, second⟩
  · cases middle with
    | nil =>
      rw [List.append_nil] at longer
      exact Or.inr ⟨[], by rw [longer, List.append_nil], rest.symm⟩
    | cons head middle =>
      obtain ⟨rfl, rfl⟩ := List.cons.inj rest
      exact Or.inl ⟨middle, longer, rfl⟩

theorem Reported.append (first : Reported interrupt system inputs statuses)
    (second : Reported interrupt (after system inputs) back later) :
    Reported interrupt system (inputs ++ back) (statuses ++ later) where
  real := by
    intro front input rest split clear up
    rcases clock_cases split with ⟨middle, inside, _⟩ | ⟨middle, rfl, inside⟩
    · exact first.real front input middle inside clear up
    · rw [after_append] at clear up ⊢
      exact second.real middle input rest inside clear up
  told := by
    intro front input rest split raised
    rcases clock_cases split with ⟨middle, rfl, rfl⟩ | ⟨middle, rfl, inside⟩
    · rw [after_append]
      rcases first.told front input middle rfl raised with told | up
      · exact Or.inl told.before
      · refine (second.stays up).imp_left fun told => ?_
        rw [after_around] at told
        exact told.behind
    · rw [after_append] at raised ⊢
      rw [after_append]
      exact (second.told middle input rest inside raised).imp_left fun ⟨status, member, told⟩ =>
        ⟨status, List.mem_append_right _ member, told⟩
  stays := by
    intro up
    rw [after_append]
    rcases first.stays up with told | up
    · exact Or.inl told.before
    · exact (second.stays up).imp_left Told.behind
  count := by
    have one := first.count
    have two := second.count
    rw [seen_append, after_append, List.countP_append, List.length_append]
    omega

theorem reported_nil : Reported interrupt system [] [] where
  real front input rest split := by simp at split
  told front input rest split := by simp at split
  stays := Or.inr
  count := Nat.add_comm _ _

theorem reported_clock {input : SystemInput} (kept : interrupt.kept system input = interrupt.flag system) :
    Reported interrupt system [input] [] where
  real front other rest split clear up := by
    obtain ⟨rfl, rest⟩ | ⟨middle, rfl, rest⟩ := List.cons_eq_append_iff.mp split
    · obtain ⟨rfl, rfl⟩ := List.cons.inj rest
      exact raised_of_flag (kept.trans clear) up
    · simp at rest
  told front other rest split raised := by
    obtain ⟨rfl, rest⟩ | ⟨middle, rfl, rest⟩ := List.cons_eq_append_iff.mp split
    · obtain ⟨rfl, rfl⟩ := List.cons.inj rest
      exact Or.inr (flag_of_raised raised).2
    · simp at rest
  stays up := Or.inr (flag_of_kept (kept.trans up))
  count := by
    have count := flag_count interrupt system input
    rw [kept] at count
    show 0 + (interrupt.flag (systemClock false system input)).toNat =
      _ + (interrupt.raised system input ++ []).length
    rw [List.append_nil, Nat.zero_add, count]

theorem reported_unwritten (unwritten : seen isrSeen system inputs = []) : Reported interrupt system inputs [] := by
  induction inputs generalizing system with
  | nil => exact reported_nil
  | cons input inputs ih =>
    obtain ⟨now, later⟩ := List.append_eq_nil_iff.mp unwritten
    exact (reported_clock (kept_unwritten now)).append (ih later)

theorem Reported.word (reported : Reported interrupt system inputs []) {status : BitVec 32}
    (zero : status.getLsbD interrupt.bit = false) : Reported interrupt system inputs [status] where
  real := reported.real
  told front input back split raised :=
    (reported.told front input back split raised).imp_left fun ⟨_, member, _⟩ => absurd member List.not_mem_nil
  stays up := (reported.stays up).imp_left fun ⟨_, member, _⟩ => absurd member List.not_mem_nil
  count := by
    rw [List.countP_singleton, if_neg (by rw [zero]; exact Bool.false_ne_true)]
    exact reported.count

theorem flag_stays (unwritten : seen isrSeen system inputs = []) (up : interrupt.flag system = true) :
    interrupt.flag (after system inputs) = true ∧ seen interrupt.raised system inputs = [] := by
  have kept (system : System) (input : SystemInput) (unwritten : isrSeen system input = [])
      (up : interrupt.flag system = true) : interrupt.flag (systemClock false system input) = true :=
    flag_of_kept ((kept_unwritten unwritten).trans up)
  have stays : interrupt.flag (after system inputs) = true := run_invariant_while kept up unwritten
  have reported : Reported interrupt system inputs [] := reported_unwritten unwritten
  have count := reported.count
  rw [up, stays, List.countP_nil, Bool.toNat_true] at count
  exact ⟨stays, List.length_eq_zero_iff.mp (by omega)⟩

/-- The word has told of the interrupt, and is written back: the flag goes down, and what is raised in the clock of the
    write stays. -/
theorem reported_toggled {status : BitVec 32} (up : interrupt.flag system = true)
    (one : status.getLsbD interrupt.bit = true) (told : Told interrupt system inputs [status])
    {input : SystemInput} (unwritten : seen isrSeen system inputs = [])
    (written : (after system inputs).control.write input.bus = some (addrIsr, status, 0xf)) :
    Reported interrupt system (inputs ++ [input]) [status] := by
  have waiting : Reported interrupt system inputs [] := reported_unwritten unwritten
  obtain ⟨stays, silent⟩ := flag_stays unwritten up
  have toggled : interrupt.kept (after system inputs) input = false := by rw [kept_written written, stays, one]; rfl
  constructor
  · intro front other rest split clear raised
    rcases clock_cases split with ⟨middle, inside, _⟩ | ⟨middle, rfl, inside⟩
    · exact waiting.real front other middle inside clear raised
    · obtain ⟨rfl, _⟩ | ⟨_, _, impossible⟩ := List.cons_eq_append_iff.mp inside
      · rw [List.append_nil, stays] at clear
        cases clear
      · simp at impossible
  · intro front other rest split raised
    rcases clock_cases split with ⟨middle, rfl, _⟩ | ⟨middle, rfl, inside⟩
    · rw [seen_around, List.append_eq_nil_iff, List.append_eq_nil_iff] at silent
      exact absurd silent.2.1 raised
    · obtain ⟨rfl, inside⟩ | ⟨_, _, impossible⟩ := List.cons_eq_append_iff.mp inside
      · obtain ⟨rfl, _⟩ := List.cons.inj inside
        rw [List.append_nil] at raised
        refine Or.inr ?_
        rw [after_append]
        exact (flag_of_raised raised).2
      · simp at impossible
  · intro _
    have read : Told interrupt system (inputs ++ [input]) ([status] ++ []) := told.before
    exact Or.inl read
  · have count := flag_count interrupt (after system inputs) input
    rw [toggled, Bool.toNat_false, Nat.zero_add] at count
    rw [after_append, seen_append, silent, up, List.countP_singleton, if_pos one, Bool.toNat_true, List.nil_append]
    show 1 + (interrupt.flag (systemClock false (after system inputs) input)).toNat =
      1 + (interrupt.raised (after system inputs) input ++ []).length
    rw [List.append_nil, count]

/-- From the clock of the read on: what is raised up to the write that clears is kept, unless the word tells of it. -/
theorem reported_cleared {status : BitVec 32} (word : status.getLsbD interrupt.bit = interrupt.flag system)
    (told : interrupt.flag system = true → Told interrupt system inputs [status]) {input : SystemInput}
    (unwritten : seen isrSeen system inputs = [])
    (written : (after system inputs).control.write input.bus = some (addrIsr, status, 0xf))
    (remaining : seen isrSeen (systemClock false (after system inputs) input) back = []) :
    Reported interrupt system (inputs ++ input :: back) [status] := by
  have behind : Reported interrupt (after system (inputs ++ [input])) back [] := by
    rw [after_append]
    exact reported_unwritten remaining
  rw [List.append_cons]
  cases bit : status.getLsbD interrupt.bit with
  | true =>
    have up := word.symm.trans bit
    exact (reported_toggled up bit (told up) unwritten written).append behind
  | false =>
    have kept : interrupt.kept (after system inputs) input = interrupt.flag (after system inputs) := by
      rw [kept_written written, bit, Bool.xor_false]
    exact (((reported_unwritten unwritten).append (reported_clock kept)).append behind).word bit

end Reported

section Runs

variable {interrupt : Interrupt} {system : System} {inputs back : List SystemInput}

theorem isrSeen_eq : seen isrSeen system inputs =
    (seen writeSeen system inputs).flatMap fun write => if write.1 = addrIsr then [write] else [] :=
  (observe_flatMap _ system inputs).symm

theorem isrSeen_nil (unwritten : seen writeSeen system inputs = []) : seen isrSeen system inputs = [] := by
  rw [isrSeen_eq, unwritten]
  rfl

variable (settled : Settled system)

include settled

theorem leaves_isr {α : Type} {driver : Driver α} {result : α} (performed : Performs system driver inputs result)
    (leaves : Leaves addrIsr driver) : seen isrSeen system inputs = [] := by
  induction performed with
  | pure quiet noRead => exact isrSeen_nil (quiet_settled settled quiet noRead).2
  | readReg read _ ih =>
    obtain ⟨settled, unwritten, _⟩ := read_settled settled read
    rw [seen_append, isrSeen_nil unwritten, ih settled (leaves _)]
    rfl
  | writeReg write _ ih =>
    obtain ⟨settled, written⟩ := write_settled settled write
    rw [seen_append, isrSeen_eq, written, List.flatMap_cons, if_neg leaves.1, ih settled leaves.2]
    rfl

theorem getStatus_performed {status : BitVec 32}
    (performed : Performs system xLzwEncodeHwInterruptGetStatus inputs status) :
    ∃ before rest, inputs = before ++ rest ∧ seen isrSeen system before = [] ∧
      seen isrSeen (after system before) rest = [] ∧
      (addrIsr, status) ∈ seen readSeen (after system before) rest ∧
      ∀ interrupt : Interrupt, status.getLsbD interrupt.bit = interrupt.flag (after system before) := by
  have steps : Performs system (.readReg addrIsr .pure) inputs status := performed
  obtain ⟨reading, last, register, rfl, read, steps⟩ := steps.readReg_inv
  obtain ⟨quiet, noRead, rfl⟩ := steps.pure_inv
  obtain ⟨before, input, later, split, earlier, unwritten, found, value⟩ := read_clock settled read
  have nothing := (quiet_settled (read_settled settled read).1 quiet noRead).2
  rw [split, after_append] at nothing
  refine ⟨before, input :: later ++ last, by rw [split, List.append_assoc], isrSeen_nil earlier, ?_, ?_, ?_⟩
  · rw [seen_append, isrSeen_nil unwritten, isrSeen_nil nothing]
    rfl
  · refine List.mem_append_left _ ?_
    rw [found]
    exact List.mem_singleton_self _
  · intro interrupt
    rw [value]
    show ((after system before).control.intIsr.setWidth 32).getLsbD interrupt.bit = _
    cases interrupt <;> simp [Interrupt.flag, Interrupt.bit]

theorem clear_performed {mask : BitVec 32} {done : Unit}
    (performed : Performs system (xLzwEncodeHwInterruptClear mask) inputs done) :
    ∃ before input rest, inputs = before ++ input :: rest ∧ seen isrSeen system before = [] ∧
      (after system before).control.write input.bus = some (addrIsr, mask, 0xf) ∧
      seen isrSeen (systemClock false (after system before) input) rest = [] := by
  have steps : Performs system (.writeReg addrIsr mask (.pure ())) inputs done := performed
  obtain ⟨writing, last, rfl, write, steps⟩ := steps.writeReg_inv
  obtain ⟨quiet, noRead, _⟩ := steps.pure_inv
  have nothing := (quiet_settled (write_settled settled write).1 quiet noRead).2
  obtain ⟨before, input, rest, rfl, unwritten, written, _, remaining⟩ := write_clock settled write
  rw [after_around] at nothing
  refine ⟨before, input, rest ++ last, by simp, isrSeen_nil unwritten, written, ?_⟩
  rw [seen_append, isrSeen_nil remaining, isrSeen_nil nothing]
  rfl

theorem round_reported {status : BitVec 32} {done : Unit}
    (asked : Performs system xLzwEncodeHwInterruptGetStatus inputs status)
    (cleared : Performs (after system inputs) (xLzwEncodeHwInterruptClear status) back done) :
    Reported interrupt system (inputs ++ back) [status] := by
  obtain ⟨before, between, rfl, earlier, waiting, read, word⟩ := getStatus_performed settled asked
  obtain ⟨writing, input, rest, rfl, silent, written, remaining⟩ := clear_performed (asked.settled settled) cleared
  rw [after_append] at silent written remaining
  have unwritten : seen isrSeen (after system before) (between ++ writing) = [] := by
    rw [seen_append, waiting, silent]
    rfl
  have told (up : interrupt.flag (after system before) = true) :
      Told interrupt (after system before) (between ++ writing) [status] :=
    ⟨status, List.mem_singleton_self _, by rw [seen_append]; exact List.mem_append_left _ read,
      (word interrupt).trans up⟩
  rw [← after_append] at written remaining
  have cleared := reported_cleared (word interrupt) told unwritten written remaining
  simpa using (reported_unwritten earlier).append cleared

end Runs

/-- Whenever the kernel raises its interrupts and whatever else the driver does: a flag goes up only when the interrupt
    is raised, and each time it is raised while its flag would be clear, a word read later tells of it or the flag is
    up at the end, with one word for each such time. -/
theorem interrupts_reported (interrupt : Interrupt) {programs : List (Driver Unit)}
    (leaves : ∀ program ∈ programs, Leaves addrIsr program) {system : System} (settled : Settled system)
    {inputs : List SystemInput} {statuses : List (BitVec 32)}
    (performed : Performs system (acknowledge programs) inputs statuses) :
    statuses.length = programs.length ∧
      (∀ front input back, inputs = front ++ input :: back → interrupt.flag (after system front) = false →
        interrupt.flag (systemClock false (after system front) input) = true →
        interrupt.raised (after system front) input ≠ []) ∧
      (∀ front input back, inputs = front ++ input :: back → interrupt.raised (after system front) input ≠ [] →
        (∃ status ∈ statuses,
          (addrIsr, status) ∈ seen readSeen (systemClock false (after system front) input) back ∧
            status.getLsbD interrupt.bit = true) ∨ interrupt.flag (after system inputs) = true) ∧
      statuses.countP (·.getLsbD interrupt.bit) + (interrupt.flag (after system inputs)).toNat =
        (interrupt.flag system).toNat + (seen interrupt.raised system inputs).length := by
  have all : statuses.length = programs.length ∧ Reported interrupt system inputs statuses := by
    induction programs generalizing system inputs statuses with
    | nil =>
      obtain ⟨quiet, noRead, rfl⟩ := Performs.pure_inv performed
      exact ⟨rfl, reported_unwritten (isrSeen_nil (quiet_settled settled quiet noRead).2)⟩
    | cons program programs ih =>
      have steps : Performs system (program.bind fun _ => xLzwEncodeHwInterruptGetStatus.bind fun status =>
        (xLzwEncodeHwInterruptClear status).bind fun _ => (acknowledge programs).bind fun rest =>
          .pure (status :: rest)) inputs statuses := performed
      obtain ⟨others, rest, _, rfl, other, steps⟩ := steps.bind_inv
      obtain ⟨asking, rest, status, rfl, asked, steps⟩ := steps.bind_inv
      obtain ⟨clearing, rest, _, rfl, cleared, steps⟩ := steps.bind_inv
      obtain ⟨remaining, last, rests, rfl, later, done⟩ := steps.bind_inv
      obtain ⟨quiet, noRead, rfl⟩ := Performs.pure_inv done
      have unwritten := leaves_isr settled other (leaves program (List.mem_cons_self ..))
      have settled := other.settled settled
      have round : Reported interrupt _ (asking ++ clearing) [status] := round_reported settled asked cleared
      have settled := cleared.settled (asked.settled settled)
      have later := later.quiet_append quiet noRead
      rw [← after_append] at settled later
      obtain ⟨length, reported⟩ := ih (fun other member => leaves other (List.mem_cons_of_mem _ member)) settled later
      refine ⟨congrArg (· + 1) length, ?_⟩
      have whole := (reported_unwritten unwritten).append (round.append reported)
      simpa using whole
  exact ⟨all.1, all.2.real, all.2.told, all.2.count⟩

def somePrograms : List (Driver Unit) :=
  [(xLzwEncodeHwInterruptEnable 1).bind fun _ => xLzwEncodeHwStart, xLzwEncodeHwContinue, .pure ()]

def someClocks : List SystemInput := (perform someStarted (acknowledge somePrograms)).1

theorem someClocks_long : 11 < someClocks.length := by decide +kernel

/-- The first word is read before the kernel is done, and does not tell of it; the second one does. -/
theorem interrupts_reported_run : (perform someStarted (acknowledge somePrograms)).2 = [0, 1, 0] ∧
    ∃ front input back, someClocks = front ++ input :: back ∧
      Interrupt.done.raised (after someStarted front) input ≠ [] ∧
      (∃ status ∈ [0, 1, 0],
        (addrIsr, status) ∈ seen readSeen (systemClock false (after someStarted front) input) back ∧
          status.getLsbD Interrupt.done.bit = true) ∧
      (seen Interrupt.done.raised someStarted someClocks).length = 1 := by
  have leaves : ∀ program ∈ somePrograms, Leaves addrIsr program := by
    simp only [somePrograms, List.forall_mem_cons]
    refine ⟨fun _ => ⟨by decide, fun _ => ⟨by decide, trivial⟩⟩, fun _ => ⟨by decide, trivial⟩, trivial, ?_⟩
    exact List.forall_mem_nil _
  have settled : Settled someStarted := started_settled _ _ _
  have words : (perform someStarted (acknowledge somePrograms)).2 = [0, 1, 0] := by decide +kernel
  have performed := driver_served settled (acknowledge somePrograms)
  rw [words] at performed
  have split : someClocks = someClocks.take 11 ++ someClocks.get ⟨11, someClocks_long⟩ :: someClocks.drop 12 := by
    rw [List.get_eq_getElem, ← List.drop_eq_getElem_cons someClocks_long, List.take_append_drop]
  have raised : Interrupt.done.raised (after someStarted (someClocks.take 11))
      (someClocks.get ⟨11, someClocks_long⟩) ≠ [] := by decide +kernel
  obtain ⟨_, _, told, count⟩ := interrupts_reported .done leaves settled performed
  have down : Interrupt.done.flag (after someStarted someClocks) = false := by decide +kernel
  refine ⟨words, _, _, _, split, raised, (told _ _ _ split raised).resolve_right ?_, ?_⟩
  · show ¬Interrupt.done.flag (after someStarted someClocks) = true
    rw [down]
    exact Bool.false_ne_true
  · have clear : Interrupt.done.flag someStarted = false := by decide +kernel
    have one : [0, 1, 0].countP (fun word : BitVec 32 => word.getLsbD Interrupt.done.bit) = 1 := by decide +kernel
    rw [clear, one, ← someClocks, down] at count
    simpa using count.symm

end DedupProof
