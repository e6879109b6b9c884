import Mathlib.Data.List.Basic

namespace CommandQueue

variable {κ σ : Type*}

/-- `enqueue` reads the arguments of its command and goes on, `waitLast` waits for the command enqueued last,
    `finish` for all of them. -/
inductive Program (κ σ : Type*) where
  | done
  | compute (f : σ → σ) (next : Program κ σ)
  | choose (select : σ → Program κ σ)
  | enqueue (command : σ → κ) (next : Program κ σ)
  | waitLast (next : Program κ σ)
  | finish (next : Program κ σ)

def Program.blocking (command : σ → κ) (next : Program κ σ) : Program κ σ := .enqueue command (.waitLast next)

structure State (κ σ : Type*) where
  program : Program κ σ
  issued : Nat
  pending : List (Nat × κ)
  memory : σ

def start (program : Program κ σ) (memory : σ) : State κ σ := ⟨program, 0, [], memory⟩

inductive Action where
  | host
  | execute (i : Nat)

variable (effect : κ → σ → σ)

/-- `none` where the host has to wait, has nothing left to do, or no such command is pending. -/
def step (state : State κ σ) : Action → Option (State κ σ)
  | .execute i => state.pending[i]?.map fun command => { state with
      pending := state.pending.eraseIdx i
      memory := effect command.2 state.memory }
  | .host =>
    match state.program with
    | .done => none
    | .compute f next => some { state with program := next, memory := f state.memory }
    | .choose select => some { state with program := select state.memory }
    | .enqueue command next => some { state with
        program := next
        issued := state.issued + 1
        pending := state.pending ++ [(state.issued, command state.memory)] }
    | .waitLast next =>
      if state.pending.any (fun command => command.1 + 1 = state.issued) then none
      else some { state with program := next }
    | .finish next => if state.pending.isEmpty then some { state with program := next } else none

def run (state : State κ σ) (actions : List Action) : Option (State κ σ) := actions.foldlM (step effect) state

def inOrder : Program κ σ → σ → σ
  | .done, memory => memory
  | .compute f next, memory => inOrder next (f memory)
  | .choose select, memory => inOrder (select memory) memory
  | .enqueue command next, memory => inOrder next (effect (command memory) memory)
  | .waitLast next, memory => inOrder next memory
  | .finish next, memory => inOrder next memory

def Program.Waits : Program κ σ → Prop
  | .waitLast _ => True
  | .finish _ => True
  | _ => False

/-- Right after it has given a command to the queue, the program waits for it. -/
def Program.Synced : Program κ σ → Prop
  | .done => True
  | .compute _ next => next.Synced
  | .choose select => ∀ memory, (select memory).Synced
  | .enqueue _ next => next.Waits ∧ next.Synced
  | .waitLast next => next.Synced
  | .finish next => next.Synced

/-- Nothing is pending, or one command is and the program waits for it; what is left leads to `result`. -/
inductive Follows (result : σ) : State κ σ → Prop
  | idle {program : Program κ σ} {issued : Nat} {memory : σ} (synced : program.Synced)
      (meaning : inOrder effect program memory = result) : Follows result ⟨program, issued, [], memory⟩
  | busy {program : Program κ σ} {issued : Nat} {memory : σ} {command : κ} (waits : program.Waits)
      (synced : program.Synced) (meaning : inOrder effect program (effect command memory) = result) :
      Follows result ⟨program, issued + 1, [(issued, command)], memory⟩

variable {effect} {result : σ} {state next : State κ σ}

theorem Follows.host (follows : Follows effect result state) (made : step effect state .host = some next) :
    Follows effect result next := by
  cases follows with
  | @idle program issued memory synced meaning =>
    cases program with
    | done => cases made
    | compute f program =>
      obtain rfl := Option.some.inj made
      exact .idle synced meaning
    | choose select =>
      obtain rfl := Option.some.inj made
      exact .idle (synced memory) meaning
    | enqueue command program =>
      obtain rfl := Option.some.inj made
      exact .busy synced.1 synced.2 meaning
    | waitLast program =>
      obtain rfl := Option.some.inj made
      exact .idle synced meaning
    | finish program =>
      obtain rfl := Option.some.inj made
      exact .idle synced meaning
  | @busy program issued memory command waits synced meaning =>
    -- the host cannot go on
    cases program with
    | waitLast program => simp [step] at made
    | finish program => simp [step] at made
    | done => exact waits.elim
    | compute f program => exact waits.elim
    | choose select => exact waits.elim
    | enqueue command program => exact waits.elim

theorem Follows.execute (follows : Follows effect result state) {i : Nat}
    (made : step effect state (.execute i) = some next) : Follows effect result next := by
  cases follows with
  | idle synced meaning => simp [step] at made
  | busy waits synced meaning =>
    cases i with
    | succ i => simp [step] at made
    | zero =>
      obtain rfl := Option.some.inj made
      exact .idle synced meaning

theorem Follows.run (follows : Follows effect result state) {actions : List Action}
    (ran : run effect state actions = some next) : Follows effect result next := by
  induction actions generalizing state with
  | nil => exact Option.some.inj ran ▸ follows
  | cons action actions ih =>
    obtain ⟨middle, made, later⟩ := Option.bind_eq_some_iff.mp ran
    cases action with
    | host => exact ih (follows.host made) later
    | execute i => exact ih (follows.execute made) later

theorem Follows.start {program : Program κ σ} (synced : program.Synced) (memory : σ) :
    Follows effect (inOrder effect program memory) (start program memory) := .idle synced rfl

theorem Follows.finished (follows : Follows effect result state) (done : state.program = .done) :
    state.pending = [] ∧ state.memory = result := by
  cases follows with
  | idle synced meaning =>
    dsimp only at done
    subst done
    exact ⟨rfl, meaning⟩
  | busy waits synced meaning =>
    dsimp only at done
    subst done
    exact waits.elim

theorem Follows.progress (follows : Follows effect result state) :
    state.program = .done ∨ ∃ action next, step effect state action = some next := by
  cases follows with
  | busy waits synced meaning => exact Or.inr ⟨.execute 0, _, rfl⟩
  | @idle program issued memory synced meaning =>
    cases program with
    | done => exact Or.inl rfl
    | compute f program => exact Or.inr ⟨.host, _, rfl⟩
    | choose select => exact Or.inr ⟨.host, _, rfl⟩
    | enqueue command program => exact Or.inr ⟨.host, _, rfl⟩
    | waitLast program => exact Or.inr ⟨.host, _, rfl⟩
    | finish program => exact Or.inr ⟨.host, _, rfl⟩

theorem step_terminates (effect : κ → σ → σ) (state : State κ σ) :
    Acc (fun next state => ∃ action, step effect state action = some next) state := by
  obtain ⟨program, issued, pending, memory⟩ := state
  have device {program : Program κ σ}
      (host : ∀ issued pending memory next, step effect ⟨program, issued, pending, memory⟩ .host = some next →
        Acc (fun next state => ∃ action, step effect state action = some next) next) (count : Nat) :
      ∀ issued pending memory, pending.length = count →
        Acc (fun next state => ∃ action, step effect state action = some next)
          ⟨program, issued, pending, memory⟩ := by
    induction count with
    | zero =>
      intro issued pending memory none
      obtain rfl := List.eq_nil_of_length_eq_zero none
      refine Acc.intro _ fun next made => ?_
      obtain ⟨action, made⟩ := made
      cases action with
      | host => exact host _ _ _ next made
      | execute i => simp [step] at made
    | succ count ih =>
      intro issued pending memory size
      refine Acc.intro _ fun next made => ?_
      obtain ⟨action, made⟩ := made
      cases action with
      | host => exact host _ _ _ next made
      | execute i =>
        obtain ⟨command, found, rfl⟩ := Option.map_eq_some_iff.mp made
        have inside := (List.getElem?_eq_some_iff.mp found).1
        apply ih
        dsimp only at inside ⊢
        rw [List.length_eraseIdx_of_lt inside, size]
        rfl
  induction program generalizing issued pending memory with
  | done => exact device (fun _ _ _ _ made => by cases made) _ _ _ _ rfl
  | compute f program ih =>
    refine device (fun issued pending memory next made => ?_) _ _ _ _ rfl
    obtain rfl := Option.some.inj made
    exact ih _ _ _
  | choose select ih =>
    refine device (fun issued pending memory next made => ?_) _ _ _ _ rfl
    obtain rfl := Option.some.inj made
    exact ih _ _ _ _
  | enqueue command program ih =>
    refine device (fun issued pending memory next made => ?_) _ _ _ _ rfl
    obtain rfl := Option.some.inj made
    exact ih _ _ _
  | waitLast program ih =>
    refine device (fun issued pending memory next made => ?_) _ _ _ _ rfl
    simp only [step] at made
    split at made
    · cases made
    · obtain rfl := Option.some.inj made
      exact ih _ _ _
  | finish program ih =>
    refine device (fun issued pending memory next made => ?_) _ _ _ _ rfl
    simp only [step] at made
    split at made
    · obtain rfl := Option.some.inj made
      exact ih _ _ _
    · cases made

theorem Follows.completes (follows : Follows effect result state) :
    ∃ actions final, CommandQueue.run effect state actions = some final ∧ final.program = .done := by
  induction step_terminates effect state with
  | intro state _ ih =>
    rcases follows.progress with done | ⟨action, next, made⟩
    · exact ⟨[], state, rfl, done⟩
    · have single : CommandQueue.run effect state [action] = some next := by
        rw [CommandQueue.run, List.foldlM_cons, made]
        rfl
      obtain ⟨actions, final, ran, done⟩ := ih next ⟨action, made⟩ (follows.run single)
      refine ⟨action :: actions, final, ?_, done⟩
      rw [CommandQueue.run, List.foldlM_cons, made]
      exact ran

end CommandQueue
