import Mathlib.Algebra.GroupWithZero.Nat
import Mathlib.Data.List.Basic

namespace Network

variable {α σ : Type*}

inductive Action where
  | send
  | deliver (i : Nat)
  | lose (i : Nat)
  | duplicate (i : Nat)

def Action.InOrder : Action → Prop
  | .deliver i => i = 0
  | .duplicate _ => False
  | _ => True

structure State (α σ : Type*) where
  unsent : List α
  inFlight : List α
  delivered : List α
  receiver : σ

def start (sent : List α) (receiver : σ) : State α σ := ⟨sent, [], [], receiver⟩

variable (receive : σ → α → σ) (closed : σ → Bool)

/-- `none` where the action is not possible. A closed receiver takes nothing from the network any more. -/
def step (state : State α σ) : Action → Option (State α σ)
  | .send =>
    match state.unsent with
    | [] => none
    | message :: unsent => some { state with unsent := unsent, inFlight := state.inFlight ++ [message] }
  | .deliver i =>
    if closed state.receiver then none
    else state.inFlight[i]?.map fun message => { state with
      inFlight := state.inFlight.eraseIdx i
      delivered := state.delivered ++ [message]
      receiver := receive state.receiver message }
  | .lose i => state.inFlight[i]?.map fun _ => { state with inFlight := state.inFlight.eraseIdx i }
  | .duplicate i => state.inFlight[i]?.map fun message => { state with inFlight := state.inFlight ++ [message] }

def run (state : State α σ) (actions : List Action) : Option (State α σ) := actions.foldlM (step receive closed) state

variable {receive closed}

/-- What holds in every run: the receiver has taken the delivered messages and was open before each of them. -/
structure Delivers (receive : σ → α → σ) (closed : σ → Bool) (sent : List α) (receiver : σ) (state : State α σ) :
    Prop where
  applied : state.receiver = state.delivered.foldl receive receiver
  opened : ∀ i < state.delivered.length, closed ((state.delivered.take i).foldl receive receiver) = false
  known : ∀ message ∈ state.delivered ++ state.inFlight ++ state.unsent, message ∈ sent

theorem Delivers.start (sent : List α) (receiver : σ) :
    Delivers receive closed sent receiver (Network.start sent receiver) :=
  ⟨rfl, fun _ none => absurd none (Nat.not_lt_zero _), fun _ member => member⟩

theorem Delivers.step {sent : List α} {receiver : σ} {state next : State α σ} {action : Action}
    (delivers : Delivers receive closed sent receiver state)
    (made : Network.step receive closed state action = some next) :
    Delivers receive closed sent receiver next := by
  obtain ⟨applied, opened, known⟩ := delivers
  cases action with
  | send =>
    simp only [Network.step] at made
    split at made
    · cases made
    · rename_i message unsent queued
      obtain rfl := Option.some.inj made
      refine ⟨applied, opened, fun other member => known other ?_⟩
      rw [queued]
      simpa [or_assoc] using member
  | deliver i =>
    simp only [Network.step] at made
    split at made
    · cases made
    · rename_i running
      obtain ⟨message, found, rfl⟩ := Option.map_eq_some_iff.mp made
      refine ⟨?_, ?_, ?_⟩
      · rw [List.foldl_append, ← applied]
        rfl
      · intro j inside
        simp only [List.length_append, List.length_singleton] at inside
        rcases Nat.lt_or_ge j state.delivered.length with earlier | last
        · rw [List.take_append_of_le_length (Nat.le_of_lt earlier)]
          exact opened j earlier
        · obtain rfl : j = state.delivered.length := by omega
          rw [List.take_left, ← applied]
          exact Bool.eq_false_iff.mpr running
      · intro other member
        apply known
        rcases List.mem_append.mp member with seen | unsent
        · rcases List.mem_append.mp seen with delivered | flying
          · rcases List.mem_append.mp delivered with old | new
            · exact List.mem_append_left _ (List.mem_append_left _ old)
            · rw [List.mem_singleton.mp new]
              exact List.mem_append_left _ (List.mem_append_right _ (List.mem_of_getElem? found))
          · exact List.mem_append_left _ (List.mem_append_right _ ((List.eraseIdx_sublist _ i).subset flying))
        · exact List.mem_append_right _ unsent
  | lose i =>
    obtain ⟨message, _, rfl⟩ := Option.map_eq_some_iff.mp made
    refine ⟨applied, opened, fun other member => known other ?_⟩
    exact ((((List.eraseIdx_sublist _ i).append_left _).append_right _).subset member)
  | duplicate i =>
    obtain ⟨message, found, rfl⟩ := Option.map_eq_some_iff.mp made
    refine ⟨applied, opened, fun other member => known other ?_⟩
    have flying := List.mem_of_getElem? found
    simp only [List.mem_append, List.mem_singleton] at member ⊢
    rcases member with (delivered | old | rfl) | unsent
    · exact Or.inl (Or.inl delivered)
    · exact Or.inl (Or.inr old)
    · exact Or.inl (Or.inr flying)
    · exact Or.inr unsent

theorem run_keeps (keeps : State α σ → Prop) {actions : List Action}
    (kept : ∀ action ∈ actions, ∀ before next, keeps before → step receive closed before action = some next →
      keeps next)
    {before after : State α σ} (holds : keeps before) (ran : run receive closed before actions = some after) :
    keeps after := by
  induction actions generalizing before with
  | nil => rwa [← Option.some.inj ran]
  | cons action actions ih =>
    obtain ⟨first, others⟩ := List.forall_mem_cons.mp kept
    obtain ⟨next, made, rest⟩ := Option.bind_eq_some_iff.mp ran
    exact ih others (first before next holds made) rest

theorem run_delivers {sent : List α} {receiver : σ} {actions : List Action} {state : State α σ}
    (ran : run receive closed (start sent receiver) actions = some state) :
    Delivers receive closed sent receiver state :=
  run_keeps _ (fun _ _ _ _ holds made => holds.step made) (.start sent receiver) ran

theorem step_sublist {state next : State α σ} {action : Action} (inOrder : action.InOrder)
    (made : step receive closed state action = some next) :
    (next.delivered ++ next.inFlight ++ next.unsent).Sublist (state.delivered ++ state.inFlight ++ state.unsent) := by
  cases action with
  | send =>
    simp only [step] at made
    split at made
    · cases made
    · rename_i message unsent queued
      obtain rfl := Option.some.inj made
      simp [queued]
  | deliver i =>
    simp only [step] at made
    split at made
    · cases made
    · obtain ⟨message, found, rfl⟩ := Option.map_eq_some_iff.mp made
      obtain rfl : i = 0 := inOrder
      cases flying : state.inFlight with
      | nil =>
        rw [flying] at found
        cases found
      | cons first rest =>
        rw [flying] at found
        obtain rfl : first = message := Option.some.inj found
        simp
  | lose i =>
    obtain ⟨message, _, rfl⟩ := Option.map_eq_some_iff.mp made
    exact ((List.eraseIdx_sublist _ i).append_left _).append_right _
  | duplicate i => exact inOrder.elim

theorem run_sublist {sent : List α} {receiver : σ} {actions : List Action} {state : State α σ}
    (inOrder : ∀ action ∈ actions, action.InOrder)
    (ran : run receive closed (start sent receiver) actions = some state) :
    (state.delivered ++ state.inFlight ++ state.unsent).Sublist sent :=
  run_keeps (fun state => (state.delivered ++ state.inFlight ++ state.unsent).Sublist sent)
    (fun action member _ _ holds made => (step_sublist (inOrder action member) made).trans holds)
    (List.Sublist.refl _) ran

theorem sublist_eq_of_size {size : α → Nat} {kept all : List α} (sublist : kept.Sublist all)
    (positive : ∀ message ∈ all, 0 < size message) (sizes : (all.map size).sum ≤ (kept.map size).sum) :
    kept = all := by
  induction sublist with
  | slnil => rfl
  | @cons kept all message sublist ih =>
    obtain ⟨first, others⟩ := List.forall_mem_cons.mp positive
    rw [List.map_cons, List.sum_cons] at sizes
    obtain rfl := ih others (by omega)
    omega
  | @cons_cons kept all message sublist ih =>
    obtain ⟨_, others⟩ := List.forall_mem_cons.mp positive
    rw [List.map_cons, List.map_cons, List.sum_cons, List.sum_cons] at sizes
    rw [ih others (by omega)]

end Network
