import DedupPipeline.Library.Clocked

namespace Channel

variable {σ τ α β γ : Type*}

structure Component (σ α β : Type*) where
  ready : σ → Bool
  offer : σ → Option β
  clock : σ → Option α → Bool → σ

structure Input (α : Type*) where
  item : Option α
  taking : Bool

namespace Component

variable (component : Component σ α β)

def accepted (state : σ) (item : Option α) : Option α := if component.ready state then item else none

def delivered (state : σ) (taking : Bool) : Option β := if taking then component.offer state else none

def step (state : σ) (input : Input α) : σ := component.clock state input.item input.taking

def run : σ → List (Input α) → σ := Clocked.run component.step

def acceptedAll : σ → List (Input α) → List α :=
  Clocked.observe component.step fun state input => (component.accepted state input.item).toList

def deliveredAll : σ → List (Input α) → List β :=
  Clocked.observe component.step fun state input => (component.delivered state input.taking).toList

theorem deliveredAll_append (state : σ) (inputs more : List (Input α)) :
    component.deliveredAll state (inputs ++ more) =
      component.deliveredAll state inputs ++ component.deliveredAll (component.run state inputs) more :=
  Clocked.observe_append state inputs more

def series (first : Component σ α β) (second : Component τ β γ) : Component (σ × τ) α γ where
  ready := fun state => first.ready state.1
  offer := fun state => second.offer state.2
  clock := fun state item taking =>
    (first.clock state.1 item (second.ready state.2), second.clock state.2 (first.offer state.1) taking)

end Component

/-- The component gives the `meaning` of what it takes, in this order. `content` is what it still has to give. -/
structure Carries (component : Component σ α β) (meaning : α → List β) (invariant : σ → Prop)
    (content : σ → List β) : Prop where
  kept : ∀ state item taking, invariant state → invariant (component.clock state item taking)
  conserved : ∀ state item taking, invariant state →
    content state ++ (component.accepted state item).toList.flatMap meaning =
      (component.delivered state taking).toList ++ content (component.clock state item taking)

abbrev Queues (component : Component σ α α) (invariant : σ → Prop) (content : σ → List α) : Prop :=
  Carries component List.singleton invariant content

theorem flatMap_singleton_eq (items : List α) : items.flatMap List.singleton = items := by
  induction items with
  | nil => rfl
  | cons item items ih => exact congrArg (item :: ·) ih

section Run

variable {component : Component σ α β} {meaning : α → List β} {invariant : σ → Prop} {content : σ → List β}

theorem Carries.run (carries : Carries component meaning invariant content) {state : σ} (inv : invariant state)
    (inputs : List (Input α)) :
    invariant (component.run state inputs) ∧
      content state ++ (component.acceptedAll state inputs).flatMap meaning =
        component.deliveredAll state inputs ++ content (component.run state inputs) := by
  have kept (state : σ) (input : Input α) (inv : invariant state) : invariant (component.step state input) :=
    carries.kept state input.item input.taking inv
  refine ⟨Clocked.run_invariant kept inv inputs, ?_⟩
  rw [Component.acceptedAll, Clocked.observe_flatMap]
  exact Clocked.conserved kept (fun state input inv => carries.conserved state input.item input.taking inv) inv inputs

theorem Carries.run_empty (carries : Carries component meaning invariant content) {state : σ} (inv : invariant state)
    (empty : content state = []) (inputs : List (Input α)) :
    (component.acceptedAll state inputs).flatMap meaning =
      component.deliveredAll state inputs ++ content (component.run state inputs) := by
  have all := (carries.run inv inputs).2
  rwa [empty, List.nil_append] at all

end Run

theorem Queues.run_empty {component : Component σ α α} {invariant : σ → Prop} {content : σ → List α}
    (queues : Queues component invariant content) {state : σ} (inv : invariant state) (empty : content state = [])
    (inputs : List (Input α)) :
    component.acceptedAll state inputs =
      component.deliveredAll state inputs ++ content (component.run state inputs) := by
  have all := Carries.run_empty queues inv empty inputs
  rwa [flatMap_singleton_eq] at all

theorem Carries.series {first : Component σ α β} {second : Component τ β γ} {before : α → List β}
    {behind : β → List γ} {firstInv : σ → Prop} {secondInv : τ → Prop} {firstContent : σ → List β}
    {secondContent : τ → List γ} (one : Carries first before firstInv firstContent)
    (two : Carries second behind secondInv secondContent) :
    Carries (first.series second) (fun item => (before item).flatMap behind)
      (fun state => firstInv state.1 ∧ secondInv state.2)
      (fun state => secondContent state.2 ++ (firstContent state.1).flatMap behind) where
  kept := fun state item taking inv =>
    ⟨one.kept state.1 item (second.ready state.2) inv.1, two.kept state.2 (first.offer state.1) taking inv.2⟩
  conserved := by
    rintro ⟨state, later⟩ item taking ⟨inv, laterInv⟩
    have source := one.conserved state item (second.ready later) inv
    have target := two.conserved later (first.offer state) taking laterInv
    -- what the first one gives is what the second one takes
    have handed : second.accepted later (first.offer state) = first.delivered state (second.ready later) := rfl
    have moved : (firstContent state).flatMap behind ++
        ((first.accepted state item).toList.flatMap before).flatMap behind =
        (first.delivered state (second.ready later)).toList.flatMap behind ++
          (firstContent (first.clock state item (second.ready later))).flatMap behind := by
      rw [← List.flatMap_append, ← List.flatMap_append, source]
    rw [handed] at target
    show secondContent later ++ (firstContent state).flatMap behind ++
        (first.accepted state item).toList.flatMap (fun item => (before item).flatMap behind) =
      (second.delivered later taking).toList ++
        (secondContent (second.clock later (first.offer state) taking) ++
          (firstContent (first.clock state item (second.ready later))).flatMap behind)
    rw [← List.flatMap_assoc, List.append_assoc, moved, ← List.append_assoc, target, List.append_assoc]

theorem Queues.series {first : Component σ α α} {second : Component τ α α} {firstInv : σ → Prop}
    {secondInv : τ → Prop} {firstContent : σ → List α} {secondContent : τ → List α}
    (one : Queues first firstInv firstContent) (two : Queues second secondInv secondContent) :
    Queues (first.series second) (fun state => firstInv state.1 ∧ secondInv state.2)
      (fun state => secondContent state.2 ++ firstContent state.1) := by
  have both := Carries.series one two
  simp only [flatMap_singleton_eq] at both
  exact both

def draining (α : Type*) (clocks : Nat) : List (Input α) := List.replicate clocks ⟨none, true⟩

/-- `size` bounds the clocks in which the component gives all it has. An item that it takes adds at most `cost`. -/
structure Drains (component : Component σ α β) (invariant : σ → Prop) (content : σ → List β) (size : σ → Nat)
    (cost : Nat) : Prop where
  idle : ∀ state item taking, invariant state → component.accepted state item = none →
    size (component.clock state item taking) ≤ size state
  taken : ∀ state item, invariant state → content state ≠ [] → component.accepted state item = none →
    size (component.clock state item true) < size state
  fed : ∀ state item taking, invariant state → size (component.clock state item taking) ≤ size state + cost

section Drain

variable {component : Component σ α β} {meaning : α → List β} {invariant : σ → Prop} {content : σ → List β}

theorem accepted_none (state : σ) : component.accepted state none = none := by
  unfold Component.accepted
  split <;> rfl

theorem acceptedAll_draining (state : σ) (clocks : Nat) :
    component.acceptedAll state (draining α clocks) = [] := by
  induction clocks generalizing state with
  | zero => rfl
  | succ clocks ih =>
    show (component.accepted state none).toList ++ component.acceptedAll _ (draining α clocks) = []
    rw [accepted_none, ih]
    rfl

theorem Carries.draining_eq (carries : Carries component meaning invariant content) {state : σ}
    (inv : invariant state) (clocks : Nat) : content state = component.deliveredAll state (draining α clocks) ++
      content (component.run state (draining α clocks)) := by
  have all := (carries.run inv (draining α clocks)).2
  rwa [acceptedAll_draining, List.flatMap_nil, List.append_nil] at all

theorem Carries.drained (carries : Carries component meaning invariant content) {size : σ → Nat} {cost : Nat}
    (drains : Drains component invariant content size cost) {state : σ} (inv : invariant state) {clocks : Nat}
    (enough : size state ≤ clocks) : content (component.run state (draining α clocks)) = [] := by
  induction clocks generalizing state with
  | zero =>
    by_contra some
    have less := drains.taken state none inv some (accepted_none state)
    omega
  | succ clocks ih =>
    by_cases empty : content state = []
    · have all := carries.draining_eq inv (clocks + 1)
      rw [empty] at all
      exact (List.append_eq_nil_iff.mp all.symm).2
    · have less := drains.taken state none inv empty (accepted_none state)
      exact ih (carries.kept state none true inv) (Nat.le_of_lt_succ (Nat.lt_of_lt_of_le less enough))

theorem Carries.deliveredAll_drained (carries : Carries component meaning invariant content) {size : σ → Nat}
    {cost bound : Nat} (drains : Drains component invariant content size cost)
    (bounded : ∀ state, invariant state → size state ≤ bound) {state : σ} (inv : invariant state)
    (empty : content state = []) (inputs : List (Input α)) {clocks : Nat} (enough : bound ≤ clocks) :
    component.deliveredAll state (inputs ++ draining α clocks) =
      (component.acceptedAll state inputs).flatMap meaning := by
  have after := (carries.run inv inputs).1
  have rest := carries.draining_eq after clocks
  rw [carries.drained drains after (Nat.le_trans (bounded _ after) enough), List.append_nil] at rest
  rw [component.deliveredAll_append, ← rest, carries.run_empty inv empty]

end Drain

theorem Queues.deliveredAll_drained {component : Component σ α α} {invariant : σ → Prop} {content : σ → List α}
    (queues : Queues component invariant content) {size : σ → Nat} {cost bound : Nat}
    (drains : Drains component invariant content size cost)
    (bounded : ∀ state, invariant state → size state ≤ bound) {state : σ} (inv : invariant state)
    (empty : content state = []) (inputs : List (Input α)) {clocks : Nat} (enough : bound ≤ clocks) :
    component.deliveredAll state (inputs ++ draining α clocks) = component.acceptedAll state inputs := by
  have all := Carries.deliveredAll_drained queues drains bounded inv empty inputs enough
  rwa [flatMap_singleton_eq] at all

theorem Carries.offer_none {component : Component σ α β} {meaning : α → List β} {invariant : σ → Prop}
    {content : σ → List β} (carries : Carries component meaning invariant content) {state : σ} (inv : invariant state)
    (empty : content state = []) : component.offer state = none := by
  have all := carries.conserved state none true inv
  rw [empty, accepted_none, Option.toList_none, List.flatMap_nil, List.append_nil] at all
  exact Option.toList_eq_nil_iff.mp (List.append_eq_nil_iff.mp all.symm).1

section Series

variable {first : Component σ α β} {second : Component τ β γ} {before : α → List β} {behind : β → List γ}
  {firstInv : σ → Prop} {secondInv : τ → Prop} {firstContent : σ → List β} {secondContent : τ → List γ}
  {firstSize : σ → Nat} {secondSize : τ → Nat} {firstCost secondCost : Nat}
  (carries : Carries first before firstInv firstContent)
  (one : Drains first firstInv firstContent firstSize firstCost)
  (two : Drains second secondInv secondContent secondSize secondCost) {state : σ} {later : τ} (inv : firstInv state)
  (laterInv : secondInv later) {item : α} (taking : Bool)

include carries one two inv laterInv

theorem Drains.handed {item : Option α} (idle : first.accepted state item = none) :
    (secondCost + 1) * firstSize (first.clock state item (second.ready later)) +
        secondSize (second.clock later (first.offer state) taking) ≤
      (secondCost + 1) * firstSize state + secondSize later ∧
    ((second.ready later = true ∧ firstContent state ≠ []) ∨ (taking = true ∧ secondContent later ≠ []) →
      (secondCost + 1) * firstSize (first.clock state item (second.ready later)) +
          secondSize (second.clock later (first.offer state) taking) <
        (secondCost + 1) * firstSize state + secondSize later) := by
  have less := one.idle state item (second.ready later) inv idle
  have scaled := Nat.mul_le_mul_left (secondCost + 1) less
  by_cases moving : second.ready later = true ∧ firstContent state ≠ []
  · obtain ⟨ready, some⟩ := moving
    have smaller := one.taken state item inv some idle
    have added := two.fed later (first.offer state) taking laterInv
    rw [ready]
    have scaled := Nat.mul_le_mul_left (secondCost + 1) (Nat.succ_le_of_lt smaller)
    rw [Nat.mul_succ] at scaled
    omega
  · have nothing : second.accepted later (first.offer state) = none := by
      unfold Component.accepted
      split
      · rename_i ready
        exact carries.offer_none inv (by simpa [ready] using moving)
      · rfl
    have rest := two.idle later (first.offer state) taking laterInv nothing
    refine ⟨by omega, ?_⟩
    rintro (front | ⟨rfl, some⟩)
    · exact absurd front moving
    · have smaller := two.taken later (first.offer state) laterInv some nothing
      omega

end Series

theorem Drains.series {first : Component σ α β} {second : Component τ β γ} {before : α → List β}
    {behind : β → List γ} {firstInv : σ → Prop} {secondInv : τ → Prop} {firstContent : σ → List β}
    {secondContent : τ → List γ} {firstSize : σ → Nat} {secondSize : τ → Nat} {firstCost secondCost : Nat}
    (carries : Carries first before firstInv firstContent)
    (one : Drains first firstInv firstContent firstSize firstCost)
    (two : Drains second secondInv secondContent secondSize secondCost)
    (full : ∀ state, secondInv state → second.ready state = false → secondContent state ≠ []) :
    Drains (first.series second) (fun state => firstInv state.1 ∧ secondInv state.2)
      (fun state => secondContent state.2 ++ (firstContent state.1).flatMap behind)
      (fun state => (secondCost + 1) * firstSize state.1 + secondSize state.2)
      ((secondCost + 1) * firstCost + secondCost) where
  idle := fun state _ taking inv idle => (Drains.handed carries one two inv.1 inv.2 taking idle).1
  taken := by
    rintro ⟨state, later⟩ item ⟨inv, laterInv⟩ some idle
    refine (Drains.handed carries one two inv laterInv true idle).2 ?_
    by_cases empty : secondContent later = []
    · rcases Bool.eq_false_or_eq_true (second.ready later) with ready | ready
      · refine Or.inl ⟨ready, fun none => some ?_⟩
        show secondContent later ++ (firstContent state).flatMap behind = []
        rw [empty, none]
        rfl
      · exact absurd empty (full later laterInv ready)
    · exact Or.inr ⟨rfl, empty⟩
  fed := by
    rintro ⟨state, later⟩ item taking ⟨inv, laterInv⟩
    have added := Nat.mul_le_mul_left (secondCost + 1) (one.fed state item (second.ready later) inv)
    have behind := two.fed later (first.offer state) taking laterInv
    rw [Nat.mul_add] at added
    show (secondCost + 1) * firstSize (first.clock state item (second.ready later)) +
      secondSize (second.clock later (first.offer state) taking) ≤ (secondCost + 1) * firstSize state +
        secondSize later + ((secondCost + 1) * firstCost + secondCost)
    omega

theorem Queues.series_drains {first : Component σ α α} {second : Component τ α α} {firstInv : σ → Prop}
    {secondInv : τ → Prop} {firstContent : σ → List α} {secondContent : τ → List α} {firstSize : σ → Nat}
    {secondSize : τ → Nat} {firstCost secondCost : Nat} (queues : Queues first firstInv firstContent)
    (one : Drains first firstInv firstContent firstSize firstCost)
    (two : Drains second secondInv secondContent secondSize secondCost)
    (full : ∀ state, secondInv state → second.ready state = false → secondContent state ≠ []) :
    Drains (first.series second) (fun state => firstInv state.1 ∧ secondInv state.2)
      (fun state => secondContent state.2 ++ firstContent state.1)
      (fun state => (secondCost + 1) * firstSize state.1 + secondSize state.2)
      ((secondCost + 1) * firstCost + secondCost) := by
  have both : Drains (first.series second) (fun state => firstInv state.1 ∧ secondInv state.2)
      (fun state => secondContent state.2 ++ (firstContent state.1).flatMap List.singleton)
      (fun state => (secondCost + 1) * firstSize state.1 + secondSize state.2)
      ((secondCost + 1) * firstCost + secondCost) := Drains.series queues one two full
  simp only [flatMap_singleton_eq] at both
  exact both

end Channel
