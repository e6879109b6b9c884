import Mathlib.Data.List.Forall2

namespace Loop

variable {α σ : Type*}

theorem invariant {step : σ → Nat → σ} (holds : Nat → σ → Prop) {start count : Nat} {state : σ}
    (entry : holds start state)
    (preserved : ∀ i state, start ≤ i → i < start + count → holds i state → holds (i + 1) (step state i)) :
    holds (start + count) ((List.range' start count).foldl step state) := by
  induction count generalizing start state with
  | zero => exact entry
  | succ count ih =>
    rw [List.range'_succ, List.foldl_cons, show start + (count + 1) = start + 1 + count by omega]
    apply ih
    · exact preserved start state (Nat.le_refl start) (by omega) entry
    · intro i state lower upper
      exact preserved i state (by omega) (by omega)

theorem range_invariant {step : σ → Nat → σ} (holds : Nat → σ → Prop) {count : Nat} {state : σ}
    (entry : holds 0 state)
    (preserved : ∀ i state, i < count → holds i state → holds (i + 1) (step state i)) :
    holds count ((List.range count).foldl step state) := by
  have all : holds (0 + count) ((List.range' 0 count).foldl step state) :=
    invariant holds entry (fun i state _ upper => preserved i state (by omega))
  rwa [Nat.zero_add, ← List.range_eq_range'] at all

/-- Two loops over related lists keep a relation between their states; the first one may fail. -/
theorem foldlM_lockstep {α' σ' : Type*} {step : σ → α → Option σ} {step' : σ' → α' → σ'} {related : σ → σ' → Prop}
    {matched : α → α' → Prop} {list : List α} {list' : List α'} (lists : List.Forall₂ matched list list')
    (preserved : ∀ state state' item item', related state state' → matched item item' →
      ∃ next, step state item = some next ∧ related next (step' state' item'))
    {state : σ} {state' : σ'} (start : related state state') :
    ∃ final, list.foldlM step state = some final ∧ related final (list'.foldl step' state') := by
  induction lists generalizing state state' with
  | nil => exact ⟨state, rfl, start⟩
  | cons first _ ih =>
    obtain ⟨next, made, kept⟩ := preserved _ _ _ _ start first
    obtain ⟨final, ran, last⟩ := ih kept
    refine ⟨final, ?_, last⟩
    rw [List.foldlM_cons, made]
    exact ran

variable [Inhabited α] {size : Nat}

/-- Entry `i` of a sequence is kept at `i % size` until entry `i + size` takes its place; `count` entries
    have been made. -/
def Held (entry : Nat → α) (table : Vector α size) (count : Nat) : Prop :=
  ∀ i < count, count ≤ i + size → table[i % size]! = entry i

variable {entry : Nat → α} {table : Vector α size} {count : Nat}

theorem getElem_setIfInBounds (table : Vector α size) (value : α) {i : Nat} (inside : i < size) (j : Nat) :
    (table.setIfInBounds i value)[j]! = if j = i then value else table[j]! := by
  by_cases bound : j < size
  · rw [getElem!_pos _ j bound, getElem!_pos _ j bound, Vector.getElem_setIfInBounds]
    by_cases same : i = j
    · rw [if_pos same, if_pos same.symm]
    · rw [if_neg same, if_neg (Ne.symm same)]
  · rw [getElem!_neg _ j bound, getElem!_neg _ j bound, if_neg (by omega)]

theorem held_zero : Held entry table 0 := fun i none => absurd none (Nat.not_lt_zero i)

theorem held_set (positive : 0 < size) (held : Held entry table count) :
    Held entry (table.setIfInBounds (count % size) (entry count)) (count + 1) := by
  intro i made kept
  rw [getElem_setIfInBounds table (entry count) (Nat.mod_lt count positive)]
  by_cases last : i = count
  · rw [last, if_pos rfl]
  -- entries less than `size` apart never share a place
  · have apart : i % size ≠ count % size := by
      intro same
      have := Nat.sub_mod_eq_zero_of_mod_eq same.symm
      rw [Nat.mod_eq_of_lt (by omega)] at this
      omega
    rw [if_neg apart]
    exact held i (by omega) (by omega)

theorem Held.get (held : Held entry table count) {i : Nat} (made : i < count) (fits : count ≤ size) :
    table[i]! = entry i := by
  have kept := held i made (by omega)
  rwa [Nat.mod_eq_of_lt (by omega)] at kept

end Loop
