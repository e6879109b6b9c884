import Mathlib.Data.List.Basic

namespace Clocked

variable {σ ι β γ δ : Type*}

def run (clock : σ → ι → σ) (state : σ) (inputs : List ι) : σ := inputs.foldl clock state

/-- What `see` shows in the clocks of a run, in order. -/
def observe (clock : σ → ι → σ) (see : σ → ι → List β) : σ → List ι → List β
  | _, [] => []
  | state, input :: inputs => see state input ++ observe clock see (clock state input) inputs

variable {clock : σ → ι → σ} {see : σ → ι → List β}

theorem run_append (state : σ) (inputs more : List ι) :
    run clock state (inputs ++ more) = run clock (run clock state inputs) more := List.foldl_append

theorem observe_append (state : σ) (inputs more : List ι) :
    observe clock see state (inputs ++ more) =
      observe clock see state inputs ++ observe clock see (run clock state inputs) more := by
  induction inputs generalizing state with
  | nil => rfl
  | cons input inputs ih =>
    rw [List.cons_append, observe, ih, observe, List.append_assoc]
    rfl

theorem observe_flatMap (meaning : β → List δ) (state : σ) (inputs : List ι) :
    (observe clock see state inputs).flatMap meaning =
      observe clock (fun state input => (see state input).flatMap meaning) state inputs := by
  induction inputs generalizing state with
  | nil => rfl
  | cons input inputs ih => rw [observe, observe, List.flatMap_append, ih]

theorem observe_map (f : β → δ) (state : σ) (inputs : List ι) :
    (observe clock see state inputs).map f =
      observe clock (fun state input => (see state input).map f) state inputs := by
  induction inputs generalizing state with
  | nil => rfl
  | cons input inputs ih => rw [observe, observe, List.map_append, ih]

section While

variable {invariant : σ → Prop}

theorem run_invariant_while
    (kept : ∀ state input, see state input = [] → invariant state → invariant (clock state input))
    {state : σ} (inv : invariant state) {inputs : List ι} (nothing : observe clock see state inputs = []) :
    invariant (run clock state inputs) := by
  induction inputs generalizing state with
  | nil => exact inv
  | cons input inputs ih =>
    obtain ⟨now, later⟩ := List.append_eq_nil_iff.mp nothing
    exact ih (kept state input now inv) later

theorem conserved_while (kept : ∀ state input, see state input = [] → invariant state → invariant (clock state input))
    {give : σ → ι → List δ} {content : σ → List δ}
    (step : ∀ state input, see state input = [] → invariant state →
      content state = give state input ++ content (clock state input)) {state : σ}
    (inv : invariant state) {inputs : List ι} (nothing : observe clock see state inputs = []) :
    content state = observe clock give state inputs ++ content (run clock state inputs) := by
  induction inputs generalizing state with
  | nil => rfl
  | cons input inputs ih =>
    obtain ⟨now, later⟩ := List.append_eq_nil_iff.mp nothing
    rw [step state input now inv, ih (kept state input now inv) later, ← List.append_assoc]
    rfl

theorem count_le_while (kept : ∀ state input, see state input = [] → invariant state → invariant (clock state input))
    {one : σ → ι → List δ} {two : σ → ι → List γ} {potential : σ → Nat}
    (step : ∀ state input, see state input = [] → invariant state →
      (one state input).length + potential (clock state input) ≤ (two state input).length + potential state)
    {state : σ} (inv : invariant state) {inputs : List ι} (nothing : observe clock see state inputs = []) :
    (observe clock one state inputs).length + potential (run clock state inputs) ≤
      (observe clock two state inputs).length + potential state := by
  induction inputs generalizing state with
  | nil => exact Nat.le_refl _
  | cons input inputs ih =>
    obtain ⟨now, later⟩ := List.append_eq_nil_iff.mp nothing
    have here := step state input now inv
    have rest : (observe clock one (clock state input) inputs).length +
        potential (run clock state (input :: inputs)) ≤
          (observe clock two (clock state input) inputs).length + potential (clock state input) :=
      ih (kept state input now inv) later
    rw [observe, observe, List.length_append, List.length_append]
    omega

end While

section Invariant

variable {invariant : σ → Prop} (kept : ∀ state input, invariant state → invariant (clock state input))

include kept

theorem run_invariant {state : σ} (inv : invariant state) (inputs : List ι) : invariant (run clock state inputs) := by
  induction inputs generalizing state with
  | nil => exact inv
  | cons input inputs ih => exact ih (kept state input inv)

/-- If in each clock what is taken behind the content is what is given and the new content behind it, then so it is
    in a run. -/
theorem conserved {take give : σ → ι → List β} {content : σ → List β}
    (step : ∀ state input, invariant state →
      content state ++ take state input = give state input ++ content (clock state input)) {state : σ}
    (inv : invariant state) (inputs : List ι) :
    content state ++ observe clock take state inputs =
      observe clock give state inputs ++ content (run clock state inputs) := by
  induction inputs generalizing state with
  | nil => exact List.append_nil _
  | cons input inputs ih =>
    show content state ++ (take state input ++ observe clock take (clock state input) inputs) =
      give state input ++ observe clock give (clock state input) inputs ++
        content (run clock (clock state input) inputs)
    rw [← List.append_assoc, step state input inv, List.append_assoc, ih (kept state input inv), List.append_assoc]

theorem tracked (value : σ → δ) (apply : δ → β → δ)
    (step : ∀ state input, invariant state →
      value (clock state input) = (see state input).foldl apply (value state)) {state : σ} (inv : invariant state)
    (inputs : List ι) :
    value (run clock state inputs) = (observe clock see state inputs).foldl apply (value state) := by
  induction inputs generalizing state with
  | nil => rfl
  | cons input inputs ih =>
    show value (run clock (clock state input) inputs) =
      (see state input ++ observe clock see (clock state input) inputs).foldl apply (value state)
    rw [ih (kept state input inv), step state input inv, List.foldl_append]

end Invariant

theorem observe_single {state : σ} {inputs : List ι} {item : β}
    (single : ∀ state input, (see state input).length ≤ 1) (seen : observe clock see state inputs = [item]) :
    ∃ before input after, inputs = before ++ input :: after ∧ observe clock see state before = [] ∧
      see (run clock state before) input = [item] ∧
      observe clock see (clock (run clock state before) input) after = [] := by
  induction inputs generalizing state with
  | nil => cases seen
  | cons input inputs ih =>
    rw [observe] at seen
    have short := single state input
    cases now : see state input with
    | nil =>
      rw [now, List.nil_append] at seen
      obtain ⟨before, at_, after, rfl, none, found, rest⟩ := ih seen
      exact ⟨input :: before, at_, after, rfl, by rw [observe, now, none, List.nil_append], found, rest⟩
    | cons first others =>
      rw [now] at seen short
      have alone : others = [] := List.length_eq_zero_iff.mp (by rw [List.length_cons] at short; omega)
      rw [alone, List.singleton_append] at seen
      obtain ⟨rfl, rest⟩ := List.cons.inj seen
      exact ⟨[], input, inputs, rfl, rfl, by rw [← alone]; exact now, rest⟩

end Clocked
