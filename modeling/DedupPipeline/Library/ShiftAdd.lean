import Mathlib.Data.Nat.Bitwise

namespace ShiftAdd

variable (width : Nat)

def update (hash addend : Nat) : Nat := (hash / 2 + addend) % 2 ^ width

def wraps : Nat → List Nat → List Nat
  | _, [] => []
  | hash, addend :: addends => (hash / 2 + addend) / 2 ^ width :: wraps (update width hash addend) addends

/-- What wrapping has taken from the hash at the end; every later step has halved it. -/
def lost : List Nat → Nat
  | [] => 0
  | times :: wraps => times * 2 ^ (width - wraps.length) + lost wraps

/-- The addends, each as heavy as the halvings behind it leave it, on the scale of the first hash. -/
def weigh : List Nat → Nat
  | [] => 0
  | addend :: addends => 2 * (addend + weigh addends)

theorem length_wraps (hash : Nat) (addends : List Nat) : (wraps width hash addends).length = addends.length := by
  induction addends generalizing hash with
  | nil => rfl
  | cons addend addends ih => rw [wraps, List.length_cons, List.length_cons, ih]

theorem foldl_add_lost (hash : Nat) (addends : List Nat) (fits : addends.length ≤ width) :
    addends.foldl (update width) hash + lost width (wraps width hash addends) =
      (hash + weigh addends) / 2 ^ addends.length := by
  induction addends generalizing hash with
  | nil => simp [wraps, lost, weigh]
  | cons addend addends ih =>
    rw [List.length_cons] at fits
    have scale : 2 ^ width = 2 ^ (width - addends.length) * 2 ^ addends.length := by
      rw [← Nat.pow_add, Nat.sub_add_cancel (by omega)]
    have parts : update width hash addend + (hash / 2 + addend) / 2 ^ width * 2 ^ width = hash / 2 + addend := by
      rw [update, Nat.mul_comm, Nat.mod_add_div]
    have halved : (hash + 2 * (addend + weigh addends)) / 2 = hash / 2 + addend + weigh addends := by omega
    rw [List.foldl_cons, wraps, lost, length_wraps]
    generalize (hash / 2 + addend) / 2 ^ width = times at parts
    calc
      _ = addends.foldl (update width) (update width hash addend) +
            lost width (wraps width (update width hash addend) addends) + times * 2 ^ (width - addends.length) := by
        omega
      _ = (update width hash addend + weigh addends) / 2 ^ addends.length +
            times * 2 ^ (width - addends.length) := by rw [ih _ (by omega)]
      _ = (update width hash addend + weigh addends + times * 2 ^ width) / 2 ^ addends.length := by
        rw [scale, ← Nat.mul_assoc, Nat.add_mul_div_right _ _ (Nat.two_pow_pos _)]
      _ = (hash / 2 + addend + weigh addends) / 2 ^ addends.length := by rw [← parts, Nat.add_right_comm]
      _ = (hash + weigh (addend :: addends)) / 2 ^ (addend :: addends).length := by
        rw [weigh, List.length_cons, Nat.pow_succ', ← Nat.div_div_eq_div_mul, halved]

theorem dvd_lost {low : Nat} {wraps : List Nat} (fits : wraps.length ≤ width)
    (high : low ≤ width - wraps.length + 1) : 2 ^ low ∣ lost width wraps := by
  induction wraps with
  | nil => exact Nat.dvd_zero _
  | cons times wraps ih =>
    rw [List.length_cons] at fits high
    have weight : 2 ^ low ∣ 2 ^ (width - wraps.length) := Nat.pow_dvd_pow 2 (by omega)
    exact Nat.dvd_add (weight.mul_left times) (ih (by omega) (by omega))

theorem lost_mod {low count : Nat} {left right : List Nat} (lengths : left.length = right.length)
    (fits : left.length ≤ width) (high : low ≤ width - left.length + count + 1)
    (same : left.take count = right.take count) : lost width left % 2 ^ low = lost width right % 2 ^ low := by
  induction count generalizing left right with
  | zero =>
    rw [Nat.mod_eq_zero_of_dvd (dvd_lost width fits high),
      Nat.mod_eq_zero_of_dvd (dvd_lost width (lengths ▸ fits) (lengths ▸ high))]
  | succ count ih =>
    cases left with
    | nil => rw [List.length_eq_zero_iff.mp lengths.symm]
    | cons first left =>
      cases right with
      | nil => cases lengths
      | cons second right =>
        obtain ⟨rfl, tails⟩ := List.cons.inj same
        have lengths := Nat.succ.inj lengths
        rw [List.length_cons] at fits high
        have rest := ih lengths (by omega) (by omega) tails
        rw [lost, lost, lengths, Nat.add_mod, rest, ← Nat.add_mod]

theorem forgets {left : Nat} (right : Nat) {addends : List Nat} (word : left < 2 ^ width)
    (size : addends.length = width) :
    addends.foldl (update width) left + lost width (wraps width left addends) ≤
      addends.foldl (update width) right + lost width (wraps width right addends) + 1 := by
  have fits := Nat.le_of_eq size
  rw [foldl_add_lost width left addends fits, foldl_add_lost width right addends fits, size]
  calc
    (left + weigh addends) / 2 ^ width ≤ (right + weigh addends + 2 ^ width) / 2 ^ width :=
      Nat.div_le_div_right (by omega)
    _ = (right + weigh addends) / 2 ^ width + 1 := Nat.add_div_right _ (Nat.two_pow_pos width)

end ShiftAdd
