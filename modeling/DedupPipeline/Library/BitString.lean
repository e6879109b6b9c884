import Mathlib.Data.List.Induction
import Mathlib.Data.Nat.Bitwise
import Mathlib.Tactic.Ring

namespace BitString

/-- The low `width` bits of a number, most significant bit first. -/
def bits : Nat → Nat → List Bool
  | 0, _ => []
  | width + 1, number => number.testBit width :: bits width number

def value (string : List Bool) : Nat :=
  string.foldl (fun number bit => 2 * number + bit.toNat) 0

def ofBytes (bytes : List UInt8) : List Bool :=
  bytes.flatMap fun byte => bits 8 byte.toNat

@[simp] theorem bits_zero (number : Nat) : bits 0 number = [] := rfl

theorem bits_succ (width number : Nat) :
    bits (width + 1) number = number.testBit width :: bits width number := rfl

@[simp] theorem length_bits (width number : Nat) : (bits width number).length = width := by
  induction width with
  | zero => rfl
  | succ width ih => rw [bits_succ, List.length_cons, ih]

theorem or_shiftLeft {low : Nat} (high : Nat) {width : Nat} (small : low < 2 ^ width) :
    low ||| high <<< width = high * 2 ^ width + low := by
  rw [Nat.or_comm, ← Nat.shiftLeft_add_eq_or_of_lt small, Nat.shiftLeft_eq]

theorem bits_congr (width : Nat) {left right : Nat}
    (same : ∀ i < width, left.testBit i = right.testBit i) : bits width left = bits width right := by
  induction width with
  | zero => rfl
  | succ width ih =>
    rw [bits_succ, bits_succ, same width (by omega), ih fun i bound => same i (by omega)]

theorem testBit_mod {width i : Nat} (number : Nat) (inside : i < width) :
    (number % 2 ^ width).testBit i = number.testBit i := by
  rw [Nat.testBit_mod_two_pow, decide_eq_true inside, Bool.true_and]

theorem bits_mod (width number : Nat) : bits width (number % 2 ^ width) = bits width number :=
  bits_congr width fun _ inside => testBit_mod number inside

theorem bits_add (high low number : Nat) :
    bits (high + low) number = bits high (number >>> low) ++ bits low number := by
  induction high with
  | zero => simp
  | succ high ih =>
    rw [show high + 1 + low = high + low + 1 by omega, bits_succ, bits_succ, ih, List.cons_append,
      Nat.testBit_shiftRight, Nat.add_comm low high]

theorem bits_shift_or (high low left right : Nat) (small : right < 2 ^ low) :
    bits (high + low) (left <<< low ||| right) = bits high left ++ bits low right := by
  rw [bits_add]
  congr 1
  · apply bits_congr
    intro i _
    have above : right.testBit (low + i) = false :=
      Nat.testBit_lt_two_pow (Nat.lt_of_lt_of_le small (Nat.pow_le_pow_right (by omega) (by omega)))
    simp [Nat.testBit_shiftRight, above]
  · apply bits_congr
    intro i bound
    have below : ¬ low ≤ i := by omega
    simp [below]

theorem bits_shift (high low number : Nat) :
    bits (high + low) (number <<< low) = bits high number ++ List.replicate low false := by
  have shifted := bits_shift_or high low number 0 (Nat.two_pow_pos low)
  rw [Nat.or_zero] at shifted
  rw [shifted]
  congr 1
  induction low with
  | zero => rfl
  | succ low ih =>
    rw [bits_succ, Nat.zero_testBit, List.replicate_succ, ih]
    simpa using bits_shift_or high low number 0 (Nat.two_pow_pos low)

@[simp] theorem value_nil : value [] = 0 := rfl

theorem value_concat (string : List Bool) (bit : Bool) :
    value (string ++ [bit]) = 2 * value string + bit.toNat := by
  simp [value, List.foldl_append]

theorem value_lt (string : List Bool) : value string < 2 ^ string.length := by
  induction string using List.reverseRecOn with
  | nil => exact Nat.one_pos
  | append_singleton string bit ih =>
    have small := Bool.toNat_lt bit
    rw [value_concat, List.length_append, List.length_singleton, Nat.pow_succ]
    omega

theorem value_append (left right : List Bool) :
    value (left ++ right) = value left * 2 ^ right.length + value right := by
  induction right using List.reverseRecOn with
  | nil => simp
  | append_singleton right bit ih =>
    rw [← List.append_assoc, value_concat, ih, value_concat, List.length_append, Nat.pow_add,
      List.length_singleton]
    ring

theorem value_bits (width number : Nat) : value (bits width number) = number % 2 ^ width := by
  induction width with
  | zero => simp [Nat.mod_one]
  | succ width ih =>
    have top : value [number.testBit width] = number / 2 ^ width % 2 := by
      rw [Nat.testBit_eq_decide_div_mod_eq]
      rcases Nat.mod_two_eq_zero_or_one (number / 2 ^ width) with low | high
      · simp [value, low]
      · simp [value, high]
    rw [bits_succ, ← List.singleton_append, value_append, length_bits, ih, top, Nat.mod_pow_succ]
    ring

theorem value_bits_of_lt {width number : Nat} (small : number < 2 ^ width) :
    value (bits width number) = number := by
  rw [value_bits, Nat.mod_eq_of_lt small]

@[simp] theorem ofBytes_nil : ofBytes [] = [] := rfl

@[simp] theorem ofBytes_cons (byte : UInt8) (bytes : List UInt8) :
    ofBytes (byte :: bytes) = bits 8 byte.toNat ++ ofBytes bytes := rfl

@[simp] theorem ofBytes_append (left right : List UInt8) :
    ofBytes (left ++ right) = ofBytes left ++ ofBytes right := by
  simp [ofBytes]

@[simp] theorem length_ofBytes (bytes : List UInt8) : (ofBytes bytes).length = 8 * bytes.length := by
  induction bytes with
  | nil => rfl
  | cons byte bytes ih => simp [ih]; omega

theorem range_getD_append (string tail : List Bool) (default : Bool) :
    (List.range string.length).map (fun i => (string ++ tail).getD i default) = string := by
  apply List.ext_getElem
  · simp
  · intro i _ inside
    simp [List.getElem?_append_left inside, inside]

theorem range_getD_flatMap_bits (width : Nat) (numbers : List Nat) (tail : List Bool) (default : Bool)
    {i number : Nat} (found : numbers[i]? = some number) :
    (List.range width).map (fun bit => (numbers.flatMap (bits width) ++ tail).getD (width * i + bit) default) =
      bits width number := by
  induction numbers generalizing i with
  | nil => cases found
  | cons first numbers ih =>
    rw [List.flatMap_cons, List.append_assoc]
    cases i with
    | zero =>
      obtain rfl : first = number := Option.some.inj found
      have row := range_getD_append (bits width first) (numbers.flatMap (bits width) ++ tail) default
      simpa only [length_bits, Nat.mul_zero, Nat.zero_add] using row
    | succ i =>
      rw [← ih found]
      apply List.map_congr_left
      intro bit _
      rw [List.getD_append_right _ _ _ _ (by rw [length_bits, Nat.mul_succ]; omega), length_bits, Nat.mul_succ]
      congr 1
      omega

theorem length_flatMap_bits (width : Nat) (numbers : List Nat) :
    (numbers.flatMap (bits width)).length = width * numbers.length := by
  induction numbers with
  | nil => rfl
  | cons number numbers ih => simp [ih, Nat.mul_succ]; omega

end BitString
