import DedupPipeline.Library.ShiftAdd
import DedupPipeline.Server.Cdc

namespace DedupProof

open DedupModel ShiftAdd

def gearAddends (window : List UInt8) : List Nat := window.map fun byte => (gearTable.getD byte.toNat 0).toNat

def gearWraps (before window : List UInt8) : List Nat := wraps 64 (gearHash before).toNat (gearAddends window)

/-- The hash with what wrapped over the window put back. -/
def unwrapped (before window : List UInt8) : Nat :=
  (gearHash (before ++ window)).toNat + lost 64 (gearWraps before window)

def Uncut (piece : List UInt8) : Prop := ∀ n < piece.length, contentCut (piece.take n) = false

instance (piece : List UInt8) : Decidable (Uncut piece) :=
  inferInstanceAs (Decidable (∀ n < piece.length, contentCut (piece.take n) = false))

theorem gearHash_append (before window : List UInt8) :
    (gearHash (before ++ window)).toNat = (gearAddends window).foldl (update 64) (gearHash before).toNat := by
  rw [gearHash, List.foldl_append, ← gearHash, gearAddends, List.foldl_map]
  generalize gearHash before = hash
  induction window generalizing hash with
  | nil => rfl
  | cons byte window ih =>
    have added : ((hash >>> 1) + gearTable.getD byte.toNat 0).toNat =
        update 64 hash.toNat (gearTable.getD byte.toNat 0).toNat := by
      rw [UInt64.toNat_add, UInt64.toNat_shiftRight, update]
      rfl
    rw [List.foldl_cons, List.foldl_cons, ih, added]

theorem unwrapped_le (left right : List UInt8) {window : List UInt8} (size : window.length = 64) :
    unwrapped left window ≤ unwrapped right window + 1 := by
  unfold unwrapped gearWraps
  rw [gearHash_append, gearHash_append]
  exact forgets 64 _ (gearHash left).toNat_lt (by rw [gearAddends, List.length_map, size])

theorem contentTest_toNat (hash : UInt64) : (hash &&& (modulus - 1)).toNat = hash.toNat % 64 := by
  rw [UInt64.toNat_and]
  exact Nat.and_two_pow_sub_one_eq_mod hash.toNat 6

/-- The content test looks at six bits, on which of the 64 additions the first five are in time to count. -/
theorem lost_gearWraps_mod (left right : List UInt8) {window : List UInt8} (size : window.length = 64)
    (same : (gearWraps left window).take 5 = (gearWraps right window).take 5) :
    lost 64 (gearWraps left window) % 64 = lost 64 (gearWraps right window) % 64 := by
  have length (before : List UInt8) : (gearWraps before window).length = 64 := by
    rw [gearWraps, length_wraps, gearAddends, List.length_map, size]
  have low : 6 ≤ 64 - (gearWraps left window).length + 5 + 1 := by rw [length]
  exact lost_mod 64 ((length left).trans (length right).symm) (Nat.le_of_eq (length left)) low same

/-- Of the bytes before the last 64, a carry of one is left in the hash, and which of the additions wrapped; in the
    content test, which of the first five. -/
theorem gearHash_window (left right window : List UInt8) (size : window.length = 64) :
    ((unwrapped left window : Int) - unwrapped right window).natAbs ≤ 1 ∧
      (gearWraps left window = gearWraps right window →
        (((gearHash (left ++ window)).toNat : Int) - (gearHash (right ++ window)).toNat).natAbs ≤ 1) ∧
      ((gearWraps left window).take 5 = (gearWraps right window).take 5 →
        gearHash (left ++ window) &&& (modulus - 1) = target →
          gearHash (right ++ window) &&& (modulus - 1) ∈ [target - 1, target, target + 1]) := by
  have upper := unwrapped_le left right size
  have lower := unwrapped_le right left size
  refine ⟨by omega, fun same => ?_, fun same fires => ?_⟩
  · rw [unwrapped, unwrapped, same] at upper lower
    omega
  have carried := lost_gearWraps_mod left right size same
  rw [unwrapped, unwrapped] at upper lower
  have leftTest := congrArg UInt64.toNat fires
  rw [contentTest_toNat] at leftTest
  have three : target.toNat = 3 := rfl
  have rightTest := contentTest_toNat (gearHash (right ++ window))
  have near : (gearHash (right ++ window) &&& (modulus - 1)).toNat = 2 ∨
      (gearHash (right ++ window) &&& (modulus - 1)).toNat = 3 ∨
      (gearHash (right ++ window) &&& (modulus - 1)).toNat = 4 := by omega
  rw [List.mem_cons, List.mem_cons, List.mem_singleton]
  rcases near with two | three | four
  · exact Or.inl (UInt64.toNat_inj.mp two)
  · exact Or.inr (Or.inl (UInt64.toNat_inj.mp three))
  · exact Or.inr (Or.inr (UInt64.toNat_inj.mp four))

theorem gearHash_window_repeated :
    ((unwrapped [] (List.replicate 64 181) : Int) - unwrapped [18] (List.replicate 64 181)).natAbs ≤ 1 ∧
      (((gearHash ([] ++ List.replicate 64 181)).toNat : Int) -
        (gearHash ([18] ++ List.replicate 64 181)).toNat).natAbs ≤ 1 ∧
      gearHash ([18] ++ List.replicate 64 181) &&& (modulus - 1) ∈ [target - 1, target, target + 1] := by
  have ⟨carry, near, test⟩ := gearHash_window [] [18] (List.replicate 64 181) (by decide)
  exact ⟨carry, near (by decide +kernel), test (by decide +kernel) (by decide +kernel)⟩

/-- One byte in front of the window moves the hash, also by more than one, and the cut. -/
theorem gearHash_remembers :
    (¬∀ left right window : List UInt8, window.length = 64 → Uncut (left ++ window) → Uncut (right ++ window) →
      gearHash (left ++ window) = gearHash (right ++ window)) ∧
    (¬∀ left right window : List UInt8, window.length = 64 → Uncut (left ++ window) → Uncut (right ++ window) →
      (gearHash (left ++ window) &&& (modulus - 1) = target ↔
        gearHash (right ++ window) &&& (modulus - 1) = target)) ∧
    ¬∀ left right window : List UInt8, window.length = 64 → Uncut (left ++ window) → Uncut (right ++ window) →
      (((gearHash (left ++ window)).toNat : Int) - (gearHash (right ++ window)).toNat).natAbs ≤ 1 := by
  have size (byte : UInt8) : (List.replicate 64 byte).length = 64 := List.length_replicate
  have carried : Uncut ([] ++ List.replicate 64 181) ∧ Uncut ([18] ++ List.replicate 64 181) := by decide +kernel
  have wrapped : Uncut ([] ++ List.replicate 64 16) ∧ Uncut ([0] ++ List.replicate 64 16) := by decide +kernel
  refine ⟨fun always => ?_, fun always => ?_, fun always => ?_⟩
  · exact absurd (always [] [18] _ (size 181) carried.1 carried.2) (by decide +kernel)
  · exact absurd (always [] [18] _ (size 181) carried.1 carried.2) (by decide +kernel)
  · exact absurd (always [] [0] _ (size 16) wrapped.1 wrapped.2) (by decide +kernel)

end DedupProof
