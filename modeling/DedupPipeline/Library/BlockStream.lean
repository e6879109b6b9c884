import Mathlib.Data.List.Basic

namespace BlockStream

variable {α σ : Type*}

def absorb (size : Nat) (compress : σ → List α → σ) (chain : σ) (input : List α) : σ :=
  if 0 < size ∧ size ≤ input.length then
    absorb size compress (compress chain (input.take size)) (input.drop size)
  else chain
termination_by input.length
decreasing_by
  rw [List.length_drop]
  omega

def leftover (size : Nat) (input : List α) : List α := input.drop (size * (input.length / size))

/-- The same letter by letter, on a chaining value and the beginning of the next block. -/
def feed (size : Nat) (compress : σ → List α → σ) (state : σ × List α) (letter : α) : σ × List α :=
  if state.2.length + 1 = size then (compress state.1 (state.2 ++ [letter]), [])
  else (state.1, state.2 ++ [letter])

variable {size : Nat} {compress : σ → List α → σ}

theorem absorb_short (chain : σ) {input : List α} (short : input.length < size) :
    absorb size compress chain input = chain := by
  rw [absorb, if_neg (by omega)]

theorem absorb_block (chain : σ) {block : List α} (rest : List α) (positive : 0 < size)
    (full : block.length = size) :
    absorb size compress chain (block ++ rest) = absorb size compress (compress chain block) rest := by
  have enough : size ≤ (block ++ rest).length := by
    rw [List.length_append]
    omega
  rw [absorb, if_pos ⟨positive, enough⟩, ← full, List.take_left, List.drop_left]

theorem leftover_length (input : List α) : (leftover size input).length = input.length % size := by
  rw [leftover, List.length_drop]
  have := Nat.div_add_mod input.length size
  omega

theorem leftover_short {input : List α} (short : input.length < size) :
    leftover size input = input := by
  rw [leftover, Nat.div_eq_of_lt short, Nat.mul_zero, List.drop_zero]

theorem leftover_block {block : List α} (rest : List α) (positive : 0 < size)
    (full : block.length = size) : leftover size (block ++ rest) = leftover size rest := by
  have blocks : size * ((block ++ rest).length / size) = block.length + size * (rest.length / size) := by
    rw [List.length_append, full, Nat.add_div_left _ positive, Nat.mul_succ, Nat.add_comm]
  rw [leftover, leftover, blocks, ← List.drop_drop, List.drop_left]

theorem foldl_feed (compress : σ → List α → σ) (input : List α) (chain : σ) (pending : List α)
    (short : pending.length < size) :
    input.foldl (feed size compress) (chain, pending) =
      (absorb size compress chain (pending ++ input), leftover size (pending ++ input)) := by
  induction input generalizing chain pending with
  | nil =>
    rw [List.append_nil, List.foldl_nil, absorb_short chain short, leftover_short short]
  | cons letter input ih =>
    have grown : pending ++ letter :: input = pending ++ [letter] ++ input := by simp
    rw [List.foldl_cons, feed, grown]
    by_cases full : pending.length + 1 = size
    · have block : (pending ++ [letter]).length = size := by simpa using full
      rw [if_pos full, ih _ [] (by rw [List.length_nil]; omega), absorb_block chain input (by omega) block,
        leftover_block input (by omega) block, List.nil_append]
    · rw [if_neg full]
      exact ih chain (pending ++ [letter]) (by rw [List.length_append, List.length_singleton]; omega)

theorem feed_absorb (compress : σ → List α → σ) (chain : σ) (input : List α) (letter : α) (positive : 0 < size) :
    feed size compress (absorb size compress chain input, leftover size input) letter =
      (absorb size compress chain (input ++ [letter]), leftover size (input ++ [letter])) := by
  have whole := foldl_feed compress (input ++ [letter]) chain [] positive
  rwa [List.foldl_append, foldl_feed compress input chain [] positive, List.nil_append, List.nil_append] at whole

theorem absorb_append (chain : σ) (left right : List α) (positive : 0 < size) :
    absorb size compress chain (left ++ right) =
      absorb size compress (absorb size compress chain left) (leftover size left ++ right) := by
  have whole := foldl_feed compress (left ++ right) chain [] positive
  rw [List.foldl_append, foldl_feed compress left chain [] positive, foldl_feed compress right _ _ (by
    rw [leftover_length]
    exact Nat.mod_lt _ positive)] at whole
  exact (congrArg Prod.fst whole).symm

end BlockStream
