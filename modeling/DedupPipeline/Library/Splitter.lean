import Mathlib.Data.List.Forall2
import Mathlib.Order.Bounds.Basic

namespace Splitter

variable {α : Type*}

/-- The pieces of `piece ++ input`, where `piece` has not been cut yet; the end of the input cuts
    too. -/
def split (cut : List α → Bool) : List α → List α → List (List α)
  | piece, [] => if piece.isEmpty then [] else [piece]
  | piece, letter :: input =>
    if cut (piece ++ [letter]) then (piece ++ [letter]) :: split cut [] input
    else split cut (piece ++ [letter]) input

def ends : Nat → List (List α) → List Nat
  | _, [] => []
  | start, piece :: pieces => (start + piece.length) :: ends (start + piece.length) pieces

theorem split_flatten (cut : List α → Bool) (piece input : List α) :
    (split cut piece input).flatten = piece ++ input := by
  induction input generalizing piece with
  | nil => cases piece <;> simp [split]
  | cons letter input ih =>
    rw [split]
    split
    · rw [List.flatten_cons, ih, List.append_assoc, List.nil_append, List.singleton_append]
    · rw [ih, List.append_assoc, List.singleton_append]

theorem split_ne_nil (cut : List α → Bool) (piece input : List α) :
    ∀ part ∈ split cut piece input, part ≠ [] := by
  induction input generalizing piece with
  | nil => cases piece <;> simp [split]
  | cons letter input ih =>
    rw [split]
    split
    · intro part member
      rcases List.mem_cons.mp member with rfl | member
      · simp
      · exact ih [] part member
    · exact ih _

theorem split_length_le {cut : List α → Bool} {bound : Nat} (positive : 0 < bound)
    (full : ∀ piece : List α, bound ≤ piece.length → cut piece = true) (piece input : List α)
    (short : piece.length < bound) : ∀ part ∈ split cut piece input, part.length ≤ bound := by
  induction input generalizing piece with
  | nil =>
    intro part member
    rw [split] at member
    split at member
    · cases member
    · rw [List.mem_singleton.mp member]
      omega
  | cons letter input ih =>
    rw [split]
    split
    · intro part member
      rcases List.mem_cons.mp member with rfl | member
      · rw [List.length_append, List.length_singleton]
        omega
      · exact ih [] positive part member
    · rename_i uncut
      apply ih
      by_contra long
      exact uncut (full _ (by omega))

theorem split_head (cut : List α → Bool) (piece : List α) (letter : α) (input : List α) :
    ∃ first rest, split cut piece (letter :: input) = first :: rest ∧ piece.length < first.length := by
  induction input generalizing piece letter with
  | nil => exact ⟨piece ++ [letter], [], by simp [split], by simp⟩
  | cons next input ih =>
    rw [split]
    split
    · exact ⟨_, _, rfl, by simp⟩
    · obtain ⟨first, rest, found, longer⟩ := ih (piece ++ [letter]) next
      rw [List.length_append, List.length_singleton] at longer
      exact ⟨first, rest, found, by omega⟩

/-- Behind a cut the pieces are those of what follows, before it those of what precedes: nothing is
    carried over, and the end of the shorter list cuts where the longer one was cut. -/
theorem split_append (cut : List α → Bool) (piece left right : List α) (count : Nat)
    (boundary : ((split cut piece (left ++ right)).take count).flatten = piece ++ left) :
    split cut piece (left ++ right) = split cut piece left ++ split cut [] right := by
  induction left generalizing piece count with
  | nil =>
    rw [List.nil_append, List.append_nil] at boundary
    rw [List.nil_append]
    cases piece with
    | nil => rfl
    | cons head piece =>
      cases right with
      | nil => simp [split]
      | cons letter right =>
        -- the first piece would be longer than everything before the boundary
        obtain ⟨first, rest, found, longer⟩ := split_head cut (head :: piece) letter right
        rw [found] at boundary
        cases count with
        | zero => simp at boundary
        | succ count =>
          have total := congrArg List.length boundary
          rw [List.take_succ_cons, List.flatten_cons, List.length_append] at total
          omega
  | cons letter left ih =>
    rw [List.cons_append, split] at boundary
    rw [List.cons_append, split, split]
    split at boundary
    · rename_i fires
      rw [if_pos fires, if_pos fires, List.cons_append]
      cases count with
      | zero => simp at boundary
      | succ count =>
        rw [List.take_succ_cons, List.flatten_cons, List.append_assoc, List.singleton_append,
          List.append_cancel_left_eq, List.cons.injEq] at boundary
        rw [ih [] count boundary.2]
    · rename_i silent
      rw [if_neg silent, if_neg silent]
      exact ih (piece ++ [letter]) count (by rw [boundary, List.append_assoc, List.singleton_append])

theorem split_append_other {cut : List α → Bool} {piece left right : List α} (nonempty : right ≠ [])
    (boundary : split cut piece (left ++ right) = split cut piece left ++ split cut [] right) (other : List α) :
    split cut piece (left ++ other) = split cut piece left ++ split cut [] other := by
  induction left generalizing piece with
  | nil =>
    cases piece with
    | nil => rfl
    | cons head piece =>
      obtain ⟨letter, rest, rfl⟩ := List.exists_cons_of_ne_nil nonempty
      obtain ⟨first, later, found, longer⟩ := split_head cut (head :: piece) letter rest
      rw [List.nil_append, found] at boundary
      have same : first = head :: piece := (List.cons.inj boundary).1
      rw [same] at longer
      exact absurd longer (Nat.lt_irrefl _)
  | cons letter left ih =>
    rw [List.cons_append, split, split] at boundary
    rw [List.cons_append, split, split]
    split at boundary
    · rename_i fires
      rw [if_pos fires, if_pos fires, List.cons_append, ih (List.cons.inj boundary).2]
    · rename_i silent
      rw [if_neg silent, if_neg silent]
      exact ih boundary

theorem mem_ends {start position : Nat} {pieces : List (List α)}
    (member : position ∈ start :: ends start pieces) :
    ∃ count, position = start + ((pieces.take count).flatten).length := by
  induction pieces generalizing start with
  | nil => exact ⟨0, by simpa [ends] using member⟩
  | cons piece pieces ih =>
    rcases List.mem_cons.mp member with rfl | later
    · exact ⟨0, by simp⟩
    · obtain ⟨count, rfl⟩ := ih later
      exact ⟨count + 1, by simp [Nat.add_assoc]⟩

structure Slice (input : List α) (bounds : Nat × Nat) (piece : List α) : Prop where
  size : bounds.2 = bounds.1 + piece.length
  content : (input.drop bounds.1).take piece.length = piece

theorem slices_of_ends (input : List α) (start : Nat) (pieces : List (List α))
    (rest : input.drop start = pieces.flatten) :
    List.Forall₂ (Slice input) ((start :: ends start pieces).zip (ends start pieces)) pieces := by
  induction pieces generalizing start with
  | nil => exact .nil
  | cons piece pieces ih =>
    rw [List.flatten_cons] at rest
    refine .cons ⟨rfl, ?_⟩ (ih (start + piece.length) ?_)
    · rw [rest, List.take_left]
    · rw [← List.drop_drop, rest, List.drop_left]

theorem ends_append (start : Nat) (left right : List (List α)) :
    ends start (left ++ right) = ends start left ++ ends (start + left.flatten.length) right := by
  induction left generalizing start with
  | nil => rfl
  | cons piece left ih =>
    rw [List.cons_append, ends, ih, ends, List.cons_append, List.flatten_cons, List.length_append,
      Nat.add_assoc]

theorem ends_shift (start : Nat) (pieces : List (List α)) :
    ends start pieces = (ends 0 pieces).map (start + ·) := by
  induction pieces generalizing start with
  | nil => rfl
  | cons piece pieces ih =>
    rw [ends, ends, List.map_cons, ih (start + piece.length), ih (0 + piece.length), List.map_map, Nat.zero_add]
    congr 1
    apply List.map_congr_left
    intro position _
    exact Nat.add_assoc start piece.length position

theorem lt_of_mem_ends {pieces : List (List α)} (nonempty : ∀ piece ∈ pieces, piece ≠ []) {start stop : Nat}
    (member : stop ∈ ends start pieces) : start < stop := by
  induction pieces generalizing start with
  | nil => cases member
  | cons piece pieces ih =>
    obtain ⟨first, others⟩ := List.forall_mem_cons.mp nonempty
    have positive := List.length_pos_iff.mpr first
    rcases List.mem_cons.mp member with rfl | later
    · omega
    · have behind := ih others later
      omega

theorem ends_pairwise {pieces : List (List α)} (nonempty : ∀ piece ∈ pieces, piece ≠ []) (start : Nat) :
    (start :: ends start pieces).Pairwise (· < ·) := by
  induction pieces generalizing start with
  | nil => exact List.pairwise_singleton _ _
  | cons piece pieces ih =>
    apply List.Pairwise.cons
    · exact fun stop member => lt_of_mem_ends nonempty member
    · exact ih (List.forall_mem_cons.mp nonempty).2 _

theorem ends_getLast (start : Nat) (pieces : List (List α)) :
    (start :: ends start pieces).getLast? = some (start + pieces.flatten.length) := by
  induction pieces generalizing start with
  | nil => rfl
  | cons piece pieces ih =>
    rw [ends, List.getLast?_cons_cons, ih, List.flatten_cons, List.length_append, Nat.add_assoc]

theorem mem_zip_ends {start : Nat} {pieces : List (List α)} {bounds : Nat × Nat}
    (member : bounds ∈ (start :: ends start pieces).zip (ends start pieces)) :
    ∃ before piece after, pieces = before ++ piece :: after ∧
      bounds.1 = start + before.flatten.length ∧ bounds.2 = bounds.1 + piece.length := by
  induction pieces generalizing start with
  | nil => cases member
  | cons piece pieces ih =>
    rcases List.mem_cons.mp member with rfl | later
    · exact ⟨[], piece, pieces, rfl, rfl, rfl⟩
    · obtain ⟨before, other, after, rfl, first, second⟩ := ih later
      refine ⟨piece :: before, other, after, rfl, ?_, second⟩
      rw [first, List.flatten_cons, List.length_append, Nat.add_assoc]

theorem split_piece {cut : List α → Bool} {piece input : List α}
    (uncut : ∀ front, front ≠ [] → front <+: piece → cut front = false) {before after : List (List α)}
    {part : List α} (found : split cut piece input = before ++ part :: after) :
    (∀ front, front ≠ [] → front <+: part → front.length < part.length → cut front = false) ∧
      (cut part = true ∨ after = []) := by
  induction input generalizing piece before with
  | nil =>
    rw [split] at found
    split at found
    · cases before <;> cases found
    · cases before with
      | nil =>
        obtain ⟨rfl, rfl⟩ := List.cons.inj found
        exact ⟨fun front nonempty inside _ => uncut front nonempty inside, Or.inr rfl⟩
      | cons head before =>
        have rest := (List.cons.inj found).2
        cases before <;> cases rest
  | cons letter input ih =>
    rw [split] at found
    split at found
    · rename_i fires
      cases before with
      | nil =>
        obtain ⟨rfl, rfl⟩ := List.cons.inj found
        constructor
        · intro front nonempty inside shorter
          rcases List.prefix_concat_iff.mp inside with rfl | inside
          · omega
          · exact uncut front nonempty inside
        · exact Or.inl fires
      | cons head before =>
        apply ih _ (List.cons.inj found).2
        intro front nonempty inside
        exact absurd (List.prefix_nil.mp inside) nonempty
    · rename_i silent
      apply ih _ found
      intro front nonempty inside
      rcases List.prefix_concat_iff.mp inside with rfl | inside
      · exact Bool.eq_false_iff.mpr silent
      · exact uncut front nonempty inside

theorem isLeast_end {cut : List α → Bool} {input : List α} {bounds : Nat × Nat}
    (member : bounds ∈ (0 :: ends 0 (split cut [] input)).zip (ends 0 (split cut [] input))) :
    IsLeast {stop | bounds.1 < stop ∧ stop ≤ input.length ∧
      (cut ((input.drop bounds.1).take (stop - bounds.1)) = true ∨ stop = input.length)} bounds.2 := by
  obtain ⟨before, part, after, found, first, second⟩ := mem_zip_ends member
  have positive := List.length_pos_iff.mpr (split_ne_nil cut [] input part (by rw [found]; simp))
  have whole := split_flatten cut [] input
  rw [found, List.flatten_append, List.flatten_cons, List.nil_append] at whole
  have size := congrArg List.length whole
  rw [List.length_append, List.length_append] at size
  have rest : input.drop bounds.1 = part ++ after.flatten := by
    rw [first, Nat.zero_add, ← whole, List.drop_left]
  obtain ⟨earlier, last⟩ := split_piece
    (fun front nonempty inside => absurd (List.prefix_nil.mp inside) nonempty) found
  constructor
  · refine ⟨by omega, by omega, ?_⟩
    rcases last with fires | rfl
    · left
      rw [rest, second, Nat.add_sub_cancel_left, List.take_left, fires]
    · right
      rw [List.flatten_nil, List.length_nil] at size
      omega
  · rintro stop ⟨behind, inside, cuts⟩
    by_contra shorter
    rcases cuts with fires | atEnd
    · have proper : stop - bounds.1 < part.length := by omega
      have front : (input.drop bounds.1).take (stop - bounds.1) = part.take (stop - bounds.1) := by
        rw [rest, List.take_append_of_le_length (by omega)]
      have length : (part.take (stop - bounds.1)).length = stop - bounds.1 := by
        rw [List.length_take]
        omega
      have silent := earlier (part.take (stop - bounds.1)) (List.ne_nil_of_length_pos (by omega))
        (List.take_prefix _ _) (by omega)
      rw [front, silent] at fires
      cases fires
    · omega

theorem ends_split_le (cut : List α → Bool) (start : Nat) (piece input : List α) :
    ∀ stop ∈ ends start (split cut piece input), start + piece.length ≤ stop := by
  induction input generalizing start piece with
  | nil => cases piece <;> simp [split, ends]
  | cons letter input ih =>
    intro stop member
    rw [split] at member
    split at member
    · rcases List.mem_cons.mp member with rfl | later
      · simp
      · have behind := ih _ [] stop later
        rw [List.length_append, List.length_singleton, List.length_nil] at behind
        omega
    · have behind := ih start (piece ++ [letter]) stop member
      rw [List.length_append, List.length_singleton] at behind
      omega

theorem filter_ends_append (cut : List α → Bool) (start : Nat) (piece left right : List α) :
    (ends start (split cut piece (left ++ right))).filter (· < start + piece.length + left.length) =
      (ends start (split cut piece left)).filter (· < start + piece.length + left.length) := by
  induction left generalizing start piece with
  | nil =>
    have none (input : List α) :
        (ends start (split cut piece input)).filter (· < start + piece.length + ([] : List α).length) = [] := by
      apply List.filter_eq_nil_iff.mpr
      intro stop member
      have behind := ends_split_le cut start piece input stop member
      rw [List.length_nil, decide_eq_true_eq]
      omega
    rw [none, none]
  | cons letter left ih =>
    have size : start + piece.length + (letter :: left).length =
        start + (piece ++ [letter]).length + left.length := by
      rw [List.length_append, List.length_singleton, List.length_cons]
      omega
    rw [size, List.cons_append, split, split]
    split
    · rw [ends, ends, List.filter_cons, List.filter_cons]
      have later := ih (start + (piece ++ [letter]).length) []
      rw [List.length_nil, Nat.add_zero] at later
      rw [later]
    · exact ih start (piece ++ [letter])

theorem filter_ends_last {pieces : List (List α)} (nonempty : ∀ piece ∈ pieces, piece ≠ []) (start : Nat) :
    (start :: ends start pieces).filter (start + pieces.flatten.length ≤ ·) =
      [start + pieces.flatten.length] := by
  induction pieces generalizing start with
  | nil => simp [ends]
  | cons piece pieces ih =>
    obtain ⟨first, others⟩ := List.forall_mem_cons.mp nonempty
    have positive := List.length_pos_iff.mpr first
    have later := ih others (start + piece.length)
    rw [List.flatten_cons, List.length_append, ← Nat.add_assoc, List.filter_cons_of_neg (by simp; omega), ends]
    exact later

theorem cut_flatten {pieces : List (List α)} {cut : List α} (inside : cut <+: pieces.flatten) :
    ∃ count part, cut = (pieces.take count).flatten ++ part ∧
      (part = [] ∨ ∃ piece, pieces[count]? = some piece ∧ part <+: piece ∧ part.length < piece.length) := by
  induction pieces generalizing cut with
  | nil => exact ⟨0, [], List.prefix_nil.mp inside, Or.inl rfl⟩
  | cons piece pieces ih =>
    rw [List.flatten_cons] at inside
    by_cases longer : piece.length ≤ cut.length
    · obtain ⟨rest, rfl⟩ := List.prefix_of_prefix_length_le (List.prefix_append piece _) inside longer
      obtain ⟨count, part, rfl, last⟩ := ih ((List.prefix_append_right_inj piece).mp inside)
      refine ⟨count + 1, part, ?_, last⟩
      rw [List.take_succ_cons, List.flatten_cons, List.append_assoc]
    · refine ⟨0, cut, rfl, Or.inr ⟨piece, rfl, ?_, Nat.not_le.mp longer⟩⟩
      exact List.prefix_of_prefix_length_le inside (List.prefix_append piece _) (Nat.le_of_not_le longer)

end Splitter
