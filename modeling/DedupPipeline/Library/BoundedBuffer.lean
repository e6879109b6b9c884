import Mathlib.Data.List.Basic

namespace BoundedBuffer

variable {α : Type*}

def add (limit : Nat) (content piece : List α) : List α :=
  if limit ≤ content.length + piece.length then content else content ++ piece

def gather (limit : Nat) (content : List α) (pieces : List (List α)) : List α := pieces.foldl (add limit) content

/-- Once a piece of these sizes has been left out, nothing is added any more. -/
def NoHole (limit : Nat) : Nat → List Nat → Prop
  | _, [] => True
  | filled, size :: sizes =>
    if filled + size < limit then NoHole limit (filled + size) sizes
    else ∀ later ∈ sizes, later = 0 ∨ limit ≤ filled + later

theorem noHole_replicate (limit filled size count : Nat) : NoHole limit filled (List.replicate count size) := by
  induction count generalizing filled with
  | zero => trivial
  | succ count ih =>
    rw [List.replicate_succ, NoHole]
    split
    · exact ih _
    · rename_i full
      intro later member
      rw [List.eq_of_mem_replicate member]
      exact Or.inr (Nat.not_lt.mp full)

variable {limit : Nat} {content : List α}

theorem add_fits {piece : List α} (room : content.length + piece.length < limit) :
    add limit content piece = content ++ piece := if_neg (Nat.not_le.mpr room)

theorem add_left_out {piece : List α} (out : piece = [] ∨ limit ≤ content.length + piece.length) :
    add limit content piece = content := by
  unfold add
  rcases out with rfl | full
  · rw [List.append_nil, ite_self]
  · exact if_pos full

theorem gather_cons (piece : List α) (pieces : List (List α)) :
    gather limit content (piece :: pieces) = gather limit (add limit content piece) pieces := rfl

theorem gather_append (pieces more : List (List α)) :
    gather limit content (pieces ++ more) = gather limit (gather limit content pieces) more :=
  List.foldl_append

theorem gather_fits {pieces : List (List α)} (room : content.length + pieces.flatten.length < limit) :
    gather limit content pieces = content ++ pieces.flatten := by
  induction pieces generalizing content with
  | nil => exact (List.append_nil content).symm
  | cons piece pieces ih =>
    rw [List.flatten_cons, List.length_append] at room
    rw [gather_cons, add_fits (by omega), List.flatten_cons, ← List.append_assoc]
    apply ih
    rw [List.length_append]
    omega

theorem gather_left_out {pieces : List (List α)}
    (out : ∀ piece ∈ pieces, piece = [] ∨ limit ≤ content.length + piece.length) :
    gather limit content pieces = content := by
  induction pieces with
  | nil => rfl
  | cons piece pieces ih =>
    obtain ⟨first, others⟩ := List.forall_mem_cons.mp out
    rw [gather_cons, add_left_out first]
    exact ih others

theorem gather_beginning {pieces : List (List α)} (noHole : NoHole limit content.length (pieces.map List.length))
    (i : Nat) : gather limit content (pieces.take i) <+: content ++ (pieces.take i).flatten := by
  induction pieces generalizing content i with
  | nil =>
    rw [List.take_nil]
    exact List.prefix_append content []
  | cons piece pieces ih =>
    cases i with
    | zero => exact List.prefix_append content []
    | succ i =>
      rw [List.map_cons, NoHole] at noHole
      rw [List.take_succ_cons, List.flatten_cons, gather_cons]
      split at noHole
      · rename_i room
        rw [← List.length_append] at noHole
        rw [add_fits room, ← List.append_assoc]
        exact ih noHole i
      · rename_i full
        rw [add_left_out (Or.inr (Nat.not_lt.mp full))]
        have rest : gather limit content (pieces.take i) = content := by
          apply gather_left_out
          intro other member
          rcases noHole other.length (List.mem_map_of_mem (List.mem_of_mem_take member)) with empty | out
          · exact Or.inl (List.length_eq_zero_iff.mp empty)
          · exact Or.inr out
        rw [rest]
        exact List.prefix_append content _

theorem gather_hole {limit : Nat} {block last : List UInt8} {count : Nat}
    (room : count * block.length + last.length < limit) (full : limit ≤ (count + 1) * block.length) :
    gather limit [] (List.replicate (count + 1) block ++ [last]) = (List.replicate count block).flatten ++ last := by
  have size : (List.replicate count block).flatten.length = count * block.length := by
    rw [List.length_flatten, List.map_replicate, List.sum_replicate_nat]
  rw [Nat.succ_mul] at full
  have filled : gather limit [] (List.replicate count block) = (List.replicate count block).flatten := by
    apply gather_fits
    rw [List.length_nil, size]
    omega
  rw [List.replicate_succ', List.append_assoc, gather_append, filled, List.singleton_append, gather_cons,
    add_left_out (Or.inr (by rwa [size])), gather_cons, add_fits (by rwa [size])]
  rfl

theorem gather_later (letter : α) {sizes : List Nat}
    (fits : ∃ later ∈ sizes, later ≠ 0 ∧ content.length + later < limit) :
    ∃ i count, 0 < count ∧ gather limit content ((sizes.map (List.replicate · letter)).take i) =
      content ++ List.replicate count letter := by
  induction sizes with
  | nil =>
    obtain ⟨later, member, _⟩ := fits
    cases member
  | cons size sizes ih =>
    have length : (List.replicate size letter).length = size := List.length_replicate
    by_cases out : size = 0 ∨ limit ≤ content.length + size
    · have rest : ∃ later ∈ sizes, later ≠ 0 ∧ content.length + later < limit := by
        obtain ⟨later, member, positive, room⟩ := fits
        rcases List.mem_cons.mp member with rfl | member
        · omega
        · exact ⟨later, member, positive, room⟩
      obtain ⟨i, count, positive, gathered⟩ := ih rest
      refine ⟨i + 1, count, positive, ?_⟩
      rw [List.map_cons, List.take_succ_cons, gather_cons, add_left_out]
      · exact gathered
      · rcases out with rfl | full
        · exact Or.inl rfl
        · exact Or.inr (by rw [length]; exact full)
    · refine ⟨1, size, by omega, ?_⟩
      rw [List.map_cons, List.take_succ_cons, gather_cons, add_fits (by rw [length]; omega)]
      rfl

theorem exists_hole {left right : α} (different : left ≠ right) {sizes : List Nat}
    (hole : ¬NoHole limit content.length sizes) :
    ∃ pieces : List (List α), pieces.map List.length = sizes ∧
      ∃ i, ¬gather limit content (pieces.take i) <+: content ++ (pieces.take i).flatten := by
  induction sizes generalizing content with
  | nil => exact absurd trivial hole
  | cons size sizes ih =>
    have length : (List.replicate size left).length = size := List.length_replicate
    rw [NoHole] at hole
    split at hole
    · rename_i room
      have grown : (content ++ List.replicate size left).length = content.length + size := by
        rw [List.length_append, length]
      rw [← grown] at hole
      obtain ⟨pieces, lengths, i, shows⟩ := ih hole
      refine ⟨List.replicate size left :: pieces, by rw [List.map_cons, length, lengths], i + 1, ?_⟩
      rw [List.take_succ_cons, List.flatten_cons, gather_cons, add_fits (by rw [length]; exact room),
        ← List.append_assoc]
      exact shows
    · rename_i full
      have fits : ∃ later ∈ sizes, later ≠ 0 ∧ content.length + later < limit := by
        by_contra none
        apply hole
        intro later member
        by_contra added
        exact none ⟨later, member, by omega, by omega⟩
      obtain ⟨i, count, positive, gathered⟩ := gather_later right fits
      refine ⟨List.replicate size left :: sizes.map (List.replicate · right), ?_, i + 1, ?_⟩
      · rw [List.map_cons, length, List.map_map]
        simp [Function.comp_def]
      · rw [List.take_succ_cons, List.flatten_cons, gather_cons,
          add_left_out (Or.inr (by rw [length]; omega))]
        intro beginning
        rw [gathered, List.prefix_append_right_inj] at beginning
        obtain ⟨later, _, _, room⟩ := fits
        obtain ⟨more, rfl⟩ : ∃ more, count = more + 1 := ⟨count - 1, by omega⟩
        obtain ⟨rest, rfl⟩ : ∃ rest, size = rest + 1 := ⟨size - 1, by omega⟩
        rw [List.replicate_succ, List.replicate_succ, List.cons_append, List.cons_prefix_cons] at beginning
        exact different beginning.1.symm

end BoundedBuffer
