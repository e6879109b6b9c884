import DedupPipeline.Server.RecordOrder

namespace DedupProof

open DedupModel Splitter

def chunkPositions (buffer : List UInt8) : List Nat := contentDefinedChunking buffer buffer.length []

theorem chunkPositions_eq (buffer : List UInt8) : chunkPositions buffer = 0 :: ends 0 (contentChunks buffer) :=
  contentDefinedChunking_eq buffer

theorem nonempty_contentChunks (buffer : List UInt8) : ∀ chunk ∈ contentChunks buffer, chunk ≠ [] :=
  fun _ member => contentChunks_ne_nil member

theorem chunkBounds_eq {buffer : List UInt8} (bounded : buffer.length < 2 ^ 32) :
    chunkBounds buffer = (chunkPositions buffer).zip (chunkPositions buffer).tail := by
  rw [chunkBounds, Nat.mod_eq_of_lt bounded]
  rfl

/-- The conditions of the loop that can end a chunk from `start` at `stop`. -/
def Cuts (buffer : List UInt8) (start stop : Nat) : Prop :=
  (gearHash ((buffer.drop start).take (stop - start))).toNat % 64 = 3 ∨ stop - start = 5120 ∨ stop = buffer.length

theorem masked_iff (hash : UInt64) : hash &&& (modulus - 1) = target ↔ hash.toNat % 64 = 3 := by
  rw [← UInt64.toNat_inj, UInt64.toNat_and]
  show hash.toNat &&& 2 ^ 6 - 1 = 3 ↔ _
  rw [Nat.and_two_pow_sub_one_eq_mod]

theorem contentCut_iff (piece : List UInt8) :
    contentCut piece = true ↔ (gearHash piece).toNat % 64 = 3 ∨ 5120 ≤ piece.length := by
  rw [contentCut, Bool.or_eq_true, decide_eq_true_eq, decide_eq_true_eq, masked_iff]
  rfl

theorem chunk_bounds_size {buffer : List UInt8} {start stop : Nat}
    (member : (start, stop) ∈ (chunkPositions buffer).zip (chunkPositions buffer).tail) :
    1 ≤ stop - start ∧ stop - start ≤ 5120 := by
  rw [chunkPositions_eq] at member
  obtain ⟨before, chunk, after, found, _, last⟩ := mem_zip_ends member
  obtain ⟨nonempty, upper⟩ := contentChunks_valid buffer chunk (by rw [found]; simp)
  have positive := List.length_pos_iff.mpr nonempty
  have upper : chunk.length ≤ 5120 := upper
  have last : stop = start + chunk.length := last
  omega

theorem isLeast_stop {buffer : List UInt8} {start stop : Nat}
    (member : (start, stop) ∈ (chunkPositions buffer).zip (chunkPositions buffer).tail) :
    IsLeast {position | start < position ∧ position ≤ buffer.length ∧ Cuts buffer start position} stop := by
  obtain ⟨_, upper⟩ := chunk_bounds_size member
  rw [chunkPositions_eq] at member
  obtain ⟨⟨behind, inside, cuts⟩, least⟩ := isLeast_end member
  have size {position : Nat} (within : position ≤ buffer.length) :
      ((buffer.drop start).take (position - start)).length = position - start := by
    rw [List.length_take, List.length_drop]
    omega
  constructor
  · refine ⟨behind, inside, ?_⟩
    rcases cuts with fires | last
    · rcases (contentCut_iff _).mp fires with hash | full
      · exact Or.inl hash
      · rw [size inside] at full
        exact Or.inr (Or.inl (by omega))
    · exact Or.inr (Or.inr last)
  · rintro position ⟨later, within, cuts⟩
    apply least ⟨later, within, _⟩
    rcases cuts with hash | full | last
    · exact Or.inl ((contentCut_iff _).mpr (Or.inl hash))
    · exact Or.inl ((contentCut_iff _).mpr (Or.inr (by rw [size within]; omega)))
    · exact Or.inr last

theorem fileChunks_flatten {buffer : List UInt8} (bounded : buffer.length < 2 ^ 32) :
    (fileChunks buffer).flatten = buffer := by
  rw [fileChunks_eq bounded, contentChunks_flatten]

theorem content_defined_chunking_partition {buffer : List UInt8} (bounded : buffer.length < 2 ^ 32) :
    (chunkPositions buffer).head? = some 0 ∧ (chunkPositions buffer).Pairwise (· < ·) ∧
    (chunkPositions buffer).getLast? = some buffer.length ∧ (buffer = [] → chunkPositions buffer = [0]) ∧
    (∀ start stop, (start, stop) ∈ (chunkPositions buffer).zip (chunkPositions buffer).tail →
      1 ≤ stop - start ∧ stop - start ≤ 5120 ∧
      IsLeast {position | start < position ∧ position ≤ buffer.length ∧ Cuts buffer start position} stop) ∧
    (fileChunks buffer).flatten = buffer ∧
    ∀ bounds ∈ chunkBounds buffer, (bounds.2 - bounds.1) % 2 ^ 16 = bounds.2 - bounds.1 ∧
      ¬((bounds.2 - bounds.1) % 2 ^ 16 = 0 ∨ maxChunkSize < (bounds.2 - bounds.1) % 2 ^ 16) ∧
      ∀ hash state, processChunk hash buffer state bounds =
        storeChunk hash state ((buffer.drop bounds.1).take (bounds.2 - bounds.1)) := by
  have positions := chunkPositions_eq buffer
  refine ⟨?_, ?_, ?_, ?_, ?_, fileChunks_flatten bounded, ?_⟩
  · rw [positions, List.head?_cons]
  · rw [positions]
    exact ends_pairwise (nonempty_contentChunks buffer) 0
  · rw [positions, ends_getLast, contentChunks_flatten, Nat.zero_add]
  · rintro rfl
    rw [positions]
    rfl
  · intro start stop member
    obtain ⟨lower, upper⟩ := chunk_bounds_size member
    exact ⟨lower, upper, isLeast_stop member⟩
  · intro bounds member
    have size := chunk_bounds_size ((chunkBounds_eq bounded) ▸ member)
    have whole : (bounds.2 - bounds.1) % 2 ^ 16 = bounds.2 - bounds.1 := by omega
    have valid : ¬(bounds.2 - bounds.1 = 0 ∨ maxChunkSize < bounds.2 - bounds.1) := by
      rw [maxChunkSize]
      omega
    rw [whole]
    refine ⟨rfl, valid, ?_⟩
    intro hash state
    simp only [processChunk]
    rw [whole, if_neg valid]

theorem content_defined_chunking_partition_two : chunkPositions [27, 27] = [0, 1, 2] ∧
    (chunkPositions [27, 27]).getLast? = some 2 ∧ (fileChunks [27, 27]).flatten = [27, 27] := by
  obtain ⟨_, _, last, _, _, whole, _⟩ := content_defined_chunking_partition (show [27, 27].length < 2 ^ 32 by decide)
  exact ⟨by decide +kernel, last, whole⟩

theorem chunkPositions_append {a b : List UInt8} (boundary : a.length ∈ chunkPositions (a ++ b)) :
    chunkPositions (a ++ b) = chunkPositions a ++ ((chunkPositions b).filter (· ≠ 0)).map (a.length + ·) := by
  have later : (ends 0 (contentChunks b)).filter (· ≠ 0) = ends 0 (contentChunks b) := by
    apply List.filter_eq_self.mpr
    intro stop member
    have positive := lt_of_mem_ends (nonempty_contentChunks b) member
    rw [decide_eq_true_eq]
    omega
  rw [chunkPositions_eq, chunkPositions_eq, chunkPositions_eq, contentChunks_append boundary, ends_append,
    contentChunks_flatten, Nat.zero_add, ends_shift a.length, List.filter_cons_of_neg (by simp), later,
    List.cons_append]

theorem chunkPositions_behind {a b : List UInt8} (boundary : a.length ∈ chunkPositions (a ++ b)) :
    ((chunkPositions (a ++ b)).filter (a.length ≤ ·)).map (· - a.length) = chunkPositions b := by
  have last := filter_ends_last (nonempty_contentChunks a) 0
  have shifted : (ends a.length (contentChunks b)).filter (a.length ≤ ·) = ends a.length (contentChunks b) := by
    apply List.filter_eq_self.mpr
    intro stop member
    have behind := lt_of_mem_ends (nonempty_contentChunks b) member
    rw [decide_eq_true_eq]
    omega
  rw [contentChunks_flatten, Nat.zero_add] at last
  rw [chunkPositions_eq, contentChunks_append boundary, ends_append, contentChunks_flatten, Nat.zero_add,
    ← List.cons_append, List.filter_append, last, shifted, ends_shift, List.singleton_append, List.map_cons,
    List.map_map, Nat.sub_self, chunkPositions_eq]
  congr 1
  have same : ((· - a.length) ∘ (a.length + ·)) = (id : Nat → Nat) := by
    funext position
    exact Nat.add_sub_cancel_left a.length position
  rw [same, List.map_id]

theorem chunkPositions_below (a b : List UInt8) :
    (chunkPositions (a ++ b)).filter (· < a.length) = (chunkPositions a).filter (· < a.length) := by
  have below := filter_ends_append contentCut 0 [] a b
  rw [List.length_nil, Nat.zero_add] at below
  rw [chunkPositions_eq, chunkPositions_eq, List.filter_cons, List.filter_cons]
  exact below ▸ rfl

/-- What lies behind a list moves no cut inside it, and behind a cut the chunker starts afresh. -/
theorem content_defined_chunking_local (a b : List UInt8) :
    (chunkPositions (a ++ b)).filter (· < a.length) = (chunkPositions a).filter (· < a.length) ∧
    (a.length ∈ chunkPositions (a ++ b) →
      chunkPositions (a ++ b) = chunkPositions a ++ ((chunkPositions b).filter (· ≠ 0)).map (a.length + ·) ∧
      ∀ other : List UInt8, other.length ∈ chunkPositions (other ++ b) →
        ((chunkPositions (a ++ b)).filter (a.length ≤ ·)).map (· - a.length) =
          ((chunkPositions (other ++ b)).filter (other.length ≤ ·)).map (· - other.length)) := by
  constructor
  · exact chunkPositions_below a b
  · intro boundary
    constructor
    · exact chunkPositions_append boundary
    · intro other cut
      rw [chunkPositions_behind boundary, chunkPositions_behind cut]

theorem content_defined_chunking_local_one : chunkPositions ([27] ++ [27]) = [0, 1] ++ [1 + 1] := by
  obtain ⟨_, behind⟩ := content_defined_chunking_local [27] [27]
  have joined := (behind (by decide +kernel)).1
  rw [joined]
  decide +kernel

end DedupProof
