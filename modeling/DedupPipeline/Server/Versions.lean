import DedupPipeline.Server.Accounting
import DedupPipeline.Server.RecordOrder

namespace DedupProof

open DedupModel FirstSeen BackReference Splitter

def references (file part : List UInt8) : List UInt8 :=
  ((fileChunks part).map fun chunk => rank ((fileChunks file).map chunkHash) (chunkHash chunk)).flatMap
    duplicateRecord

/-- The bytes are a header for each chunk of the part, with the number of its digest in `file` and the bit of a
    duplicate. -/
def Refers (file part bytes : List UInt8) : Prop :=
  ∃ headers, bytes = headers.flatten ∧ List.Forall₂ (fun chunk header =>
    IsHeader header (2 * rank ((fileChunks file).map chunkHash) (chunkHash chunk) + 1)) (fileChunks part) headers

theorem Refers.length {file part bytes : List UInt8} (refers : Refers file part bytes) :
    bytes.length = 4 * (fileChunks part).length := by
  obtain ⟨headers, rfl, related⟩ := refers
  generalize fileChunks part = chunks at related
  induction related with
  | nil => rfl
  | cons isHeader _ ih =>
    rw [List.flatten_cons, List.length_append, isHeader.length, ih, List.length_cons]
    omega

theorem references_refer {file part : List UInt8} (short : file.length < 2 ^ 31)
    (inside : ∀ chunk ∈ fileChunks part, chunk ∈ fileChunks file) : Refers file part (references file part) := by
  refine ⟨_, List.flatMap_def .., ?_⟩
  rw [List.map_map, List.forall₂_map_right_iff, List.forall₂_same]
  intro chunk member
  have numbered := rank_lt (List.mem_map_of_mem (f := chunkHash) (inside chunk member))
  have count := contentChunks_count file
  rw [fileChunks_eq (by omega), List.length_map] at numbered
  refine (isHeader_iff ?_).mpr rfl
  rw [fileChunks_eq (by omega)]
  omega

theorem records_stored (hash : List UInt8 → SHA256Hash) {stored chunks : List (List UInt8)}
    (inside : ∀ chunk ∈ chunks, chunk ∈ stored) (between : List (List UInt8)) :
    (records hash (registerAll [] ((stored ++ between).map hash)) chunks).flatMap recordBytes =
      (chunks.map fun chunk => rank (stored.map hash) (hash chunk)).flatMap duplicateRecord := by
  have known : ∀ chunk ∈ chunks, hash chunk ∈ stored.map hash :=
    fun chunk member => List.mem_map_of_mem (inside chunk member)
  have numbers : ∀ chunk ∈ chunks, number (registerAll [] ((stored ++ between).map hash)) (hash chunk) =
      rank (stored.map hash) (hash chunk) := by
    intro chunk member
    rw [List.map_append, registerAll_append, number_registerAll _ (mem_registerAll_nil.mpr (known chunk member)),
      number_eq_rank (known chunk member)]
  rw [records_known chunks fun chunk member => ?_, List.flatMap_map, List.flatMap_map]
  · refine List.flatMap_congr fun chunk member => ?_
    rw [numbers chunk member]
    rfl
  · rw [List.map_append, mem_registerAll_nil]
    exact List.mem_append_left _ (known chunk member)

theorem recordBytes_length_le (hash : List UInt8 → SHA256Hash) (seen : List SHA256Hash) {chunk : List UInt8}
    (nonempty : chunk ≠ []) : (recordBytes (record hash seen chunk)).length ≤ 4 + longestLzw chunk := by
  by_cases known : hash chunk ∈ seen
  · rw [record_reference known]
    exact Nat.le_add_right 4 _
  · have codes := (lzwCodes_length nonempty).2
    rw [record_fresh known, recordBytes, List.length_append, length_appendUint32Le, lzwBytes_length, longestLzw,
      List.length_nil]
    omega

theorem records_length_le (hash : List UInt8 → SHA256Hash) (seen : List SHA256Hash) {chunks : List (List UInt8)}
    (nonempty : ∀ chunk ∈ chunks, chunk ≠ []) :
    ((records hash seen chunks).flatMap recordBytes).length ≤ 4 * chunks.length + (chunks.map longestLzw).sum := by
  induction chunks generalizing seen with
  | nil => exact Nat.zero_le _
  | cons chunk chunks ih =>
    obtain ⟨first, others⟩ := List.forall_mem_cons.mp nonempty
    have one := recordBytes_length_le hash seen first
    have rest := ih (register seen (hash chunk)) others
    rw [records, List.flatMap_cons, List.length_append, List.length_cons, List.map_cons, List.sum_cons]
    omega

theorem records_edit (hash : List UInt8 → SHA256Hash) {stored before after : List (List UInt8)}
    (kept : ∀ chunk ∈ before, chunk ∈ stored) (resumed : ∀ chunk ∈ after, chunk ∈ stored) (new : List (List UInt8)) :
    (records hash (registerAll [] (stored.map hash)) (before ++ new ++ after)).flatMap recordBytes =
      (before.map fun chunk => rank (stored.map hash) (hash chunk)).flatMap duplicateRecord ++
        (records hash (registerAll [] ((stored ++ before).map hash)) new).flatMap recordBytes ++
        (after.map fun chunk => rank (stored.map hash) (hash chunk)).flatMap duplicateRecord := by
  have front := records_stored hash kept []
  have back := records_stored hash resumed (before ++ new)
  rw [List.append_nil] at front
  rw [records_append, records_append, List.flatMap_append, List.flatMap_append, ← registerAll_append,
    ← registerAll_append, ← List.map_append, ← List.map_append, front, back]

theorem contentChunks_other {a b : List UInt8} (nonempty : b ≠ []) (boundary : a.length ∈ chunkPositions (a ++ b))
    (c : List UInt8) : contentChunks (a ++ c) = contentChunks a ++ contentChunks c :=
  split_append_other nonempty (contentChunks_append boundary) c

section Edit

variable {before old new after : List UInt8}

theorem contentChunks_before
    (versions : (before ++ old ++ after).length ∈ chunkPositions (before ++ old ++ after ++ (before ++ new ++ after)))
    (start : before.length ∈ chunkPositions (before ++ old ++ after)) (other : List UInt8) :
    contentChunks (before ++ other) = contentChunks before ++ contentChunks other := by
  by_cases last : old ++ after = []
  · -- the old version is `before`, and the new version comes behind it
    obtain ⟨rfl, rfl⟩ := List.append_eq_nil_iff.mp last
    rw [List.append_nil, List.append_nil, List.append_nil] at versions
    by_cases nothing : before ++ new = []
    · obtain ⟨rfl, rfl⟩ := List.append_eq_nil_iff.mp nothing
      rfl
    · exact contentChunks_other nothing versions other
  · rw [List.append_assoc] at start
    exact contentChunks_other last start other

/-- Behind a file, an edited version of it costs a header of four bytes for each chunk before and after the edit, and
    the edit no more than its chunks on their own. -/
theorem process_packet_edit (globals globalsOld : EncoderGlobals)
    (short : (before ++ old ++ after ++ (before ++ new ++ after)).length < 70000000)
    (versions : (before ++ old ++ after).length ∈ chunkPositions (before ++ old ++ after ++ (before ++ new ++ after)))
    (start : before.length ∈ chunkPositions (before ++ old ++ after))
    (stop : (before ++ old).length ∈ chunkPositions (before ++ old ++ after))
    (newStop : (before ++ new).length ∈ chunkPositions (before ++ new ++ after)) :
    ∃ front middle back, (processPacket globals (before ++ old ++ after ++ (before ++ new ++ after)) []).outputData =
        (processPacket globalsOld (before ++ old ++ after) []).outputData ++ front ++ middle ++ back ∧
      Refers (before ++ old ++ after) before front ∧ front.length = 4 * (fileChunks before).length ∧
      Refers (before ++ old ++ after) after back ∧ back.length = 4 * (fileChunks after).length ∧
      middle.length ≤ 4 * (fileChunks new).length + ((fileChunks new).map longestLzw).sum := by
  have front := contentChunks_before versions start
  have oldChunks := contentChunks_append stop
  have newChunks := contentChunks_append newStop
  rw [front] at oldChunks newChunks
  have sizes : before.length < 2 ^ 31 ∧ after.length < 2 ^ 31 ∧ new.length < 2 ^ 31 ∧
      (before ++ old ++ after).length < 2 ^ 31 := by
    simp only [List.length_append] at short ⊢
    omega
  have whole := (processPacketWith_records chunkHash globals [] (show
    (before ++ old ++ after ++ (before ++ new ++ after)).length ≤ 2 ^ 31 by omega)).2
  have first := (processPacketWith_records chunkHash globalsOld [] (show
    (before ++ old ++ after).length ≤ 2 ^ 31 by omega)).2
  have kept : ∀ chunk ∈ contentChunks before, chunk ∈ contentChunks (before ++ old ++ after) :=
    fun chunk member => oldChunks ▸ List.mem_append_left _ (List.mem_append_left _ member)
  have resumed : ∀ chunk ∈ contentChunks after, chunk ∈ contentChunks (before ++ old ++ after) :=
    fun chunk member => oldChunks ▸ List.mem_append_right _ member
  have edited := records_edit chunkHash kept resumed (contentChunks new)
  rw [contentChunks_append versions, records_append, List.flatMap_append, newChunks, edited,
    ← List.append_assoc [], ← first, ← List.append_assoc (processPacketWith _ globalsOld _ []).outputData,
    ← List.append_assoc (processPacketWith _ globalsOld _ []).outputData] at whole
  have front : Refers (before ++ old ++ after) before (references (before ++ old ++ after) before) := by
    refine references_refer sizes.2.2.2 ?_
    rwa [fileChunks_eq (by omega), fileChunks_eq (by omega)]
  have back : Refers (before ++ old ++ after) after (references (before ++ old ++ after) after) := by
    refine references_refer sizes.2.2.2 ?_
    rwa [fileChunks_eq (by omega), fileChunks_eq (by omega)]
  let middle := (records chunkHash (registerAll [] ((contentChunks (before ++ old ++ after) ++
    contentChunks before).map chunkHash)) (contentChunks new)).flatMap recordBytes
  refine ⟨_, middle, _, ?_, front, front.length, back, back.length, ?_⟩
  · unfold references
    rw [fileChunks_eq (by omega), fileChunks_eq (by omega), fileChunks_eq (by omega)]
    exact whole
  · rw [fileChunks_eq (by omega)]
    exact records_length_le chunkHash _ fun chunk member => contentChunks_ne_nil member

end Edit

theorem process_packet_edit_middle : ∃ middle,
    (processPacket encoderGlobals ([27] ++ [27] ++ [27] ++ ([27] ++ [5, 158] ++ [27])) []).outputData =
      (processPacket encoderGlobals ([27] ++ [27] ++ [27]) []).outputData ++ [1, 0, 0, 0] ++ middle ++ [1, 0, 0, 0] ∧
    middle.length ≤ 8 := by
  have edit : ∃ front middle back,
      (processPacket encoderGlobals ([27] ++ [27] ++ [27] ++ ([27] ++ [5, 158] ++ [27])) []).outputData =
        (processPacket encoderGlobals ([27] ++ [27] ++ [27]) []).outputData ++ front ++ middle ++ back ∧
      Refers ([27] ++ [27] ++ [27]) [27] front ∧ front.length = 4 * (fileChunks [27]).length ∧
      Refers ([27] ++ [27] ++ [27]) [27] back ∧ back.length = 4 * (fileChunks [27]).length ∧
      middle.length ≤ 4 * (fileChunks [5, 158]).length + ((fileChunks [5, 158]).map longestLzw).sum :=
    process_packet_edit encoderGlobals encoderGlobals (by decide) (by decide +kernel) (by decide +kernel)
      (by decide +kernel) (by decide +kernel)
  have reference {bytes : List UInt8} (refers : Refers ([27] ++ [27] ++ [27]) [27] bytes) : bytes = [1, 0, 0, 0] := by
    have part : fileChunks [27] = [[27]] := by decide +kernel
    have whole : fileChunks ([27] ++ [27] ++ [27]) = [[27], [27], [27]] := by decide +kernel
    have zero : rank ([[27], [27], [27]].map chunkHash) (chunkHash [27]) = 0 := by simp [rank]
    obtain ⟨headers, rfl, related⟩ := refers
    rw [part, whole, List.forall₂_cons_left_iff] at related
    obtain ⟨header, rest, isHeader, nothing, rfl⟩ := related
    rw [zero, isHeader_iff (by decide)] at isHeader
    rw [isHeader, List.forall₂_nil_left_iff.mp nothing]
    rfl
  obtain ⟨front, middle, back, output, refersFront, _, refersBack, _, short⟩ := edit
  have new : fileChunks [5, 158] = [[5, 158]] := by decide +kernel
  rw [reference refersFront, reference refersBack] at output
  rw [new] at short
  exact ⟨middle, output, short⟩

end DedupProof
