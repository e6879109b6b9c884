import DedupPipeline.Library.FirstSeen
import Mathlib.Logic.Function.Basic

namespace DedupModel

abbrev SHA256Hash := Vector UInt8 32

abbrev ChunkHashMap := SHA256Hash → Option Int

def ChunkHashMap.empty : ChunkHashMap := fun _ => none

/-- The result, and the map and the index after the call. -/
def dedup (shaFingerprint : SHA256Hash) (chunkHashMap : ChunkHashMap) (lzwChunkIndex : Int) :
    Int × ChunkHashMap × Int :=
  match chunkHashMap shaFingerprint with
  | none => (-1, Function.update chunkHashMap shaFingerprint (some lzwChunkIndex), lzwChunkIndex + 1)
  | some second => (second, chunkHashMap, lzwChunkIndex)

end DedupModel

namespace DedupProof

open DedupModel FirstSeen

/-- The map numbers the digests in `seen` by their order there, and the index is the next number. -/
structure Numbered (seen : List SHA256Hash) (chunkHashMap : ChunkHashMap) (lzwChunkIndex : Int) : Prop where
  next : lzwChunkIndex = seen.length
  lookup : ∀ digest, chunkHashMap digest = if digest ∈ seen then some (number seen digest : Int) else none

theorem Numbered.empty : Numbered [] ChunkHashMap.empty 0 := ⟨rfl, fun _ => rfl⟩

theorem dedup_known {seen : List SHA256Hash} {chunkHashMap : ChunkHashMap} {lzwChunkIndex : Int}
    (numbered : Numbered seen chunkHashMap lzwChunkIndex) {digest : SHA256Hash} (known : digest ∈ seen) :
    dedup digest chunkHashMap lzwChunkIndex = ((number seen digest : Int), chunkHashMap, lzwChunkIndex) := by
  rw [dedup, numbered.lookup, if_pos known]

theorem dedup_new {seen : List SHA256Hash} {chunkHashMap : ChunkHashMap} {lzwChunkIndex : Int}
    (numbered : Numbered seen chunkHashMap lzwChunkIndex) {digest : SHA256Hash} (new : digest ∉ seen) :
    dedup digest chunkHashMap lzwChunkIndex =
      (-1, Function.update chunkHashMap digest (some lzwChunkIndex), lzwChunkIndex + 1) := by
  rw [dedup, numbered.lookup, if_neg new]

theorem dedup_numbered {seen : List SHA256Hash} {chunkHashMap : ChunkHashMap} {lzwChunkIndex : Int}
    (numbered : Numbered seen chunkHashMap lzwChunkIndex) (digest : SHA256Hash) :
    Numbered (register seen digest) (dedup digest chunkHashMap lzwChunkIndex).2.1
      (dedup digest chunkHashMap lzwChunkIndex).2.2 := by
  by_cases known : digest ∈ seen
  · rwa [dedup_known numbered known, register_known known]
  · rw [dedup_new numbered known, register_new known]
    constructor
    · rw [numbered.next, List.length_append]
      rfl
    · intro other
      show Function.update chunkHashMap digest (some lzwChunkIndex) other = _
      by_cases same : other = digest
      · rw [same, Function.update_self, if_pos (by simp), number_last known, numbered.next]
      · rw [Function.update_of_ne same, numbered.lookup]
        by_cases old : other ∈ seen
        · rw [if_pos old, if_pos (List.mem_append_left _ old), number_append _ old]
        · rw [if_neg old, if_neg (by simpa using ⟨old, same⟩)]

end DedupProof
