import DedupPipeline.Server.RecordOrder
import DedupPipeline.Server.Sha256Hw

namespace DedupModel

/-- The map that is `static` in `dedup`. -/
abbrev ShaChunkIdMap := List UInt8 → Option Int

def ShaChunkIdMap.empty : ShaChunkIdMap := fun _ => none

def oldDedup (shaFingerprint : List UInt8) (shaChunkIdMap : ShaChunkIdMap) (chunkId : Int) :
    Int × ShaChunkIdMap × Int :=
  match shaChunkIdMap shaFingerprint with
  | none => (-1, Function.update shaChunkIdMap shaFingerprint (some chunkId), chunkId + 1)
  | some second => (second, shaChunkIdMap, chunkId)

end DedupModel

namespace DedupProof

open DedupModel FirstSeen Splitter

section Agreement

variable {chunkHashMap : ChunkHashMap} {shaChunkIdMap : ShaChunkIdMap}

theorem IsChunk.inside {file chunk : List UInt8} {bounds : Nat × Nat} (isChunk : IsChunk file bounds chunk) :
    bounds.1 + chunk.length ≤ file.length := by
  have positive := List.length_pos_iff.mpr isChunk.nonempty
  have length := congrArg List.length isChunk.slice.content
  rw [List.length_take, List.length_drop] at length
  omega

end Agreement

section Outlived

/-- Of what the static map has kept from before, the keys in `kept` are not in the other map. -/
structure Outlived (kept : List UInt8 → Prop) (old fresh : ShaChunkIdMap) : Prop where
  stored : ∀ key, kept key → ∃ index : Nat, old key = some (index : Int)
  missing : ∀ key, kept key → fresh key = none
  same : ∀ key, ¬kept key → old key = fresh key

variable {kept : List UInt8 → Prop} {old fresh : ShaChunkIdMap}

theorem Outlived.step (outlived : Outlived kept old fresh) {key : List UInt8} (new : ¬kept key) (index : Int) :
    (oldDedup key old index).1 = (oldDedup key fresh index).1 ∧
      (oldDedup key old index).2.2 = (oldDedup key fresh index).2.2 ∧
      Outlived kept (oldDedup key old index).2.1 (oldDedup key fresh index).2.1 := by
  rw [oldDedup, oldDedup, outlived.same key new]
  cases fresh key with
  | some second => exact ⟨rfl, rfl, outlived⟩
  | none =>
    have apart {other : List UInt8} (known : kept other) : other ≠ key := fun same => new (same ▸ known)
    refine ⟨rfl, rfl, ⟨fun other known => ?_, fun other known => ?_, fun other unknown => ?_⟩⟩
    · obtain ⟨stored, found⟩ := outlived.stored other known
      exact ⟨stored, (Function.update_of_ne (apart known) _ _).trans found⟩
    · exact (Function.update_of_ne (apart known) _ _).trans (outlived.missing other known)
    · show Function.update old key _ other = Function.update fresh key _ other
      by_cases same : other = key
      · rw [same, Function.update_self, Function.update_self]
      · rw [Function.update_of_ne same, Function.update_of_ne same, outlived.same other unknown]

theorem Outlived.register (outlived : Outlived kept old ShaChunkIdMap.empty) (key : List UInt8) (chunkId : Nat) :
    (∃ next : Nat, (oldDedup key old chunkId).2.2 = next) ∧
      Outlived (fun other => other = key ∨ kept other) (oldDedup key old chunkId).2.1 ShaChunkIdMap.empty := by
  by_cases known : kept key
  · obtain ⟨stored, found⟩ := outlived.stored key known
    rw [oldDedup, found]
    have same : (fun other => other = key ∨ kept other) = kept :=
      funext fun other => propext ⟨fun either => either.elim (fun same => same ▸ known) id, Or.inr⟩
    rw [same]
    exact ⟨⟨chunkId, rfl⟩, outlived⟩
  · rw [oldDedup, outlived.same key known]
    refine ⟨⟨chunkId + 1, rfl⟩, ⟨fun other either => ?_, fun _ _ => rfl, fun other neither => ?_⟩⟩
    · show ∃ index : Nat, Function.update old key _ other = _
      by_cases same : other = key
      · rw [same, Function.update_self]
        exact ⟨chunkId, rfl⟩
      · rw [Function.update_of_ne same]
        exact outlived.stored other (either.resolve_left same)
    · rw [not_or] at neither
      exact (Function.update_of_ne neither.1 _ _).trans (outlived.same other neither.2)

end Outlived

end DedupProof
