import KVOffload.Core.CacheSpec
import KVOffload.Core.HitSpec
import KVOffload.Core.Session
import KVOffload.Lib.Purge

/-!
# Runs of the KV cache manager

Every call of `KVCacheManager` keeps the state sound, whether it returns or raises, and so does every
sequence of calls.
-/

namespace KVOffload.Core

open List

/-- Every group but those of Mamba in align mode, which moves blocks inside its lists. -/
def KVCacheSpec.Plain (spec : KVCacheSpec) : Prop := ∀ k, spec.kind ≠ .mamba .align k

namespace KVCacheManager

variable {cfg : CacheConfig} {s s' : KVCacheManager} {g : Nat} {req : RequestId} {free pins : List BlockId}
  {nullBlock : BlockId}

variable (cfg nullBlock) in
def Kept (s : KVCacheManager) (pins : List BlockId := []) : Prop :=
  s.blockPool.nullBlock = nullBlock ∧ ∃ free, Sound cfg free s pins

abbrev Stays {α : Type} (cfg : CacheConfig) (nullBlock : BlockId) (pins : List BlockId) (x : CacheM α) (s : KVCacheManager) : Prop :=
  wp x (fun _ t => Kept cfg nullBlock t pins) (fun _ t => ∃ free, Sound cfg free t pins) s

variable (cfg nullBlock) in
/-- The hits given to `allocate_slots` are blocks, distinct in each group, and leave room for the external tokens. -/
structure ProperHits (hits : KVCacheBlocks) (total external : Nat) : Prop where
  known : ∀ g < cfg.numGroups, ∀ block ∈ hits g, block < cfg.pool.numGpuBlocks
  distinct : ∀ g < cfg.numGroups, (realBlocks nullBlock (hits g)).Nodup
  fit : ∀ g < cfg.numGroups, HitsFit cfg g (hits g) total external

variable {numTokens total mainModel : Nat} {cap : Bool}

theorem wp_getNumBlocksToAllocate_same (plain : (cfg.spec g).Plain) {hits : List BlockId}
    : wp (getNumBlocksToAllocate cfg g req numTokens hits total mainModel cap) (fun _ t => t = s)
      (fun _ t => t = s) s := by
  have base : ∀ n, wp (baseNumBlocksToAllocate cfg g req n hits total cap) (fun _ t => t = s) (fun _ t => t = s) s := by
    unfold baseNumBlocksToAllocate
    simp only [wp_bind, wp_get]
    split
    · simp
    · simp
  unfold getNumBlocksToAllocate
  split
  · rename_i mode k kind
    simp only [wp_bind, wp_get]
    split
    · simp
    · split
      · exact base _
      · rename_i align
        exact absurd (by rw [kind, not_not.mp align]) (plain k)
  · exact base _

variable {hits : KVCacheBlocks}

theorem wp_totalBlocksToAllocate_same (plain : ∀ g < cfg.numGroups, (cfg.spec g).Plain) :
    wp (totalBlocksToAllocate cfg req numTokens hits total mainModel cap) (fun _ t => t = s) (fun _ t => t = s) s := by
  unfold totalBlocksToAllocate
  rw [wp_bind]
  refine wp_imp (wp_mapM (I := fun t => t = s) (P := fun _ _ => True) ?_ rfl) ?_
  · intro g hm t hs
    subst hs
    exact wp_mono (wp_getNumBlocksToAllocate_same (plain g (mem_range.mp hm))) (fun _ _ hs => ⟨hs, trivial⟩)
      (fun _ _ hs => hs)
  · rintro counts t ⟨hs, -⟩
    exact hs

section

variable (hi : g < cfg.numGroups) (kept : Kept cfg nullBlock s pins)

include hi kept in
theorem kept_getNumBlocksToAllocate {hits : List BlockId} :
    Stays cfg nullBlock pins (getNumBlocksToAllocate cfg g req numTokens hits total mainModel cap) s := by
  by_cases plain : (cfg.spec g).Plain
  · exact wp_mono (wp_getNumBlocksToAllocate_same plain) (fun _ _ hs => hs ▸ kept) (fun _ _ hs => hs ▸ kept.2)
  obtain ⟨k, align⟩ : ∃ k, (cfg.spec g).kind = .mamba .align k := by
    simpa [KVCacheSpec.Plain] using plain
  obtain ⟨null, free, sound⟩ := kept
  unfold getNumBlocksToAllocate
  rw [align]
  simp only [wp_bind, wp_get]
  split
  · exact ⟨null, free, sound⟩
  · exact ⟨null, free, sound.entered hi req⟩

variable (kept : Kept cfg nullBlock s pins)

include kept in
theorem kept_totalBlocksToAllocate
    : Stays cfg nullBlock pins (totalBlocksToAllocate cfg req numTokens hits total mainModel cap) s := by
  unfold totalBlocksToAllocate
  rw [Stays, wp_bind]
  refine wp_imp (wp_mapM (I := fun t => Kept cfg nullBlock t pins) (P := fun _ _ => True) ?_ kept) ?_
  · intro g hm t sofar
    exact wp_mono (kept_getNumBlocksToAllocate (mem_range.mp hm) sofar) (fun _ _ done => ⟨done, trivial⟩)
      (fun _ _ failed => failed)
  · intro counts t done
    exact done.1

include hi kept in
theorem kept_managerFree : Stays cfg nullBlock pins (managerFree g req) s := by
  obtain ⟨null, free, sound⟩ := kept
  apply wp_managerFree sound hi
  intro s' released _ releases _
  exact ⟨releases.frame.nullBlock.trans null, _, releases.sound⟩

include kept in
theorem kept_free : Stays cfg nullBlock pins (KVCacheManager.free cfg req) s :=
  wp_forM (fun _ hm _ sofar => kept_managerFree (mem_range.mp hm) sofar) kept

include hi kept in
theorem kept_freeLastState (n : Nat) : Stays cfg nullBlock pins (freeLastState cfg g req n) s := by
  obtain ⟨null, free, sound⟩ := kept
  have entered := sound.entered hi req
  have listed : (setBlocks g req (s.blocks g req) s).blocks g req = s.blocks g req := by simp
  have pools : (setBlocks g req (s.blocks g req) s).blockPool = s.blockPool := rfl
  unfold freeLastState
  simp only [wp_bind, wp_get]
  split
  · exact ⟨null, free, sound⟩
  rename_i idx _
  simp only [wp_onlyIf, wp_bind, wp_reqBlocks]
  refine ⟨fun _ => ?_, fun _ => ⟨null, free, sound⟩⟩
  generalize setBlocks g req (s.blocks g req) s = start at entered listed pools
  rw [← listed]
  split
  · exact ⟨free, entered⟩
  rename_i block hf
  simp only [wp_onlyIf, wp_bind]
  refine ⟨fun _ => ?_, fun _ => ⟨pools ▸ null, free, entered⟩⟩
  have frame : Frame (· = g) req start
      (setBlocks g req ((start.blocks g req).set idx start.blockPool.nullBlock) start) :=
    ⟨fun g' r other => by rw [blocks_setBlocks, if_neg other], fun g' r _ => numCached_setBlocks _ g' r, rfl⟩
  have released : wp (onPool (BlockPool.freeBlocks [block])) (fun _ t => Kept cfg nullBlock t pins) (fun _ _ => False)
      (setBlocks g req ((start.blocks g req).set idx start.blockPool.nullBlock) start) := by
    refine wp_release entered (blockPool_setBlocks _) frame ?_ (blocks_setBlocks_self _)
      ((nodup_singleton block).filter _) ?_ ?_
    · intro other real
      have moved := held_setBlocks start req hi ((start.blocks g req).set idx start.blockPool.nullBlock) other
      have taken := count_set_null real (start.blocks g req) idx
      rw [hf] at taken
      simp only [Option.some.injEq] at taken
      simp only [addHeld, count_singleton, beq_iff_eq]
      omega
    · intro g' hi' r
      rw [blocks_setBlocks]
      split
      · refine nodup_of_count_le (fun other real => ?_) (entered.distinct g hi req)
        have taken := count_set_null real (start.blocks g req) idx
        omega
      · exact entered.distinct g' hi' r
    · intro s' released _ releases _
      exact ⟨releases.frame.nullBlock.trans (pools ▸ null), _, releases.sound⟩
  rw [wp_onPool] at released ⊢
  exact wp_mono released (fun _ _ kept => kept) (fun _ _ never => never.elim)

include hi kept in
theorem kept_managerRemoveSkippedBlocks (n : Nat) : Stays cfg nullBlock pins (managerRemoveSkippedBlocks cfg g req n) s := by
  obtain ⟨null, free, sound⟩ := kept
  have base : ∀ n, Stays cfg nullBlock pins (baseRemoveSkippedBlocks cfg g req n) s := by
    intro n
    apply wp_baseRemoveSkippedBlocks sound hi
    intro s' released _ releases _
    exact ⟨releases.frame.nullBlock.trans null, _, releases.sound⟩
  unfold managerRemoveSkippedBlocks
  split
  · rw [Stays, wp_bind]
    refine wp_mono (base _) (fun _ t sofar => ?_) (fun _ _ failed => failed)
    rw [wp_onlyIf]
    exact ⟨fun _ => kept_freeLastState hi sofar _, fun _ => sofar⟩
  · exact base n

include kept in
theorem kept_removeSkippedBlocks (n : Nat) :
    Stays cfg nullBlock pins (removeSkippedBlocks cfg req n) s :=
  wp_forM (fun _ hm _ sofar => kept_managerRemoveSkippedBlocks (mem_range.mp hm) sofar n) kept

include hi kept in
theorem kept_managerCacheBlocks (req : Request) (n : Nat)
    (alignment : Option Nat) : Stays cfg nullBlock pins (managerCacheBlocks cfg g req n alignment) s := by
  obtain ⟨null, free, sound⟩ := kept
  apply wp_managerCacheBlocks sound hi
  · intro s' caches _
    exact ⟨caches.frame.nullBlock.trans null, _, caches.sound⟩
  · intro e s' caches
    exact ⟨_, caches.sound⟩

include kept in
theorem kept_coordinatorCacheBlocks (req : Request) (n : Nat) :
    Stays cfg nullBlock pins (coordinatorCacheBlocks cfg req n) s := by
  unfold coordinatorCacheBlocks
  split
  · exact wp_forM (fun g hm _ sofar => kept_managerCacheBlocks (mem_range.mp hm) sofar req _ _) kept
  · exact wp_forM (fun g hm _ sofar => kept_managerCacheBlocks (mem_range.mp hm) sofar req _ _) kept

theorem kept_allocateNewComputedBlocks (hi : g < cfg.numGroups) {localTokens external : Nat}
    (proper : ProperHits cfg nullBlock hits (localTokens + external) external) (kept : Kept cfg nullBlock s pins) :
    Stays cfg nullBlock pins (allocateNewComputedBlocks cfg g req (hits g) localTokens external) s := by
  obtain ⟨null, free, sound⟩ := kept
  subst null
  apply wp_allocateNewComputedBlocks sound hi (proper.known g hi) (proper.distinct g hi) rfl (proper.fit g hi)
  · exact fun _ _ => ⟨rfl, free, sound⟩
  · intro _ _ _ s' sound' computes
    exact ⟨computes.frame.nullBlock, _, sound'⟩
  · exact fun _ _ free' _ sound' => ⟨free', sound'⟩

theorem length_alignList_lt (nullBlock : BlockId) (k : Nat) {required : Nat} {blocks : List BlockId}
    (grows : blocks.length < required) (again : Bool) :
    (if again then reuseSpeculative nullBlock (required - k - 1) (range' (blocks.length - k) k)
      (blocks ++ replicate (required - k - 1 - blocks.length) nullBlock)
      else blocks ++ replicate (required - k - 1 - blocks.length) nullBlock).length < required := by
  have longest := length_reuseSpeculative nullBlock (required - k - 1) (blocks.length - k) k
    (blocks ++ replicate (required - k - 1 - blocks.length) nullBlock)
  rw [length_append, length_replicate] at longest
  split
  · omega
  · rw [length_append, length_replicate]
    omega

theorem count_alignList {block : BlockId} (real : block ≠ nullBlock) (k numSkipped n : Nat) (blocks : List BlockId)
    (again : Bool) :
    (if again then reuseSpeculative nullBlock numSkipped (range' (blocks.length - k) k) (blocks ++ replicate n nullBlock)
      else blocks ++ replicate n nullBlock).count block = blocks.count block := by
  have padded : (blocks ++ replicate n nullBlock).count block = blocks.count block := by
    rw [count_append, count_eq_zero.mpr fun hm => real (eq_of_mem_replicate hm), add_zero]
  split
  · rw [count_reuseSpeculative real, padded]
  · exact padded

include hi kept in
theorem kept_alignAllocateNewBlocks (k mainModel : Nat) :
    Stays cfg nullBlock pins (alignAllocateNewBlocks cfg g req k mainModel) s := by
  obtain ⟨null, free, sound⟩ := kept
  have entered := sound.entered hi req
  have listed : (setBlocks g req (s.blocks g req) s).blocks g req = s.blocks g req := by simp
  have pools : (setBlocks g req (s.blocks g req) s).blockPool = s.blockPool := rfl
  unfold alignAllocateNewBlocks
  simp only [wp_bind, wp_reqBlocks]
  generalize setBlocks g req (s.blocks g req) s = start at entered listed pools
  split
  · exact ⟨pools ▸ null, free, entered⟩
  simp only [wp_bind, wp_ensure, wp_get]
  refine ⟨fun grows => ?_, fun _ => ⟨free, entered⟩⟩
  have shorter := length_alignList_lt start.blockPool.nullBlock k grows
    ((start.groups g).allocatedBlockReqs req)
  have moved : ∀ block, block ≠ start.blockPool.nullBlock → _ := fun block real => count_alignList real k
    (cdiv mainModel (cfg.spec g).blockSize + k - k - 1)
    (cdiv mainModel (cfg.spec g).blockSize + k - k - 1 - (s.blocks g req).length) (s.blocks g req)
    ((start.groups g).allocatedBlockReqs req)
  revert shorter moved
  generalize (if (start.groups g).allocatedBlockReqs req = true then _ else _ : List BlockId) = list
  intro shorter moved
  -- What is recorded of the last state does not matter for the rest of the call.
  have rest : ∀ t, Sound cfg free t pins → t.blocks g req = s.blocks g req → t.blockPool = s.blockPool → wp (do
      modify (setBlocks g req list)
      ensure (((cdiv mainModel (cfg.spec g).blockSize + k : Nat) : Int) - list.length ≤
        if (start.groups g).allocatedBlockReqs req then (1 : Int) else (k : Int) + 1)
        (.tooManyNewBlocks (((cdiv mainModel (cfg.spec g).blockSize + k : Nat) : Int) - list.length))
      let newBlocks ← onPool (BlockPool.getNewBlocks cfg.pool
        (((cdiv mainModel (cfg.spec g).blockSize + k : Nat) : Int) - list.length))
      modify (setBlocks g req (list ++ newBlocks))
      modify (setAllocated g req true)
      return (list ++ newBlocks).drop (s.blocks g req).length) (fun _ t => Kept cfg nullBlock t pins)
      (fun _ t => ∃ free, Sound cfg free t pins) t := by
    intro t sound' listed' pools'
    have settled : Sound cfg free (setBlocks g req list t) pins := sound'.rearranged hi fun block real => by
      rw [listed']
      exact moved block (by rwa [pools, ← pools'])
    have number : ((cdiv mainModel (cfg.spec g).blockSize + k : Nat) : Int) - list.length =
        ((cdiv mainModel (cfg.spec g).blockSize + k - list.length : Nat) : Int) := by omega
    simp only [wp_bind, wp_ensure]
    refine ⟨fun _ => ?_, fun _ => ⟨free, settled⟩⟩
    rw [number]
    apply wp_extend settled hi req
    · intro _ pool grown takes
      rw [blocks_setBlocks_self] at grown takes
      exact ⟨takes.frame.nullBlock.trans (by rw [blockPool_setBlocks, pools', null]), _, grown.onGroup hi _ rfl⟩
    · exact fun _ => ⟨free, settled⟩
  rw [wp_onlyIf]
  constructor
  · intro _
    unfold setLastState
    simpa using
      rest _ (entered.onGroup hi _ rfl) (by rw [← listed]; exact blocks_onGroup _ rfl g req) pools
  · intro _
    simpa using rest _ entered listed pools

include hi kept in
theorem kept_allocateNewBlocks (numTokens mainModel : Nat) :
    Stays cfg nullBlock pins (allocateNewBlocks cfg g req numTokens mainModel) s := by
  obtain ⟨null, free, sound⟩ := kept
  have base : ∀ n, Stays cfg nullBlock pins (baseAllocateNewBlocks cfg g req n) s := by
    intro n
    apply wp_baseAllocateNewBlocks sound hi rfl
    · intro _ s' sound' takes
      exact ⟨takes.frame.nullBlock.trans null, _, sound'⟩
    · exact fun _ _ _ sound' => ⟨free, sound'⟩
  unfold allocateNewBlocks
  split
  · split
    · exact base _
    · exact kept_alignAllocateNewBlocks hi ⟨null, free, sound⟩ _ _
  · exact base _

end

variable {req : Request} {args : SlotArgs}

section

variable (proper : ProperHits cfg nullBlock args.newComputedBlocks (args.allComputedTokens req) args.numExternalComputedTokens)
  (kept : Kept cfg nullBlock s pins)

include proper kept

theorem kept_takeSlots : Stays cfg nullBlock pins (takeSlots cfg req args) s := by
  unfold takeSlots
  simp only [wp_bind, wp_onlyIf]
  have rest : ∀ t, Kept cfg nullBlock t pins → Stays cfg nullBlock pins ((groupIds cfg).mapM fun g =>
      allocateNewBlocks cfg g req.requestId (args.numTokensNeedSlot cfg req) (args.numTokensMainModel cfg req)) t := by
    intro t sofar
    refine wp_mono (wp_mapM (I := fun t => Kept cfg nullBlock t pins) (P := fun _ _ => True) ?_ sofar) (fun _ _ done => done.1)
      (fun _ _ failed => failed)
    intro g hm u sofar'
    exact wp_mono (kept_allocateNewBlocks (mem_range.mp hm) sofar' _ _)
      (fun _ _ done => ⟨done, trivial⟩) (fun _ _ failed => failed)
  refine ⟨fun _ => ?_, fun _ => rest s kept⟩
  refine wp_mono (wp_forM (I := fun t => Kept cfg nullBlock t pins) ?_ kept) (fun _ t sofar => rest t sofar) (fun _ _ failed => failed)
  intro g hm t sofar
  exact kept_allocateNewComputedBlocks (mem_range.mp hm) proper sofar

theorem kept_allocateSlots : Stays cfg nullBlock pins (allocateSlots cfg req args) s := by
  have fits : Stays cfg nullBlock pins (fullSequenceFits cfg req args) s := by
    unfold fullSequenceFits
    split
    · simpa using kept
    · simp only [wp_bind]
      exact kept_totalBlocksToAllocate kept
  unfold allocateSlots
  simp only [wp_bind, wp_ensure]
  refine ⟨fun _ => ?_, fun _ => kept.2⟩
  refine wp_imp fits ?_
  intro fit t asked
  split
  · simpa using asked
  simp only [wp_bind, wp_get]
  refine wp_imp (kept_removeSkippedBlocks asked _) ?_
  intro _ u sofar
  refine wp_imp (kept_totalBlocksToAllocate sofar) ?_
  intro needed v counted
  split
  · simpa using counted
  · simp only [wp_bind]
    refine wp_imp (kept_takeSlots proper counted) ?_
    intro _ w taken
    unfold cacheSlots
    rw [wp_onlyIf]
    exact ⟨fun _ => kept_coordinatorCacheBlocks taken req _, fun _ => taken⟩

end

theorem kept_evictBlocks (kept : Kept cfg nullBlock s pins) (blockIds : List BlockId) :
    Stays cfg nullBlock pins (evictBlocks cfg blockIds) s := by
  obtain ⟨null, free, sound⟩ := kept
  have after : ∀ pool, BlockPool.Evicts cfg.pool s.blockPool pool → Sound cfg free (s.withPool pool) pins := fun pool evicts =>
    ⟨evicts.same.poolInv sound.pool evicts.cache, fun g hi r => by
      rw [blockPool_withPool, evicts.same.nullBlock]
      exact sound.distinct g hi r⟩
  unfold evictBlocks
  rw [Stays, wp_onPool]
  refine wp_mono (BlockPool.wp_evictBlocks sound.pool.cache blockIds) ?_ ?_
  · exact fun _ pool evicts => ⟨evicts.same.nullBlock.trans null, free, after pool evicts⟩
  · exact fun _ pool evicts => ⟨free, after pool evicts⟩

theorem kept_resetPrefixCache (kept : Kept cfg nullBlock s pins) : Stays cfg nullBlock pins (resetPrefixCache cfg) s := by
  obtain ⟨null, free, sound⟩ := kept
  unfold resetPrefixCache
  rw [Stays, wp_onPool]
  apply BlockPool.wp_resetPrefixCache sound.pool.cache
  · exact ⟨null, free, sound⟩
  · intro pool hs cache _
    refine ⟨hs.nullBlock.trans null, free, hs.poolInv sound.pool cache, fun g hi r => ?_⟩
    rw [blockPool_withPool, hs.nullBlock]
    exact sound.distinct g hi r

/-- The calls of a client. `newRequest` is `get_computed_blocks` followed by `allocate_slots` with its result; `allocate` is
`allocate_slots` for a request that runs already. -/
inductive Call where
  | newRequest (req : Request) (args : SlotArgs)
  | allocate (req : Request) (args : SlotArgs)
  | free (req : RequestId)
  | removeSkippedBlocks (req : RequestId) (totalComputedTokens : Nat)
  | cacheBlocks (req : Request) (numComputedTokens : Nat)
  | evictBlocks (blockIds : List BlockId)
  | resetPrefixCache

def withHits (args : SlotArgs) (hits : KVCacheBlocks) (numTokens : Nat) : SlotArgs :=
  { args with newComputedBlocks := hits, numNewComputedTokens := numTokens }

def Call.exec (cfg : CacheConfig) : Call → CacheM Unit
  | .newRequest req args => do
    match getComputedBlocks cfg (← get) req with
    | none => throw .unsupportedLookup
    | some (hits, numTokens) => discard (allocateSlots cfg req (withHits args hits numTokens))
  | .allocate req args => discard (allocateSlots cfg req (withHits args (fun _ => []) 0))
  | .free req => KVCacheManager.free cfg req
  | .removeSkippedBlocks req totalComputedTokens => KVCacheManager.removeSkippedBlocks cfg req totalComputedTokens
  | .cacheBlocks req numComputedTokens => KVCacheManager.cacheBlocks cfg req numComputedTokens
  | .evictBlocks blockIds => KVCacheManager.evictBlocks cfg blockIds
  | .resetPrefixCache => discard (KVCacheManager.resetPrefixCache cfg)

variable (cfg req args) in
def Room : Prop :=
  args.numExternalComputedTokens = 0 ∨ ∀ g < cfg.numGroups,
    HitsFit cfg g (args.newComputedBlocks g) (args.allComputedTokens req) args.numExternalComputedTokens

variable (cfg s) in
def Call.Lawful : Call → Prop
  | .newRequest req args => req.Hashed cfg.pool.scheme ∧
    ∀ hits numTokens, getComputedBlocks cfg s req = some (hits, numTokens) → Room cfg req (withHits args hits numTokens)
  | .allocate req args => Room cfg req (withHits args (fun _ => []) 0)
  | _ => True

def LawfulRun (cfg : CacheConfig) : List Call → KVCacheManager → Prop
  | [], _ => True
  | call :: rest, s => call.Lawful cfg s ∧ LawfulRun cfg rest (finalState (call.exec cfg) s)

theorem Room.fit (room : Room cfg req args) (g : Nat) (hi : g < cfg.numGroups) :
    HitsFit cfg g (args.newComputedBlocks g) (args.allComputedTokens req) args.numExternalComputedTokens := by
  rcases room with none | fits
  · rw [none]
    exact hitsFit_zero _ _
  · exact fits g hi

section

variable (valid : cfg.Valid) (ideal : cfg.pool.scheme.Ideal) (sound : Sound cfg free s pins)
  (hashed : req.Hashed cfg.pool.scheme) (hf : getComputedBlocks cfg s req = some (hits, numTokens))

include valid ideal sound hashed hf

theorem getComputedBlocks_distinct (hi : g < cfg.numGroups) :
    (∀ block ∈ hits g, block < cfg.pool.numGpuBlocks) ∧ (realBlocks s.blockPool.nullBlock (hits g)).Nodup := by
  unfold getComputedBlocks at hf
  split at hf
  · cases hf
    simp [realBlocks]
  · rename_i reads
    have caching : cfg.pool.enableCaching = true := by
      by_contra off
      exact reads (.inl off)
    have at_ := hitsAt_coordinatorHit valid hf g
    refine ⟨fun block hm => at_.known sound.pool.cache sound.pool.nullInside hm, ?_⟩
    exact at_.nodup sound.pool.cache (nodup_hashesAt_of_made ideal (fun _ hm => hashed.made hm) (hashed.nodup ideal) (valid.blockSize_pos g hi) valid.hashBlockSize_pos
      (valid.divisible caching g hi))

end

section

variable (valid : cfg.Valid) (ideal : cfg.pool.scheme.Ideal)

include valid ideal

theorem kept_exec (kept : Kept cfg s.blockPool.nullBlock s pins) {call : Call}
    (lawful : call.Lawful cfg s) : wp (call.exec cfg) (fun _ t => Kept cfg s.blockPool.nullBlock t pins)
      (fun _ t => ∃ free, Sound cfg free t pins) s := by
  cases call with
  | newRequest req args =>
    obtain ⟨hashed, room⟩ := lawful
    obtain ⟨-, free, sound⟩ := kept
    unfold Call.exec
    simp only [wp_bind, wp_get]
    split
    · exact ⟨free, sound⟩
    · rename_i hits numTokens hf
      have distinct {g} (hi : g < cfg.numGroups) := getComputedBlocks_distinct valid ideal sound hashed hf hi
      rw [wp_discard]
      exact kept_allocateSlots ⟨fun _ hi => (distinct hi).1, fun _ hi => (distinct hi).2, (room hits numTokens hf).fit⟩ ⟨rfl, free, sound⟩
  | allocate req args =>
    unfold Call.exec
    rw [wp_discard]
    refine kept_allocateSlots ?_ kept
    exact ⟨by simp [withHits], by simp [withHits, realBlocks], lawful.fit⟩
  | free req => exact kept_free kept
  | removeSkippedBlocks req n => exact kept_removeSkippedBlocks kept n
  | cacheBlocks req n =>
    unfold Call.exec KVCacheManager.cacheBlocks
    rw [wp_onlyIf]
    exact ⟨fun _ => kept_coordinatorCacheBlocks kept req n, fun _ => kept⟩
  | evictBlocks blockIds => exact kept_evictBlocks kept blockIds
  | resetPrefixCache =>
    unfold Call.exec
    rw [wp_discard]
    exact kept_resetPrefixCache kept

theorem sound_run {calls : List Call} (sound : ∃ free, Sound cfg free s pins) (lawful : LawfulRun cfg calls s) :
    ∃ free, Sound cfg free (runPast (Call.exec cfg) calls s) pins := by
  induction calls generalizing s with
  | nil => exact sound
  | cons call rest ih =>
    have next := (wp_outcome (P := fun _ t => ∃ free, Sound cfg free t pins)).mp (wp_mono
        (kept_exec valid ideal ⟨rfl, sound⟩ lawful.1) (fun _ _ kept => kept.2) fun _ _ failed => failed)
    exact ih next lawful.2

end

theorem sound_init (made : init cfg = .ok s) : ∃ free, Sound cfg free s := by
  unfold init at made
  split at made
  · rename_i pool start
    cases made
    obtain ⟨free, inv⟩ := BlockPool.poolInv_init start
    refine ⟨free, inv.congr fun block _ => ?_, fun g _ r => ?_⟩
    · simp [held, GroupState.held, OrderedDict.values, OrderedDict.empty]
    · simp [blocks, GroupState.blocks, realBlocks]
  · cases made

variable (cfg s) in
/-- The free list, the reference counts and the map of hashes agree with the lists of the requests. -/
structure PoolInvariant : Prop where
  freeList : ∃ free, s.blockPool.freeBlockQueue.Represents free ∧ ∀ block, block ∈ free ↔
    block < cfg.pool.numGpuBlocks ∧ block ≠ s.blockPool.nullBlock ∧ s.blockPool.refCnt block = 0
  references : ∀ block, block ≠ s.blockPool.nullBlock → s.blockPool.refCnt block = held cfg s block
  hashes : ∀ block, block ≠ s.blockPool.nullBlock → ∀ hash, s.blockPool.blockHash block = some hash ↔
    s.blockPool.cachedBlockHashToBlock.Stores hash block
  noneEmpty : s.blockPool.cachedBlockHashToBlock.NoneEmpty

theorem Sound.poolInvariant (sound : Sound cfg free s) : PoolInvariant cfg s where
  freeList := ⟨free, sound.pool.queue, sound.pool.free_iff⟩
  references := sound.counts.refs
  hashes block _ hash := sound.pool.cache.hash_iff block hash
  noneEmpty := sound.pool.cache.noneEmpty

noncomputable def windowedConfig (numGpuBlocks : Nat) : CacheConfig where
  pool := { numGpuBlocks, hashBlockSize := 4, scheme := unaryScheme }
  maxModelLen := 64
  maxNumBatchedTokens := 64
  numGroups := 2
  spec g := if g = 0 then ⟨4, .fullAttention, 0⟩ else ⟨4, .slidingWindow 5, 0⟩

theorem windowedConfig_valid (numGpuBlocks : Nat) : (windowedConfig numGpuBlocks).Valid where
  blockSize_pos g _ := by
    simp only [windowedConfig]
    split <;> decide
  hashBlockSize_pos := Nat.succ_pos 3
  divisible _ g _ := by
    simp only [windowedConfig]
    split <;> rfl
  unitary _ one := by cases one
  hybrid _ _ := Nat.lt_succ_self 1

theorem windowedConfig_plain (numGpuBlocks g : Nat) : ((windowedConfig numGpuBlocks).spec g).Plain := by
  intro k
  simp only [windowedConfig]
  split <;> simp

end KVCacheManager

end KVOffload.Core
