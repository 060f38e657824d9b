import KVOffload.Core.SlotCheck
import KVOffload.Core.WindowRun

/-!
# One request alone

Every block but the null block is free or in one list of the request, so the free blocks are counted by the lengths of these
lists.
-/

namespace KVOffload.Core

open List Option KVCacheManager SlotArgs

/-- Full attention, a window or chunks: the layers of a model without states. -/
inductive SpecKind.Attention : SpecKind → Prop where
  | fullAttention : Attention .fullAttention
  | slidingWindow (window : Nat) (positive : 0 < window) : Attention (.slidingWindow window)
  | chunkedLocalAttention (size : Nat) (positive : 0 < size) : Attention (.chunkedLocalAttention size)

variable {spec : KVCacheSpec}

theorem SpecKind.Attention.plain (attention : spec.kind.Attention) : spec.Plain := by
  intro k align
  rw [align] at attention
  cases attention

theorem SpecKind.Attention.window (attention : spec.kind.Attention) : spec.kind ≠ .slidingWindow 0 := by
  intro zero
  rw [zero] at attention
  cases attention with
  | slidingWindow _ hp => exact lt_irrefl 0 hp

variable {n d : Nat}

theorem cdiv_mul_ge (hp : 0 < d) : n ≤ cdiv n d * d := by
  unfold cdiv
  have split := Nat.div_add_mod (n + d - 1) d
  have small := Nat.mod_lt (n + d - 1) hp
  rw [mul_comm] at split
  omega

theorem cdiv_zero (hp : 0 < d) : cdiv 0 d = 0 := Nat.div_eq_of_lt (by omega)

theorem cdiv_mono {m : Nat} (d : Nat) (le : m ≤ n) : cdiv m d ≤ cdiv n d :=
  Nat.div_le_div_right (by omega)

theorem div_le_cdiv (hp : 0 < d) : n / d ≤ cdiv n d := Nat.div_le_div_right (by omega)

theorem numSkippedBlocks_le_cdiv (attention : spec.kind.Attention) (hp : 0 < spec.blockSize) (n : Nat) :
    numSkippedBlocks spec n ≤ cdiv n spec.blockSize :=
  numSkippedBlocks_le attention.window (cdiv_mul_ge hp)

/-! ### Hashing does not fail -/

variable {block : BlockId}

namespace BlockPool

variable {cfg : PoolConfig} {pool : BlockPool}

variable {mask : Option (List Bool)} {newBlockHashes : List Bytes}

theorem wp_cacheFullBlock_total {group i : Nat}
    (bare : block ≠ pool.nullBlock → pool.blockHash block = none) (hi : i < newBlockHashes.length) :
    wp (cacheFullBlock newBlockHashes group mask i block) (fun _ pool' => pool'.nullBlock = pool.nullBlock ∧
      ∀ other, (other ≠ block ∨ block = pool.nullBlock) → pool'.blockHash other = pool.blockHash other) (fun _ _ => False) pool := by
  unfold cacheFullBlock
  rw [wp_bind, wp_get]
  split
  · exact ⟨rfl, fun _ _ => rfl⟩
  · rename_i chosen
    have real : block ≠ pool.nullBlock := fun null => chosen (.inl (by simp [isNull, null]))
    rw [wp_bind, wp_ensure]
    refine ⟨fun _ => ?_, fun hashed => hashed (bare real)⟩
    rw [getElem?_eq_getElem hi]
    refine ⟨rfl, fun other apart => ?_⟩
    have different := apart.resolve_right real
    simp [setHash, setCached, different]

theorem wp_cacheEach_total {group : Nat} {entries : List (BlockId × Nat)}
    (hd : (realBlocks pool.nullBlock (entries.map Prod.fst)).Nodup)
    (bare : ∀ entry ∈ entries, entry.1 ≠ pool.nullBlock → pool.blockHash entry.1 = none)
    (hi : ∀ entry ∈ entries, entry.2 < newBlockHashes.length) :
    wp (entries.mapM fun entry => cacheFullBlock newBlockHashes group mask entry.2 entry.1) (fun _ _ => True)
      (fun _ _ => False) pool := by
  induction entries generalizing pool with
  | nil => simp
  | cons entry entries ih =>
    obtain ⟨bare_first, bare_rest⟩ := forall_mem_cons.mp bare
    obtain ⟨inside_first, inside_rest⟩ := forall_mem_cons.mp hi
    rw [mapM_cons, wp_bind]
    refine wp_imp (wp_cacheFullBlock_total bare_first inside_first) ?_
    rintro _ pool' ⟨null, hashes⟩
    rw [wp_bind]
    rw [map_cons] at hd
    refine wp_mono (ih ?_ ?_ inside_rest) (fun _ _ _ => by simp) (fun _ _ never => never)
    · rw [null]
      unfold realBlocks at hd ⊢
      rw [filter_cons] at hd
      split at hd
      · exact (nodup_cons.mp hd).2
      · exact hd
    intro later hm real
    rw [null] at real
    rw [hashes, bare_rest later hm real]
    -- A later entry is another block.
    by_cases first : entry.1 = pool.nullBlock
    · exact .inr first
    · refine .inl fun hs => ?_
      unfold realBlocks at hd
      rw [filter_cons, if_pos (by simpa using first)] at hd
      apply (nodup_cons.mp hd).1
      rw [← hs]
      exact mem_filter.mpr ⟨mem_map_of_mem hm, by simpa using real⟩

theorem wp_cacheFullBlocks_total {req : Request} {blocks : List BlockId} {numCachedBlocks numFullBlocks blockSize group : Nat}
    (hd : (realBlocks pool.nullBlock blocks).Nodup)
    (bare : ∀ i block, numCachedBlocks ≤ i → blocks[i]? = some block → block ≠ pool.nullBlock → pool.blockHash block = none)
    (hashed : numFullBlocks ≤ req.blockHashes.length)
    (scaled : numFullBlocks ≤ (hashesAt cfg.hashBlockSize req.blockHashes blockSize).length)
    (masked : mask.all fun mask => mask.length = numFullBlocks - numCachedBlocks) (listed : numFullBlocks ≤ blocks.length)
    (multiple : blockSize % cfg.hashBlockSize = 0) :
    wp (cacheFullBlocks cfg req blocks numCachedBlocks numFullBlocks blockSize group mask) (fun _ _ => True)
      (fun _ _ => False) pool := by
  unfold cacheFullBlocks
  split
  · trivial
  have length : (slice blocks numCachedBlocks numFullBlocks).length = numFullBlocks - numCachedBlocks := by
    rw [slice, length_drop, length_take]
    omega
  simp only [wp_bind, wp_ensure]
  refine ⟨fun _ => ⟨fun _ => ⟨fun _ => ?_, fun wrong => wrong (.inr multiple)⟩, fun wrong => wrong (by rwa [length])⟩,
    fun wrong => wrong hashed⟩
  refine wp_imp (wp_cacheEach_total ?_ ?_ ?_) ?_
  · rw [zipIdx_map_fst]
    exact hd.sublist (((drop_sublist _ _).trans (take_sublist _ _)).filter _)
  · rintro ⟨block, i⟩ hm real
    have at_ := mem_zipIdx_iff_getElem?.mp hm
    have hi : numCachedBlocks + i < numFullBlocks := by
      have := (List.getElem?_eq_some_iff.mp at_).1
      omega
    rw [slice, getElem?_drop, getElem?_take_of_lt hi] at at_
    exact bare _ block (Nat.le_add_right _ _) at_ real
  · rintro ⟨block, i⟩ hm
    have at_ := mem_zipIdx_iff_getElem?.mp hm
    have := (List.getElem?_eq_some_iff.mp at_).1
    rw [length_drop]
    omega
  · intro hashes pool' _
    rw [wp_onlyIf]
    refine ⟨fun _ => ?_, fun _ => trivial⟩
    unfold emitBlockStored
    rw [wp_bind, wp_ensure]
    exact ⟨fun _ => trivial, fun wrong => wrong listed⟩

end BlockPool

theorem length_hashesAt {hashBlockSize blockSize : Nat} {blockHashes : List Bytes} (smaller : 0 < hashBlockSize)
    (hp : 0 < blockSize) (multiple : blockSize % hashBlockSize = 0) (length : blockHashes.length = n / hashBlockSize) :
    (hashesAt hashBlockSize blockHashes blockSize).length = n / blockSize := by
  unfold hashesAt
  split
  · rename_i hs
    rw [length, hs]
  · obtain ⟨scale, rfl⟩ := Nat.dvd_of_mod_eq_zero multiple
    rw [blockHashListWithBlockSize, length_map, length_range, length, Nat.mul_div_cancel_left _ smaller, Nat.div_div_eq_div_mul]

abbrev CacheConfig.AllAttention (cfg : CacheConfig) : Prop := ∀ g < cfg.numGroups, (cfg.spec g).kind.Attention

namespace KVCacheManager

variable {cfg : CacheConfig} {s t : KVCacheManager} {g : Nat} {req : RequestId} {free : List BlockId} {cut : Nat → Nat}
  {real : Nat → List BlockId}

/-! ### The blocks of the only request -/

variable (cfg req cut real) in
/-- The lists of the request start with `cut g` null blocks, then come the blocks `real g`, all of them different. -/
structure Holds (free : List BlockId)
    (s : KVCacheManager) : Prop where
  sound : Sound cfg free s
  lists : ∀ g < cfg.numGroups, s.blocks g req = List.replicate (cut g) s.blockPool.nullBlock ++ real g
  noNull : ∀ g < cfg.numGroups, s.blockPool.nullBlock ∉ real g
  exclusive : ((List.range cfg.numGroups).flatMap real).Nodup

variable (cfg req cut real) in
structure Alone (free : List BlockId)
    (s : KVCacheManager) : Prop extends Holds cfg req cut real free s where
  others : ∀ g r, r ≠ req → s.blocks g r = []

theorem held_pos (used : 0 < held cfg s block) : ∃ g < cfg.numGroups, ∃ r, block ∈ s.blocks g r := by
  obtain ⟨g, hm, some⟩ : ∃ g ∈ Finset.range cfg.numGroups, 0 < (s.groups g).held block := by
    by_contra none
    have zero : held cfg s block = 0 := Finset.sum_eq_zero fun g hm => by
      by_contra hp
      exact none ⟨g, hm, pos_of_ne_zero hp⟩
    omega
  refine ⟨g, Finset.mem_range.mp hm, ?_⟩
  obtain ⟨count, occurs, hp⟩ : ∃ count ∈ (s.groups g).reqToBlocks.values.map (·.count block), 0 < count := by
    by_contra none
    have zero : (s.groups g).held block = 0 := sum_eq_zero fun count occurs => by
      by_contra hp
      exact none ⟨count, occurs, pos_of_ne_zero hp⟩
    omega
  obtain ⟨list, stored, rfl⟩ := mem_map.mp occurs
  obtain ⟨r, hf⟩ := OrderedDict.mem_values_iff.mp stored
  refine ⟨r, ?_⟩
  unfold blocks GroupState.blocks
  rw [hf]
  exact count_pos_iff.mp hp

theorem Holds.used (holds : Holds cfg req cut real free s)
    (hm : block ∈ (range cfg.numGroups).flatMap real) : block ≠ s.blockPool.nullBlock ∧ 0 < held cfg s block := by
  obtain ⟨g, hi, occurs⟩ := mem_flatMap.mp hm
  have hi := mem_range.mp hi
  exact ⟨fun null => holds.noNull g hi (null ▸ occurs), held_of_mem hi (holds.lists g hi ▸ mem_append_right _ occurs)⟩

theorem Alone.mem_real (alone : Alone cfg req cut real free s) :
    block ∈ (range cfg.numGroups).flatMap real ↔ block ≠ s.blockPool.nullBlock ∧ 0 < held cfg s block := by
  refine ⟨alone.used, ?_⟩
  · rintro ⟨notNull, used⟩
    obtain ⟨g, hi, r, hm⟩ := held_pos used
    have hs : r = req := by
      by_contra other
      rw [alone.others g r other] at hm
      cases hm
    rw [hs, alone.lists g hi] at hm
    rcases mem_append.mp hm with null | occurs
    · exact absurd (eq_of_mem_replicate null) notNull
    · exact mem_flatMap.mpr ⟨g, mem_range.mpr hi, occurs⟩

theorem Alone.count (alone : Alone cfg req cut real free s) :
    free.length + ∑ g ∈ Finset.range cfg.numGroups, (real g).length + 1 = cfg.pool.numGpuBlocks := by
  have pool := alone.sound.counts
  have all : (s.blockPool.nullBlock :: (free ++ (range cfg.numGroups).flatMap real)).Perm
      (range cfg.pool.numGpuBlocks) := by
    apply (perm_ext_iff_of_nodup _ nodup_range).mpr
    · intro block
      rw [mem_cons, mem_append, alone.mem_real, mem_range, pool.free_iff]
      constructor
      · rintro (null | ⟨hb, -⟩ | ⟨-, used⟩)
        · exact null ▸ pool.nullInside
        · exact hb
        · exact pool.inside block used
      · intro hb
        by_cases null : block = s.blockPool.nullBlock
        · exact .inl null
        · have refs := pool.refs block null
          rcases eq_zero_or_pos (held cfg s block) with zero | used
          · exact .inr (.inl ⟨hb, null, by rw [refs, zero]; rfl⟩)
          · exact .inr (.inr ⟨null, used⟩)
    · refine nodup_cons.mpr ⟨fun hm => ?_, nodup_append'.mpr ⟨pool.nodup, alone.exclusive, ?_⟩⟩
      · rcases mem_append.mp hm with unused | occurs
        · exact ((pool.free_iff _).mp unused).2.1 rfl
        · exact (alone.mem_real.mp occurs).1 rfl
      · intro block unused occurs
        have := pool.held_of_free unused
        have := (alone.mem_real.mp occurs).2
        omega
  have length := all.length_eq
  rw [length_cons, length_append, length_flatMap, length_range] at length
  have sums : ((range cfg.numGroups).map fun g => (real g).length).sum =
      ∑ g ∈ Finset.range cfg.numGroups, (real g).length := rfl
  omega

/-! ### A step of the request -/

theorem withoutRemoved_replicate {nullBlock : BlockId} {rest : List BlockId} {c : Nat} (noNull : nullBlock ∉ rest) (le : c ≤ n)
    (short : n ≤ c + rest.length) :
    withoutRemoved nullBlock (replicate c nullBlock ++ rest) n = replicate n nullBlock ++ rest.drop (n - c) := by
  have gone : removedBlocks nullBlock (replicate c nullBlock ++ rest) n = (rest.take (n - c)).reverse := by
    unfold removedBlocks
    have front : (replicate c nullBlock ++ rest).take n = replicate c nullBlock ++ rest.take (n - c) := by
      rw [take_append, length_replicate, take_of_length_le (by simpa using le)]
    rw [front, reverse_append, takeWhile_append_of_pos]
    · cases c with
      | zero => simp
      | succ c => simp
    · intro block hm
      have hi := mem_of_mem_take (mem_reverse.mp hm)
      simpa using fun null : block = nullBlock => noNull (null ▸ hi)
  unfold withoutRemoved
  rw [gone]
  simp only [length_reverse, length_take, length_append, length_replicate]
  have kept : min n (c + rest.length) - min (n - c) rest.length = c := by omega
  have behind : (replicate c nullBlock ++ rest).drop n = rest.drop (n - c) := by
    rw [drop_append, length_replicate, drop_eq_nil_of_le (by simpa using le), nil_append]
  rw [kept, take_left' (length_replicate ..), ← replicate_add]
  congr 2
  omega

theorem Holds.remove (attention : cfg.AllAttention) (alone : Holds cfg req cut real free s)
    {total : Nat} (grown : ∀ g < cfg.numGroups, cut g ≤ numSkippedBlocks (cfg.spec g) total)
    (short : ∀ g < cfg.numGroups, numSkippedBlocks (cfg.spec g) total ≤ cut g + (real g).length) :
    ∃ free' t, removeSkippedBlocks cfg req total s = .ok () t ∧
      Holds cfg req (fun g => numSkippedBlocks (cfg.spec g) total)
      (fun g => (real g).drop (numSkippedBlocks (cfg.spec g) total - cut g)) free' t ∧
      (∀ g r, r ≠ req → t.blocks g r = s.blocks g r) ∧ (∀ g r, t.numCached g r = s.numCached g r) ∧ BlockPool.SameHashes s.blockPool t.blockPool := by
  obtain ⟨_, t, run, released, sound, -, removed⟩ := wp_total
    (wp_removeSkippedBlocks (fun g hi => (attention g hi).plain) alone.sound req total) (fun _ _ never => never)
  have null := removed.hashes.nullBlock
  refine ⟨_, t, run, ⟨sound, ?_, ?_, ?_⟩, removed.others, removed.numCached, removed.hashes⟩
  · intro g hi
    have tokens : windowTokens (cfg.spec g) total = total := by
      have kind := attention g hi
      unfold windowTokens
      split
      · rename_i mode k mamba
        rw [mamba] at kind
        cases kind
      · rfl
    rw [removed.skipped g hi, tokens, alone.lists g hi, null]
    exact withoutRemoved_replicate (alone.noNull g hi) (grown g hi) (short g hi)
  · intro g hi hm
    rw [null] at hm
    exact alone.noNull g hi (mem_of_mem_drop hm)
  · exact List.Nodup.sublist (List.Sublist.flatMap_right _ fun g _ => drop_sublist _ _) alone.exclusive

theorem Holds.take (attention : cfg.AllAttention) (holds : Holds cfg req cut real free s) (numTokens mainModel : Nat)
    (enough : ∑ g ∈ Finset.range cfg.numGroups, missing cfg s req numTokens g ≤ free.length) :
    wp ((groupIds cfg).mapM fun g => allocateNewBlocks cfg g req numTokens mainModel)
      (fun _ t => ∃ free', Holds cfg req cut (fun g => real g ++ segment free (missing cfg s req numTokens) g) free' t ∧
      (∀ g r, r ≠ req → t.blocks g r = s.blocks g r) ∧
      (∀ g, t.numCached g req = s.numCached g req) ∧ t.blockPool.nullBlock = s.blockPool.nullBlock ∧
      (∀ block, block ∉ free → t.blockPool.blockHash block = s.blockPool.blockHash block) ∧
      (cfg.pool.enableCaching → ∀ g < cfg.numGroups, ∀ block ∈ segment free (missing cfg s req numTokens) g,
      t.blockPool.blockHash block = none)) (fun _ _ => False) s := by
  refine wp_mono (wp_newStage (fun g hi => (attention g hi).plain) holds.sound) ?_ (fun _ _ few => Nat.not_lt_of_le enough few)
  rintro _ t ⟨_, sound, frame, cached, lists, hashes⟩
  have null := frame.nullBlock
  have segments : ∀ g < cfg.numGroups, ∀ block ∈ segment free (missing cfg s req numTokens) g,
      block ∈ free.take (∑ g ∈ Finset.range cfg.numGroups, missing cfg s req numTokens g) := by
    intro g hi block hm
    rw [← flatMap_segment]
    exact mem_flatMap.mpr ⟨g, mem_range.mpr hi, hm⟩
  refine ⟨_, ⟨sound, ?_, ?_, ?_⟩, fun g r other => frame.blocks g r fun both => other both.2, cached, null, ?_, ?_⟩
  · intro g hi
    rw [lists g hi, holds.lists g hi, null, append_assoc]
  · intro g hi hm
    rw [null] at hm
    rcases mem_append.mp hm with old | new
    · exact holds.noNull g hi old
    · exact ((holds.sound.pool.free_iff _).mp (mem_of_mem_take (segments g hi _ new))).2.1 rfl
  · apply (flatMap_append_perm ..).nodup_iff.mp
    rw [flatMap_segment]
    refine nodup_append'.mpr ⟨holds.exclusive, holds.sound.pool.nodup.sublist (take_sublist _ _), ?_⟩
    intro block old new
    have := holds.sound.counts.held_of_free (mem_of_mem_take new)
    have := (holds.used old).2
    omega
  · intro block used
    rw [hashes, if_neg fun both => used (mem_of_mem_take both.2)]
  · intro caching g hi block hm
    rw [hashes, if_pos ⟨caching, segments g hi block hm⟩]

/-! ### Hashing the full blocks -/

variable (cfg req) in
def Bare (s : KVCacheManager) : Prop :=
  ∀ g < cfg.numGroups, ∀ i block, (s.numCached g req).getD 0 ≤ i → (s.blocks g req)[i]? = some block →
    block ≠ s.blockPool.nullBlock → s.blockPool.blockHash block = none

section

variable (alone : Holds cfg req cut real free s) {free' : List BlockId} {i : Nat}

include alone

theorem Holds.getElem?_real (hi : g < cfg.numGroups)
    (hf : (s.blocks g req)[i]? = some block) (notNull : block ≠ s.blockPool.nullBlock) :
    cut g ≤ i ∧ (real g)[i - cut g]? = some block := by
  rw [alone.lists g hi] at hf
  by_cases front : i < cut g
  · rw [getElem?_append_left (by simpa using front), getElem?_replicate, if_pos front] at hf
    exact absurd (some.inj hf).symm notNull
  · rw [getElem?_append_right (by simpa using front), length_replicate] at hf
    exact ⟨Nat.le_of_not_lt front, hf⟩

theorem Holds.place_unique {g' : Nat} (hi : g < cfg.numGroups)
    (hi' : g' < cfg.numGroups) {i j : Nat} (hf : (s.blocks g req)[i]? = some block)
    (hf' : (s.blocks g' req)[j]? = some block) (notNull : block ≠ s.blockPool.nullBlock) : g = g' ∧ i = j := by
  obtain ⟨behind, at_⟩ := alone.getElem?_real hi hf notNull
  obtain ⟨behind', at_'⟩ := alone.getElem?_real hi' hf' notNull
  obtain ⟨each, apart⟩ := nodup_flatMap.mp alone.exclusive
  have hs : g = g' := by
    by_contra other
    have symm : Std.Symm (Function.onFun List.Disjoint real) := ⟨fun _ _ apart _ left right => apart right left⟩
    exact apart.forall (mem_range.mpr hi) (mem_range.mpr hi') other (mem_of_getElem? at_)
      (mem_of_getElem? at_')
  subst hs
  have equal := (each g (mem_range.mpr hi)).getElem_inj_iff.mp (some.inj
    ((List.getElem?_eq_getElem (List.getElem?_eq_some_iff.mp at_).1).symm.trans (at_.trans (at_'.symm.trans
      (List.getElem?_eq_getElem (List.getElem?_eq_some_iff.mp at_').1)))))
  omega

theorem Holds.getElem?_blocks (hi : g < cfg.numGroups)
    (behind : cut g ≤ i) (hf : (real g)[i - cut g]? = some block) : (s.blocks g req)[i]? = some block := by
  rw [alone.lists g hi, getElem?_append_right (by simpa using behind), length_replicate]
  exact hf

theorem Bare.remove {cut' : Nat → Nat}
    (bare : Bare cfg req s) (alone' : Holds cfg req cut' (fun g => (real g).drop (cut' g - cut g)) free' t)
    (grown : ∀ g < cfg.numGroups, cut g ≤ cut' g) (cached : ∀ g r, t.numCached g r = s.numCached g r)
    (hs : BlockPool.SameHashes s.blockPool t.blockPool) : Bare cfg req t := by
  intro g hi i block behind hf notNull
  obtain ⟨after, place⟩ := alone'.getElem?_real hi hf notNull
  have more := grown g hi
  rw [getElem?_drop] at place
  have position : cut' g - cut g + (i - cut' g) = i - cut g := by omega
  rw [position] at place
  rw [hs.blockHash]
  rw [cached] at behind
  rw [hs.nullBlock] at notNull
  exact bare g hi i block behind (alone.getElem?_blocks hi (by omega) place) notNull

theorem Bare.take {more : Nat → List BlockId}
    (bare : Bare cfg req s) (alone' : Holds cfg req cut (fun g => real g ++ more g) free' t)
    (cached : ∀ g, t.numCached g req = s.numCached g req) (null : t.blockPool.nullBlock = s.blockPool.nullBlock)
    (old : ∀ block, block ∉ free → t.blockPool.blockHash block = s.blockPool.blockHash block)
    (new : ∀ g < cfg.numGroups, ∀ block ∈ more g, t.blockPool.blockHash block = none) : Bare cfg req t := by
  intro g hi i block behind hf notNull
  obtain ⟨after, place⟩ := alone'.getElem?_real hi hf notNull
  rw [getElem?_append] at place
  split at place
  · have listed := alone.getElem?_blocks hi after place
    have used : block ∉ free := by
      intro hm
      have zero := alone.sound.counts.held_of_free hm
      have hp := held_of_mem hi (mem_of_getElem? listed)
      omega
    rw [old block used]
    rw [cached] at behind
    rw [null] at notNull
    exact bare g hi i block behind listed notNull
  · exact new g hi block (mem_of_getElem? place)

end

section

variable {r : Request} {numTokens : Nat} {alignment : Option Nat}

variable (cfg r numTokens) in
structure Hashable : Prop where
  hashes : r.blockHashes.length = r.numTokens / cfg.pool.hashBlockSize
  within : numTokens ≤ r.numTokens

theorem length_cacheBlockMask {numCachedBlocks numFullBlocks alignmentTokens : Nat} {mask : List Bool}
    (made : cacheBlockMask spec numCachedBlocks numFullBlocks alignmentTokens = some mask) :
    mask.length = numFullBlocks - numCachedBlocks := by
  unfold cacheBlockMask at made
  split at made
  · dsimp only at made
    split at made
    · cases made
    · rw [← some.inj made]
      simp
  · cases made

theorem wp_managerCacheBlocks_total (valid : cfg.Valid) (caching : cfg.pool.enableCaching)
    (attention : (cfg.spec g).kind.Attention) (hi : g < cfg.numGroups) (sound : Sound cfg free s)
    (bare : Bare cfg r.requestId s) (hashable : Hashable cfg r numTokens)
    (listed : numTokens / (cfg.spec g).blockSize ≤ (s.blocks g r.requestId).length) :
    wp (managerCacheBlocks cfg g r numTokens alignment) (fun _ _ => True) (fun _ _ => False) s := by
  have hp := valid.blockSize_pos g hi
  have multiple := valid.divisible caching g hi
  have full : numTokens / (cfg.spec g).blockSize ≤ r.numTokens / (cfg.spec g).blockSize := Nat.div_le_div_right hashable.within
  have smaller := Nat.le_of_dvd hp (Nat.dvd_of_mod_eq_zero multiple)
  change wp (if (s.numCached g r.requestId).getD 0 ≥ numTokens / (cfg.spec g).blockSize then _ else _) _ _ s
  split
  · trivial
  simp only [wp_bind, wp_reqBlocks, wp_onPool]
  refine wp_mono (BlockPool.wp_cacheFullBlocks_total (sound.distinct g hi r.requestId) ?_ ?_ ?_ ?_ listed multiple) ?_
    (fun _ _ never => never)
  · exact bare g hi
  · rw [hashable.hashes]
    exact le_trans full (Nat.div_le_div_left smaller valid.hashBlockSize_pos)
  · rw [length_hashesAt valid.hashBlockSize_pos hp multiple hashable.hashes]
    exact full
  · split
    · rfl
    split
    · rfl
    cases made : cacheBlockMask (cfg.spec g) ((s.numCached g r.requestId).getD 0)
      (numTokens / (cfg.spec g).blockSize) _ with
    | none =>
      change Option.all _ (cacheBlockMask (cfg.spec g) ((s.numCached g r.requestId).getD 0) _ _) = true
      rw [made]
      rfl
    | some mask =>
      change Option.all _ (cacheBlockMask (cfg.spec g) ((s.numCached g r.requestId).getD 0) _ _) = true
      rw [made]
      exact decide_eq_true (length_cacheBlockMask made)
  · intro _ pool _
    split
    · rename_i mode k mamba
      rw [mamba] at attention
      cases attention
    · trivial

variable (cfg req cut real) in
def HoldsBare (free : List BlockId)
    (s : KVCacheManager) : Prop :=
  Holds cfg req cut real free s ∧ (cfg.pool.enableCaching → Bare cfg req s)

theorem Holds.cacheGroup (valid : cfg.Valid) (caching : cfg.pool.enableCaching) (attention : (cfg.spec g).kind.Attention)
    (hi : g < cfg.numGroups) (alone : Holds cfg r.requestId cut real free s) (bare : Bare cfg r.requestId s)
    (hashable : Hashable cfg r numTokens) (listed : numTokens / (cfg.spec g).blockSize ≤ cut g + (real g).length) :
    wp (managerCacheBlocks cfg g r numTokens alignment) (fun _ t => (Holds cfg r.requestId cut real free t ∧ Bare cfg r.requestId t) ∧
      ∀ g r', t.blocks g r' = s.blocks g r') (fun _ _ => False) s := by
  have length : (s.blocks g r.requestId).length = cut g + (real g).length := by
    rw [alone.lists g hi, length_append, length_replicate]
  have total : wp (managerCacheBlocks cfg g r numTokens alignment) (fun _ _ => True) (fun _ _ => False) s :=
    wp_managerCacheBlocks_total valid caching attention hi alone.sound bare hashable (length ▸ listed)
  have caches : wp (managerCacheBlocks cfg g r numTokens alignment) (fun _ t => Caches cfg g r numTokens free s t ∧
      t.numCached g r.requestId = (if (s.numCached g r.requestId).getD 0 ≥ numTokens / (cfg.spec g).blockSize then
        s.numCached g r.requestId else some (numTokens / (cfg.spec g).blockSize))) (fun _ _ => True) s :=
    wp_managerCacheBlocks alone.sound hi (fun _ caches number => ⟨caches, number⟩) (fun _ _ _ => trivial)
  refine wp_mono (wp_and total caches) ?_ (fun _ _ never => never.1)
  rintro _ t ⟨-, caches, number⟩
  have null := caches.frame.nullBlock
  have lists : ∀ i r', t.blocks i r' = s.blocks i r' := by
    intro i r'
    by_cases here : i = g ∧ r' = r.requestId
    · rw [here.1, here.2, caches.blocks]
    · exact caches.frame.blocks i r' here
  refine ⟨⟨⟨caches.sound, ?_, ?_, alone.exclusive⟩, ?_⟩, lists⟩
  · intro i hi'
    rw [lists, null]
    exact alone.lists i hi'
  · intro i hi'
    rw [null]
    exact alone.noNull i hi'
  intro i hi' j block behind hf real
  rw [lists] at hf
  rw [null] at real
  -- The counter only grows.
  have before : (s.numCached i r.requestId).getD 0 ≤ j := by
    by_cases here : i = g
    · subst here
      rw [number] at behind
      split at behind
      · exact behind
      · rename_i short
        exact Nat.le_trans (Nat.le_of_not_le short) behind
    · rwa [caches.frame.numCached i r.requestId fun both => here both.1] at behind
  by_contra hashed
  obtain ⟨key, hash⟩ := ne_none_iff_exists'.mp hashed
  rcases caches.hashes.new block key hash with old | ⟨k, _, after, hb, at_, -⟩
  · rw [bare i hi' j block before hf real] at old
    cases old
  · obtain ⟨rfl, rfl⟩ := alone.place_unique hi hi' at_ hf real
    rw [number] at behind
    split at behind
    · omega
    · exact absurd behind (Nat.not_le_of_lt hb)

variable (cfg r) in
abbrev Hashed : Prop :=
  cfg.pool.enableCaching → r.blockHashes.length = r.numTokens / cfg.pool.hashBlockSize

theorem HoldsBare.cacheSlots (valid : cfg.Valid) (attention : cfg.AllAttention)
    (args : SlotArgs) (alone : HoldsBare cfg r.requestId cut real free s) (hashes : Hashed cfg r)
    (listed : ∀ g < cfg.numGroups, (args.totalComputedTokens cfg r + args.numNewTokens) / (cfg.spec g).blockSize ≤
      cut g + (real g).length) :
    wp (cacheSlots cfg r args) (fun _ t => HoldsBare cfg r.requestId cut real free t ∧ ∀ g r', t.blocks g r' = s.blocks g r')
      (fun _ _ => False) s := by
  unfold KVCacheManager.cacheSlots
  rw [wp_onlyIf]
  refine ⟨fun on => ?_, fun _ => ⟨alone, fun _ _ => rfl⟩⟩
  have caching := on.1
  generalize tokens : min (args.totalComputedTokens cfg r + args.numNewTokens) r.numTokens = numTokens
  have each : ∀ n alignment, n ≤ numTokens → wp (forM (groupIds cfg) fun g => managerCacheBlocks cfg g r n alignment)
      (fun _ t => HoldsBare cfg r.requestId cut real free t ∧ ∀ g r', t.blocks g r' = s.blocks g r') (fun _ _ => False) s := by
    intro n alignment fewer
    refine wp_mono (wp_forM (I := fun t => (Holds cfg r.requestId cut real free t ∧ Bare cfg r.requestId t) ∧
      ∀ g r', t.blocks g r' = s.blocks g r') ?_ ⟨⟨alone.1, alone.2 caching⟩, fun _ _ => rfl⟩)
      (fun _ t done => ⟨⟨done.1.1, fun _ => done.1.2⟩, done.2⟩) (fun _ _ never => never)
    rintro g hm t ⟨⟨alone', bare⟩, lists⟩
    have hi := mem_range.mp hm
    refine wp_mono (alone'.cacheGroup valid caching (attention g hi) hi bare ⟨hashes caching, by omega⟩ ?_)
      (fun _ u done => ⟨done.1, fun g r' => (done.2 g r').trans (lists g r')⟩) (fun _ _ never => never)
    exact le_trans (Nat.div_le_div_right (by omega)) (listed g hi)
  unfold coordinatorCacheBlocks
  split
  · exact each _ _ (le_refl _)
  · exact each _ _ (Nat.div_mul_le_self _ _)

end

/-! ### A call -/

section

variable {r : Request} {reserve fits : Bool} {chunks : List Nat} {args : SlotArgs}

def blockDemand (cfg : CacheConfig) (numComputedTokens numNewTokens : Nat) : Nat :=
  ∑ g ∈ Finset.range cfg.numGroups, (cdiv (numComputedTokens + numNewTokens) (cfg.spec g).blockSize -
    numSkippedBlocks (cfg.spec g) numComputedTokens)

variable (cfg req) in
structure Served (numComputedTokens : Nat) (s : KVCacheManager) : Prop where
  state : ∃ cut real free, (Alone cfg req cut real free s ∧ (cfg.pool.enableCaching → Bare cfg req s)) ∧
    (∀ g < cfg.numGroups, cut g + (real g).length = cdiv numComputedTokens (cfg.spec g).blockSize) ∧
    ∀ g < cfg.numGroups, cut g ≤ numSkippedBlocks (cfg.spec g) numComputedTokens

theorem numRequired_attention (attention : (cfg.spec g).kind.Attention) (numTokens : Nat) :
    numRequired cfg g numTokens = cdiv numTokens (cfg.spec g).blockSize := by
  unfold numRequired groupTokens
  split
  · rename_i mode k mamba
    rw [mamba] at attention
    cases attention
  · rfl

theorem not_postponed (g : Nat) : postponed cfg s g [] = false := by
  unfold postponed
  split <;> rfl

def chunkArgs (numNewTokens : Nat) (fullSequenceMustFit : Bool) : SlotArgs := { numNewTokens, fullSequenceMustFit }

theorem Alone.slotsNeeded (attention : cfg.AllAttention) (noHits : ∀ g, args.newComputedBlocks g = [])
    (skipped : ∀ g < cfg.numGroups, numSkippedBlocks (cfg.spec g) (args.allComputedTokens r) ≤ (s.blocks g r.requestId).length) :
    slotsNeeded cfg r args s = .ok ((∑ g ∈ Finset.range cfg.numGroups,
      missing cfg s r.requestId (args.numTokensNeedSlot cfg r) g : Nat)) s := by
  rw [slotsNeeded_eq (fun g hi => (attention g hi).plain) fun g _ _ => noHits g]
  congr 1
  rw [Nat.cast_sum]
  change (∑ g ∈ Finset.range cfg.numGroups, _) = _
  refine Finset.sum_congr rfl fun g hm => ?_
  have hi := Finset.mem_range.mp hm
  have front := skipped g hi
  rw [noHits, not_postponed, if_neg Bool.false_ne_true]
  unfold predicted missing
  split
  · rfl
  · rw [drop_nil, length_nil, Nat.zero_add, Nat.max_eq_right front]
    rfl

theorem Holds.allocate (valid : cfg.Valid) (attention : cfg.AllAttention) (hashes : Hashed cfg r)
    {computed need : Nat} (holds : Holds cfg r.requestId cut real free s)
    (bare : cfg.pool.enableCaching → Bare cfg r.requestId s) (noHits : ∀ g, args.newComputedBlocks g = [])
    (noExternal : args.numExternalComputedTokens = 0) (hp : 0 < args.numNewTokens) (all : args.allComputedTokens r = computed)
    (total : args.totalComputedTokens cfg r = computed) (slots : args.numTokensNeedSlot cfg r = need)
    (covers : computed + args.numNewTokens ≤ need) (gate : fullSequenceFits cfg r args s = .ok fits s)
    (length : ∀ g < cfg.numGroups, cut g + (real g).length = cdiv computed (cfg.spec g).blockSize)
    (before : ∀ g < cfg.numGroups, cut g ≤ numSkippedBlocks (cfg.spec g) computed) :
    ∃ result t real₁ free₁, allocateSlots cfg r args s = .ok result t ∧
      (∃ s₁, Holds cfg r.requestId (fun g => numSkippedBlocks (cfg.spec g) computed) real₁ free₁ s₁ ∧
      ∀ g r', r' ≠ r.requestId → s₁.blocks g r' = s.blocks g r') ∧
      (∀ g < cfg.numGroups, numSkippedBlocks (cfg.spec g) computed + (real₁ g).length = cdiv computed (cfg.spec g).blockSize) ∧
      (result.isSome = true ↔ fits = true ∧ ∑ g ∈ Finset.range cfg.numGroups,
      (cdiv need (cfg.spec g).blockSize - cdiv computed (cfg.spec g).blockSize) ≤ free₁.length) ∧
      (result.isSome = true → ∃ real₂ free₂,
      HoldsBare cfg r.requestId (fun g => numSkippedBlocks (cfg.spec g) computed) real₂ free₂ t ∧
      (∀ g < cfg.numGroups, numSkippedBlocks (cfg.spec g) computed + (real₂ g).length = cdiv need (cfg.spec g).blockSize) ∧
      ∀ g r', r' ≠ r.requestId → t.blocks g r' = s.blocks g r') := by
  have skipped : ∀ g < cfg.numGroups, numSkippedBlocks (cfg.spec g) computed ≤ cut g + (real g).length := by
    intro g hi
    rw [length g hi]
    exact numSkippedBlocks_le_cdiv (attention g hi) (valid.blockSize_pos g hi) _
  obtain ⟨free₁, s₁, removal, holds₁, others₁, cached₁, same₁⟩ := holds.remove attention before skipped
  have bare₁ := fun caching => (bare caching).remove holds holds₁ before cached₁ same₁
  generalize rest : (fun g => (real g).drop (numSkippedBlocks (cfg.spec g) computed - cut g)) = real₁ at holds₁
  have length₁ : ∀ g < cfg.numGroups, numSkippedBlocks (cfg.spec g) computed + (real₁ g).length =
      cdiv computed (cfg.spec g).blockSize := by
    intro g hi
    have grown := before g hi
    have short := skipped g hi
    rw [← rest, length_drop, ← length g hi]
    omega
  have held₁ : ∀ g < cfg.numGroups, (s₁.blocks g r.requestId).length = cdiv computed (cfg.spec g).blockSize := by
    intro g hi
    rw [holds₁.lists g hi, length_append, length_replicate, length₁ g hi]
  have lacks : ∀ g < cfg.numGroups, missing cfg s₁ r.requestId need g =
      cdiv need (cfg.spec g).blockSize - cdiv computed (cfg.spec g).blockSize := by
    intro g hi
    unfold missing
    rw [numRequired_attention (attention g hi), held₁ g hi]
  have needed := Alone.slotsNeeded attention noHits fun g hi => by
    rw [all, held₁ g hi]
    exact length g hi ▸ skipped g hi
  rw [slots] at needed
  have demand := Finset.sum_congr rfl fun g hm => lacks g (Finset.mem_range.mp hm)
  rw [← demand]
  have available := holds₁.sound.pool.numFree
  have started : ensure (ε := CacheError) (¬ (args.numNewTokens = 0 ∧
      args.numExternalComputedTokens = 0)) .noNewTokens s = .ok () s := ensure_ok fun both => by omega
  cases fits with
  | false => exact ⟨none, s, real₁, free₁, bind_ok_iff.mpr ⟨(), s, started, bind_ok_iff.mpr ⟨false, s, gate, rfl⟩⟩,
      ⟨s₁, holds₁, others₁⟩, length₁, by simp, by simp⟩
  | true =>
    by_cases enough : ∑ g ∈ Finset.range cfg.numGroups, missing cfg s₁ r.requestId need g ≤ free₁.length
    · obtain ⟨newBlocks, s₂, taking, free₂, holds₂, others₂, cached₂, null₂, old₂, new₂⟩ := wp_total
        (holds₁.take attention need (args.numTokensMainModel cfg r) enough) (fun _ _ never => never)
      have bare₂ : HoldsBare cfg r.requestId _ _ free₂ s₂ :=
        ⟨holds₂, fun caching => (bare₁ caching).take holds₁ holds₂ cached₂ null₂ old₂ (new₂ caching)⟩
      have length₂ : ∀ g < cfg.numGroups, numSkippedBlocks (cfg.spec g) computed +
          (real₁ g ++ segment free₁ (missing cfg s₁ r.requestId need) g).length = cdiv need (cfg.spec g).blockSize := by
        intro g hi
        have size := length₁ g hi
        have longer : cdiv computed (cfg.spec g).blockSize ≤ cdiv need (cfg.spec g).blockSize := cdiv_mono _ (by omega)
        rw [length_append, length_segment enough hi, lacks g hi]
        omega
      obtain ⟨_, s₃, caching, bare₃, lists₃⟩ := wp_total (bare₂.cacheSlots valid attention args hashes fun g hi => by
        rw [total, length₂ g hi]
        exact (Nat.div_le_div_right covers).trans (div_le_cdiv (valid.blockSize_pos g hi))) (fun _ _ never => never)
      refine ⟨some newBlocks, s₃, real₁, free₁, bind_ok_iff.mpr ⟨(), s, started, bind_ok_iff.mpr ⟨true, s, gate, bind_ok_iff.mpr
        ⟨(), s₁, total ▸ removal, bind_ok_iff.mpr ⟨_, s₁, needed, bind_ok_iff.mpr ⟨s₁, s₁, rfl, ?_⟩⟩⟩⟩⟩, ⟨s₁, holds₁, others₁⟩,
        length₁, by simp [enough], fun _ => ⟨_, free₂, bare₃, length₂, fun g r' other => ?_⟩⟩
      · rw [if_neg (by omega)]
        refine bind_ok_iff.mpr ⟨newBlocks, s₂, ?_, bind_ok_iff.mpr ⟨(), s₃, caching, rfl⟩⟩
        unfold takeSlots
        rw [onlyIf_neg (by simp [hasBlocks, noHits, noExternal])]
        exact slots ▸ taking
      · rw [lists₃, others₂ g r' other, others₁ g r' other]
    · refine ⟨none, s₁, real₁, free₁, bind_ok_iff.mpr ⟨(), s, started, bind_ok_iff.mpr ⟨true, s, gate, bind_ok_iff.mpr ⟨(), s₁,
        total ▸ removal, bind_ok_iff.mpr ⟨_, s₁, needed, bind_ok_iff.mpr ⟨s₁, s₁, rfl, ?_⟩⟩⟩⟩⟩, ⟨s₁, holds₁, others₁⟩, length₁,
        by simp [enough], by simp⟩
      rw [if_pos (by omega)]
      rfl

/-- A chunk gets its blocks if the gate lets the request in and the pool has as many blocks as the request then holds, the null
block not counted. -/
theorem Served.allocate (valid : cfg.Valid) (attention : cfg.AllAttention) (hashes : Hashed cfg r)
    (served : Served cfg r.requestId r.numComputedTokens s) (hp : 0 < n)
    (hw : r.numComputedTokens + n ≤ cfg.maxModelLen) (gate : fullSequenceFits cfg r (chunkArgs n reserve) s = .ok fits s) :
    ∃ result t, allocateSlots cfg r (chunkArgs n reserve) s = .ok result t ∧
      (result.isSome = true ↔ fits = true ∧ blockDemand cfg r.numComputedTokens n + 1 ≤ cfg.pool.numGpuBlocks) ∧
      (result.isSome = true → Served cfg r.requestId (r.numComputedTokens + n) t) := by
  obtain ⟨cut, real, free, ⟨alone, bare⟩, length, before⟩ := served.state
  have total : (chunkArgs n reserve).totalComputedTokens cfg r = r.numComputedTokens := by
    simp only [totalComputedTokens, allComputedTokens, numLocalComputedTokens, chunkArgs]
    omega
  have slots : (chunkArgs n reserve).numTokensNeedSlot cfg r = r.numComputedTokens + n := by
    simp only [numTokensNeedSlot, numTokensMainModel, total]
    simp only [chunkArgs]
    omega
  obtain ⟨result, t, real₁, free₁, run, ⟨s₁, holds₁, others₁⟩, length₁, granted, next⟩ := alone.allocate valid attention hashes
    bare (fun _ => rfl) rfl hp (show _ = r.numComputedTokens from rfl) total slots (le_refl _) gate length before
  have count := Alone.count ⟨holds₁, fun g r' other => (others₁ g r' other).trans (alone.others g r' other)⟩
  -- The blocks held and the blocks lacking are the blocks of the chunk.
  have split : blockDemand cfg r.numComputedTokens n = ∑ g ∈ Finset.range cfg.numGroups, (cdiv (r.numComputedTokens + n)
      (cfg.spec g).blockSize - cdiv r.numComputedTokens (cfg.spec g).blockSize) +
        ∑ g ∈ Finset.range cfg.numGroups, (real₁ g).length := by
    rw [← Finset.sum_add_distrib]
    refine Finset.sum_congr rfl fun g hm => ?_
    have size := length₁ g (Finset.mem_range.mp hm)
    have longer := cdiv_mono (cfg.spec g).blockSize (Nat.le_add_right r.numComputedTokens n)
    omega
  refine ⟨result, t, run, ?_, fun some => ?_⟩
  · exact granted.trans (and_congr_right fun _ => by omega)
  · obtain ⟨real₂, free₂, ⟨holds₂, bare₂⟩, length₂, others₂⟩ := next some
    exact ⟨_, real₂, free₂, ⟨⟨holds₂, fun g r' other => (others₂ g r' other).trans (alone.others g r' other)⟩, bare₂⟩, length₂,
      fun g _ => Nat.div_le_div_right (getNumSkippedTokens_mono (Nat.le_add_right _ _))⟩

/-! ### The gate -/

def admissionBlocks (cfg : CacheConfig) (numTokens g : Nat) : Nat :=
  ((maxAdmissionBlocks (cfg.spec g) cfg.maxNumBatchedTokens cfg.maxModelLen).map
    (min (cdiv numTokens (cfg.spec g).blockSize))).getD (cdiv numTokens (cfg.spec g).blockSize)

def admissionDemand (cfg : CacheConfig) (numTokens : Nat) : Nat := ∑ g ∈ Finset.range cfg.numGroups, admissionBlocks cfg numTokens g

theorem numSkippedBlocks_zero (attention : spec.kind.Attention) (hp : 0 < spec.blockSize) : numSkippedBlocks spec 0 = 0 := by
  have bound := numSkippedBlocks_le_cdiv attention hp 0
  rw [cdiv_zero hp] at bound
  omega

theorem getNumBlocksToAllocate_admission (attention : (cfg.spec g).kind.Attention) (hp : 0 < (cfg.spec g).blockSize)
    (empty : s.blocks g req = []) (uncached : s.numCached g req = none) (numTokens mainModel : Nat) :
    getNumBlocksToAllocate cfg g req numTokens [] 0 mainModel true s = .ok (admissionBlocks cfg numTokens g) s := by
  have base : baseNumBlocksToAllocate cfg g req numTokens [] 0 true s = .ok (admissionBlocks cfg numTokens g) s := by
    have none : (s.groups g).numCachedBlock req = none := uncached
    have nil : (s.groups g).blocks req = [] := empty
    refine bind_ok_iff.mpr ⟨s, s, rfl, ?_⟩
    simp only [none, nil, isSome_none, Bool.false_eq_true, if_true, numSkippedBlocks_zero attention hp, drop_nil]
    rfl
  unfold getNumBlocksToAllocate
  cases kind : (cfg.spec g).kind with
  | mamba mode k =>
    rw [kind] at attention
    cases attention
  | fullAttention => exact base
  | slidingWindow w => exact base
  | chunkedLocalAttention c => exact base

theorem fullSequenceFits_absent (valid : cfg.Valid) (attention : cfg.AllAttention)
    (absent : ∀ g < cfg.numGroups, s.blocks g r.requestId = []) (uncached : ∀ g, s.numCached g r.requestId = none)
    (new : r.numComputedTokens = 0) (n : Nat) (reserve : Bool) :
    fullSequenceFits cfg r (chunkArgs n reserve) s = .ok (decide (reserve = true →
      (admissionDemand cfg (min r.numTokens cfg.maxModelLen)) ≤ s.blockPool.getNumFreeBlocks)) s := by
  unfold fullSequenceFits
  cases reserve with
  | false => rfl
  | true =>
    have none : (chunkArgs n true).totalComputedTokens cfg r = 0 := by
      simp only [totalComputedTokens, allComputedTokens, numLocalComputedTokens, chunkArgs]
      omega
    have total : ∀ numTokens, totalBlocksToAllocate cfg r.requestId numTokens (fun _ => []) 0 numTokens true s =
        .ok (admissionDemand cfg numTokens) s := by
      intro numTokens
      refine bind_ok_iff.mpr ⟨(groupIds cfg).map fun g => (admissionBlocks cfg numTokens g), s,
        mapM_eq_map fun g hm => ?_, ?_⟩
      · have hi := mem_range.mp hm
        exact getNumBlocksToAllocate_admission (attention g hi) (valid.blockSize_pos g hi) (absent g hi) (uncached g) _ _
      · unfold admissionDemand
        rw [Nat.cast_sum]
        rfl
    simp only [none, forall_const]
    exact bind_ok_iff.mpr ⟨_, s, total _, bind_ok_iff.mpr ⟨s, s, rfl, rfl⟩⟩

theorem fullSequenceFits_new (valid : cfg.Valid) (attention : cfg.AllAttention)
    (alone : Alone cfg r.requestId (fun _ => 0) (fun _ => []) free s) (uncached : ∀ g, s.numCached g r.requestId = none)
    (new : r.numComputedTokens = 0) (whole : r.numTokens = cfg.maxModelLen) (n : Nat) (reserve : Bool) :
    fullSequenceFits cfg r (chunkArgs n reserve) s =
      .ok (decide (reserve = true → admissionDemand cfg cfg.maxModelLen + 1 ≤ cfg.pool.numGpuBlocks)) s := by
  have count := alone.count
  have available := alone.sound.pool.numFree
  simp only [length_nil, Finset.sum_const_zero] at count
  have hs : ((admissionDemand cfg cfg.maxModelLen) ≤ s.blockPool.getNumFreeBlocks) ↔
      admissionDemand cfg cfg.maxModelLen + 1 ≤ cfg.pool.numGpuBlocks := by omega
  rw [fullSequenceFits_absent valid attention alone.lists uncached new, whole, min_self]
  simp only [hs]

/-! ### All chunks -/

/-- The calls that one request makes, chunk by chunk: the gate is asked with the first. The result says that no call returned
`None`. `new_step_starts` only clears what the managers of states keep. -/
def serveChunks (cfg : CacheConfig) (r : Request) (reserve : Bool) : List Nat → CacheM Bool
  | [] => return true
  | n :: chunks => do
    let newBlocks ← allocateSlots cfg r (chunkArgs n reserve)
    if newBlocks.isNone then return false
    else serveChunks cfg { r with numComputedTokens := r.numComputedTokens + n } false chunks

def ChunksFit (cfg : CacheConfig) (numComputedTokens : Nat) : List Nat → Prop
  | [] => True
  | n :: chunks => blockDemand cfg numComputedTokens n + 1 ≤ cfg.pool.numGpuBlocks ∧ ChunksFit cfg (numComputedTokens + n) chunks

theorem fullSequenceFits_off (n : Nat) : fullSequenceFits cfg r (chunkArgs n false) s = .ok true s := rfl

theorem Served.serveChunks (valid : cfg.Valid) (attention : cfg.AllAttention)
    (hashes : Hashed cfg r) (served : Served cfg r.requestId r.numComputedTokens s) (hp : ∀ n ∈ chunks, 0 < n)
    (hw : r.numComputedTokens + chunks.sum ≤ cfg.maxModelLen)
    (gate : ∀ n, fullSequenceFits cfg r (chunkArgs n reserve) s = .ok fits s) :
    ∃ served t, serveChunks cfg r reserve chunks s = .ok served t ∧
      (served = true ↔ ChunksFit cfg r.numComputedTokens chunks ∧ (chunks ≠ [] → fits = true)) := by
  induction chunks generalizing r s reserve fits with
  | nil => exact ⟨true, _, rfl, by simp [ChunksFit]⟩
  | cons n chunks ih =>
    rw [sum_cons] at hw
    obtain ⟨result, t, run, granted, next⟩ := served.allocate valid attention hashes (hp n (.head _)) (by omega) (gate n)
    cases result with
    | none =>
      refine ⟨false, t, bind_ok_iff.mpr ⟨none, t, run, rfl⟩, ?_⟩
      simp only [isSome_none, Bool.false_eq_true, false_iff] at granted ⊢
      exact fun both => granted ⟨both.2 (cons_ne_nil n chunks), both.1.1⟩
    | some newBlocks =>
      obtain ⟨open_, fits⟩ := granted.mp rfl
      obtain ⟨rest, u, run', rest_iff⟩ := ih (r := { r with numComputedTokens := r.numComputedTokens + n })
        hashes (next rfl) (fun m hm => hp m (mem_cons_of_mem n hm)) (by simp only; omega) fullSequenceFits_off
      refine ⟨rest, u, bind_ok_iff.mpr ⟨some newBlocks, t, run, run'⟩, ?_⟩
      rw [rest_iff]
      exact ⟨fun later => ⟨⟨fits, later.1⟩, fun _ => open_⟩, fun both => ⟨both.1.2, fun _ => rfl⟩⟩

theorem holds_new (sound : Sound cfg free s) (absent : ∀ g < cfg.numGroups, s.blocks g req = []) :
    Holds cfg req (fun _ => 0) (fun _ => []) free s :=
  ⟨sound, absent, fun _ _ never => not_mem_nil never,
    nodup_flatMap.mpr ⟨fun _ _ => nodup_nil, pairwise_of_forall fun _ _ => disjoint_nil_left _⟩⟩

theorem allocateSlots_absent (valid : cfg.Valid) (attention : cfg.AllAttention)
    (sound : Sound cfg free s) (absent : ∀ g < cfg.numGroups, s.blocks g r.requestId = [])
    (uncached : ∀ g, s.numCached g r.requestId = none) (new : r.numComputedTokens = 0) (hashes : Hashed cfg r)
    (hp : 0 < n) (hw : n ≤ cfg.maxModelLen) (lookahead : Nat) (reserve : Bool) :
    ∃ result t, allocateSlots cfg r { chunkArgs n reserve with numLookaheadTokens := lookahead } s = .ok result t := by
  have gate : fullSequenceFits cfg r { chunkArgs n reserve with numLookaheadTokens := lookahead } s = _ :=
    fullSequenceFits_absent valid attention absent uncached new n reserve
  generalize given : { chunkArgs n reserve with numLookaheadTokens := lookahead } = args at gate ⊢
  have tokens : args.numNewTokens = n := by rw [← given]; rfl
  have computed : args.allComputedTokens r = 0 := by
    simp [← given, allComputedTokens, numLocalComputedTokens, chunkArgs, new]
  have total : args.totalComputedTokens cfg r = 0 := by simp [totalComputedTokens, computed]
  have covers : 0 + args.numNewTokens ≤ args.numTokensNeedSlot cfg r := by
    rw [numTokensNeedSlot, numTokensMainModel]
    omega
  have bare : Bare cfg r.requestId s := by
    intro g hi i block _ hf _
    rw [absent g hi] at hf
    cases hf
  obtain ⟨result, t, _, _, run, -⟩ := (holds_new sound absent).allocate valid attention hashes (fun _ => bare)
    (fun _ => by rw [← given]; rfl) (by rw [← given]; rfl) (by omega) computed total rfl covers gate
    (fun g hi => (cdiv_zero (valid.blockSize_pos g hi)).symm) fun _ _ => Nat.zero_le _
  exact ⟨result, t, run⟩

theorem alone_init (made : init cfg = .ok s) : (∃ free, Alone cfg req (fun _ => 0) (fun _ => []) free s) ∧
    ∀ g, s.numCached g req = none := by
  obtain ⟨free, sound⟩ := sound_init made
  unfold init at made
  split at made
  · cases made
    exact ⟨⟨free, holds_new sound fun _ _ => rfl, fun _ _ _ => rfl⟩, fun _ => rfl⟩
  · cases made

theorem Alone.served (valid : cfg.Valid) (alone : Alone cfg req (fun _ => 0) (fun _ => []) free s) : Served cfg req 0 s := by
  have bare : Bare cfg req s := by
    intro g hi i block _ hf notNull
    rw [alone.lists g hi] at hf
    cases hf
  refine ⟨fun _ => 0, fun _ => [], free, ⟨alone, fun _ => bare⟩, fun g hi => ?_, fun _ _ => Nat.zero_le _⟩
  exact (cdiv_zero (valid.blockSize_pos g hi)).symm

theorem serveChunks_init (valid : cfg.Valid) (attention : cfg.AllAttention)
    (made : init cfg = .ok s) (new : r.numComputedTokens = 0) (whole : r.numTokens = cfg.maxModelLen)
    (hashes : Hashed cfg r)
    (hp : ∀ n ∈ chunks, 0 < n) (hw : chunks.sum ≤ cfg.maxModelLen) :
    ∃ served t, serveChunks cfg r reserve chunks s = .ok served t ∧ (served = true ↔ ChunksFit cfg 0 chunks ∧
      (chunks ≠ [] → reserve = true → admissionDemand cfg cfg.maxModelLen + 1 ≤ cfg.pool.numGpuBlocks)) := by
  obtain ⟨⟨free, alone⟩, uncached⟩ := alone_init made
  obtain ⟨served, t, run, served_iff⟩ := Served.serveChunks valid attention hashes (new ▸ alone.served valid) hp (by omega)
    fun n => fullSequenceFits_new valid attention alone uncached new whole n reserve
  exact ⟨served, t, run, by simpa only [new, decide_eq_true_iff] using served_iff⟩

variable (cfg chunks) in
structure ChunkSchedule : Prop where
  positive : ∀ n ∈ chunks, 0 < n
  batched : ∀ n ∈ chunks, n ≤ cfg.maxNumBatchedTokens
  within : chunks.sum ≤ cfg.maxModelLen

theorem chunksFit_append {first rest : List Nat} {computed : Nat} :
    ChunksFit cfg computed (first ++ rest) ↔ ChunksFit cfg computed first ∧ ChunksFit cfg (computed + first.sum) rest := by
  induction first generalizing computed with
  | nil => simp [ChunksFit]
  | cons n first ih =>
    rw [cons_append, ChunksFit, ChunksFit, ih, sum_cons, add_assoc, and_assoc]

theorem chunksFit_iff : (∀ chunks, ChunkSchedule cfg chunks → ChunksFit cfg 0 chunks) ↔
    ∀ computed n, 0 < n → n ≤ cfg.maxNumBatchedTokens → computed + n ≤ cfg.maxModelLen →
      blockDemand cfg computed n + 1 ≤ cfg.pool.numGpuBlocks := by
  constructor
  · intro all computed n hp batched hw
    have schedule : ChunkSchedule cfg (replicate computed 1 ++ [n]) := by
      refine ⟨fun m hm => ?_, fun m hm => ?_, by simpa using hw⟩
      all_goals
        rcases mem_append.mp hm with one | last
        · rw [eq_of_mem_replicate one]
          omega
        · rw [mem_singleton.mp last]
          omega
    have fits := (chunksFit_append.mp (all _ schedule)).2
    have place : 0 + (replicate computed 1).sum = computed := by simp
    exact (place ▸ fits).1
  intro each chunks schedule
  have run : ∀ computed, computed + chunks.sum ≤ cfg.maxModelLen → ChunksFit cfg computed chunks := by
    obtain ⟨hp, batched, -⟩ := schedule
    induction chunks with
    | nil => exact fun _ _ => trivial
    | cons n chunks ih =>
      intro computed hw
      rw [sum_cons] at hw
      exact ⟨each computed n (hp n (.head _)) (batched n (.head _)) (by omega),
        ih (fun m hm => hp m (mem_cons_of_mem n hm))
          (fun m hm => batched m (mem_cons_of_mem n hm)) (computed + n) (by omega)⟩
  exact run 0 (by simpa using schedule.within)

theorem serveChunks_all_iff (valid : cfg.Valid) (attention : cfg.AllAttention)
    (made : init cfg = .ok s) (new : r.numComputedTokens = 0) (whole : r.numTokens = cfg.maxModelLen)
    (hashes : Hashed cfg r) (reserve : Bool) :
    (∀ chunks, ChunkSchedule cfg chunks → ∃ t, serveChunks cfg r reserve chunks s = .ok true t) ↔
      ∀ computed n, 0 < n → n ≤ cfg.maxNumBatchedTokens → computed + n ≤ cfg.maxModelLen →
      blockDemand cfg computed n + 1 ≤ cfg.pool.numGpuBlocks ∧
      (reserve = true → admissionDemand cfg cfg.maxModelLen + 1 ≤ cfg.pool.numGpuBlocks) := by
  have one : ∀ chunks, ChunkSchedule cfg chunks → ((∃ t, serveChunks cfg r reserve chunks s = .ok true t) ↔
      ChunksFit cfg 0 chunks ∧ (chunks ≠ [] → reserve = true →
        admissionDemand cfg cfg.maxModelLen + 1 ≤ cfg.pool.numGpuBlocks)) := by
    intro chunks schedule
    obtain ⟨served, t, run, served_iff⟩ := serveChunks_init valid attention made new whole hashes schedule.positive schedule.within
    rw [← served_iff, run]
    exact ⟨fun ⟨_, hs⟩ => (EStateM.Result.ok.inj hs).1, fun yes => ⟨t, yes ▸ rfl⟩⟩
  constructor
  · intro all computed n hp batched hw
    refine ⟨chunksFit_iff.mp (fun chunks schedule => ((one chunks schedule).mp (all chunks schedule)).1) computed n hp
      batched hw, ?_⟩
    have first : ChunkSchedule cfg [n] := ⟨by simpa using hp, by simpa using batched, by simp; omega⟩
    exact ((one [n] first).mp (all [n] first)).2 (cons_ne_nil n [])
  · intro each chunks schedule
    refine (one chunks schedule).mpr ⟨chunksFit_iff.mpr (fun computed n hp batched hw =>
      (each computed n hp batched hw).1) chunks schedule, fun some => ?_⟩
    obtain ⟨n, hm⟩ := exists_mem_of_ne_nil chunks some
    have small := (le_sum_of_mem hm).trans schedule.within
    exact (each 0 n (schedule.positive n hm) (schedule.batched n hm) (by omega)).2

end

end KVCacheManager

end KVOffload.Core
