import KVOffload.Core.BlockPool

/-!
# What the operations of the block pool do

`PoolInv` states what holds of the pool between calls. One rule for each operation says how it changes the references and the
free list.
-/

namespace KVOffload.Core

open OrderedDict Function LinkedQueue
open List hiding get set modify

/-! ### The map from hashes to blocks -/

def CachedBlocks.Holds : CachedBlocks → BlockId → Prop
  | .single other, block => other = block
  | .many blocks, block => block ∈ blocks

variable {blocks : List BlockId}

namespace BlockHashToBlockMap

variable {cache : BlockHashToBlockMap} {key key' : Bytes} {block block' : BlockId}

variable (cache key block) in
def Stores : Prop :=
  ∃ entry, cache.get? key = some entry ∧ entry.Holds block

def NoneEmpty (cache : BlockHashToBlockMap) : Prop := ∀ key, cache.get? key ≠ some (.many [])

theorem stores_of_getOneBlock (hf : getOneBlock cache key = some block) : Stores cache key block := by
  unfold getOneBlock at hf
  split at hf
  · cases hf
  · rename_i other entry
    cases hf
    exact ⟨_, entry, rfl⟩
  · rename_i blocks entry
    exact ⟨_, entry, mem_of_mem_head? hf⟩

theorem mem_insertId : block' ∈ insertId blocks block ↔ block' ∈ blocks ∨ block' = block := by
  unfold insertId
  split
  · constructor
    · exact .inl
    · rintro (hi | rfl)
      · exact hi
      · assumption
  · simp

theorem stores_insert {entry : CachedBlocks} : Stores (insert cache key entry) key' block' ↔
    if key' = key then entry.Holds block' else Stores cache key' block' := by
  unfold Stores
  rw [get?_insert]
  split <;> simp

theorem stores_erase : Stores (erase cache key) key' block' ↔ key' ≠ key ∧ Stores cache key' block' := by
  unfold Stores
  rw [get?_erase]
  split <;> simp_all

theorem stores_insertBlock :
    Stores (insertBlock cache key block) key' block' ↔ Stores cache key' block' ∨ key' = key ∧ block' = block := by
  unfold insertBlock
  by_cases hs : key' = key
  · subst hs
    split
    · rename_i hf
      rw [stores_insert]
      simp [CachedBlocks.Holds, Stores, hf, eq_comm]
    · rename_i other hf
      rw [stores_insert]
      simp [CachedBlocks.Holds, Stores, hf, mem_insertId, eq_comm]
    · rename_i blocks hf
      rw [stores_insert]
      simp [CachedBlocks.Holds, Stores, hf, mem_insertId]
  · split <;> rw [stores_insert, if_neg] <;> simp [hs]

theorem noneEmpty_insertBlock (full : NoneEmpty cache) : NoneEmpty (insertBlock cache key block) := by
  intro key'
  unfold insertBlock
  split <;> rw [get?_insert] <;> split
  all_goals first
    | exact full key'
    | simp [ne_nil_of_mem (mem_insertId.mpr (.inr rfl))]

theorem pop_fst_of_stores (stored : Stores cache key block) : (pop cache key block).1 = some block := by
  obtain ⟨entry, hf, holds⟩ := stored
  unfold pop
  rw [hf]
  cases entry with
  | single other =>
    cases holds
    simp
  | many blocks => exact if_pos holds

theorem stores_pop :
    Stores (pop cache key block).2 key' block' ↔ Stores cache key' block' ∧ ¬ (key' = key ∧ block' = block) := by
  unfold pop
  by_cases hs : key' = key
  · subst hs
    split
    · rename_i hf
      simp [Stores, hf]
    · rename_i other hf
      split
      · rename_i hit
        subst hit
        rw [stores_erase]
        simp [Stores, hf, CachedBlocks.Holds, eq_comm]
      · rename_i other_
        rw [stores_insert]
        simp only [Stores, hf, Option.some.injEq, exists_eq_left', true_and]
        constructor
        · rintro rfl
          exact ⟨rfl, other_⟩
        · exact fun both => both.1
    rename_i blocks hf
    simp only [Stores, hf, Option.some.injEq, exists_eq_left', true_and]
    split
    · show Stores _ _ _ ↔ _
      rw [stores_insert]
      simp [CachedBlocks.Holds]
    · rename_i nothing
      rw [not_not] at nothing
      have gone := filter_eq_nil_iff.mp nothing
      simp only [decide_eq_true_eq, not_not] at gone
      show Stores _ _ _ ↔ _
      rw [stores_erase]
      simp only [ne_eq, not_true_eq_false, false_and, false_iff, not_and, not_not]
      exact fun hm => gone block' hm
  · split
    · simp [hs]
    · split
      · simp [stores_erase, hs]
      · rw [stores_insert]
        simp [stores_erase, hs]
    · show Stores (if _ then _ else _) _ _ ↔ _
      split
      · rw [stores_insert]
        simp [stores_erase, hs]
      · simp [stores_erase, hs]

theorem noneEmpty_pop (full : NoneEmpty cache) : NoneEmpty (pop cache key block).2 := by
  intro key'
  unfold pop
  split
  · exact full key'
  · split
    · rw [get?_erase]
      split
      · simp
      · exact full key'
    · rw [get?_insert, get?_erase]
      split
      · simp
      · exact full key'
  show get? (if _ then _ else _) _ ≠ _
  split
  · rename_i some_
    rw [get?_insert, get?_erase]
    split
    · simpa using some_
    · exact full key'
  · rw [get?_erase]
    split
    · simp
    · exact full key'

end BlockHashToBlockMap

open BlockHashToBlockMap

/-! ### The invariants -/

structure CacheInv (cfg : PoolConfig) (pool : BlockPool) : Prop where
  hash_iff : ∀ block key, pool.blockHash block = some key ↔ Stores pool.cachedBlockHashToBlock key block
  noneEmpty : NoneEmpty pool.cachedBlockHashToBlock
  inside : ∀ block key, pool.blockHash block = some key → block < cfg.numGpuBlocks ∧ block ≠ pool.nullBlock

/-- The blocks are referred to `held` times, and the queue of free blocks is `free`. -/
structure PoolInv (cfg : PoolConfig) (held : BlockId → Nat) (free : List BlockId) (pool : BlockPool) : Prop where
  queue : pool.freeBlockQueue.Represents free
  free_iff : ∀ block, block ∈ free ↔ block < cfg.numGpuBlocks ∧ block ≠ pool.nullBlock ∧ pool.refCnt block = 0
  refs : ∀ block, block ≠ pool.nullBlock → pool.refCnt block = held block
  inside : ∀ block, 0 < held block → block < cfg.numGpuBlocks
  nullInside : pool.nullBlock < cfg.numGpuBlocks
  cache : CacheInv cfg pool

variable {block : BlockId}

namespace PoolInv

variable {cfg : PoolConfig} {held : BlockId → Nat} {free : List BlockId} {pool : BlockPool}

variable (inv : PoolInv cfg held free pool)

include inv in
theorem nodup : free.Nodup := inv.queue.nodup

include inv in
theorem numFree : pool.getNumFreeBlocks = free.length := inv.queue.count

include inv in
theorem held_of_free (hm : block ∈ free) : held block = 0 := by
  obtain ⟨_, real, zero⟩ := (inv.free_iff block).mp hm
  have refs := inv.refs block real
  omega

include inv in
theorem unheld_iff : (∀ block ≠ pool.nullBlock, held block = 0) ↔ cfg.numGpuBlocks - pool.getNumFreeBlocks = 1 := by
  let unused block := block = pool.nullBlock ∨ pool.refCnt block = 0
  have same : pool.nullBlock :: free ~ (range cfg.numGpuBlocks).filter unused := by
    rw [perm_ext_iff_of_nodup (nodup_cons.mpr ⟨by simp [inv.free_iff], inv.nodup⟩) (nodup_range.filter _)]
    intro block
    by_cases null : block = pool.nullBlock <;> simp [unused, inv.free_iff, inv.nullInside, null]
  have all := length_filter_eq_length_iff (p := unused) (l := range cfg.numGpuBlocks)
  rw [← same.length_eq, length_cons, length_range] at all
  rw [inv.numFree, show ((_ : Int) - _ = 1) ↔ free.length + 1 = cfg.numGpuBlocks by omega, all]
  apply forall_congr'
  intro block
  grind [inv.refs block, inv.inside block]

end PoolInv

def realBlocks (nullBlock : BlockId) (blocks : List BlockId) : List BlockId := blocks.filter (· ≠ nullBlock)

theorem realBlocks_append (nullBlock : BlockId) (left right : List BlockId) :
    realBlocks nullBlock (left ++ right) = realBlocks nullBlock left ++ realBlocks nullBlock right := by
  simp [realBlocks]

def addHeld (held : BlockId → Nat) (blocks : List BlockId) (block : BlockId) : Nat := held block + blocks.count block

@[simp] theorem addHeld_nil (held : BlockId → Nat) : addHeld held [] = held := by
  funext block
  simp [addHeld]

theorem addHeld_cons (held : BlockId → Nat) (block : BlockId) (blocks : List BlockId) :
    addHeld held (block :: blocks) = addHeld (addHeld held [block]) blocks := by
  funext b
  simp only [addHeld, count_cons, count_nil]
  omega

theorem addHeld_right_comm (held : BlockId → Nat) (left right : List BlockId) :
    addHeld (addHeld held left) right = addHeld (addHeld held right) left := by
  funext b
  simp only [addHeld]
  omega

inductive CacheError.OfPool : CacheError → Prop where
  | queue (error : QueueError) : OfPool (.queue error)
  | short (numBlocks : Int) : OfPool (.cannotGetFreeBlocks numBlocks)
  | used (block : BlockId) : OfPool (.refCntNotZero block)

namespace BlockPool

variable {cfg : PoolConfig} {held : BlockId → Nat} {free : List BlockId} {pool : BlockPool} {α : Type}

theorem poolInv_init (made : BlockPool.init cfg = .ok pool) : ∃ free, PoolInv cfg (fun _ => 0) free pool := by
  cases number : cfg.numGpuBlocks with
  | zero =>
    obtain ⟨queue, failed⟩ : ∃ queue, popleft (.init (range 0)) = .error .empty queue :=
      ⟨_, rfl⟩
    rw [BlockPool.init, number] at made
    cases made
  | succ n =>
    have listed : range cfg.numGpuBlocks = 0 :: (range n).map (· + 1) := by
      rw [number, range_succ_eq_map]
    have rep := represents_init (range cfg.numGpuBlocks) nodup_range
    rw [listed] at rep
    obtain ⟨queue, popped, rep'⟩ := popleft_eq rep
    rw [BlockPool.init, listed, popped] at made
    cases made
    have hp : 0 < cfg.numGpuBlocks := number ▸ Nat.succ_pos n
    refine ⟨_, rep', fun block => ?_, fun _ _ => rfl, fun _ used => absurd used (lt_irrefl 0), hp, ?_⟩
    · simp only [mem_map, mem_range, and_true, number]
      constructor
      · rintro ⟨i, hi, rfl⟩
        exact ⟨Nat.succ_lt_succ hi, Nat.succ_ne_zero i⟩
      · rintro ⟨hi, real⟩
        cases block with
        | zero => exact absurd rfl real
        | succ i => exact ⟨i, Nat.lt_of_succ_lt_succ hi, rfl⟩
    · exact ⟨fun block key => by simp [Stores], fun key => by simp, fun _ _ none => by cases none⟩

theorem onQueue_ok {x : EStateM QueueError (LinkedQueue BlockId) α} {a : α} {queue : LinkedQueue BlockId}
    (run : x pool.freeBlockQueue = .ok a queue) : onQueue x pool = .ok a { pool with freeBlockQueue := queue } := by
  simp [onQueue, run]

/-! ### Eviction from the map -/

structure SameRefs (pool pool' : BlockPool) : Prop where
  nullBlock : pool'.nullBlock = pool.nullBlock
  refCnt : pool'.refCnt = pool.refCnt
  queue : pool'.freeBlockQueue = pool.freeBlockQueue

theorem maybeEvictCachedBlock_eq (inv : CacheInv cfg pool) (block : BlockId) :
    ∃ evicted pool', maybeEvictCachedBlock cfg block pool = .ok evicted pool' ∧ CacheInv cfg pool' ∧ SameRefs pool pool' ∧
      pool'.blockHash = update pool.blockHash block none := by
  cases hash : pool.blockHash block with
  | none =>
    refine ⟨false, pool, ?_, inv, ⟨rfl, rfl, rfl⟩, ?_⟩
    · simp only [maybeEvictCachedBlock, bind, EStateM.bind, get, getThe, MonadStateOf.get, EStateM.get, hash]
      rfl
    · rw [← hash, update_eq_self]
  | some key =>
    have stored := (inv.hash_iff block key).mp hash
    have popped := pop_fst_of_stores stored
    have without : CacheInv cfg ((pool.setCached (pop pool.cachedBlockHashToBlock key block).2).setHash block none) := by
      refine ⟨?_, noneEmpty_pop inv.noneEmpty, ?_⟩
      · intro block' key'
        show update pool.blockHash block none block' = some key' ↔ Stores (pop ..).2 _ _
        rw [stores_pop]
        by_cases hs : block' = block
        · subst hs
          simp only [update_self, reduceCtorEq, and_true, false_iff, not_and, not_not]
          intro stored'
          have both := (inv.hash_iff block' key').mpr stored'
          rw [hash] at both
          exact (Option.some.inj both).symm
        · rw [update_of_ne hs, inv.hash_iff]
          simp [hs]
      · intro block' key' hf
        by_cases hs : block' = block
        · subst hs
          simp [setHash] at hf
        · exact inv.inside block' key' (by simpa [setHash, setCached, hs] using hf)
    obtain ⟨cache, split⟩ : ∃ cache, pop pool.cachedBlockHashToBlock key block = (some block, cache) :=
      ⟨_, Prod.ext popped rfl⟩
    rw [split] at without
    have run : maybeEvictCachedBlock cfg block pool = (do
        onlyIf cfg.enableKvCacheEvents (modify (emit (.blockRemoved [getBlockHash key] (getGroupId key))))
        return true) ((pool.setCached cache).setHash block none) := by
      simp only [maybeEvictCachedBlock, bind, EStateM.bind, get, getThe, MonadStateOf.get, EStateM.get, hash, split]
      rfl
    by_cases events : cfg.enableKvCacheEvents = true
    · refine ⟨true, ((pool.setCached cache).setHash block none).emit (.blockRemoved [getBlockHash key] (getGroupId key)), ?_,
        ⟨without.hash_iff, without.noneEmpty, without.inside⟩, ⟨rfl, rfl, rfl⟩, rfl⟩
      rw [run, onlyIf_pos events]
      rfl
    · refine ⟨true, _, ?_, without, ⟨rfl, rfl, rfl⟩, rfl⟩
      rw [run, onlyIf_neg events]
      rfl

/-! ### Taking free blocks -/

theorem claimBlock_eq (inv : CacheInv cfg pool) (unused : pool.refCnt block = 0) :
    ∃ pool', claimBlock cfg block pool = .ok () pool' ∧ CacheInv cfg pool' ∧ pool'.nullBlock = pool.nullBlock ∧
      pool'.freeBlockQueue = pool.freeBlockQueue ∧ pool'.refCnt = update pool.refCnt block 1 ∧
      ∀ b, pool'.blockHash b = if cfg.enableCaching ∧ b = block then none else pool.blockHash b := by
  obtain ⟨middle, run, kept, hs, hashes⟩ : ∃ middle,
      onlyIf cfg.enableCaching (discard (maybeEvictCachedBlock cfg block)) pool = .ok () middle ∧ CacheInv cfg middle ∧
      SameRefs pool middle ∧ ∀ b, middle.blockHash b = if cfg.enableCaching ∧ b = block then none else pool.blockHash b := by
    by_cases caching : cfg.enableCaching = true
    · obtain ⟨evicted, middle, run, kept, hs, hashes⟩ := maybeEvictCachedBlock_eq inv block
      refine ⟨middle, ?_, kept, hs, fun b => ?_⟩
      · rw [onlyIf_pos caching]
        show Functor.map _ (maybeEvictCachedBlock cfg block) pool = _
        simp only [Functor.map, EStateM.map, run]
      · rw [hashes]
        by_cases hit : b = block <;> simp [hit, caching]
    · refine ⟨pool, ?_, inv, ⟨rfl, rfl, rfl⟩, fun b => by simp [caching]⟩
      rw [onlyIf_neg caching]
      rfl
  have unused' : middle.refCnt block = 0 := by rw [hs.refCnt, unused]
  refine ⟨middle.addRef 1 block, ?_, ⟨kept.hash_iff, kept.noneEmpty, kept.inside⟩, hs.nullBlock, hs.queue, ?_, hashes⟩
  · refine bind_ok_iff.mpr ⟨(), middle, run, ?_⟩
    refine bind_ok_iff.mpr ⟨middle, middle, rfl, ?_⟩
    exact bind_ok_iff.mpr ⟨(), middle, ensure_ok unused', rfl⟩
  · simp [addRef, hs.refCnt, unused]

theorem claimBlocks_eq (inv : CacheInv cfg pool) (hd : blocks.Nodup) (unused : ∀ block ∈ blocks, pool.refCnt block = 0) :
    ∃ pool', forM blocks (claimBlock cfg) pool = .ok () pool' ∧ CacheInv cfg pool' ∧ pool'.nullBlock = pool.nullBlock ∧
      pool'.freeBlockQueue = pool.freeBlockQueue ∧ (∀ b, pool'.refCnt b = pool.refCnt b + blocks.count b) ∧
      ∀ b, pool'.blockHash b = if cfg.enableCaching ∧ b ∈ blocks then none else pool.blockHash b := by
  induction blocks generalizing pool with
  | nil => exact ⟨pool, rfl, inv, rfl, rfl, by simp, by simp⟩
  | cons block rest ih =>
    obtain ⟨fresh, hd'⟩ := nodup_cons.mp hd
    obtain ⟨middle, run, kept, null, queue, refs, hashes⟩ := claimBlock_eq inv (unused block (.head _))
    have unused' : ∀ b ∈ rest, middle.refCnt b = 0 := by
      intro b hm
      have other : b ≠ block := fun hs => fresh (hs ▸ hm)
      rw [refs, update_of_ne other]
      exact unused b (.tail _ hm)
    obtain ⟨pool', run', kept', null', queue', refs', hashes'⟩ := ih kept hd' unused'
    refine ⟨pool', ?_, kept', null'.trans null, queue'.trans queue, ?_, ?_⟩
    · exact bind_ok_iff.mpr ⟨(), middle, run, run'⟩
    · intro b
      rw [refs' b, refs]
      by_cases hit : b = block
      · subst hit
        have none_left := count_eq_zero.mpr fresh
        simp [unused, none_left]
      · rw [update_of_ne hit, count_cons_of_ne (Ne.symm hit)]
    · intro b
      rw [hashes' b, hashes b]
      by_cases caching : cfg.enableCaching <;> by_cases hit : b = block <;> by_cases later : b ∈ rest <;>
        simp [caching, hit]

theorem getNewBlocks_eq (inv : PoolInv cfg held free pool) {n : Nat} (enough : n ≤ free.length) :
    ∃ pool', getNewBlocks cfg n pool = .ok (free.take n) pool' ∧
      PoolInv cfg (addHeld held (free.take n)) (free.drop n) pool' ∧ pool'.nullBlock = pool.nullBlock ∧
      ∀ b, pool'.blockHash b = if cfg.enableCaching ∧ b ∈ free.take n then none else pool.blockHash b := by
  obtain ⟨queue, run, represents⟩ := popleftN_eq inv.queue enough
  have hd : (free.take n).Nodup := inv.nodup.sublist (take_sublist _ _)
  have unused : ∀ block ∈ free.take n, { pool with freeBlockQueue := queue }.refCnt block = 0 :=
    fun block hm => ((inv.free_iff block).mp (mem_of_mem_take hm)).2.2
  have cache : CacheInv cfg { pool with freeBlockQueue := queue } :=
    ⟨inv.cache.hash_iff, inv.cache.noneEmpty, inv.cache.inside⟩
  obtain ⟨pool', claimed, kept, null, queue', refs, hashes⟩ := claimBlocks_eq cache hd unused
  refine ⟨pool', ?_, ⟨queue' ▸ represents, ?_, ?_, ?_, null ▸ inv.nullInside, kept⟩, null, hashes⟩
  · have many : n ≤ pool.getNumFreeBlocks := by
      rw [inv.numFree]
      omega
    refine bind_ok_iff.mpr ⟨pool, pool, rfl, ?_⟩
    refine bind_ok_iff.mpr ⟨(), pool, ensure_ok many, ?_⟩
    refine bind_ok_iff.mpr ⟨free.take n, _, onQueue_ok run, ?_⟩
    exact bind_ok_iff.mpr ⟨(), pool', claimed, rfl⟩
  · intro b
    rw [null, refs b]
    have split : b ∈ free ↔ b ∈ free.take n ∨ b ∈ free.drop n := by
      rw [← mem_append, take_append_drop]
    have apart : b ∈ free.take n → b ∉ free.drop n := fun first later =>
      (nodup_append.mp ((take_append_drop n free).symm ▸ inv.nodup)).2.2 b first b later rfl
    by_cases first : b ∈ free.take n
    · have zero := unused b first
      have one := count_eq_one_of_mem hd first
      have zero : pool.refCnt b = 0 := zero
      simp [apart first, one, zero]
    · have none_ := count_eq_zero.mpr first
      rw [none_]
      have hs : b ∈ free.drop n ↔ b ∈ free := by
        rw [split]
        simp [first]
      rw [hs, inv.free_iff b]
      simp
  · intro b real
    rw [refs b, inv.refs b (null ▸ real)]
    rfl
  · intro b some_
    unfold addHeld at some_
    rcases Nat.eq_zero_or_pos (held b) with none_ | held_
    · have hm : b ∈ free.take n := count_pos_iff.mp (by omega)
      exact ((inv.free_iff b).mp (mem_of_mem_take hm)).1
    · exact inv.inside b held_

theorem getNewBlocks_error (inv : PoolInv cfg held free pool) {n : Int} (short : free.length < n) :
    getNewBlocks cfg n pool = .error (.cannotGetFreeBlocks n) pool := by
  have many : ¬ n ≤ pool.getNumFreeBlocks := by
    rw [inv.numFree]
    omega
  simp only [getNewBlocks, bind, EStateM.bind, get, getThe, MonadStateOf.get, EStateM.get, many]
  rfl

/-! ### References -/

structure SameHashes (pool pool' : BlockPool) : Prop where
  nullBlock : pool'.nullBlock = pool.nullBlock
  blockHash : pool'.blockHash = pool.blockHash
  cache : pool'.cachedBlockHashToBlock = pool.cachedBlockHashToBlock

variable {pool' pool'' start : BlockPool} {E : CacheError → BlockPool → Prop}

theorem SameHashes.trans (first : SameHashes pool pool') (second : SameHashes pool' pool'') :
    SameHashes pool pool'' :=
  ⟨second.nullBlock.trans first.nullBlock, second.blockHash.trans first.blockHash, second.cache.trans first.cache⟩

theorem SameHashes.inv (hs : SameHashes pool pool') (inv : CacheInv cfg pool) : CacheInv cfg pool' := by
  obtain ⟨null, hashes, cache⟩ := hs
  exact ⟨by rw [hashes, cache]; exact inv.hash_iff, by rw [cache]; exact inv.noneEmpty, by rw [hashes, null]; exact inv.inside⟩

theorem touchBlock_eq (inv : PoolInv cfg held free pool) (known : block < cfg.numGpuBlocks) :
    ∃ pool', touchBlock block pool = .ok () pool' ∧
      PoolInv cfg (addHeld held [block]) (free.filter (· ≠ block)) pool' ∧ SameHashes pool pool' := by
  have referred : ∀ b, 0 < addHeld held [block] b → b < cfg.numGpuBlocks := by
    intro b some_
    by_cases hit : b = block
    · exact hit ▸ known
    · refine inv.inside b ?_
      simpa [addHeld, Ne.symm hit] using some_
  have counted refCnt (hs : refCnt = pool.refCnt) : ∀ b, b ≠ pool.nullBlock →
      update refCnt block (refCnt block + 1) b = addHeld held [block] b := by
    intro b real
    subst hs
    by_cases hit : b = block
    · subst hit
      simp [addHeld, inv.refs b real]
    · simp [addHeld, Ne.symm, hit, inv.refs b real]
  have freed refCnt (hs : refCnt = pool.refCnt) : ∀ b, b ∈ free.filter (· ≠ block) ↔
      b < cfg.numGpuBlocks ∧ b ≠ pool.nullBlock ∧ update refCnt block (refCnt block + 1) b = 0 := by
    intro b
    subst hs
    rw [mem_filter, inv.free_iff]
    by_cases hit : b = block
    · subst hit
      by_cases real : b = pool.nullBlock
      · simp [real]
      · have := inv.refs b real
        simp only [decide_not, decide_true, Bool.not_true, Bool.false_eq_true, and_false, update_self, false_iff]
        omega
    · simp [hit]
  by_cases take : pool.refCnt block = 0 ∧ ¬ pool.isNull block = true
  · have hm := (inv.free_iff block).mpr ⟨known, by simpa [isNull] using take.2, take.1⟩
    obtain ⟨queue, run, represents⟩ := remove_eq inv.queue hm
    rw [inv.nodup.erase_eq_filter] at represents
    have plain : free.filter (· != block) = free.filter (· ≠ block) := by
      apply filter_congr
      intro b _
      by_cases hs : b = block <;> simp [hs]
    rw [plain] at represents
    refine ⟨{ pool with freeBlockQueue := queue }.addRef 1 block, ?_,
      ⟨represents, freed _ rfl, counted _ rfl, referred, inv.nullInside, ?_⟩, ⟨rfl, rfl, rfl⟩⟩
    · refine bind_ok_iff.mpr ⟨pool, pool, rfl, ?_⟩
      rw [onlyIf_pos take]
      exact bind_ok_iff.mpr ⟨(), _, onQueue_ok run, rfl⟩
    · exact ⟨inv.cache.hash_iff, inv.cache.noneEmpty, inv.cache.inside⟩
  have absent : block ∉ free := by
    intro hm
    obtain ⟨_, real, zero⟩ := (inv.free_iff block).mp hm
    exact take ⟨zero, by simpa [isNull] using real⟩
  have all : free.filter (· ≠ block) = free := by
    apply filter_eq_self.mpr
    intro b hm
    have other : b ≠ block := fun hs => absent (hs ▸ hm)
    simp [other]
  refine ⟨pool.addRef 1 block, ?_, ⟨?_, freed _ rfl, counted _ rfl, referred, inv.nullInside, ?_⟩, ⟨rfl, rfl, rfl⟩⟩
  · refine bind_ok_iff.mpr ⟨pool, pool, rfl, ?_⟩
    rw [onlyIf_neg take]
    rfl
  · rw [all]
    exact inv.queue
  · exact ⟨inv.cache.hash_iff, inv.cache.noneEmpty, inv.cache.inside⟩

theorem touch_eq (inv : PoolInv cfg held free pool) (known : ∀ block ∈ blocks, block < cfg.numGpuBlocks) :
    ∃ pool', touch blocks pool = .ok () pool' ∧ PoolInv cfg (addHeld held blocks) (free.filter (· ∉ blocks)) pool' ∧
      SameHashes pool pool' := by
  induction blocks generalizing pool held free with
  | nil => exact ⟨pool, rfl, by simpa using inv, ⟨rfl, rfl, rfl⟩⟩
  | cons block rest ih =>
    obtain ⟨middle, run, kept, hs⟩ := touchBlock_eq inv (known block (.head _))
    obtain ⟨pool', run', kept', hs'⟩ := ih kept fun b hm => known b (.tail _ hm)
    refine ⟨pool', ?_, ?_, hs.trans hs'⟩
    · exact bind_ok_iff.mpr ⟨(), middle, run, run'⟩
    · rw [addHeld_cons]
      have filtered : free.filter (· ∉ block :: rest) = (free.filter (· ≠ block)).filter (· ∉ rest) := by
        rw [filter_filter]
        apply filter_congr
        intro b _
        by_cases first : b = block <;> by_cases later : b ∈ rest <;> simp [later]
      rw [filtered]
      exact kept'

theorem forM_unref (blocks : List BlockId) (pool : BlockPool) :
    ∃ pool', forM blocks (fun block => (modify (addRef (-1) block) : PoolM Unit)) pool = .ok () pool' ∧
      (∀ b, pool'.refCnt b = pool.refCnt b - blocks.count b) ∧ pool'.freeBlockQueue = pool.freeBlockQueue ∧
      SameHashes pool pool' := by
  induction blocks generalizing pool with
  | nil => exact ⟨pool, rfl, by simp, rfl, ⟨rfl, rfl, rfl⟩⟩
  | cons block rest ih =>
    obtain ⟨pool', run, refs, queue, hs⟩ := ih (pool.addRef (-1) block)
    refine ⟨pool', ?_, ?_, queue, ⟨hs.nullBlock, hs.blockHash, hs.cache⟩⟩
    · rw [forM_cons]
      exact bind_ok_iff.mpr ⟨(), _, rfl, run⟩
    · intro b
      rw [refs b]
      by_cases hit : b = block
      · subst hit
        simp only [addRef, update_self, count_cons_self]
        omega
      · simp [addRef, hit, count_cons_of_ne (Ne.symm hit)]

theorem freeBlocks_eq (inv : PoolInv cfg (addHeld held blocks) free pool) (hd : (blocks.filter (· ≠ pool.nullBlock)).Nodup) :
    ∃ pool', freeBlocks blocks pool = .ok () pool' ∧
      PoolInv cfg held (free ++ blocks.filter fun block => block ≠ pool.nullBlock ∧ held block = 0) pool' ∧
      SameHashes pool pool' := by
  obtain ⟨middle, run, refs, queue, hs⟩ := forM_unref blocks pool
  have left b (real : b ≠ pool.nullBlock) : middle.refCnt b = held b := by
    rw [refs b, inv.refs b real, addHeld]
    omega
  have chosen : blocks.filter (fun block => middle.refCnt block = 0 ∧ ¬ middle.isNull block = true) =
      blocks.filter fun block => block ≠ pool.nullBlock ∧ held block = 0 := by
    apply filter_congr
    intro b _
    by_cases null : b = pool.nullBlock
    · simp [isNull, hs.nullBlock, null]
    · simp [isNull, hs.nullBlock, null, left]
  have fresh : (free ++ blocks.filter fun block => block ≠ pool.nullBlock ∧ held block = 0).Nodup := by
    rw [nodup_append]
    refine ⟨inv.nodup, ?_, ?_⟩
    · refine hd.sublist ?_
      apply monotone_filter_right
      intro b chosen_
      simp only [decide_eq_true_eq] at chosen_
      simpa using chosen_.1
    · rintro b queued b' named rfl
      have hm := (mem_filter.mp named).1
      have counted := inv.held_of_free queued
      have one := count_pos_iff.mpr hm
      unfold addHeld at counted
      omega
  obtain ⟨queue', run', represents⟩ := appendN_eq (queue ▸ inv.queue) fresh
  have hashes : SameHashes pool { middle with freeBlockQueue := queue' } := ⟨hs.nullBlock, hs.blockHash, hs.cache⟩
  refine ⟨{ middle with freeBlockQueue := queue' }, ?_, ⟨represents, ?_, ?_, ?_, ?_, hashes.inv inv.cache⟩, hashes⟩
  · refine bind_ok_iff.mpr ⟨(), middle, run, ?_⟩
    refine bind_ok_iff.mpr ⟨middle, middle, rfl, ?_⟩
    rw [chosen]
    exact onQueue_ok run'
  · intro b
    rw [hs.nullBlock, mem_append, inv.free_iff, mem_filter, decide_eq_true_eq]
    by_cases null : b = pool.nullBlock
    · simp [null]
    have before := inv.refs b null
    have after := left b null
    unfold addHeld at before
    by_cases hm : b ∈ blocks
    · have one := count_pos_iff.mpr hm
      have known := inv.inside b (by unfold addHeld; omega)
      simp only [null, ne_eq, not_false_eq_true, true_and, hm, known]
      omega
    · have none_ := count_eq_zero.mpr hm
      simp only [ne_eq, hm, false_and, or_false]
      rw [show pool.refCnt b = middle.refCnt b by omega]
  · intro b real
    exact left b (hs.nullBlock ▸ real)
  · intro b some_
    exact inv.inside b (by unfold addHeld; omega)
  · exact hs.nullBlock ▸ inv.nullInside

/-! ### Operations on the hashes -/

theorem SameRefs.poolInv (hs : SameRefs pool pool') (inv : PoolInv cfg held free pool)
    (cache : CacheInv cfg pool') : PoolInv cfg held free pool' := by
  obtain ⟨null, refs, queue⟩ := hs
  exact ⟨queue ▸ inv.queue, by rw [null, refs]; exact inv.free_iff, by rw [null, refs]; exact inv.refs, inv.inside,
    null ▸ inv.nullInside, cache⟩

theorem SameRefs.trans (first : SameRefs pool pool') (second : SameRefs pool' pool'') :
    SameRefs pool pool'' :=
  ⟨second.nullBlock.trans first.nullBlock, second.refCnt.trans first.refCnt, second.queue.trans first.queue⟩

variable (cfg pool pool') in
structure Evicts : Prop where
  same : SameRefs pool pool'
  cache : CacheInv cfg pool'
  fewer : ∀ b key, pool'.blockHash b = some key → pool.blockHash b = some key

theorem wp_evictBlocks (inv : CacheInv cfg pool) (blockIds : List BlockId) :
    wp (evictBlocks cfg blockIds) (fun _ pool' => Evicts cfg pool pool') (fun _ pool' => Evicts cfg pool pool') pool := by
  apply wp_forM (I := fun pool' => Evicts cfg pool pool')
  · intro block _ middle done
    obtain ⟨evicted, pool', run, kept, hs, hashes⟩ := maybeEvictCachedBlock_eq done.cache block
    have next : Evicts cfg pool pool' := by
      refine ⟨done.same.trans hs, kept, fun b key hf => ?_⟩
      rw [hashes] at hf
      by_cases hit : b = block
      · subst hit
        simp at hf
      · rw [update_of_ne hit] at hf
        exact done.fewer b key hf
    rw [wp_bind, wp_ensure]
    refine ⟨fun _ => ?_, fun _ => done⟩
    show wp (Functor.map _ (maybeEvictCachedBlock cfg block)) _ _ middle
    rw [wp_map]
    exact (wp_of_ok run).mpr next
  · exact ⟨⟨rfl, rfl, rfl⟩, inv, fun _ _ hf => hf⟩

theorem cacheInv_cleared (inv : CacheInv cfg pool) :
    CacheInv cfg (resetHashes cfg (pool.setCached .empty)) ∧ ∀ b, (resetHashes cfg (pool.setCached .empty)).blockHash b = none := by
  have none_hashed : ∀ b, (resetHashes cfg (pool.setCached .empty)).blockHash b = none := by
    intro b
    show (if b < cfg.numGpuBlocks then none else pool.blockHash b) = none
    split
    · rfl
    · rename_i ho
      cases hash : pool.blockHash b with
      | none => rfl
      | some key => exact absurd (inv.inside b key hash).1 ho
  refine ⟨⟨fun b key => ?_, fun key => by simp [resetHashes, setCached], fun b key hf => ?_⟩, none_hashed⟩
  · rw [none_hashed]
    constructor
    · intro absent
      cases absent
    · rintro ⟨entry, hf, _⟩
      cases hf
  · rw [none_hashed] at hf
    cases hf

theorem wp_resetPrefixCache (inv : CacheInv cfg pool) {Q : Bool → BlockPool → Prop}
    (refused : Q false pool)
    (done : ∀ pool', SameRefs pool pool' → CacheInv cfg pool' → (∀ b, pool'.blockHash b = none) → Q true pool') :
    wp (resetPrefixCache cfg) Q E pool := by
  obtain ⟨cleared, none_hashed⟩ := cacheInv_cleared inv
  unfold resetPrefixCache
  rw [wp_bind, wp_get]
  by_cases used : cfg.numGpuBlocks - pool.getNumFreeBlocks ≠ 1
  · simp only [if_pos used]
    exact refused
  · simp only [if_neg used, wp_bind, wp_onlyIf]
    exact ⟨fun _ => done _ ⟨rfl, rfl, rfl⟩ ⟨cleared.hash_iff, cleared.noneEmpty, cleared.inside⟩ none_hashed,
      fun _ => done _ ⟨rfl, rfl, rfl⟩ cleared none_hashed⟩

structure Hashes (cfg : PoolConfig) (hashes : List Bytes) (blocks : List BlockId) (numCachedBlocks numFullBlocks group : Nat)
    (pool pool' : BlockPool) : Prop where
  same : SameRefs pool pool'
  cache : CacheInv cfg pool'
  kept : ∀ b key, pool.blockHash b = some key → pool'.blockHash b = some key
  new : ∀ b key, pool'.blockHash b = some key → pool.blockHash b = some key ∨ ∃ i hash, numCachedBlocks ≤ i ∧
    i < numFullBlocks ∧ blocks[i]? = some b ∧ hashes[i]? = some hash ∧ key = makeBlockHashWithGroupId hash group

theorem Hashes.refl {hashes : List Bytes} {numCachedBlocks numFullBlocks group : Nat}
    (inv : CacheInv cfg pool) : Hashes cfg hashes blocks numCachedBlocks numFullBlocks group pool pool :=
  ⟨⟨rfl, rfl, rfl⟩, inv, fun _ _ hf => hf, fun _ _ hf => .inl hf⟩

theorem cacheFullBlock_eq (inv : CacheInv cfg pool) (known : block < cfg.numGpuBlocks)
    {newBlockHashes : List Bytes} {group i : Nat} {mask : Option (List Bool)} {Q : Option Bytes → BlockPool → Prop}
    (skip : Q none pool) (stuck : ∀ e, E e pool)
    (done : ∀ hash pool', newBlockHashes[i]? = some hash → block ≠ pool.nullBlock → pool.blockHash block = none →
      CacheInv cfg pool' → SameRefs pool pool' →
      pool'.blockHash = update pool.blockHash block (some (makeBlockHashWithGroupId hash group)) →
      Q (some hash) pool') :
    wp (cacheFullBlock newBlockHashes group mask i block) Q E pool := by
  unfold cacheFullBlock
  rw [wp_bind, wp_get]
  split
  · exact skip
  rename_i chosen
  have real : block ≠ pool.nullBlock := fun null => chosen (.inl (by simp [isNull, null]))
  rw [wp_bind, wp_ensure]
  refine ⟨fun hash => ?_, fun _ => stuck _⟩
  · split
    · exact stuck _
    rename_i value hf
    refine done value _ hf real hash ?_ ⟨rfl, rfl, rfl⟩ rfl
    refine ⟨?_, noneEmpty_insertBlock inv.noneEmpty, ?_⟩
    · intro block' key'
      show update pool.blockHash block _ block' = some key' ↔ Stores (insertBlock ..) _ _
      rw [stores_insertBlock]
      by_cases hs : block' = block
      · subst hs
        have bare : ¬ Stores pool.cachedBlockHashToBlock key' block' := by
          rw [← inv.hash_iff, hash]
          simp
        rw [update_self]
        simp only [Option.some.injEq, and_true]
        constructor
        · exact fun named => .inr named.symm
        · rintro (stored | named)
          · exact absurd stored bare
          · exact named.symm
      · rw [update_of_ne hs, inv.hash_iff]
        show _ ↔ Stores pool.cachedBlockHashToBlock _ _ ∨ _
        simp [hs]
    · intro block' key' hf'
      by_cases hs : block' = block
      · subst hs
        exact ⟨known, real⟩
      · exact inv.inside block' key' (by simpa [setHash, setCached, hs] using hf')

theorem wp_cacheFullBlocks (inv : CacheInv cfg pool) (known : ∀ block ∈ blocks, block < cfg.numGpuBlocks)
    (request : Request) (numCachedBlocks numFullBlocks blockSize group : Nat) (mask : Option (List Bool)) :
    wp (cacheFullBlocks cfg request blocks numCachedBlocks numFullBlocks blockSize group mask)
      (fun _ pool' => Hashes cfg (hashesAt cfg.hashBlockSize request.blockHashes blockSize) blocks numCachedBlocks
      numFullBlocks group pool pool')
      (fun _ pool' => Hashes cfg (hashesAt cfg.hashBlockSize request.blockHashes blockSize) blocks numCachedBlocks
      numFullBlocks group pool pool') pool := by
  have start : Hashes cfg (hashesAt cfg.hashBlockSize request.blockHashes blockSize) blocks numCachedBlocks numFullBlocks group
      pool pool := .refl inv
  unfold cacheFullBlocks
  split
  · exact start
  simp only [wp_bind, wp_ensure]
  refine ⟨fun _ => ⟨fun _ => ⟨fun _ => ?_, fun _ => start⟩, fun _ => start⟩, fun _ => start⟩
  refine wp_mono (wp_mapM (I := fun pool' => Hashes cfg
    (hashesAt cfg.hashBlockSize request.blockHashes blockSize) blocks numCachedBlocks numFullBlocks group pool pool')
    (P := fun _ _ => True) ?_ start) ?_ (fun _ _ kept => kept)
  · rintro ⟨block, i⟩ hm middle sofar
    -- position `i` of the slice is position `numCachedBlocks + i` of the blocks
    have at_ := mem_zipIdx_iff_getElem?.mp hm
    have hi : numCachedBlocks + i < numFullBlocks := by
      have := (List.getElem?_eq_some_iff.mp at_).1
      rw [slice, length_drop, length_take] at this
      omega
    have at_' : blocks[numCachedBlocks + i]? = some block := by
      rw [slice, getElem?_drop, getElem?_take_of_lt hi] at at_
      exact at_
    refine cacheFullBlock_eq sofar.cache (known block (mem_of_getElem? at_')) ⟨sofar, trivial⟩ (fun _ => sofar) ?_
    intro hash pool' hf real bare cache hs hashes
    rw [getElem?_drop] at hf
    refine ⟨⟨sofar.same.trans hs, cache, fun b key old => ?_, fun b key new => ?_⟩, trivial⟩
    · have old' := sofar.kept b key old
      have other : b ≠ block := by
        rintro rfl
        rw [bare] at old'
        cases old'
      rw [hashes, update_of_ne other]
      exact old'
    · rw [hashes] at new
      by_cases hit : b = block
      · subst hit
        rw [update_self] at new
        exact .inr ⟨_, hash, Nat.le_add_right _ _, hi, at_', hf, (Option.some.inj new).symm⟩
      · rw [update_of_ne hit] at new
        exact sofar.new b key new
  · rintro hashes pool' ⟨done, _⟩
    rw [wp_onlyIf]
    refine ⟨fun _ => ?_, fun _ => done⟩
    unfold emitBlockStored
    rw [wp_bind, wp_ensure]
    refine ⟨fun _ => ?_, fun _ => done⟩
    exact ⟨⟨done.same.nullBlock, done.same.refCnt, done.same.queue⟩,
      ⟨done.cache.hash_iff, done.cache.noneEmpty, done.cache.inside⟩, done.kept, done.new⟩

/-! ### Counts of pools that need not be sound -/

structure Grows (pool pool' : BlockPool) : Prop where
  nullBlock : pool'.nullBlock = pool.nullBlock
  refCnt : ∀ block, pool.refCnt block ≤ pool'.refCnt block

theorem Grows.trans (first : Grows pool pool') (second : Grows pool' pool'') : Grows pool pool'' :=
  ⟨second.nullBlock.trans first.nullBlock, fun block => Int.le_trans (first.refCnt block) (second.refCnt block)⟩

theorem grows_addRef (block : BlockId) (pool : BlockPool) : Grows pool (pool.addRef 1 block) := by
  refine ⟨rfl, fun other => ?_⟩
  by_cases hs : other = block
  · subst hs
    simp only [addRef, update_self]
    omega
  · simp [addRef, hs]

theorem wp_onQueue (x : EStateM QueueError (LinkedQueue BlockId) α) (Q : α → BlockPool → Prop)
    (E : CacheError → BlockPool → Prop) : wp (onQueue x) Q E pool ↔
      wp x (fun a queue => Q a { pool with freeBlockQueue := queue })
        (fun e queue => E (.queue e) { pool with freeBlockQueue := queue }) pool.freeBlockQueue := by
  unfold wp onQueue
  cases x pool.freeBlockQueue <;> rfl

theorem wp_maybeEvictCachedBlock_refs (block : BlockId) :
    wp (maybeEvictCachedBlock cfg block) (fun _ pool' => SameRefs pool pool') (fun _ _ => False) pool := by
  unfold maybeEvictCachedBlock
  simp only [wp_bind, wp_get]
  split
  · exact ⟨rfl, rfl, rfl⟩
  · simp only [wp_bind, wp_get]
    split
    · exact ⟨rfl, rfl, rfl⟩
    · simp only [wp_bind, wp_onlyIf]
      exact ⟨fun _ => ⟨rfl, rfl, rfl⟩, fun _ => ⟨rfl, rfl, rfl⟩⟩

theorem wp_claimBlock_count (block : BlockId) : wp (claimBlock cfg block)
    (fun _ pool' => pool'.getNumFreeBlocks = pool.getNumFreeBlocks ∧ Grows pool pool') (fun e _ => e.OfPool) pool := by
  have evicted : wp (onlyIf cfg.enableCaching (discard (maybeEvictCachedBlock cfg block)))
      (fun _ pool' => SameRefs pool pool') (fun _ _ => False) pool := by
    rw [wp_onlyIf, wp_discard]
    exact ⟨fun _ => wp_maybeEvictCachedBlock_refs block, fun _ => ⟨rfl, rfl, rfl⟩⟩
  unfold claimBlock
  simp only [wp_bind, wp_ensure]
  refine wp_mono evicted (fun _ pool' hs => ⟨fun _ => ?_, fun _ => .used block⟩) (fun _ _ never => never.elim)
  have grown := grows_addRef block pool'
  refine ⟨by rw [getNumFreeBlocks, getNumFreeBlocks, ← hs.queue]; rfl, grown.nullBlock.trans hs.nullBlock, fun other => ?_⟩
  rw [← hs.refCnt]
  exact grown.refCnt other

theorem wp_getNewBlocks_count (n : Int) : wp (getNewBlocks cfg n) (fun ret pool' => ret.length = n.toNat ∧
    pool'.getNumFreeBlocks = pool.getNumFreeBlocks - n ∧ Grows pool pool') (fun e _ => e.OfPool) pool := by
  unfold getNewBlocks
  simp only [wp_bind, wp_ensure, wp_onQueue]
  refine ⟨fun _ => ?_, fun _ => .short n⟩
  refine wp_mono (wp_popleftN_count n pool.freeBlockQueue) ?_ (fun e _ _ => .queue e)
  rintro ret queue ⟨length, count⟩
  refine wp_mono (wp_forM (I := fun pool' => pool'.getNumFreeBlocks = pool.getNumFreeBlocks - n ∧ Grows pool pool')
    ?_ ⟨count, rfl, fun _ => Int.le_refl _⟩) ?_ (fun _ _ failed => failed)
  · rintro block - middle ⟨sofar, grown⟩
    refine wp_imp (wp_claimBlock_count block) ?_
    rintro _ pool' ⟨hs, grown'⟩
    exact ⟨hs.trans sofar, grown.trans grown'⟩
  · rintro _ pool' ⟨sofar, grown⟩
    exact ⟨length, sofar, grown⟩

theorem wp_touchBlock_count (grown : Grows start pool)
    (hs : pool.refCnt block = 0 → ¬ pool.isNull block → start.refCnt block = 0) : wp (touchBlock block) (fun _ pool' =>
      pool.getNumFreeBlocks ≤ pool'.getNumFreeBlocks +
      ([block].filter fun block => start.refCnt block = 0 ∧ ¬ start.isNull block).length ∧ Grows start pool')
      (fun e _ => e.OfPool) pool := by
  unfold touchBlock
  simp only [wp_bind, wp_onlyIf, wp_onQueue]
  constructor
  · rintro ⟨unused, real⟩
    have counted : start.refCnt block = 0 ∧ ¬ start.isNull block := by
      refine ⟨hs unused real, ?_⟩
      simpa [isNull, grown.nullBlock] using real
    refine wp_mono (wp_remove_count block pool.freeBlockQueue) ?_ (fun e _ _ => .queue e)
    intro _ queue count
    refine ⟨?_, grown.trans ⟨rfl, fun other => (grows_addRef block { pool with freeBlockQueue := queue }).refCnt other⟩⟩
    rw [filter_cons_of_pos (by simpa using counted)]
    change pool.freeBlockQueue.count ≤ queue.count + 1
    omega
  · intro _
    refine ⟨?_, grown.trans (grows_addRef block pool)⟩
    change pool.getNumFreeBlocks ≤ pool.getNumFreeBlocks + _
    omega

theorem wp_touch_count (nonneg : ∀ block, block ≠ start.nullBlock → 0 ≤ start.refCnt block)
    (blocks : List BlockId) (grown : Grows start pool) : wp (touch blocks) (fun _ pool' =>
      pool.getNumFreeBlocks ≤ pool'.getNumFreeBlocks +
      (blocks.filter fun block => start.refCnt block = 0 ∧ ¬ start.isNull block).length ∧ Grows start pool')
      (fun _ _ => True) pool := by
  unfold touch
  induction blocks generalizing pool with
  | nil =>
    simpa using grown
  | cons block blocks ih =>
    rw [forM_cons, wp_bind]
    -- A block without references now had none before.
    have hs : pool.refCnt block = 0 → ¬ pool.isNull block → start.refCnt block = 0 := by
      intro unused real
      have := grown.refCnt block
      have := nonneg block (by simpa [isNull, grown.nullBlock] using real)
      omega
    refine wp_mono (wp_touchBlock_count grown hs) ?_ (fun _ _ _ => trivial)
    rintro _ middle ⟨count, grown'⟩
    refine wp_imp (ih grown') ?_
    rintro _ pool' ⟨rest, grown''⟩
    refine ⟨?_, grown''⟩
    rw [show block :: blocks = [block] ++ blocks from rfl, filter_append, length_append]
    omega

end BlockPool

end KVOffload.Core
