import KVOffload.Core.CacheManager
import KVOffload.Core.PoolSpec

/-!
# What the operations of the managers do

`Sound` ties the pool to the lists of the requests and to the `pins` of others. One rule for each operation says which list it
changes and which blocks it takes, also when it raises.
-/

namespace KVOffload.Core

open List OrderedDict BlockPool Finset

variable {pool : BlockPool}

theorem PoolInv.congr {cfg : PoolConfig} {held held' : BlockId → Nat} {free : List BlockId}
    (inv : PoolInv cfg held free pool) (hs : ∀ block, block ≠ pool.nullBlock → held' block = held block) :
    PoolInv cfg held' free pool where
  queue := inv.queue
  free_iff := inv.free_iff
  refs block real := by rw [inv.refs block real, hs block real]
  inside block used := by
    by_cases null : block = pool.nullBlock
    · rw [null]
      exact inv.nullInside
    · exact inv.inside block (hs block null ▸ used)
  nullInside := inv.nullInside
  cache := inv.cache

def GroupState.held (group : GroupState) (block : BlockId) : Nat := (group.reqToBlocks.values.map (·.count block)).sum

namespace KVCacheManager

variable {cfg : CacheConfig} {s s' s'' : KVCacheManager} {g : Nat} {req : RequestId} {free pins : List BlockId}

variable (s g req) in
def blocks : List BlockId := (s.groups g).blocks req

variable (s g req) in
def numCached : Option Nat := (s.groups g).numCachedBlock req

def withPool (s : KVCacheManager) (pool : BlockPool) : KVCacheManager := { s with blockPool := pool }

@[simp] theorem blocks_withPool (pool : BlockPool) (g : Nat) (r : RequestId) : (s.withPool pool).blocks g r = s.blocks g r := rfl

@[simp] theorem numCached_withPool (pool : BlockPool) (g : Nat) (r : RequestId) :
    (s.withPool pool).numCached g r = s.numCached g r := rfl

@[simp] theorem blockPool_withPool (pool : BlockPool) : (s.withPool pool).blockPool = pool := rfl

@[simp] theorem blockPool_setBlocks (new : List BlockId) : (setBlocks g req new s).blockPool = s.blockPool := rfl

@[simp] theorem blockPool_setNumCached (n : Option Nat) : (setNumCached g req n s).blockPool = s.blockPool := rfl

theorem blocks_onGroup (f : GroupState → GroupState) (hs : (f (s.groups g)).reqToBlocks = (s.groups g).reqToBlocks)
    (g' : Nat) (r : RequestId) : (onGroup g f s).blocks g' r = s.blocks g' r := by
  by_cases here : g' = g
  · subst here
    simp [blocks, onGroup, GroupState.blocks, hs]
  · simp [blocks, onGroup, here]

theorem numCached_onGroup (f : GroupState → GroupState)
    (hs : (f (s.groups g)).numCachedBlock = (s.groups g).numCachedBlock) (g' : Nat) (r : RequestId) :
    (onGroup g f s).numCached g' r = s.numCached g' r := by
  by_cases here : g' = g
  · subst here
    simp [numCached, onGroup, hs]
  · simp [numCached, onGroup, here]

theorem blocks_setBlocks (new : List BlockId) (g' : Nat) (r : RequestId) :
    (setBlocks g req new s).blocks g' r = if g' = g ∧ r = req then new else s.blocks g' r := by
  by_cases here : g' = g
  · subst here
    by_cases this : r = req
    · subst this
      simp [blocks, setBlocks, onGroup, GroupState.blocks, get?_insert]
    · simp [blocks, setBlocks, onGroup, GroupState.blocks, get?_insert, this]
  · simp [blocks, setBlocks, onGroup, here]

@[simp] theorem blocks_setBlocks_self (new : List BlockId) : (setBlocks g req new s).blocks g req = new := by
  simp [blocks_setBlocks]

@[simp] theorem numCached_setBlocks (new : List BlockId) (g' : Nat) (r : RequestId) :
    (setBlocks g req new s).numCached g' r = s.numCached g' r := numCached_onGroup _ rfl g' r

@[simp] theorem blocks_setNumCached (n : Option Nat) (g' : Nat) (r : RequestId) :
    (setNumCached g req n s).blocks g' r = s.blocks g' r := blocks_onGroup _ rfl g' r

theorem numCached_setNumCached (n : Option Nat) (g' : Nat) (r : RequestId) :
    (setNumCached g req n s).numCached g' r = if g' = g ∧ r = req then n else s.numCached g' r := by
  by_cases here : g' = g
  · subst here
    by_cases this : r = req
    · subst this
      simp [numCached, setNumCached, onGroup]
    · simp [numCached, setNumCached, onGroup, this]
  · simp [numCached, setNumCached, onGroup, here]

/-! ### References -/

variable (cfg s) in
def held (block : BlockId) : Nat :=
  ∑ g ∈ range cfg.numGroups, (s.groups g).held block

@[simp] theorem held_withPool (pool : BlockPool) : held cfg (s.withPool pool) = held cfg s := rfl

theorem held_onGroup (s : KVCacheManager) (hi : g < cfg.numGroups) (f : GroupState → GroupState) (block : BlockId) :
    held cfg (onGroup g f s) block + (s.groups g).held block = held cfg s block + (f (s.groups g)).held block := by
  have hm := Finset.mem_range.mpr hi
  unfold held
  rw [← add_sum_erase _ _ hm, ← add_sum_erase _ (fun g => (s.groups g).held block) hm]
  have rest : ∑ x ∈ (Finset.range cfg.numGroups).erase g, ((onGroup g f s).groups x).held block =
      ∑ x ∈ (Finset.range cfg.numGroups).erase g, (s.groups x).held block := by
    apply sum_congr rfl
    intro x other
    simp [onGroup, Function.update_of_ne (ne_of_mem_erase other)]
  rw [rest]
  simp only [onGroup, Function.update_self]
  omega

theorem count_blocks (block : BlockId) : ((((s.groups g).reqToBlocks.get? req).map (·.count block)).getD 0) =
    (s.blocks g req).count block := by
  unfold blocks GroupState.blocks
  cases (s.groups g).reqToBlocks.get? req <;> simp

section

variable (s req)

theorem held_setBlocks (hi : g < cfg.numGroups) (new : List BlockId) (block : BlockId) :
    held cfg (setBlocks g req new s) block + (s.blocks g req).count block = held cfg s block + new.count block := by
  have moved := held_onGroup s hi
    (fun group => { group with reqToBlocks := group.reqToBlocks.insert req new }) block
  have entry := sum_values_insert (·.count block) (s.groups g).reqToBlocks req new
  rw [count_blocks] at entry
  simp only [GroupState.held] at moved
  unfold setBlocks
  omega

theorem held_append (hi : g < cfg.numGroups) (new : List BlockId) :
    held cfg (setBlocks g req (s.blocks g req ++ new) s) = addHeld (held cfg s) new := by
  funext block
  have moved := held_setBlocks s req hi (s.blocks g req ++ new) block
  rw [count_append] at moved
  unfold addHeld
  omega

end

variable {block nullBlock : BlockId}

theorem held_of_mem (hi : g < cfg.numGroups) (hm : block ∈ s.blocks g req) : 0 < held cfg s block := by
  have moved := held_setBlocks s req hi [] block
  have := count_pos_iff.mpr hm
  simp only [count_nil] at moved
  omega

/-! ### Sound states -/

variable (cfg free) in
/-- The pool counts the occurrences in the lists and among the pins, and its free blocks are `free`. -/
structure Sound (s : KVCacheManager) (pins : List BlockId := []) : Prop where
  pool : PoolInv cfg.pool (addHeld (held cfg s) pins) free s.blockPool
  distinct : ∀ g < cfg.numGroups, ∀ req, (realBlocks s.blockPool.nullBlock (s.blocks g req)).Nodup

namespace Sound

section

variable (sound : Sound cfg free s pins) (hi : g < cfg.numGroups) (hm : block ∈ s.blocks g req)

include sound hi hm

theorem known : block < cfg.pool.numGpuBlocks :=
  sound.pool.inside block (Nat.lt_of_lt_of_le (held_of_mem hi hm) (Nat.le_add_right _ _))

theorem not_mem_free : block ∉ free := by
  intro unused
  have none := sound.pool.held_of_free unused
  have some := held_of_mem hi hm
  unfold addHeld at none
  omega

end

theorem counts (sound : Sound cfg free s) : PoolInv cfg.pool (held cfg s) free s.blockPool := addHeld_nil (held cfg s) ▸ sound.pool

end Sound

/-- Only groups of `own` change, and there only what is kept for the request. -/
structure Frame (own : Nat → Prop) (req : RequestId) (s s' : KVCacheManager) : Prop where
  blocks : ∀ g r, ¬ (own g ∧ r = req) → s'.blocks g r = s.blocks g r
  numCached : ∀ g r, ¬ (own g ∧ r = req) → s'.numCached g r = s.numCached g r
  nullBlock : s'.blockPool.nullBlock = s.blockPool.nullBlock

namespace Frame

variable {own own' : Nat → Prop}

theorem refl : Frame own req s s := ⟨fun _ _ _ => rfl, fun _ _ _ => rfl, rfl⟩

theorem trans (first : Frame own req s s') (second : Frame own req s' s'') : Frame own req s s'' where
  blocks g r other := (second.blocks g r other).trans (first.blocks g r other)
  numCached g r other := (second.numCached g r other).trans (first.numCached g r other)
  nullBlock := second.nullBlock.trans first.nullBlock

theorem mono (wider : ∀ g, own g → own' g) (frame : Frame own req s s') : Frame own' req s s' where
  blocks g r other := frame.blocks g r fun hi => other ⟨wider g hi.1, hi.2⟩
  numCached g r other := frame.numCached g r fun hi => other ⟨wider g hi.1, hi.2⟩
  nullBlock := frame.nullBlock

theorem setBlocks (null : pool.nullBlock = s.blockPool.nullBlock) (new : List BlockId) :
    Frame (· = g) req s (setBlocks g req new (s.withPool pool)) where
  blocks g' r other := by rw [blocks_setBlocks, if_neg other, blocks_withPool]
  numCached g' r other := by rw [numCached_setBlocks, numCached_withPool]
  nullBlock := null

theorem entered (g : Nat) (req : RequestId) (s : KVCacheManager) :
    Frame (· = g) req s (KVCacheManager.setBlocks g req (s.blocks g req) s) where
  blocks g' r other := by rw [blocks_setBlocks, if_neg other]
  numCached g' r other := numCached_setBlocks _ g' r
  nullBlock := rfl

theorem onGroup (f : GroupState → GroupState) (blocks : (f (s.groups g)).reqToBlocks = (s.groups g).reqToBlocks)
    (cached : (f (s.groups g)).numCachedBlock = (s.groups g).numCachedBlock) :
    Frame own req s (onGroup g f s) where
  blocks g' r _ := blocks_onGroup f blocks g' r
  numCached g' r _ := numCached_onGroup f cached g' r
  nullBlock := rfl

theorem setNumCached (n : Option Nat) : Frame (· = g) req s (setNumCached g req n s) where
  blocks g' r other := blocks_setNumCached n g' r
  numCached g' r other := by rw [numCached_setNumCached, if_neg other]
  nullBlock := rfl

end Frame

/-! ### Computations -/

@[simp] theorem wp_onPool {α : Type} (x : PoolM α) (Q : α → KVCacheManager → Prop) (E : CacheError → KVCacheManager → Prop) :
    wp (onPool x) Q E s ↔ wp x (fun a pool => Q a (s.withPool pool)) (fun e pool => E e (s.withPool pool)) s.blockPool := by
  unfold wp onPool withPool
  cases x s.blockPool <;> rfl

@[simp] theorem wp_reqBlocks (Q : List BlockId → KVCacheManager → Prop) (E : CacheError → KVCacheManager → Prop) :
    wp (reqBlocks g req) Q E s ↔ Q (s.blocks g req) (setBlocks g req (s.blocks g req) s) := by
  simp [reqBlocks, blocks]

theorem nodup_of_count_le {new old : List BlockId}
    (fewer : ∀ block, block ≠ nullBlock → new.count block ≤ old.count block) (distinct : (realBlocks nullBlock old).Nodup) :
    (realBlocks nullBlock new).Nodup := by
  refine nodup_iff_count_le_one.mpr fun block => ?_
  have before := nodup_iff_count_le_one.mp distinct block
  unfold realBlocks at before ⊢
  by_cases real : block = nullBlock
  · rw [count_eq_zero.mpr (by simp [real])]
    exact Nat.zero_le 1
  · rw [count_filter (by simpa using real)] at before ⊢
    exact (fewer block real).trans before

variable (sound : Sound cfg free s pins) (hi : g < cfg.numGroups)

include sound hi in
theorem Sound.rearranged {new : List BlockId}
    (hs : ∀ block, block ≠ s.blockPool.nullBlock → new.count block = (s.blocks g req).count block) :
    Sound cfg free (setBlocks g req new s) pins where
  pool := by
    refine sound.pool.congr fun block real => ?_
    have moved := held_setBlocks s req hi new block
    have kept := hs block real
    unfold addHeld
    omega
  distinct g' hi' r := by
    rw [blocks_setBlocks]
    split
    · exact nodup_of_count_le (fun block real => (hs block real).le) (sound.distinct g hi req)
    · exact sound.distinct g' hi' r

include sound hi in
theorem Sound.entered (req : RequestId) : Sound cfg free (setBlocks g req (s.blocks g req) s) pins :=
  sound.rearranged hi fun _ _ => rfl

include sound hi in
theorem Sound.onGroup (f : GroupState → GroupState)
    (hs : (f (s.groups g)).reqToBlocks = (s.groups g).reqToBlocks) : Sound cfg free (onGroup g f s) pins where
  pool := by
    have same : held cfg (KVCacheManager.onGroup g f s) = held cfg s := by
      funext block
      have moved := held_onGroup s hi f block
      have : (f (s.groups g)).held block = (s.groups g).held block := by simp [GroupState.held, hs]
      omega
    rw [same]
    exact sound.pool
  distinct g' hi' r := by
    rw [blocks_onGroup f hs]
    exact sound.distinct g' hi' r

/-! ### Taking blocks from the queue -/

variable (cfg g req) in
/-- The request's list in the group grows by the blocks that were taken, and they lose their hashes. -/
structure Takes (taken : List BlockId) (s s' : KVCacheManager) : Prop where
  frame : Frame (· = g) req s s'
  blocks : s'.blocks g req = s.blocks g req ++ taken
  numCached : s'.numCached g req = s.numCached g req
  hashes : ∀ block, s'.blockPool.blockHash block =
    if cfg.pool.enableCaching ∧ block ∈ taken then none else s.blockPool.blockHash block

include sound hi in
theorem Sound.taken (req : RequestId) {n : Nat}
    (inv : PoolInv cfg.pool (addHeld (addHeld (held cfg s) pins) (free.take n)) (free.drop n) pool)
    (null : pool.nullBlock = s.blockPool.nullBlock) :
    Sound cfg (free.drop n) (setBlocks g req (s.blocks g req ++ free.take n) (s.withPool pool)) pins where
  pool := by
    have grown : held cfg (setBlocks g req (s.blocks g req ++ free.take n) (s.withPool pool)) =
        addHeld (held cfg s) (free.take n) := held_append (s.withPool pool) req hi (free.take n)
    rw [grown, addHeld_right_comm]
    exact inv
  distinct g' hi' r := by
    rw [blocks_setBlocks, blockPool_setBlocks, blockPool_withPool, null]
    split
    · rw [realBlocks_append, nodup_append']
      refine ⟨sound.distinct g hi req, (sound.pool.nodup.sublist (take_sublist n free)).filter _, ?_⟩
      intro block old new
      exact sound.not_mem_free hi (mem_of_mem_filter old) (mem_of_mem_take (mem_of_mem_filter new))
    · exact sound.distinct g' hi' r

variable {E : CacheError → KVCacheManager → Prop} {Q : List BlockId → KVCacheManager → Prop}

include sound hi in
theorem wp_extend (req : RequestId) {n : Nat}
    (enough : n ≤ free.length → ∀ pool,
      Sound cfg (free.drop n) (setBlocks g req (s.blocks g req ++ free.take n) (s.withPool pool)) pins →
      Takes cfg g req (free.take n) s (setBlocks g req (s.blocks g req ++ free.take n) (s.withPool pool)) →
      Q (free.take n) (s.withPool pool))
    (short : free.length < n → E (.cannotGetFreeBlocks n) s) :
    wp (onPool (getNewBlocks cfg.pool n)) Q E s := by
  rw [wp_onPool]
  by_cases fits : n ≤ free.length
  · obtain ⟨pool, run, inv, null, hashes⟩ := getNewBlocks_eq sound.pool fits
    rw [wp_of_ok run]
    exact enough fits pool (sound.taken hi req inv null) ⟨Frame.setBlocks null _, by simp, by simp, hashes⟩
  · have few := Nat.lt_of_not_le fits
    have failed := getNewBlocks_error sound.pool (Int.ofNat_lt.mpr few)
    rw [wp_of_error failed]
    exact short few

variable (cfg s g req) in
def numMissing (numTokens : Nat) : Nat :=
  cdiv numTokens (cfg.spec g).blockSize - (s.blocks g req).length

include sound hi in
theorem wp_baseAllocateNewBlocks {numTokens n : Nat} (missing : n = numMissing cfg s g req numTokens)
    (enough : n ≤ free.length → ∀ s', Sound cfg (free.drop n) s' pins → Takes cfg g req (free.take n) s s' → Q (free.take n) s')
    (short : free.length < n → ∀ e s', Sound cfg free s' pins → E e s') :
    wp (baseAllocateNewBlocks cfg g req numTokens) Q E s := by
  subst missing
  have entered := sound.entered hi req
  -- Entering the list changes nothing that the request's list or the pool shows.
  have hs : ∀ {taken s'}, Takes cfg g req taken (setBlocks g req (s.blocks g req) s) s' →
      Takes cfg g req taken s s' := fun takes =>
    { frame := (Frame.entered g req s).trans takes.frame
      blocks := by rw [takes.blocks, blocks_setBlocks_self]
      numCached := by rw [takes.numCached, numCached_setBlocks]
      hashes := takes.hashes }
  unfold baseAllocateNewBlocks
  simp only [wp_bind, wp_reqBlocks]
  change wp (if numMissing cfg s g req numTokens = 0 then _ else _) Q E _
  split
  · rename_i none
    rw [none] at enough
    refine enough (Nat.zero_le _) _ entered (hs ⟨Frame.refl, ?_, rfl, ?_⟩)
    · simp
    · simp
  · simp only [wp_bind]
    apply wp_extend entered hi req
    · intro fits pool sound' takes
      rw [blocks_setBlocks_self] at sound' takes
      exact enough fits _ sound' (hs takes)
    · intro few
      exact short few _ _ entered

/-! ### Computed blocks -/

section

variable (cfg g) (hits : List BlockId) (total external : Nat)

def keptHits : List BlockId := hits.drop (numSkippedBlocks (cfg.spec g) total)

def numLocalBlocks : Nat := numSkippedBlocks (cfg.spec g) total + (keptHits cfg g hits total).length

def externalTokens : Nat :=
  if numSkippedBlocks (cfg.spec g) total > 0 then min (total - getNumSkippedTokens (cfg.spec g) total) external else external

def numExternalBlocks : Nat :=
  if externalTokens cfg g total external > 0 then
    cdiv total (cfg.spec g).blockSize - numLocalBlocks cfg g hits total
  else 0

def HitsFit : Prop :=
  externalTokens cfg g total external > 0 → numLocalBlocks cfg g hits total ≤ cdiv total (cfg.spec g).blockSize

def untouched (free : List BlockId) : List BlockId := free.filter (· ∉ keptHits cfg g hits total)

end

theorem hitsFit_zero (hits : List BlockId) (total : Nat) : HitsFit cfg g hits total 0 := by
  intro hp
  unfold externalTokens at hp
  split at hp <;> simp at hp

variable (cfg g req) in
structure Computes (hits : List BlockId) (total external : Nat)
    (free : List BlockId) (s s' : KVCacheManager) : Prop where
  frame : Frame (· = g) req s s'
  blocks : s'.blocks g req = List.replicate (numSkippedBlocks (cfg.spec g) total) s.blockPool.nullBlock ++
    keptHits cfg g hits total ++ (untouched cfg g hits total free).take (numExternalBlocks cfg g hits total external)
  numCached : s'.numCached g req = some (numLocalBlocks cfg g hits total)
  hashes : ∀ block, s'.blockPool.blockHash block = if cfg.pool.enableCaching ∧
    block ∈ (untouched cfg g hits total free).take (numExternalBlocks cfg g hits total external) then none
    else s.blockPool.blockHash block

variable {hits left released : List BlockId} {Q : Unit → KVCacheManager → Prop} {numTokens total external : Nat}

theorem wp_touchComputed (sound : Sound cfg free s pins) (known : ∀ block ∈ hits, block < cfg.pool.numGpuBlocks)
    (done : ∀ pool, PoolInv cfg.pool (addHeld (addHeld (held cfg s) pins) hits) (free.filter (· ∉ hits)) pool →
      BlockPool.SameHashes s.blockPool pool → Q () (s.withPool pool))
    (failed : ¬ cfg.pool.enableCaching → hits ≠ [] → ∀ e, E e s) : wp (touchComputed cfg hits) Q E s := by
  unfold touchComputed
  split
  · obtain ⟨pool, run, inv, hs⟩ := touch_eq sound.pool known
    rw [wp_onPool, wp_of_ok run]
    exact done pool inv hs
  · rename_i off
    rw [wp_ensure]
    constructor
    · rintro rfl
      refine done s.blockPool ?_ ⟨rfl, rfl, rfl⟩
      simpa using sound.pool
    · intro some
      exact failed off some _

include sound hi in
theorem Sound.touched (empty : s.blocks g req = []) {free' : List BlockId} (n : Nat)
    (inv : PoolInv cfg.pool (addHeld (addHeld (held cfg s) pins) hits) free' pool)
    (null : pool.nullBlock = s.blockPool.nullBlock) (distinct : (realBlocks s.blockPool.nullBlock hits).Nodup) :
    Sound cfg free' (setBlocks g req (replicate n pool.nullBlock ++ hits) (s.withPool pool)) pins where
  pool := by
    apply inv.congr
    intro block real
    have moved := held_setBlocks (s.withPool pool) req hi (replicate n pool.nullBlock ++ hits) block
    rw [blocks_withPool, empty, held_withPool, count_append, count_eq_zero.mpr fun hm => real (eq_of_mem_replicate hm)] at moved
    unfold addHeld
    simp only [count_nil] at moved
    omega
  distinct g' hi' r := by
    rw [blocks_setBlocks, blockPool_setBlocks, blockPool_withPool, null]
    split
    · simpa [realBlocks] using distinct
    · exact sound.distinct g' hi' r

include sound hi in
theorem wp_allocateExternalBlocks {n : Nat} (count : cdiv total (cfg.spec g).blockSize = (s.blocks g req).length + n)
    (enough : n ≤ free.length → ∀ s', Sound cfg (free.drop n) s' pins → Takes cfg g req (free.take n) s s' → Q () s')
    (short : free.length < n → ∀ e, E e s) :
    wp (allocateExternalBlocks cfg g req total) Q E s := by
  have cast : (cdiv total (cfg.spec g).blockSize : Int) - (s.blocks g req).length = n := by omega
  unfold allocateExternalBlocks
  simp only [wp_bind]
  change wp (onPool (getNewBlocks cfg.pool
    ((cdiv total (cfg.spec g).blockSize) - (s.blocks g req).length))) _ _ _
  rw [cast]
  apply wp_extend sound hi req
  · intro fits pool sound' takes
    exact enough fits _ sound' takes
  · intro few
    exact short few _

inductive ComputedFailure (cfg : CacheConfig) (s : KVCacheManager) (g : Nat) (req : RequestId) (hits : List BlockId)
    (total external : Nat) (free : List BlockId) : Prop where
  | running (cached : (s.numCached g req).isSome) (some : hits ≠ [])
  | hasBlocks (fresh : s.numCached g req = none) (some : s.blocks g req ≠ [])
  | noCaching (off : ¬ cfg.pool.enableCaching) (some : keptHits cfg g hits total ≠ [])
  | short (few : (untouched cfg g hits total free).length < numExternalBlocks cfg g hits total external)

@[simp] theorem numExternalBlocks_zero (hits : List BlockId) (total : Nat) : numExternalBlocks cfg g hits total 0 = 0 := by
  have none : externalTokens cfg g total 0 = 0 := by
    unfold externalTokens
    split <;> simp
  simp [numExternalBlocks, none]

theorem computes_listed (hs : BlockPool.SameHashes s.blockPool pool) :
    Computes cfg g req hits total 0 free s
      (setNumCached g req (some (numLocalBlocks cfg g hits total)) (setBlocks g req
      (replicate (numSkippedBlocks (cfg.spec g) total) pool.nullBlock ++ keptHits cfg g hits total)
      ((setBlocks g req (s.blocks g req) s).withPool pool))) where
  frame := by
    have entered := Frame.entered g req s
    have null : pool.nullBlock = (setBlocks g req (s.blocks g req) s).blockPool.nullBlock := hs.nullBlock
    exact (entered.trans (Frame.setBlocks null _)).trans (Frame.setNumCached _)
  blocks := by simp [hs.nullBlock]
  numCached := by simp [numCached_setNumCached]
  hashes block := by simp [hs.blockHash]

theorem Computes.take (listed : Computes cfg g req hits total 0 free s s')
    (takes : Takes cfg g req ((untouched cfg g hits total free).take (numExternalBlocks cfg g hits total external)) s' s'') :
    Computes cfg g req hits total external free s s'' where
  frame := listed.frame.trans takes.frame
  blocks := by
    rw [takes.blocks, listed.blocks]
    simp
  numCached := takes.numCached.trans listed.numCached
  hashes block := by
    rw [takes.hashes, listed.hashes]
    simp

theorem wp_external (computes : Computes cfg g req hits total 0 free s s')
    (sound : Sound cfg (untouched cfg g hits total free) s' pins) (hi : g < cfg.numGroups)
    (fit : HitsFit cfg g hits total external)
    (done : numExternalBlocks cfg g hits total external ≤ (untouched cfg g hits total free).length →
      ∀ s'', Sound cfg ((untouched cfg g hits total free).drop (numExternalBlocks cfg g hits total external)) s'' pins →
      Computes cfg g req hits total external free s s'' → Q () s'')
    (short : (untouched cfg g hits total free).length < numExternalBlocks cfg g hits total external → ∀ e, E e s') :
    wp (onlyIf (externalTokens cfg g total external > 0) (allocateExternalBlocks cfg g req total)) Q E s' := by
  have held : (s'.blocks g req).length = numLocalBlocks cfg g hits total := by
    rw [computes.blocks]
    simp [numLocalBlocks]
  rw [wp_onlyIf]
  constructor
  · intro some
    have counted : numExternalBlocks cfg g hits total external =
        cdiv total (cfg.spec g).blockSize - numLocalBlocks cfg g hits total := if_pos some
    have fits := fit some
    have count : cdiv total (cfg.spec g).blockSize =
        (s'.blocks g req).length + numExternalBlocks cfg g hits total external := by omega
    apply wp_allocateExternalBlocks sound hi count
    · intro enough s'' sound' takes
      exact done enough s'' sound' (computes.take takes)
    · exact short
  · intro none
    have counted : numExternalBlocks cfg g hits total external = 0 := if_neg none
    apply done
    · omega
    · rw [counted]
      exact sound
    · apply computes.take
      rw [counted]
      exact ⟨Frame.refl, by simp, rfl, by simp⟩

include sound hi in
theorem wp_allocateNewComputedBlocks
    (known : ∀ block ∈ hits, block < cfg.pool.numGpuBlocks) (distinct : (realBlocks s.blockPool.nullBlock hits).Nodup)
    {localTokens : Nat} (all : total = localTokens + external) (fit : HitsFit cfg g hits total external)
    (running : (s.numCached g req).isSome → hits = [] → Q () s)
    (fresh : s.numCached g req = none → s.blocks g req = [] →
      numExternalBlocks cfg g hits total external ≤ (untouched cfg g hits total free).length →
      ∀ s', Sound cfg ((untouched cfg g hits total free).drop (numExternalBlocks cfg g hits total external)) s' pins →
      Computes cfg g req hits total external free s s' → Q () s')
    (failed : ComputedFailure cfg s g req hits total external free → ∀ e free' s', Sound cfg free' s' pins → E e s') :
    wp (allocateNewComputedBlocks cfg g req hits localTokens external) Q E s := by
  subst all
  change wp (if (s.numCached g req).isSome then _ else _) Q E s
  split
  · rename_i cached
    rw [wp_ensure, length_eq_zero_iff]
    exact ⟨running cached, fun some => failed (.running cached some) _ _ _ sound⟩
  rename_i uncached
  have uncached : s.numCached g req = none := by simpa using uncached
  have entered := sound.entered hi req
  simp only [wp_bind, wp_reqBlocks, wp_ensure, length_eq_zero_iff]
  refine ⟨fun empty => ?_, fun some => failed (.hasBlocks uncached some) _ _ _ entered⟩
  have keptKnown : ∀ block ∈ keptHits cfg g hits (localTokens + external), block < cfg.pool.numGpuBlocks :=
    fun block hm => known block (mem_of_mem_drop hm)
  apply wp_touchComputed entered keptKnown
  · intro pool inv hs
    have touched := entered.touched hi (by rw [blocks_setBlocks_self, empty])
      (numSkippedBlocks (cfg.spec g) (localTokens + external)) inv hs.nullBlock
      (distinct.sublist ((drop_sublist _ _).filter _))
    have listed := touched.onGroup hi (fun group => { group with
      numCachedBlock := Function.update group.numCachedBlock req
        (some (numLocalBlocks cfg g hits (localTokens + external))) }) rfl
    have computes : Computes cfg g req hits (localTokens + external) 0 free s _ := computes_listed hs
    have length : (replicate (numSkippedBlocks (cfg.spec g) (localTokens + external)) pool.nullBlock ++
        keptHits cfg g hits (localTokens + external)).length = numLocalBlocks cfg g hits (localTokens + external) := by
      simp [numLocalBlocks]
    change wp (onlyIf (externalTokens cfg g (localTokens + external) external > 0) _) Q E
      (setNumCached g req (some (replicate (numSkippedBlocks (cfg.spec g) (localTokens + external))
        pool.nullBlock ++ keptHits cfg g hits (localTokens + external)).length) _)
    rw [length]
    apply wp_external computes listed hi fit
    · exact fresh uncached empty
    · intro few e
      exact failed (.short few) _ _ _ listed
  · intro off some e
    exact failed (.noCaching off some) _ _ _ entered

/-! ### Giving blocks back -/

variable (cfg g req) in
/-- The request's list in the group becomes `left`; the blocks that nobody refers to any more join the free ones. -/
structure Releases (left released free : List BlockId)
    (s s' : KVCacheManager) (pins : List BlockId := []) : Prop where
  frame : Frame (· = g) req s s'
  blocks : s'.blocks g req = left
  sound : Sound cfg (free ++ released) s' pins
  hashes : BlockPool.SameHashes s.blockPool s'.blockPool

def dropBlocks (g : Nat) (req : RequestId) : KVCacheManager → KVCacheManager :=
  onGroup g fun group => { group with reqToBlocks := group.reqToBlocks.erase req }

@[simp] theorem blockPool_dropBlocks : (dropBlocks g req s).blockPool = s.blockPool := rfl

theorem blocks_dropBlocks (g' : Nat) (r : RequestId) :
    (dropBlocks g req s).blocks g' r = if g' = g ∧ r = req then [] else s.blocks g' r := by
  by_cases here : g' = g
  · subst here
    by_cases this : r = req
    · subst this
      simp [blocks, dropBlocks, onGroup, GroupState.blocks, get?_erase]
    · simp [blocks, dropBlocks, onGroup, GroupState.blocks, get?_erase, this]
  · simp [blocks, dropBlocks, onGroup, here]

theorem held_dropBlocks (s : KVCacheManager) (req : RequestId) (hi : g < cfg.numGroups) :
    held cfg s = addHeld (held cfg (dropBlocks g req s)) (s.blocks g req) := by
  funext block
  have moved := held_onGroup s hi (fun group => { group with reqToBlocks := group.reqToBlocks.erase req }) block
  have entry := sum_values_erase (·.count block) (s.groups g).reqToBlocks req
  rw [count_blocks] at entry
  simp only [GroupState.held] at moved
  unfold addHeld dropBlocks
  omega

theorem wp_release {kept : KVCacheManager} {gone : List BlockId} (sound : Sound cfg free s pins)
    (pools : kept.blockPool = s.blockPool) (frame : Frame (· = g) req s kept)
    (references : ∀ block, block ≠ s.blockPool.nullBlock → held cfg s block = addHeld (held cfg kept) gone block)
    (listed : kept.blocks g req = left) (distinct : (realBlocks s.blockPool.nullBlock gone).Nodup)
    (still : ∀ g < cfg.numGroups, ∀ r, (realBlocks s.blockPool.nullBlock (kept.blocks g r)).Nodup)
    (done : ∀ s' released, (∀ block ∈ released, block ∈ gone) → Releases cfg g req left released free s s' pins →
      (∀ g r, s'.numCached g r = kept.numCached g r) → Q () s') :
    wp (onPool (freeBlocks gone)) Q E kept := by
  have inv : PoolInv cfg.pool (addHeld (addHeld (held cfg kept) pins) gone) free kept.blockPool := by
    rw [pools, addHeld_right_comm]
    refine sound.pool.congr fun block real => ?_
    unfold addHeld at references ⊢
    rw [references block real]
  obtain ⟨pool, run, inv', hs⟩ := freeBlocks_eq inv (by rw [pools]; exact distinct)
  rw [wp_onPool, wp_of_ok run]
  have null : pool.nullBlock = s.blockPool.nullBlock := by rw [hs.nullBlock, pools]
  have releases : Releases cfg g req left _ free s (kept.withPool pool) pins :=
    { frame := ⟨fun g' r other => frame.blocks g' r other, fun g' r other => frame.numCached g' r other, null⟩
      blocks := listed
      sound := ⟨inv', fun g' hi' r => by
        rw [blockPool_withPool, null]
        exact still g' hi' r⟩
      hashes := ⟨null, by rw [← pools]; exact hs.blockHash, by rw [← pools]; exact hs.cache⟩ }
  exact done _ _ (fun block hm => mem_of_mem_filter hm) releases fun _ _ => rfl

theorem Frame.dropBlocks : Frame (· = g) req s (dropBlocks g req s) where
  blocks g' r other := by rw [blocks_dropBlocks, if_neg other]
  numCached g' r _ := numCached_onGroup _ rfl g' r
  nullBlock := rfl

theorem Releases.of_frame (releases : Releases cfg g req left released free s' s'' pins)
    (frame : Frame (· = g) req s s') (pools : s'.blockPool = s.blockPool) :
    Releases cfg g req left released free s s'' pins where
  frame := frame.trans releases.frame
  blocks := releases.blocks
  sound := releases.sound
  hashes := pools ▸ releases.hashes

theorem Releases.setNumCached (releases : Releases cfg g req left released free s s' pins)
    (hi : g < cfg.numGroups) (n : Option Nat) :
    Releases cfg g req left released free s (setNumCached g req n s') pins where
  frame := releases.frame.trans (Frame.setNumCached n)
  blocks := by rw [blocks_setNumCached, releases.blocks]
  sound := releases.sound.onGroup hi _ rfl
  hashes := releases.hashes

include sound hi in
theorem wp_managerFree
    (done : ∀ s' released, (∀ block ∈ released, block ∈ s.blocks g req) →
      Releases cfg g req [] released free s s' pins → s'.numCached g req = none → Q () s') :
    wp (managerFree g req) Q E s := by
  unfold managerFree
  simp only [wp_bind, wp_modify]
  -- The records of the Mamba manager are dropped first; they are not part of what is claimed here.
  have inert : Frame (· = g) req s (setLastState g req none (setAllocated g req false s)) :=
    (Frame.onGroup _ rfl rfl).trans (Frame.onGroup _ rfl rfl)
  have sound' : Sound cfg free (setLastState g req none (setAllocated g req false s)) pins :=
    (sound.onGroup hi _ rfl).onGroup hi _ rfl
  have hs : (setLastState g req none (setAllocated g req false s)).blocks g req = s.blocks g req := by
    unfold setLastState setAllocated
    rw [blocks_onGroup _ rfl, blocks_onGroup _ rfl]
  have pools : (setLastState g req none (setAllocated g req false s)).blockPool = s.blockPool := rfl
  revert inert sound' hs pools
  generalize setLastState g req none (setAllocated g req false s) = start
  intro inert sound' hs pools
  change wp (onPool (freeBlocks (start.blocks g req).reverse)) _ _ (dropBlocks g req start)
  have empty : (dropBlocks g req start).blocks g req = [] := by simp [blocks_dropBlocks]
  refine wp_release sound' blockPool_dropBlocks Frame.dropBlocks ?_ empty ?_ ?_ ?_
  · intro block real
    rw [held_dropBlocks start req hi]
    simp [addHeld]
  · unfold realBlocks
    rw [filter_reverse, nodup_reverse]
    exact sound'.distinct g hi req
  · intro g' hi' r
    rw [blocks_dropBlocks]
    split
    · simp [realBlocks]
    · exact sound'.distinct g' hi' r
  · intro s' released origin releases numCached
    apply done _ released
    · intro block hm
      rw [← hs]
      exact mem_reverse.mp (origin block hm)
    · exact (releases.of_frame inert pools).setNumCached hi none
    · simp [numCached_setNumCached]

section

variable (nullBlock) (blocks : List BlockId) (n : Nat)

theorem removedBlocks_split : blocks.take (min n blocks.length - (removedBlocks nullBlock blocks n).length) ++
    (removedBlocks nullBlock blocks n).reverse ++ blocks.drop n = blocks := by
  have split := takeWhile_append_dropWhile (p := (· ≠ nullBlock)) (l := (blocks.take n).reverse)
  have front := congrArg reverse split
  rw [reverse_append, reverse_reverse] at front
  have length := congrArg length front
  rw [length_append, length_reverse, length_reverse, length_take] at length
  change _ + (removedBlocks nullBlock blocks n).length = _ at length
  have kept : blocks.take (min n blocks.length - (removedBlocks nullBlock blocks n).length) =
      ((blocks.take n).reverse.dropWhile (· ≠ nullBlock)).reverse := by
    have left := congrArg (take ((blocks.take n).reverse.dropWhile (· ≠ nullBlock)).length) front
    rw [take_left' (length_reverse ..), take_take] at left
    rw [left]
    congr 1
    omega
  rw [kept]
  change _ ++ ((blocks.take n).reverse.takeWhile (· ≠ nullBlock)).reverse ++ _ = _
  rw [front, take_append_drop]

theorem length_withoutRemoved : (withoutRemoved nullBlock blocks n).length = blocks.length := by
  have split := congrArg length (removedBlocks_split nullBlock blocks n)
  rw [← split]
  simp [withoutRemoved]

theorem count_withoutRemoved (real : block ≠ nullBlock) : blocks.count block =
    (withoutRemoved nullBlock blocks n).count block + (removedBlocks nullBlock blocks n).count block := by
  have split := congrArg (count block) (removedBlocks_split nullBlock blocks n)
  rw [count_append, count_append, count_reverse] at split
  have none : (replicate (removedBlocks nullBlock blocks n).length nullBlock).count block = 0 :=
    count_eq_zero.mpr fun hm => real (eq_of_mem_replicate hm)
  unfold withoutRemoved
  rw [count_append, count_append]
  omega

theorem mem_of_mem_removedBlocks (hm : block ∈ removedBlocks nullBlock blocks n) : block ∈ blocks := by
  rw [← removedBlocks_split nullBlock blocks n]
  simp [hm]

variable {blocks} (distinct : (realBlocks nullBlock blocks).Nodup)

include distinct in
theorem nodup_withoutRemoved : (realBlocks nullBlock (withoutRemoved nullBlock blocks n)).Nodup := by
  refine nodup_of_count_le (fun block real => ?_) distinct
  rw [count_withoutRemoved nullBlock blocks n real]
  exact Nat.le_add_right _ _

include distinct in
theorem nodup_removedBlocks : (realBlocks nullBlock (removedBlocks nullBlock blocks n)).Nodup := by
  refine nodup_of_count_le (fun block real => ?_) distinct
  rw [count_withoutRemoved nullBlock blocks n real]
  exact Nat.le_add_left _ _

end

include sound hi in
theorem wp_baseRemoveSkippedBlocks {totalComputedTokens : Nat}
    (done : ∀ s' released, (∀ block ∈ released, block ∈ s.blocks g req) →
      Releases cfg g req (withoutRemoved s.blockPool.nullBlock (s.blocks g req)
      (numSkippedBlocks (cfg.spec g) totalComputedTokens)) released free s s' pins →
      s'.numCached g req = s.numCached g req → Q () s') :
    wp (baseRemoveSkippedBlocks cfg g req totalComputedTokens) Q E s := by
  unfold baseRemoveSkippedBlocks
  simp only []
  split
  · rename_i none
    apply done s []
    · simp
    · have zero : numSkippedBlocks (cfg.spec g) totalComputedTokens = 0 := by simp [numSkippedBlocks, none]
      exact ⟨Frame.refl, by simp [zero, withoutRemoved, removedBlocks], by simpa using sound, ⟨rfl, rfl, rfl⟩⟩
    · rfl
  simp only [wp_bind, wp_reqBlocks, wp_get, blockPool_setBlocks]
  generalize numSkippedBlocks (cfg.spec g) totalComputedTokens = n at done
  have entered := sound.entered hi req
  have frame := Frame.entered g req s
  have listed : (setBlocks g req (s.blocks g req) s).blocks g req = s.blocks g req := by simp
  have cached : (setBlocks g req (s.blocks g req) s).numCached g req = s.numCached g req := by simp
  have pools : (setBlocks g req (s.blocks g req) s).blockPool = s.blockPool := rfl
  revert entered frame listed cached pools
  generalize setBlocks g req (s.blocks g req) s = start
  intro entered frame listed cached pools
  rw [← listed, ← pools]
  have removal : Frame (· = g) req start (setBlocks g req
      (withoutRemoved start.blockPool.nullBlock (start.blocks g req) n) start) :=
    ⟨fun g' r other => by rw [blocks_setBlocks, if_neg other], fun g' r _ => numCached_setBlocks _ g' r, rfl⟩
  refine wp_release entered (blockPool_setBlocks _) removal ?_ (blocks_setBlocks_self _) ?_ ?_ ?_
  · intro block real
    have moved := held_setBlocks start req hi
      (withoutRemoved start.blockPool.nullBlock (start.blocks g req) n) block
    have counted := count_withoutRemoved start.blockPool.nullBlock (start.blocks g req) n real
    unfold addHeld
    omega
  · exact nodup_removedBlocks _ _ (entered.distinct g hi req)
  · intro g' hi' r
    rw [blocks_setBlocks]
    split
    · exact nodup_withoutRemoved _ _ (entered.distinct g hi req)
    · exact entered.distinct g' hi' r
  · intro s' released origin releases hs
    apply done s' released
    · intro block hm
      rw [← listed]
      exact mem_of_mem_removedBlocks _ _ _ (origin block hm)
    · rw [← listed, ← pools]
      exact releases.of_frame frame pools
    · rw [hs, numCached_setBlocks, cached]

/-! ### Hashing full blocks -/

/-- Full blocks of the request got hashes; the lists and the references are what they were. -/
structure Caches (cfg : CacheConfig) (g : Nat) (req : Request) (numTokens : Nat) (free : List BlockId)
    (s s' : KVCacheManager) (pins : List BlockId := []) : Prop where
  sound : Sound cfg free s' pins
  frame : Frame (· = g) req.requestId s s'
  blocks : s'.blocks g req.requestId = s.blocks g req.requestId
  hashes : BlockPool.Hashes cfg.pool (hashesAt cfg.pool.hashBlockSize req.blockHashes (cfg.spec g).blockSize)
    (s.blocks g req.requestId) ((s.numCached g req.requestId).getD 0) (numTokens / (cfg.spec g).blockSize) g
    s.blockPool s'.blockPool

variable {req : Request}

theorem Caches.onGroup (caches : Caches cfg g req numTokens free s s' pins)
    (hi : g < cfg.numGroups) (f : GroupState → GroupState) (hs : (f (s'.groups g)).reqToBlocks = (s'.groups g).reqToBlocks)
    (frame : Frame (· = g) req.requestId s' (onGroup g f s')) :
    Caches cfg g req numTokens free s (onGroup g f s') pins where
  sound := caches.sound.onGroup hi f hs
  frame := caches.frame.trans frame
  blocks := by rw [blocks_onGroup f hs, caches.blocks]
  hashes := caches.hashes

theorem wp_rememberCached (caches : Caches cfg g req numTokens free s s' pins)
    (hi : g < cfg.numGroups) (blocks : List BlockId) :
    wp (rememberCached g blocks)
      (fun _ t => Caches cfg g req numTokens free s t pins ∧ t.numCached g req.requestId = s'.numCached g req.requestId)
      (fun _ t => Caches cfg g req numTokens free s t pins) s' := by
  refine wp_forM (I := fun t => Caches cfg g req numTokens free s t pins ∧
    t.numCached g req.requestId = s'.numCached g req.requestId) ?_ ⟨caches, rfl⟩
  rintro block - t ⟨caches', hs⟩
  simp only [wp_bind, wp_onlyIf]
  refine ⟨fun _ => ?_, fun _ => ⟨caches', hs⟩⟩
  split
  · exact caches'
  · exact ⟨caches'.onGroup hi _ rfl (Frame.onGroup _ rfl rfl), by rw [numCached_onGroup _ rfl, hs]⟩

include sound hi in
theorem wp_managerCacheBlocks {alignment : Option Nat}
    (done : ∀ s', Caches cfg g req numTokens free s s' pins →
      s'.numCached g req.requestId = (if (s.numCached g req.requestId).getD 0 ≥ numTokens / (cfg.spec g).blockSize then
      s.numCached g req.requestId else some (numTokens / (cfg.spec g).blockSize)) → Q () s')
    (failed : ∀ e s', Caches cfg g req numTokens free s s' pins → E e s') :
    wp (managerCacheBlocks cfg g req numTokens alignment) Q E s := by
  change wp (if (s.numCached g req.requestId).getD 0 ≥ numTokens / (cfg.spec g).blockSize then _ else _) Q E s
  split
  · rename_i cached
    exact done s ⟨sound, Frame.refl, rfl, .refl sound.pool.cache⟩ (if_pos cached).symm
  rename_i uncached
  simp only [wp_bind, wp_reqBlocks, wp_onPool, wp_modify]
  have entered := sound.entered hi req.requestId
  have known : ∀ block ∈ s.blocks g req.requestId, block < cfg.pool.numGpuBlocks :=
    fun block hm => sound.known hi hm
  -- Hashing leaves the lists alone, so what holds of the pool is all there is to show.
  have caches : ∀ pool, BlockPool.Hashes cfg.pool (hashesAt cfg.pool.hashBlockSize req.blockHashes (cfg.spec g).blockSize)
      (s.blocks g req.requestId) ((s.numCached g req.requestId).getD 0) (numTokens / (cfg.spec g).blockSize) g
      s.blockPool pool → Caches cfg g req numTokens free s
        ((setBlocks g req.requestId (s.blocks g req.requestId) s).withPool pool) pins := fun pool hashes =>
    { sound := ⟨hashes.same.poolInv entered.pool hashes.cache, fun g' hi' r => by
        rw [blockPool_withPool, hashes.same.nullBlock]
        exact entered.distinct g' hi' r⟩
      frame := ⟨(Frame.entered g req.requestId s).blocks, (Frame.entered g req.requestId s).numCached, hashes.same.nullBlock⟩
      blocks := by simp
      hashes := hashes }
  refine wp_mono (wp_cacheFullBlocks sound.pool.cache known req ..) ?_ ?_
  · intro _ pool hashes
    have counted := (caches pool hashes).onGroup hi (fun group => { group with
      numCachedBlock := Function.update group.numCachedBlock req.requestId (some (numTokens / (cfg.spec g).blockSize)) })
      rfl (Frame.setNumCached _)
    have number : (KVCacheManager.setNumCached g req.requestId (some (numTokens / (cfg.spec g).blockSize))
        ((setBlocks g req.requestId (s.blocks g req.requestId) s).withPool pool)).numCached g req.requestId =
        some (numTokens / (cfg.spec g).blockSize) := by simp [numCached_setNumCached]
    split
    · refine wp_mono (wp_rememberCached counted hi _) ?_ ?_
      · rintro _ t ⟨caches', hs⟩
        exact done t caches' (by rw [hs, if_neg uncached]; exact number)
      · exact fun e t caches' => failed e t caches'
    · exact done _ counted (by rw [if_neg uncached]; exact number)
  · intro e pool hashes
    exact failed e _ (caches pool hashes)

/-! ### Mamba in align mode -/

theorem count_set_null (real : block ≠ nullBlock) (blocks : List BlockId) (i : Nat) :
    (blocks.set i nullBlock).count block + (if blocks[i]? = some block then 1 else 0) = blocks.count block := by
  induction blocks generalizing i with
  | nil => simp
  | cons first rest ih =>
    cases i with
    | zero =>
      have other : (nullBlock == block) = false := by simpa using fun hs => real hs.symm
      by_cases here : first = block <;> simp [count_cons, other]
    | succ i =>
      have later := ih i
      simp only [set_cons_succ, count_cons, getElem?_cons_succ]
      omega

theorem count_reuseSpeculative (real : block ≠ nullBlock) (numSkipped : Nat) (places : List Nat)
    (blocks : List BlockId) : (reuseSpeculative nullBlock numSkipped places blocks).count block = blocks.count block := by
  induction places generalizing blocks with
  | nil => rfl
  | cons i rest ih =>
    unfold reuseSpeculative
    split
    · -- The block at `i` is counted at the end of the list instead.
      have moved := count_set_null real (blocks ++ [blocks.getD i nullBlock]) i
      rw [count_append, count_singleton] at moved
      rw [ih]
      by_cases hw : i < blocks.length
      · rw [getElem?_append_left hw] at moved
        simp only [getD_eq_getElem?_getD, getElem?_eq_getElem hw, Option.getD_some, Option.some.injEq, beq_iff_eq] at moved
        simp only [getD_eq_getElem?_getD, getElem?_eq_getElem hw, Option.getD_some]
        omega
      have other : (nullBlock == block) = false := by simpa using fun hs => real hs.symm
      have past : blocks.getD i nullBlock = nullBlock := by
        rw [getD_eq_getElem?_getD, getElem?_eq_none (Nat.le_of_not_lt hw), Option.getD_none]
      have none : (blocks ++ [nullBlock])[i]? ≠ some block := by
        rw [getElem?_append_right (Nat.le_of_not_lt hw)]
        cases i - blocks.length with
        | zero => simpa using fun hs => real hs.symm
        | succ k => simp
      rw [past, other, if_neg none] at moved
      rw [past]
      simpa using moved
    · rfl

theorem length_reuseSpeculative (nullBlock : BlockId) (numSkipped start n : Nat) (blocks : List BlockId) :
    (reuseSpeculative nullBlock numSkipped (range' start n) blocks).length = blocks.length + min n (numSkipped - start) := by
  induction n generalizing start blocks with
  | zero => simp [reuseSpeculative]
  | succ n ih =>
    rw [range'_succ, reuseSpeculative]
    split
    · rw [ih, length_set, length_append, length_singleton]
      omega
    · omega

end KVCacheManager

end KVOffload.Core
