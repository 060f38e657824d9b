import KVOffload.Core.CacheRun

/-!
# The allocation check

`allocate_slots` counts the blocks it will need before it takes any (`get_num_blocks_to_allocate`). The
results here say what the count is, what is taken, and when the two agree.
-/

namespace KVOffload.Core

open List

namespace KVCacheManager

variable {cfg : CacheConfig} {s s' : KVCacheManager} {g : Nat} {req : RequestId} {free : List BlockId}

/-! ### The count -/

/-- The tokens a group needs slots for: Mamba adds its speculative blocks. -/
def groupTokens (spec : KVCacheSpec) (numTokens : Nat) : Nat :=
  match spec.kind with
  | .mamba _ numSpeculativeBlocks => numTokens + spec.blockSize * numSpeculativeBlocks
  | _ => numTokens

def numRequired (cfg : CacheConfig) (g numTokens : Nat) : Nat :=
  cdiv (groupTokens (cfg.spec g) numTokens) (cfg.spec g).blockSize

theorem le_groupTokens (spec : KVCacheSpec) (numTokens : Nat) : numTokens ≤ groupTokens spec numTokens := by
  unfold groupTokens
  split
  · exact Nat.le_add_right _ _
  · exact le_refl _

theorem allocateNewBlocks_plain (plain : (cfg.spec g).Plain) (numTokens mainModel : Nat) :
    allocateNewBlocks cfg g req numTokens mainModel = baseAllocateNewBlocks cfg g req (groupTokens (cfg.spec g) numTokens) := by
  unfold allocateNewBlocks groupTokens
  cases kind : (cfg.spec g).kind with
  | mamba mode k =>
    dsimp only
    rw [if_pos fun align => plain k (by rw [kind, align])]
  | fullAttention => rfl
  | slidingWindow w => rfl
  | chunkedLocalAttention c => rfl

variable (cfg s g) in
def postponed (hits : List BlockId) : Bool :=
  match (cfg.spec g).kind with
  | .mamba _ _ => hits.getLast?.any fun block =>
      (s.blockPool.blockHash block).any ((s.groups g).cachedBlocksThisStep.contains ·)
  | _ => false

variable (cfg s g req) in
def predicted (numTokens : Nat)
    (hits : List BlockId) (total : Nat) : Nat :=
  if (s.numCached g req).isSome then numRequired cfg g numTokens - (s.blocks g req).length
  else numRequired cfg g numTokens - max (numSkippedBlocks (cfg.spec g) total) (hits.length + (s.blocks g req).length) +
    getNumEvictableBlocks s.blockPool (hits.drop (numSkippedBlocks (cfg.spec g) total - (s.blocks g req).length))

variable {total numTokens mainModel : Nat} {hits : List BlockId}

theorem baseNumBlocksToAllocate_eq (noHits : (s.numCached g req).isSome → hits = []) :
    baseNumBlocksToAllocate cfg g req (groupTokens (cfg.spec g) numTokens) hits total false s =
      .ok (predicted cfg s g req numTokens hits total) s := by
  unfold baseNumBlocksToAllocate predicted numRequired
  cases cached : s.numCached g req with
  | none =>
    have none : (s.groups g).numCachedBlock req = none := cached
    refine bind_ok_iff.mpr ⟨s, s, rfl, ?_⟩
    simp only [none]
    rfl
  | some n =>
    have some : (s.groups g).numCachedBlock req = some n := cached
    have empty : hits = [] := noHits (by rw [cached]; rfl)
    refine bind_ok_iff.mpr ⟨s, s, rfl, ?_⟩
    simp only [some]
    exact bind_ok_iff.mpr ⟨(), s, ensure_ok (by rw [empty]; rfl), rfl⟩

theorem getNumBlocksToAllocate_eq (plain : (cfg.spec g).Plain)
    (noHits : (s.numCached g req).isSome → hits = []) :
    getNumBlocksToAllocate cfg g req numTokens hits total mainModel false s = .ok (if postponed cfg s g hits then
      cfg.pool.numGpuBlocks + 1 else (predicted cfg s g req numTokens hits total)) s := by
  have base : baseNumBlocksToAllocate cfg g req (groupTokens (cfg.spec g) numTokens) hits total false s = _ :=
    baseNumBlocksToAllocate_eq noHits
  unfold getNumBlocksToAllocate postponed
  unfold groupTokens at base
  cases kind : (cfg.spec g).kind with
  | mamba mode k =>
    simp only [kind] at base ⊢
    refine bind_ok_iff.mpr ⟨s, s, rfl, ?_⟩
    split
    · rfl
    · rw [if_pos fun align => plain k (by rw [kind, align])]
      exact base
  | fullAttention => simpa [kind] using base
  | slidingWindow w => simpa [kind] using base
  | chunkedLocalAttention c => simpa [kind] using base

variable (cfg s req numTokens) in
def predictedTotal (hits : KVCacheBlocks)
    (total : Nat) : Int :=
  ((groupIds cfg).map fun g => if postponed cfg s g (hits g) then (cfg.pool.numGpuBlocks : Int) + 1
    else (predicted cfg s g req numTokens (hits g) total : Int)).sum

variable {hits : KVCacheBlocks} {localTokens external : Nat} {n : Nat}

/-! ### What is taken -/

section

variable (cfg : CacheConfig) (hits : KVCacheBlocks) (total external : Nat) (free : List BlockId)

def externalShare (g : Nat) : Nat := numExternalBlocks cfg g (hits g) total external

/-- The queue that group `g` finds: the groups before it have touched their hits and taken their share. -/
def queueAt : Nat → List BlockId
  | 0 => free
  | g + 1 => (untouched cfg g (hits g) total (queueAt g)).drop (externalShare cfg hits total external g)

def missing (s : KVCacheManager) (req : RequestId) (numTokens g : Nat) : Nat :=
  numRequired cfg g numTokens - (s.blocks g req).length

def takenAt (g : Nat) : List BlockId :=
  (untouched cfg g (hits g) total (queueAt cfg hits total external free g)).take (externalShare cfg hits total external g)

end

variable (cfg hits) in
/-- What the first `n` groups do when they add the computed blocks of a new request. -/
structure AddsComputed (total external : Nat) (free : List BlockId)
    (req : RequestId) (n : Nat) (s t : KVCacheManager) : Prop where
  sound : Sound cfg (queueAt cfg hits total external free n) t
  frame : Frame (· < n) req s t
  blocks : ∀ g < n, t.blocks g req = List.replicate (numSkippedBlocks (cfg.spec g) total) s.blockPool.nullBlock ++
    keptHits cfg g (hits g) total ++ takenAt cfg hits total external free g
  full : ∀ g < n, (takenAt cfg hits total external free g).length = externalShare cfg hits total external g
  hashes : ∀ block, t.blockPool.blockHash block =
    if cfg.pool.enableCaching ∧ ∃ i < n, block ∈ takenAt cfg hits total external free i then none else s.blockPool.blockHash block

theorem wp_computedStage (sound : Sound cfg free s)
    (unknown : ∀ g < cfg.numGroups, s.numCached g req = none ∧ s.blocks g req = [])
    (all : total = localTokens + external)
    (proper : ProperHits cfg s.blockPool.nullBlock hits total external) :
    wp (forM (groupIds cfg) fun g => allocateNewComputedBlocks cfg g req (hits g) localTokens external)
      (fun _ t => AddsComputed cfg hits total external free req cfg.numGroups s t)
      (fun _ _ => (¬ cfg.pool.enableCaching ∧ ∃ g, hits g ≠ []) ∨ ∃ g < cfg.numGroups,
      (untouched cfg g (hits g) total (queueAt cfg hits total external free g)).length < externalShare cfg hits total external g)
      s := by
  subst all
  refine wp_forM_range (I := fun g t => AddsComputed cfg hits (localTokens + external) external free req g s t) ?_
    ⟨sound, Frame.refl, fun i never => absurd never (Nat.not_lt_zero i), fun i never => absurd never (Nat.not_lt_zero i), by simp⟩
  intro g hi t adds
  -- The groups before this one did not touch what this group keeps.
  have ho : ¬ (g < g ∧ req = req) := fun both => lt_irrefl g both.1
  have uncached := (adds.frame.numCached g req ho).trans (unknown g hi).1
  have empty := (adds.frame.blocks g req ho).trans (unknown g hi).2
  apply wp_allocateNewComputedBlocks adds.sound hi (proper.known g hi) (adds.frame.nullBlock ▸ proper.distinct g hi) rfl
    (proper.fit g hi)
  · intro cached
    rw [uncached] at cached
    cases cached
  · intro _ _ fits u sound' computes
    refine ⟨sound', (adds.frame.mono fun i hb => Nat.lt_succ_of_lt hb).trans (computes.frame.mono fun i hs => by omega),
      fun i hb => ?_, fun i hb => ?_, fun block => ?_⟩
    · rcases Nat.lt_succ_iff_lt_or_eq.mp hb with earlier | rfl
      · rw [computes.frame.blocks i req fun both => by omega]
        exact adds.blocks i earlier
      · rw [computes.blocks, adds.frame.nullBlock]
        rfl
    · rcases Nat.lt_succ_iff_lt_or_eq.mp hb with earlier | rfl
      · exact adds.full i earlier
      · exact length_take_of_le fits
    · rw [computes.hashes, adds.hashes]
      change (if cfg.pool.enableCaching ∧ block ∈ takenAt cfg hits (localTokens + external) external free g then none else _) = _
      simp only [Nat.lt_succ_iff_lt_or_eq, or_and_right, exists_or, exists_eq_left]
      by_cases here : block ∈ takenAt cfg hits (localTokens + external) external free g <;>
        by_cases caching : cfg.pool.enableCaching = true <;> simp [here, caching]
  · intro failure _ _ _ _
    cases failure with
    | running cached _ =>
      rw [uncached] at cached
      cases cached
    | hasBlocks _ some => exact absurd empty some
    | noCaching off some => exact .inl ⟨off, g, fun none => some (by simp [keptHits, none])⟩
    | short few => exact .inr ⟨g, hi, few⟩

/-- The blocks that group `g` takes, when `m i` are taken in each group `i`. -/
def segment (free : List BlockId) (m : Nat → Nat) (g : Nat) : List BlockId := (free.drop (∑ i ∈ Finset.range g, m i)).take (m g)

theorem length_segment {m : Nat → Nat} (enough : ∑ i ∈ Finset.range n, m i ≤ free.length) (hi : g < n) :
    (segment free m g).length = m g := by
  have room : ∑ i ∈ Finset.range g, m i + m g ≤ ∑ i ∈ Finset.range n, m i := by
    rw [← Finset.sum_range_succ]
    exact Finset.sum_le_sum_of_subset (Finset.range_subset_range.mpr hi)
  unfold segment
  rw [length_take, length_drop]
  omega

theorem flatMap_segment (free : List BlockId) (m : Nat → Nat) (n : Nat) :
    (range n).flatMap (segment free m) = free.take (∑ i ∈ Finset.range n, m i) := by
  induction n with
  | zero => simp
  | succ n ih =>
    rw [range_succ, flatMap_append, ih, Finset.sum_range_succ, flatMap_singleton, take_add]
    rfl

variable (cfg free) in
structure AddsNew (req : RequestId) (numTokens n : Nat) (s t : KVCacheManager) : Prop where
  room : ∑ g ∈ Finset.range n, missing cfg s req numTokens g ≤ free.length
  sound : Sound cfg (free.drop (∑ g ∈ Finset.range n, missing cfg s req numTokens g)) t
  frame : Frame (· < n) req s t
  numCached : ∀ g, t.numCached g req = s.numCached g req
  blocks : ∀ g < n, t.blocks g req = s.blocks g req ++ segment free (missing cfg s req numTokens) g
  hashes : ∀ block, t.blockPool.blockHash block = if cfg.pool.enableCaching ∧
    block ∈ free.take (∑ g ∈ Finset.range n, missing cfg s req numTokens g) then none else s.blockPool.blockHash block

theorem AddsNew.covered (adds : AddsNew cfg free req numTokens n s s') (hi : g < n) :
    numRequired cfg g numTokens ≤ (s'.blocks g req).length := by
  rw [adds.blocks g hi, length_append, length_segment adds.room hi]
  unfold missing
  omega

variable (plain : ∀ g < cfg.numGroups, (cfg.spec g).Plain)

include plain in
theorem wp_newStage (sound : Sound cfg free s) :
    wp ((groupIds cfg).mapM fun g => allocateNewBlocks cfg g req numTokens mainModel)
      (fun _ t => AddsNew cfg free req numTokens cfg.numGroups s t)
      (fun _ _ => free.length < ∑ g ∈ Finset.range cfg.numGroups, missing cfg s req numTokens g) s := by
  refine wp_imp (wp_mapM_range (P := fun _ => True) (I := fun n t => AddsNew cfg free req numTokens n s t) ?_
    ⟨by simp, by simpa using sound, Frame.refl, fun _ => rfl, fun i never => absurd never (Nat.not_lt_zero i), by simp⟩)
    fun _ _ done => done.1
  intro g hi t adds
  have hs := adds.frame.blocks g req fun both => lt_irrefl g both.1
  have count : missing cfg s req numTokens g = numMissing cfg t g req (groupTokens (cfg.spec g) numTokens) := by
    unfold missing numMissing numRequired
    rw [hs]
  have room := adds.room
  rw [allocateNewBlocks_plain (plain g hi)]
  apply wp_baseAllocateNewBlocks adds.sound hi count
  · intro fits u sound' takes
    rw [length_drop] at fits
    rw [drop_drop, ← Finset.sum_range_succ] at sound'
    refine ⟨⟨by rw [Finset.sum_range_succ]; omega, sound', (adds.frame.mono fun i hb => Nat.lt_succ_of_lt hb).trans
      (takes.frame.mono fun i hs => by omega), fun i => ?_, fun i hb => ?_, fun block => ?_⟩, trivial⟩
    · by_cases here : i = g
      · rw [here, takes.numCached, adds.numCached]
      · rw [takes.frame.numCached i req fun both => here both.1, adds.numCached]
    · rcases Nat.lt_succ_iff_lt_or_eq.mp hb with earlier | rfl
      · rw [takes.frame.blocks i req fun both => by omega]
        exact adds.blocks i earlier
      · rw [takes.blocks, hs]
        rfl
    · rw [takes.hashes, adds.hashes, Finset.sum_range_succ, take_add]
      by_cases caching : cfg.pool.enableCaching = true <;>
        by_cases now : block ∈ (free.drop (∑ i ∈ Finset.range g, missing cfg s req numTokens i)).take
          (missing cfg s req numTokens g) <;> simp [caching, now]
  · intro few _ _ _
    rw [length_drop] at few
    have upTo : ∑ i ∈ Finset.range (g + 1), missing cfg s req numTokens i ≤ _ :=
      Finset.sum_le_sum_of_subset (Finset.range_subset_range.mpr hi)
    rw [Finset.sum_range_succ] at upTo
    omega

/-! ### Hits that leave the queue -/

theorem filter_drop_of_take {α : Type} {p : α → Bool} {l : List α} {k : Nat} (front : ∀ x ∈ l.take k, p x) :
    (l.drop k).filter p = (l.filter p).drop k := by
  induction l generalizing k with
  | nil => simp
  | cons a l ih =>
    cases k with
    | zero => rfl
    | succ k =>
      rw [filter_cons_of_pos (front a (.head _))]
      exact ih fun x hm => front x (mem_cons_of_mem a hm)

section

variable (cfg : CacheConfig) (hits : KVCacheBlocks) (total external : Nat) (free : List BlockId)

def touchedFree (g : Nat) : Nat :=
  ((queueAt cfg hits total external free g).filter (· ∈ keptHits cfg g (hits g) total)).length

def evictable (g : Nat) : Nat := (free.filter (· ∈ keptHits cfg g (hits g) total)).length

/-- Leaving out the hits of the groups before it, no hit of the group is among the blocks these groups take. -/
def CalmAt (g : Nat) : Prop :=
  ∀ block ∈ (free.filter fun block => ∀ i < g, block ∉ keptHits cfg i (hits i) total).take
    (∑ i ∈ Finset.range g, externalShare cfg hits total external i), block ∉ keptHits cfg g (hits g) total

def Undisturbed : Prop := ∀ g < cfg.numGroups, CalmAt cfg hits total external free g

variable {cfg hits total external free}

theorem sublist_queueAt (g : Nat) : (queueAt cfg hits total external free g).Sublist free := by
  induction g with
  | zero => exact List.Sublist.refl _
  | succ g ih => exact (drop_sublist _ _).trans (filter_sublist.trans ih)

theorem touchedFree_le (g : Nat) : touchedFree cfg hits total external free g ≤ evictable cfg hits total free g :=
  ((sublist_queueAt g).filter _).length_le

theorem length_untouched (g : Nat) :
    (untouched cfg g (hits g) total (queueAt cfg hits total external free g)).length +
      touchedFree cfg hits total external free g = (queueAt cfg hits total external free g).length := by
  have split := length_eq_length_filter_add (l := queueAt cfg hits total external free g)
    fun block => decide (block ∈ keptHits cfg g (hits g) total)
  have other : (queueAt cfg hits total external free g).filter (fun block => !decide (block ∈ keptHits cfg g (hits g) total)) =
      untouched cfg g (hits g) total (queueAt cfg hits total external free g) := by
    congr 1
    simp
  rw [other] at split
  unfold touchedFree
  omega

theorem queueAt_eq_drop (calm : ∀ i < g, CalmAt cfg hits total external free i) :
    queueAt cfg hits total external free g = (free.filter fun block => ∀ i < g, block ∉ keptHits cfg i (hits i) total).drop
      (∑ i ∈ Finset.range g, externalShare cfg hits total external i) := by
  induction g with
  | zero => simp [queueAt]
  | succ g ih =>
    have here := calm g (Nat.lt_succ_self g)
    unfold queueAt untouched
    rw [ih fun i hb => calm i (Nat.lt_succ_of_lt hb), filter_drop_of_take fun block hm => by
      simpa using here block hm, filter_filter, drop_drop, ← Finset.sum_range_succ]
    congr 2
    funext block
    simp only [Nat.forall_lt_succ_right, Bool.decide_and]
    rw [Bool.and_comm]

variable (distinct : free.Nodup)
  (apart : ∀ i j, i < j → j < cfg.numGroups → ∀ block ∈ free, block ∈ keptHits cfg i (hits i) total →
    block ∉ keptHits cfg j (hits j) total)

theorem touchedFree_eq_iff (g : Nat) (nodup : free.Nodup) :
    touchedFree cfg hits total external free g = evictable cfg hits total free g ↔
      ∀ block ∈ free, block ∈ keptHits cfg g (hits g) total → block ∈ queueAt cfg hits total external free g := by
  have smaller : ((queueAt cfg hits total external free g).filter (· ∈ keptHits cfg g (hits g) total)).Sublist
      (free.filter (· ∈ keptHits cfg g (hits g) total)) := (sublist_queueAt g).filter _
  constructor
  · intro hs block hm kept
    have equal := smaller.eq_of_length hs
    have there : block ∈ free.filter (· ∈ keptHits cfg g (hits g) total) := mem_filter.mpr ⟨hm, by simpa using kept⟩
    rw [← equal] at there
    exact mem_of_mem_filter there
  · intro all
    apply le_antisymm smaller.length_le
    apply List.Subperm.length_le
    apply (nodup.filter _).subperm
    intro block hm
    obtain ⟨hi, kept⟩ := mem_filter.mp hm
    exact mem_filter.mpr ⟨all block hi (by simpa using kept), kept⟩

include distinct apart in
theorem touchedFree_eq_iff_calm (hi : g < cfg.numGroups) (calm : ∀ i < g, CalmAt cfg hits total external free i) :
    touchedFree cfg hits total external free g = evictable cfg hits total free g ↔ CalmAt cfg hits total external free g := by
  rw [touchedFree_eq_iff g distinct, queueAt_eq_drop calm]
  have nodup := distinct.filter fun block => decide (∀ i < g, block ∉ keptHits cfg i (hits i) total)
  constructor
  · intro all block front kept
    have there := all block (mem_of_mem_filter (mem_of_mem_take front)) kept
    rw [← take_append_drop (∑ i ∈ Finset.range g, externalShare cfg hits total external i)
      (free.filter fun block => ∀ i < g, block ∉ keptHits cfg i (hits i) total), nodup_append'] at nodup
    exact nodup.2.2 front there
  intro here block hm kept
  have listed : block ∈ free.filter fun block => ∀ i < g, block ∉ keptHits cfg i (hits i) total := by
    refine mem_filter.mpr ⟨hm, ?_⟩
    simp only [decide_eq_true_eq]
    intro i hb other
    exact apart i g hb hi block hm other kept
  rw [← take_append_drop (∑ i ∈ Finset.range g, externalShare cfg hits total external i) (free.filter _)] at listed
  rcases mem_append.mp listed with front | back
  · exact absurd kept (here block front)
  · exact back

include distinct apart in
theorem undisturbed_iff : (∀ g < cfg.numGroups, touchedFree cfg hits total external free g = evictable cfg hits total free g) ↔
    Undisturbed cfg hits total external free := by
  have upTo : ∀ n ≤ cfg.numGroups, (∀ g < n, touchedFree cfg hits total external free g = evictable cfg hits total free g) ↔
      ∀ g < n, CalmAt cfg hits total external free g := by
    intro n
    induction n with
    | zero => simp
    | succ n ih =>
      intro hb
      rw [Nat.forall_lt_succ_right, Nat.forall_lt_succ_right, ih (Nat.le_of_succ_le hb)]
      constructor
      · rintro ⟨calm, hs⟩
        exact ⟨calm, (touchedFree_eq_iff_calm distinct apart hb calm).mp hs⟩
      · rintro ⟨calm, here⟩
        exact ⟨calm, (touchedFree_eq_iff_calm distinct apart hb calm).mpr here⟩
  exact upTo cfg.numGroups (le_refl _)

end

theorem numLocalBlocks_eq (g : Nat) (hits : List BlockId) (total : Nat) :
    numLocalBlocks cfg g hits total = max (numSkippedBlocks (cfg.spec g) total) hits.length := by
  unfold numLocalBlocks keptHits
  rw [length_drop]
  omega

theorem getNumEvictableBlocks_eq (sound : Sound cfg free s) {blocks : List BlockId}
    (known : ∀ block ∈ blocks, block < cfg.pool.numGpuBlocks) (distinct : (realBlocks s.blockPool.nullBlock blocks).Nodup) :
    getNumEvictableBlocks s.blockPool blocks = (free.filter (· ∈ blocks)).length := by
  apply List.Perm.length_eq
  rw [perm_ext_iff_of_nodup]
  · intro block
    simp only [mem_filter, decide_eq_true_eq, sound.pool.free_iff, BlockPool.isNull]
    constructor
    · rintro ⟨hm, unused, real⟩
      exact ⟨⟨known block hm, real, unused⟩, hm⟩
    · rintro ⟨⟨_, real, unused⟩, hm⟩
      exact ⟨hm, unused, real⟩
  · refine distinct.sublist ?_
    apply monotone_filter_right
    intro block hf
    simp only [BlockPool.isNull, decide_eq_true_eq] at hf ⊢
    exact hf.2
  · exact sound.pool.nodup.filter _

section

theorem predicted_new (uncached : s.numCached g req = none) (empty : s.blocks g req = []) :
    predicted cfg s g req numTokens (hits g) total = numRequired cfg g numTokens - numLocalBlocks cfg g (hits g) total +
      getNumEvictableBlocks s.blockPool (keptHits cfg g (hits g) total) := by
  unfold predicted
  rw [uncached, empty, numLocalBlocks_eq]
  simp [keptHits]

theorem externalShare_le (hw : total ≤ numTokens) (g : Nat) :
    externalShare cfg hits total external g ≤ numRequired cfg g numTokens - numLocalBlocks cfg g (hits g) total := by
  have rounded : cdiv total (cfg.spec g).blockSize ≤ numRequired cfg g numTokens := by
    apply Nat.div_le_div_right
    have := le_groupTokens (cfg.spec g) numTokens
    omega
  unfold externalShare numExternalBlocks
  split
  · exact Nat.sub_le_sub_right rounded _
  · exact Nat.zero_le _

theorem length_queueAt (hw : total ≤ numTokens)
    (room : ∑ g ∈ Finset.range cfg.numGroups, (numRequired cfg g numTokens - numLocalBlocks cfg g (hits g) total +
      evictable cfg hits total free g) ≤ free.length) (hi : n ≤ cfg.numGroups) :
    (queueAt cfg hits total external free n).length + ∑ g ∈ Finset.range n, (touchedFree cfg hits total external free g +
      externalShare cfg hits total external g) = free.length ∧
    ∀ g < n, externalShare cfg hits total external g ≤
      (untouched cfg g (hits g) total (queueAt cfg hits total external free g)).length := by
  induction n with
  | zero => simp [queueAt]
  | succ n ih =>
    obtain ⟨sofar, enough⟩ := ih (Nat.le_of_succ_le hi)
    have split : (untouched cfg n (hits n) total (queueAt cfg hits total external free n)).length +
        touchedFree cfg hits total external free n = _ := length_untouched n
    have bound : ∑ g ∈ Finset.range (n + 1), (touchedFree cfg hits total external free g +
        externalShare cfg hits total external g) ≤ free.length := by
      refine le_trans (le_trans (Finset.sum_le_sum fun g _ => ?_) (Finset.sum_le_sum_of_subset
        (Finset.range_subset_range.mpr hi))) room
      have := add_le_add (touchedFree_le g : touchedFree cfg hits total external free g ≤ _)
        (externalShare_le hw g : externalShare cfg hits total external g ≤ _)
      omega
    rw [Finset.sum_range_succ] at bound ⊢
    have here : externalShare cfg hits total external n ≤
        (untouched cfg n (hits n) total (queueAt cfg hits total external free n)).length := by omega
    refine ⟨?_, fun g hb => ?_⟩
    · rw [queueAt, length_drop]
      omega
    · rcases Nat.lt_succ_iff_lt_or_eq.mp hb with earlier | rfl
      · exact enough g earlier
      · exact here

structure Asks (cfg : CacheConfig) (req : Request) (args : SlotArgs) (hits : KVCacheBlocks) (total external numTokens : Nat) :
    Prop where
  hits : args.newComputedBlocks = hits
  total : args.allComputedTokens req = total
  external : args.numExternalComputedTokens = external
  numTokens : args.numTokensNeedSlot cfg req = numTokens

variable {req : Request} {args : SlotArgs}

theorem Asks.all (asks : Asks cfg req args hits total external numTokens) :
    total = args.numLocalComputedTokens req + external := by
  rw [← asks.total, ← asks.external]
  rfl

theorem Asks.takeSlots_eq (asks : Asks cfg req args hits total external numTokens) (some : hasBlocks cfg hits ∨ external > 0) :
    takeSlots cfg req args = (do
      forM (groupIds cfg) fun g =>
      allocateNewComputedBlocks cfg g req.requestId (hits g) (args.numLocalComputedTokens req) external
      (groupIds cfg).mapM fun g =>
      allocateNewBlocks cfg g req.requestId numTokens (args.numTokensMainModel cfg req)) := by
  obtain ⟨rfl, -, rfl, rfl⟩ := asks
  rw [takeSlots, onlyIf_pos some]

include plain in
theorem wp_takeSlots_fresh (sound : Sound cfg free s)
    (asks : Asks cfg req args hits total external numTokens)
    (unknown : ∀ g < cfg.numGroups, s.numCached g req.requestId = none ∧ s.blocks g req.requestId = [])
    (proper : ProperHits cfg s.blockPool.nullBlock hits total external) (off : ¬ cfg.pool.enableCaching → ∀ g, hits g = [])
    (some : hasBlocks cfg hits ∨ external > 0) (hw : total ≤ numTokens)
    (room : ∑ g ∈ Finset.range cfg.numGroups, (numRequired cfg g numTokens - numLocalBlocks cfg g (hits g) total +
      evictable cfg hits total free g) ≤ free.length) :
    wp (takeSlots cfg req args) (fun _ t => ∃ free', Sound cfg free' t ∧ free'.Sublist free ∧
      free'.length + ∑ g ∈ Finset.range cfg.numGroups, (numRequired cfg g numTokens - numLocalBlocks cfg g (hits g) total +
      touchedFree cfg hits total external free g) = free.length ∧
      ∀ g < cfg.numGroups, numRequired cfg g numTokens ≤ (t.blocks g req.requestId).length) (fun _ _ => False) s := by
  obtain ⟨length, enough⟩ := length_queueAt hw room (Nat.le_refl _)
  rw [asks.takeSlots_eq some, wp_bind]
  refine wp_mono (wp_computedStage sound unknown asks.all proper) ?_ fun _ _ failed => failed.elim
    (fun both => both.2.elim fun g hit => hit (off both.1 g))
    fun short => short.elim fun g few => Nat.not_lt_of_le (enough g few.1) few.2
  intro _ t computed
  -- What a group still misses is what it needed, less its share of external blocks.
  have each : ∀ g ∈ Finset.range cfg.numGroups,
      missing cfg t req.requestId numTokens g + externalShare cfg hits total external g =
        numRequired cfg g numTokens - numLocalBlocks cfg g (hits g) total := by
    intro g hm
    have share : externalShare cfg hits total external g ≤ _ := externalShare_le hw g
    have held : (t.blocks g req.requestId).length =
        numLocalBlocks cfg g (hits g) total + externalShare cfg hits total external g := by
      have hi := Finset.mem_range.mp hm
      rw [computed.blocks g hi, length_append, length_append, length_replicate, computed.full g hi]
      rfl
    unfold missing
    omega
  have parts := Finset.sum_congr rfl each
  rw [Finset.sum_add_distrib] at parts length room
  have fewer : ∑ g ∈ Finset.range cfg.numGroups, touchedFree cfg hits total external free g ≤
      ∑ g ∈ Finset.range cfg.numGroups, evictable cfg hits total free g := Finset.sum_le_sum fun g _ => touchedFree_le g
  refine wp_mono (wp_newStage plain computed.sound) ?_ (fun _ _ short => by omega)
  intro _ u adds
  refine ⟨_, adds.sound, (drop_sublist _ _).trans (sublist_queueAt _), ?_, fun g hi => adds.covered hi⟩
  rw [length_drop, Finset.sum_add_distrib]
  omega

end

/-! ### Hits that do not fit -/

section

variable {start : BlockPool}

variable (cfg hits) in
/-- The number of blocks that are asked for external tokens; it is negative when the hits reach too far. -/
def signedShare (total external g : Nat) : Int :=
  if externalTokens cfg g total external > 0 then
    (cdiv total (cfg.spec g).blockSize : Int) - numLocalBlocks cfg g (hits g) total
  else 0

theorem hitsFit_iff : HitsFit cfg g (hits g) total external ↔ 0 ≤ signedShare cfg hits total external g := by
  unfold HitsFit signedShare
  split
  · constructor
    · intro fit
      omega
    · intro nonneg _
      omega
  · rename_i none
    exact ⟨fun _ => Int.le_refl 0, fun _ some => absurd some none⟩

variable (nonneg : ∀ block, block ≠ start.nullBlock → 0 ≤ start.refCnt block)

include nonneg in
theorem wp_touchComputed_count
    (blocks : List BlockId) (grown : BlockPool.Grows start s.blockPool) : wp (touchComputed cfg blocks) (fun _ t =>
      ∃ pool, t = s.withPool pool ∧ s.blockPool.getNumFreeBlocks ≤ pool.getNumFreeBlocks + getNumEvictableBlocks start blocks ∧
      BlockPool.Grows start pool) (fun _ _ => True) s := by
  unfold touchComputed
  split
  · rw [wp_onPool]
    refine wp_imp (BlockPool.wp_touch_count nonneg blocks grown) ?_
    rintro _ pool ⟨count, grown'⟩
    exact ⟨pool, rfl, count, grown'⟩
  · rw [wp_ensure]
    refine ⟨fun none => ⟨s.blockPool, rfl, ?_, grown⟩, fun _ => trivial⟩
    omega

theorem wp_allocateExternalBlocks_count (total : Nat) : wp (allocateExternalBlocks cfg g req total) (fun _ t =>
    t.blockPool.getNumFreeBlocks = s.blockPool.getNumFreeBlocks -
      ((cdiv total (cfg.spec g).blockSize) - (s.blocks g req).length) ∧
    BlockPool.Grows s.blockPool t.blockPool ∧ Frame (· = g) req s t ∧ (t.blocks g req).length =
      (s.blocks g req).length + ((cdiv total (cfg.spec g).blockSize : Int) - (s.blocks g req).length).toNat)
    (fun _ _ => True) s := by
  unfold allocateExternalBlocks
  simp only [wp_bind, wp_get, wp_onPool]
  refine wp_mono (BlockPool.wp_getNewBlocks_count _) ?_ (fun _ _ _ => trivial)
  rintro ret pool ⟨taken, count, grown⟩
  refine ⟨count, grown, Frame.setBlocks grown.nullBlock _, ?_⟩
  rw [blocks_setBlocks_self, length_append, taken]
  rfl

include nonneg in
theorem wp_allocateNewComputedBlocks_count
    (grown : BlockPool.Grows start s.blockPool) (uncached : s.numCached g req = none)
    (all : total = localTokens + external) :
    wp (allocateNewComputedBlocks cfg g req (hits g) localTokens external) (fun _ t =>
      s.blockPool.getNumFreeBlocks ≤ t.blockPool.getNumFreeBlocks +
      getNumEvictableBlocks start (keptHits cfg g (hits g) total) + signedShare cfg hits total external g ∧
      BlockPool.Grows start t.blockPool ∧ Frame (· = g) req s t ∧
      (t.blocks g req).length = numLocalBlocks cfg g (hits g) total + (signedShare cfg hits total external g).toNat)
      (fun _ _ => True) s := by
  subst all
  change wp (if (s.numCached g req).isSome then _ else _) _ _ s
  rw [uncached]
  simp only [Option.isSome_none, Bool.false_eq_true, if_false, wp_bind, wp_ensure, wp_modify, wp_get]
  refine ⟨fun _ => ?_, fun _ => trivial⟩
  have start' := grown
  refine wp_imp (wp_touchComputed_count nonneg _ start') ?_
  rintro _ t ⟨pool, rfl, count, grown'⟩
  have null := grown'.nullBlock.trans grown.nullBlock.symm
  have listed : ∀ blocks n, Frame (· = g) req s (setNumCached g req n (setBlocks g req blocks
      ((setBlocks g req (s.blocks g req) s).withPool pool))) := fun blocks n =>
    ((Frame.entered g req s).trans (Frame.setBlocks (show pool.nullBlock =
      (setBlocks g req (s.blocks g req) s).blockPool.nullBlock from null) blocks)).trans (Frame.setNumCached n)
  have length : ∀ null, (replicate (numSkippedBlocks (cfg.spec g) (localTokens + external)) null ++
      (hits g).drop (numSkippedBlocks (cfg.spec g) (localTokens + external))).length =
        numLocalBlocks cfg g (hits g) (localTokens + external) := by
    simp [numLocalBlocks, keptHits]
  rw [wp_onlyIf]
  constructor
  · intro some
    have share : signedShare cfg hits (localTokens + external) external g =
        (cdiv (localTokens + external) (cfg.spec g).blockSize) - numLocalBlocks cfg g (hits g) (localTokens + external) :=
      if_pos some
    refine wp_imp (wp_allocateExternalBlocks_count _) ?_
    rintro _ u ⟨count', grown'', frame, length'⟩
    rw [blocks_setNumCached, blocks_setBlocks_self, length, ← share] at count' length'
    refine ⟨?_, grown'.trans grown'', (listed _ _).trans frame, length'⟩
    change u.blockPool.getNumFreeBlocks = pool.getNumFreeBlocks - _ at count'
    change s.blockPool.getNumFreeBlocks ≤ pool.getNumFreeBlocks +
      getNumEvictableBlocks start (keptHits cfg g (hits g) (localTokens + external)) at count
    omega
  · intro none
    have share : signedShare cfg hits (localTokens + external) external g = 0 := if_neg none
    refine ⟨?_, grown', listed _ _, ?_⟩
    · rw [share]
      change s.blockPool.getNumFreeBlocks ≤ pool.getNumFreeBlocks + _ + 0
      change s.blockPool.getNumFreeBlocks ≤ pool.getNumFreeBlocks +
        getNumEvictableBlocks start (keptHits cfg g (hits g) (localTokens + external)) at count
      omega
    · rw [blocks_setNumCached, blocks_setBlocks_self, length, share]
      rfl

theorem wp_computedStage_count (nonneg : ∀ block, block ≠ s.blockPool.nullBlock → 0 ≤ s.blockPool.refCnt block)
    (unknown : ∀ g < cfg.numGroups, s.numCached g req = none ∧ s.blocks g req = [])
    (all : total = localTokens + external) :
    wp (forM (groupIds cfg) fun g => allocateNewComputedBlocks cfg g req (hits g) localTokens external) (fun _ t =>
      s.blockPool.getNumFreeBlocks ≤ t.blockPool.getNumFreeBlocks + ∑ g ∈ Finset.range cfg.numGroups,
      ((getNumEvictableBlocks s.blockPool (keptHits cfg g (hits g) total)) + signedShare cfg hits total external g) ∧
      ∀ g < cfg.numGroups, (t.blocks g req).length =
      numLocalBlocks cfg g (hits g) total + (signedShare cfg hits total external g).toNat) (fun _ _ => True) s := by
  have stage := wp_forM_range (n := cfg.numGroups) (E := fun _ _ => True)
    (f := fun g => allocateNewComputedBlocks cfg g req (hits g) localTokens external)
    (I := fun g t => s.blockPool.getNumFreeBlocks ≤ t.blockPool.getNumFreeBlocks + ∑ i ∈ Finset.range g,
        ((getNumEvictableBlocks s.blockPool (keptHits cfg i (hits i) total)) + signedShare cfg hits total external i) ∧
      BlockPool.Grows s.blockPool t.blockPool ∧ Frame (· < g) req s t ∧ ∀ i < g, (t.blocks i req).length =
        numLocalBlocks cfg i (hits i) total + (signedShare cfg hits total external i).toNat)
    ?_ ⟨by simp, ⟨rfl, fun _ => Int.le_refl _⟩, Frame.refl, fun i never => absurd never (Nat.not_lt_zero i)⟩
  · exact wp_mono stage (fun _ t done => ⟨done.1, done.2.2.2⟩) (fun _ _ _ => trivial)
  rintro g hi t ⟨sofar, grown, frame, filled⟩
  have ho : ¬ (g < g ∧ req = req) := fun both => lt_irrefl g both.1
  have uncached := (frame.numCached g req ho).trans (unknown g hi).1
  refine wp_imp (wp_allocateNewComputedBlocks_count nonneg grown uncached all) ?_
  rintro _ u ⟨count, grown', frame', length⟩
  refine ⟨?_, grown', (frame.mono fun i hb => Nat.lt_succ_of_lt hb).trans (frame'.mono fun i hs => by omega), fun i hb => ?_⟩
  · rw [Finset.sum_range_succ]
    omega
  · rcases Nat.lt_succ_iff_lt_or_eq.mp hb with earlier | rfl
    · rw [frame'.blocks i req fun both => by omega]
      exact filled i earlier
    · exact length

theorem wp_baseAllocateNewBlocks_count (numTokens : Nat) : wp (baseAllocateNewBlocks cfg g req numTokens) (fun _ t =>
    t.blockPool.getNumFreeBlocks + numMissing cfg s g req numTokens = s.blockPool.getNumFreeBlocks ∧
      Frame (· = g) req s t) (fun _ _ => True) s := by
  change wp (if numMissing cfg s g req numTokens = 0 then _ else _) _ _ _
  split
  · rename_i none
    rw [none]
    exact ⟨by simp, Frame.entered g req s⟩
  · simp only [wp_bind, wp_onPool]
    refine wp_mono (BlockPool.wp_getNewBlocks_count _) ?_ (fun _ _ _ => trivial)
    rintro ret pool ⟨-, count, grown⟩
    have null := grown.nullBlock
    refine ⟨?_, (Frame.entered g req s).trans (Frame.setBlocks null _)⟩
    change pool.getNumFreeBlocks + _ = _
    change pool.getNumFreeBlocks = s.blockPool.getNumFreeBlocks - (numMissing cfg s g req numTokens) at count
    omega

include plain in
theorem wp_newStage_count (numTokens mainModel : Nat) :
    wp ((groupIds cfg).mapM fun g => allocateNewBlocks cfg g req numTokens mainModel) (fun _ t =>
      t.blockPool.getNumFreeBlocks + ∑ g ∈ Finset.range cfg.numGroups, (missing cfg s req numTokens g : Int) =
      s.blockPool.getNumFreeBlocks) (fun _ _ => True) s := by
  have stage := wp_mapM_range (n := cfg.numGroups) (E := fun _ _ => True)
    (f := fun g => allocateNewBlocks cfg g req numTokens mainModel) (P := fun _ => True)
    (I := fun g t => t.blockPool.getNumFreeBlocks + ∑ i ∈ Finset.range g, (missing cfg s req numTokens i : Int) =
      s.blockPool.getNumFreeBlocks ∧ Frame (· < g) req s t) ?_ ⟨by simp, Frame.refl⟩
  · exact wp_mono stage (fun _ t done => done.1.1) (fun _ _ _ => trivial)
  rintro g hi t ⟨sofar, frame⟩
  rw [allocateNewBlocks_plain (plain g hi)]
  refine wp_imp (wp_baseAllocateNewBlocks_count _) ?_
  rintro _ u ⟨count, frame'⟩
  have hs := frame.blocks g req fun both => lt_irrefl g both.1
  have missed : missing cfg s req numTokens g = numMissing cfg t g req (groupTokens (cfg.spec g) numTokens) := by
    unfold missing numMissing numRequired
    rw [hs]
  refine ⟨⟨?_, (frame.mono fun i hb => Nat.lt_succ_of_lt hb).trans (frame'.mono fun i hs => by omega)⟩, trivial⟩
  rw [Finset.sum_range_succ]
  omega

include plain in
theorem fits_of_exact
    (nonneg : ∀ block, block ≠ s.blockPool.nullBlock → 0 ≤ s.blockPool.refCnt block) {req : Request} {args : SlotArgs}
    (asks : Asks cfg req args hits total external numTokens)
    (unknown : ∀ g < cfg.numGroups, s.numCached g req.requestId = none ∧ s.blocks g req.requestId = [])
    (some : hasBlocks cfg hits ∨ external > 0) (hw : total ≤ numTokens) {new : List (List BlockId)}
    (run : takeSlots cfg req args s = .ok new s')
    (exact_ : s'.blockPool.getNumFreeBlocks + ∑ g ∈ Finset.range cfg.numGroups,
      ((numRequired cfg g numTokens - numLocalBlocks cfg g (hits g) total : Nat) +
      getNumEvictableBlocks s.blockPool (keptHits cfg g (hits g) total) : Int) =
      s.blockPool.getNumFreeBlocks) (g : Nat) (hi : g < cfg.numGroups) : HitsFit cfg g (hits g) total external := by
  let rest g : Nat := numRequired cfg g numTokens - (numLocalBlocks cfg g (hits g) total +
    (signedShare cfg hits total external g).toNat)
  let taken g : Int := (getNumEvictableBlocks s.blockPool (keptHits cfg g (hits g) total)) +
    signedShare cfg hits total external g + rest g
  have counted : wp (takeSlots cfg req args) (fun _ t => s.blockPool.getNumFreeBlocks ≤ t.blockPool.getNumFreeBlocks +
      ∑ g ∈ Finset.range cfg.numGroups, taken g) (fun _ _ => True) s := by
    rw [asks.takeSlots_eq some, wp_bind]
    refine wp_imp (wp_computedStage_count nonneg unknown asks.all) ?_
    rintro _ t ⟨first, filled⟩
    refine wp_imp (wp_newStage_count plain _ _) ?_
    intro _ u second
    rw [Finset.sum_add_distrib]
    have hs : ∀ g ∈ Finset.range cfg.numGroups, (missing cfg t req.requestId numTokens g : Int) = rest g := by
      intro g hm
      unfold missing
      rw [filled g (Finset.mem_range.mp hm)]
    rw [Finset.sum_congr rfl hs] at second
    omega
  have bound := wp_ok counted run
  -- A group whose hits do not fit would have to give back blocks that the count does not know of.
  have each : ∀ g ∈ Finset.range cfg.numGroups, taken g ≤ (numRequired cfg g numTokens - numLocalBlocks cfg g (hits g) total : Nat) +
      getNumEvictableBlocks s.blockPool (keptHits cfg g (hits g) total) := by
    intro g _
    simp only [taken, rest]
    have share : externalShare cfg hits total external g ≤ _ := externalShare_le hw g
    have signed : (externalShare cfg hits total external g) = (signedShare cfg hits total external g).toNat := by
      unfold externalShare numExternalBlocks signedShare
      split
      · omega
      · rfl
    omega
  have total_ := (Finset.sum_eq_sum_iff_of_le each).mp (Int.le_antisymm (Finset.sum_le_sum each) (by omega))
  have here := total_ g (Finset.mem_range.mpr hi)
  simp only [taken, rest] at here
  rw [hitsFit_iff]
  omega

end

end KVCacheManager

end KVOffload.Core
