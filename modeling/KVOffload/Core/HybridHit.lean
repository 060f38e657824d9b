import KVOffload.Core.LongestHit
import KVOffload.Lib.Narrowing

/-!
# The longest hit of a hybrid cache

The coordinator narrows the length of a hit group by group until all groups accept it. Full attention is
looked up once and cut in the end.
-/

namespace KVOffload.Core

open List

variable {rows : List HitRow} {j : Nat}

theorem length_column (wide : ∀ row ∈ rows, j < row.length) :
    (column rows j).length = rows.length := by
  unfold column
  induction rows with
  | nil => rfl
  | cons row rows ih =>
    have here : row[j]? = some (row.get ⟨j, wide row (.head _)⟩) := by simp
    rw [filterMap_cons, here]
    simpa using ih fun row' hm => wide row' (mem_cons_of_mem row hm)

/-! ### Groups -/

section

variable (cfg : CacheConfig) (pool : BlockPool) (hashes : List Bytes)

def cachedAt (g i : Nat) : Option BlockId :=
  (groupHashes cfg hashes g)[i]?.bind fun hash =>
    pool.cachedBlockHashToBlock.getOneBlock (makeBlockHashWithGroupId hash g)

def Covered (g n : Nat) : Prop :=
  lcmBlockSize cfg ∣ n ∧ ∀ i < n / (cfg.spec g).blockSize, NeedsBlock (cfg.spec g) (n / (cfg.spec g).blockSize) i →
    (cachedAt cfg pool hashes g i).isSome

/-- The blocks of the group in a hit of `n` tokens: those it needs, and null blocks. -/
structure HitList (g n : Nat) (blocks : List BlockId) : Prop where
  length : blocks.length = n / (cfg.spec g).blockSize
  block : ∀ i block, blocks[i]? = some block → if NeedsBlock (cfg.spec g) (n / (cfg.spec g).blockSize) i
    then cachedAt cfg pool hashes g i = some block else block = pool.nullBlock

def Accepts (group : AttentionGroup) (n : Nat) : Prop := ∀ g ∈ group.groupIds, Covered cfg pool hashes g n

def lookupGroup (group : AttentionGroup) (maxLength : Nat) : Option (List HitRow) :=
  findLongestCacheHit pool (hashesAt cfg.pool.hashBlockSize hashes group.spec.blockSize) maxLength group.groupIds group.spec
    false (lcmBlockSize cfg)

def groupLength (group : AttentionGroup) (maxLength : Nat) : Nat :=
  ((lookupGroup cfg pool hashes group maxLength).getD []).length * group.spec.blockSize

variable {cfg pool hashes}

variable {n g : Nat} {m : Nat}

theorem HitList.unique {blocks blocks' : List BlockId} (hits : HitList cfg pool hashes g n blocks)
    (hits' : HitList cfg pool hashes g n blocks') : blocks = blocks' := by
  apply ext_getElem (hits.length.trans hits'.length.symm)
  intro i hi hi'
  have block := hits.block i _ (getElem?_eq_getElem hi)
  have block' := hits'.block i _ (getElem?_eq_getElem hi')
  split at block
  · rename_i needed
    rw [if_pos needed, block] at block'
    exact Option.some.inj block'
  · rename_i free
    rw [if_neg free] at block'
    exact block.trans block'.symm

theorem isSome_mapM {α β : Type} {f : α → Option β} {items : List α} : (items.mapM f).isSome ↔ ∀ x ∈ items, (f x).isSome := by
  induction items with
  | nil => simp
  | cons item items ih =>
    rw [mapM_cons, forall_mem_cons, ← ih]
    cases f item with
    | none => simp
    | some b => cases items.mapM f <;> simp

theorem lookup_isSome_iff {groupIds : List Nat} (some : groupIds ≠ []) {i : Nat} :
    (hashes[i]?.bind (pool.getCachedBlock · groupIds)).isSome ↔ ∀ g ∈ groupIds, (hashes[i]?.bind fun hash =>
      pool.cachedBlockHashToBlock.getOneBlock (makeBlockHashWithGroupId hash g)).isSome := by
  cases hashes[i]? with
  | none =>
    obtain ⟨g, rest, ids⟩ := exists_cons_of_ne_nil some
    simp only [Option.bind_none, Option.isSome_none, Bool.false_eq_true, false_iff]
    exact fun none => absurd (none g (by simp [ids])) (by simp)
  | some hash => exact isSome_mapM

section

variable {group : AttentionGroup} (hm : group ∈ attentionGroups cfg)

include hm

theorem exists_member : ∃ g ∈ group.groupIds, g < cfg.numGroups ∧ cfg.spec g = group.spec := by
  obtain ⟨g, _, ids⟩ := exists_cons_of_ne_nil (attentionGroups_ne_nil hm)
  have there : g ∈ group.groupIds := by simp [ids]
  exact ⟨g, there, mem_attentionGroups hm there⟩

theorem Accepts.aligned (ha : Accepts cfg pool hashes group n) : lcmBlockSize cfg ∣ n := by
  obtain ⟨g, there, _⟩ := exists_member hm
  exact (ha g there).1

theorem Accepts.closed (ha : Accepts cfg pool hashes group n) (full : group.spec.isFullAttention)
    (aligned : lcmBlockSize cfg ∣ m) (hb : m ≤ n) : Accepts cfg pool hashes group m := by
  intro g there
  refine ⟨aligned, fun i hi _ => ?_⟩
  apply (ha g there).2 i (lt_of_lt_of_le hi (Nat.div_le_div_right hb))
  have kind : group.spec.kind = .fullAttention := by simpa [KVCacheSpec.isFullAttention] using full
  unfold NeedsBlock
  rw [(mem_attentionGroups hm there).2, kind]
  trivial

theorem blockSize_dvd_lcm : group.spec.blockSize ∣ lcmBlockSize cfg := by
  have each : ∀ (groups : List AttentionGroup) acc, acc ∣ groups.foldl (fun acc group => Nat.lcm acc group.spec.blockSize) acc ∧
      ∀ group ∈ groups, group.spec.blockSize ∣ groups.foldl (fun acc group => Nat.lcm acc group.spec.blockSize) acc := by
    intro groups
    induction groups with
    | nil => exact fun acc => ⟨dvd_refl acc, by simp⟩
    | cons first groups ih =>
      intro acc
      obtain ⟨hb, others⟩ := ih (Nat.lcm acc first.spec.blockSize)
      refine ⟨(Nat.dvd_lcm_left _ _).trans hb, fun group hm => ?_⟩
      rcases mem_cons.mp hm with rfl | other
      · exact (Nat.dvd_lcm_right _ _).trans hb
      · exact others group other
  exact (each (attentionGroups cfg) 1).2 group hm

theorem cachedAt_eq (there : g ∈ group.groupIds) (i : Nat) : cachedAt cfg pool hashes g i =
    (hashesAt cfg.pool.hashBlockSize hashes group.spec.blockSize)[i]?.bind fun hash =>
      pool.cachedBlockHashToBlock.getOneBlock (makeBlockHashWithGroupId hash g) := by
  unfold cachedAt groupHashes
  rw [(mem_attentionGroups hm there).2]

variable (hp : 0 < group.spec.blockSize) (hybrid : group.spec.kind.Hybrid)

include hp hybrid

theorem longestHit_lookupGroup (pool : BlockPool) (hashes : List Bytes) (n : Nat) : ∃ rows, lookupGroup cfg pool hashes group n = some rows ∧
    LongestHit group.spec (lcmBlockSize cfg) (group.groupIds.map fun _ => pool.nullBlock)
      (fun i => (hashesAt cfg.pool.hashBlockSize hashes group.spec.blockSize)[i]?.bind (pool.getCachedBlock · group.groupIds))
      (n / group.spec.blockSize) rows := by
  obtain ⟨⟨blockSize, kind, layout⟩, groupIds⟩ := group
  cases hybrid with
  | fullAttention => exact ⟨_, rfl, longestHit_fullAttention _⟩
  | slidingWindow slidingWindow wide => exact ⟨_, rfl, longestHit_slidingWindow hp wide _⟩
  | mamba mode k => exact ⟨_, rfl, longestHit_mamba _⟩

theorem narrows_groupLength : Narrows (Accepts cfg pool hashes group) (groupLength cfg pool hashes group) := by
  intro n
  obtain ⟨rows, hf, longest⟩ := longestHit_lookupGroup hm hp hybrid pool hashes n
  have nonempty := attentionGroups_ne_nil hm
  unfold groupLength
  rw [hf, Option.getD_some]
  refine ⟨⟨?_, ?_⟩, ?_⟩
  · exact (Nat.mul_le_mul_right _ longest.le).trans (Nat.div_mul_le_self n _)
  · intro g there
    have hs := (mem_attentionGroups hm there).2
    refine ⟨longest.aligned, fun i hi needed => ?_⟩
    rw [hs, Nat.mul_div_cancel _ hp] at hi needed
    have row := longest.row i _ (getElem?_eq_getElem hi)
    rw [if_pos needed] at row
    rw [cachedAt_eq hm there]
    exact (lookup_isSome_iff nonempty).mp (Option.isSome_iff_exists.mpr ⟨_, row⟩) g there
  intro m ha
  obtain ⟨hb, covered⟩ := ha
  have aligned := Accepts.aligned hm covered
  have whole := Nat.div_mul_cancel ((blockSize_dvd_lcm hm).trans aligned)
  rw [← whole]
  apply Nat.mul_le_mul_right
  apply longest.greatest _ (Nat.div_le_div_right hb) (whole.symm ▸ aligned)
  intro i hi needed
  rw [lookup_isSome_iff nonempty]
  intro g there
  have cached := (covered g there).2 i
  rw [(mem_attentionGroups hm there).2, cachedAt_eq hm there] at cached
  exact cached hi needed

theorem hitList_column (hf : lookupGroup cfg pool hashes group n = some rows)
    (at_ : group.groupIds[j]? = some g) :
    HitList cfg pool hashes g (groupLength cfg pool hashes group n) (column rows j) := by
  obtain ⟨rows', hf', longest⟩ := longestHit_lookupGroup hm hp hybrid pool hashes n
  have hs := Option.some.inj (hf'.symm.trans hf)
  subst hs
  have there := mem_of_getElem? at_
  have hi := (List.getElem?_eq_some_iff.mp at_).1
  have wide : ∀ row ∈ rows', j < row.length := fun row there => length_of_mem_findLongestCacheHit hf there ▸ hi
  have length : groupLength cfg pool hashes group n / (cfg.spec g).blockSize = rows'.length := by
    unfold groupLength
    rw [hf, Option.getD_some, (mem_attentionGroups hm there).2, Nat.mul_div_cancel _ hp]
  refine ⟨?_, ?_⟩
  · rw [length]
    exact length_column wide
  intro i block here
  rw [length, (mem_attentionGroups hm there).2, cachedAt_eq hm there]
  rw [getElem?_column wide] at here
  obtain ⟨row, at_row, here⟩ := Option.bind_eq_some_iff.mp here
  have row := longest.row i row at_row
  split at row
  · rename_i needed
    obtain ⟨hash, hashed, cached⟩ := Option.bind_eq_some_iff.mp row
    obtain ⟨block', here', one⟩ := (mapM_some_getElem? cached).2 j g at_
    rw [if_pos needed, hashed, Option.bind_some, one, ← here', here]
  · rename_i free
    subst row
    rw [getElem?_map, at_] at here
    rw [if_neg free]
    simpa using here.symm

end

/-! ### One pass over the attention groups -/

variable (cfg pool hashes) in
def Found (search : HitSearch) (group : AttentionGroup)
    (n : Nat) : Prop :=
  lcmBlockSize cfg ∣ n ∧ ∀ g ∈ group.groupIds, ∃ blocks, search.hitBlocksByGroup g = some blocks ∧
    HitList cfg pool hashes g n blocks

def Kept (search : HitSearch) (group : AttentionGroup) : Prop :=
  group.spec.isFullAttention ∧ (group.groupIds.head?.bind search.hitBlocksByGroup).isSome

variable {search search' : HitSearch} {group : AttentionGroup}

theorem Found.congr (hf : Found cfg pool hashes search group n)
    (hs : ∀ g ∈ group.groupIds, search'.hitBlocksByGroup g = search.hitBlocksByGroup g) :
    Found cfg pool hashes search' group n := by
  refine ⟨hf.1, fun g there => ?_⟩
  rw [hs g there]
  exact hf.2 g there

theorem Kept.congr (hs : ∀ g ∈ group.groupIds, search'.hitBlocksByGroup g = search.hitBlocksByGroup g) :
    Kept search' group ↔ Kept search group := by
  unfold Kept
  cases first : group.groupIds.head? with
  | none => exact Iff.rfl
  | some g =>
    rw [Option.bind_some, Option.bind_some, hs g (mem_of_mem_head? first)]

theorem Found.accepts (hf : Found cfg pool hashes search group n) : Accepts cfg pool hashes group n := by
  intro g there
  obtain ⟨blocks, _, hits⟩ := hf.2 g there
  refine ⟨hf.1, fun i hi needed => ?_⟩
  have block := hits.block i _ (getElem?_eq_getElem (hits.length.symm ▸ hi))
  rw [if_pos needed] at block
  exact Option.isSome_iff_exists.mpr ⟨_, block⟩

section

variable (hp : ∀ g < cfg.numGroups, 0 < (cfg.spec g).blockSize) (hybrid : ∀ g < cfg.numGroups, (cfg.spec g).kind.Hybrid)
  (noEagle : ∀ g < cfg.numGroups, cfg.eagleGroupIds g = false)

include hp hybrid in
theorem narrows_of_mem (pool : BlockPool) (hashes : List Bytes) : ∀ group ∈ attentionGroups cfg,
    Narrows (Accepts cfg pool hashes group) (groupLength cfg pool hashes group) := by
  intro group hm
  obtain ⟨g, _, hi, hs⟩ := exists_member hm
  exact narrows_groupLength hm (hs ▸ hp g hi) (hs ▸ hybrid g hi)

variable {maxLength idx : Nat}

include hp hybrid noEagle in
theorem searchGroup_lookup (hm : group ∈ attentionGroups cfg) (fresh : ¬ Kept search group) (maxLength idx : Nat) :
    ∃ search', searchGroup cfg pool hashes maxLength search idx group = some search' ∧
      search'.currHitLength = groupLength cfg pool hashes group search.currHitLength ∧
      (∀ g ∉ group.groupIds, search'.hitBlocksByGroup g = search.hitBlocksByGroup g) ∧
      Found cfg pool hashes search' group (groupLength cfg pool hashes group search.currHitLength) := by
  obtain ⟨g₀, _, hi, hs⟩ := exists_member hm
  obtain ⟨rows, hf, _⟩ := longestHit_lookupGroup hm (hs ▸ hp g₀ hi) (hs ▸ hybrid g₀ hi) pool hashes
    search.currHitLength
  have plain : group.groupIds.any cfg.eagleGroupIds = false := by
    rw [any_eq_false]
    intro g there
    rw [noEagle g (mem_attentionGroups hm there).1]
    exact Bool.false_ne_true
  have length : groupLength cfg pool hashes group search.currHitLength = rows.length * group.spec.blockSize := by
    unfold groupLength
    rw [hf, Option.getD_some]
  have aligned := Accepts.aligned hm (narrows_of_mem hp hybrid pool hashes group hm search.currHitLength).1.2
  unfold Kept at fresh
  unfold searchGroup
  rw [if_neg fresh, plain, Bool.false_and]
  simp only [Bool.false_eq_true, if_false]
  unfold lookupGroup at hf
  rw [hf]
  refine ⟨_, rfl, length.symm, fun g other => ?_, aligned, fun g there => ?_⟩
  · simp only [idxOf?_eq_none_iff.mpr other]
  cases at_ : group.groupIds.idxOf? g with
  | none => exact absurd there (idxOf?_eq_none_iff.mp at_)
  | some j =>
    obtain ⟨hw, here, _⟩ := idxOf?_eq_some_iff.mp at_
    have at_' : group.groupIds[j]? = some g := by
      rw [getElem?_eq_getElem]
      simpa using here
    refine ⟨column rows j, by simp only [at_], ?_⟩
    exact hitList_column hm (hs ▸ hp g₀ hi) (hs ▸ hybrid g₀ hi) hf at_'

include hp hybrid in
theorem searchGroup_trim (hm : group ∈ attentionGroups cfg) (kept : Kept search group) {l : Nat}
    (hf : Found cfg pool hashes search group l) (aligned : lcmBlockSize cfg ∣ search.currHitLength)
    (hb : search.currHitLength ≤ l) :
    searchGroup cfg pool hashes maxLength search idx group =
      some { search with currHitLength := groupLength cfg pool hashes group search.currHitLength } := by
  have hs : groupLength cfg pool hashes group search.currHitLength = search.currHitLength := by
    obtain ⟨⟨le, _⟩, greatest⟩ := narrows_of_mem hp hybrid pool hashes group hm search.currHitLength
    exact le_antisymm le (greatest ⟨le_refl _, Accepts.closed hm hf.accepts kept.1 aligned hb⟩)
  unfold Kept at kept
  unfold searchGroup
  rw [if_pos kept, hs, Nat.div_mul_cancel ((blockSize_dvd_lcm hm).trans aligned)]

variable {groups : List AttentionGroup}

include hp hybrid noEagle in
theorem searchPass (maxLength idx : Nat) (members : ∀ group ∈ groups, group ∈ attentionGroups cfg)
    (apart : (groups.flatMap (·.groupIds)).Nodup)
    (ready : ∀ group ∈ groups, Kept search group → lcmBlockSize cfg ∣ search.currHitLength ∧
      ∃ l, search.currHitLength ≤ l ∧ Found cfg pool hashes search group l) :
    ∃ search', (groups.zipIdx idx).foldlM (fun search entry => searchGroup cfg pool hashes maxLength search
      entry.2 entry.1) search = some search' ∧
      search'.currHitLength = narrowAll (groupLength cfg pool hashes) groups search.currHitLength ∧
      (∀ g ∉ groups.flatMap (·.groupIds), search'.hitBlocksByGroup g = search.hitBlocksByGroup g) ∧
      ∀ k group, groups[k]? = some group →
      (Kept search group → ∀ g ∈ group.groupIds, search'.hitBlocksByGroup g = search.hitBlocksByGroup g) ∧
      (¬ Kept search group → Found cfg pool hashes search' group
      (narrowAll (groupLength cfg pool hashes) (groups.take (k + 1)) search.currHitLength)) := by
  induction groups generalizing search idx with
  | nil => exact ⟨search, rfl, rfl, fun _ _ => rfl, by simp⟩
  | cons first groups ih =>
    have hm := members first (.head _)
    rw [flatMap_cons, nodup_append'] at apart
    obtain ⟨_, apart', disjoint⟩ := apart
    have step : ∃ middle, searchGroup cfg pool hashes maxLength search idx first = some middle ∧
        middle.currHitLength = groupLength cfg pool hashes first search.currHitLength ∧
        (∀ g ∉ first.groupIds, middle.hitBlocksByGroup g = search.hitBlocksByGroup g) ∧
        (Kept search first → ∀ g ∈ first.groupIds, middle.hitBlocksByGroup g = search.hitBlocksByGroup g) ∧
        (¬ Kept search first → Found cfg pool hashes middle first
          (groupLength cfg pool hashes first search.currHitLength)) := by
      by_cases kept : Kept search first
      · obtain ⟨aligned, l, hb, hf⟩ := ready first (.head _) kept
        exact ⟨_, searchGroup_trim hp hybrid hm kept hf aligned hb, rfl, fun _ _ => rfl, fun _ _ _ => rfl,
          fun fresh => absurd kept fresh⟩
      · obtain ⟨middle, run, length, others, hf⟩ := searchGroup_lookup hp hybrid noEagle hm kept
          maxLength idx
        exact ⟨middle, run, length, others, fun kept' => absurd kept' kept, fun _ => hf⟩
    obtain ⟨middle, run, length, others, keeps, finds⟩ := step
    obtain ⟨⟨shorter, ha⟩, _⟩ := narrows_of_mem hp hybrid pool hashes first hm search.currHitLength
    have aligned := length ▸ Accepts.aligned hm ha
    have untouched : ∀ group ∈ groups, ∀ g ∈ group.groupIds, middle.hitBlocksByGroup g = search.hitBlocksByGroup g := by
      intro group there g hi
      exact others g fun both => disjoint both (mem_flatMap.mpr ⟨group, there, hi⟩)
    have ready' : ∀ group ∈ groups, Kept middle group → lcmBlockSize cfg ∣ middle.currHitLength ∧
        ∃ l, middle.currHitLength ≤ l ∧ Found cfg pool hashes middle group l := by
      intro group there kept
      have kept' := (Kept.congr (untouched group there)).mp kept
      obtain ⟨_, l, hb, hf⟩ := ready group (.tail _ there) kept'
      refine ⟨aligned, l, ?_, hf.congr (untouched group there)⟩
      rw [length]
      exact shorter.trans hb
    obtain ⟨search', pass, narrowed, rest, each⟩ := @ih middle (idx + 1)
      (fun group there => members group (.tail _ there)) apart' ready'
    refine ⟨search', ?_, ?_, ?_, ?_⟩
    · rw [zipIdx_cons, foldlM_cons, run]
      exact pass
    · rw [narrowed, length, narrowAll_cons]
    · intro g ho
      rw [flatMap_cons, mem_append, not_or] at ho
      rw [rest g ho.2, others g ho.1]
    intro k group at_
    cases k with
    | zero =>
      have hs : first = group := by simpa using at_
      subst hs
      have still : ∀ g ∈ first.groupIds, search'.hitBlocksByGroup g = middle.hitBlocksByGroup g :=
        fun g there => rest g fun both => disjoint there both
      exact ⟨fun kept g there => (still g there).trans (keeps kept g there), fun fresh => (finds fresh).congr still⟩
    | succ k =>
      have at_' : groups[k]? = some group := by simpa using at_
      have there := mem_of_getElem? at_'
      obtain ⟨kept, fresh⟩ := each k group at_'
      rw [Kept.congr (untouched group there)] at kept fresh
      constructor
      · intro keep g hi
        rw [kept keep g hi, untouched group there g hi]
      · rw [take_succ_cons, narrowAll_cons, ← length]
        exact fresh

/-! ### The loop -/

theorem Found.kept (hm : group ∈ attentionGroups cfg) (hf : Found cfg pool hashes search group n)
    (full : group.spec.isFullAttention) : Kept search group := by
  obtain ⟨g, rest, ids⟩ := exists_cons_of_ne_nil (attentionGroups_ne_nil hm)
  obtain ⟨blocks, here, _⟩ := hf.2 g (by simp [ids])
  refine ⟨full, ?_⟩
  rw [ids, head?_cons, Option.bind_some, here]
  rfl

include hp hybrid in
theorem aligned_narrowAll (members : ∀ group ∈ groups, group ∈ attentionGroups cfg)
    (some : groups ≠ []) (pool : BlockPool) (hashes : List Bytes) (n : Nat) :
    lcmBlockSize cfg ∣ narrowAll (groupLength cfg pool hashes) groups n := by
  obtain ⟨front, last, rfl⟩ : ∃ front last, groups = front ++ [last] := ⟨_, _, (dropLast_append_getLast some).symm⟩
  have hm := members last (by simp)
  rw [narrowAll_append]
  exact Accepts.aligned hm (narrows_of_mem hp hybrid pool hashes last hm _).1.2

variable (cfg pool hashes) in
def fullLength (maxLength k : Nat) : Nat :=
  narrowAll (groupLength cfg pool hashes) ((attentionGroups cfg).take (k + 1)) maxLength

variable (cfg pool hashes) in
def AllFound (maxLength n : Nat) (search : HitSearch) :
    Prop :=
  ∀ k group, (attentionGroups cfg)[k]? = some group → Found cfg pool hashes search group
    (if group.spec.isFullAttention then fullLength cfg pool hashes maxLength k else n)

include hp hybrid noEagle in
theorem searchLoop_later {fuel : Nat} (enough : n < fuel) (aligned : lcmBlockSize cfg ∣ n)
    (full : ∀ k group, (attentionGroups cfg)[k]? = some group → group.spec.isFullAttention →
      n ≤ fullLength cfg pool hashes maxLength k ∧
      Found cfg pool hashes search group (fullLength cfg pool hashes maxLength k)) :
    ∃ search', searchLoop cfg pool hashes maxLength false fuel n search =
      some (narrowLoop (groupLength cfg pool hashes) (attentionGroups cfg) fuel n, search') ∧
      AllFound cfg pool hashes maxLength
      (narrowLoop (groupLength cfg pool hashes) (attentionGroups cfg) fuel n) search' := by
  have narrows := narrows_of_mem hp hybrid pool hashes
  induction fuel generalizing n search with
  | zero => exact absurd enough (Nat.not_lt_zero n)
  | succ fuel ih =>
    have ready : ∀ group ∈ attentionGroups cfg, Kept { search with currHitLength := n } group → lcmBlockSize cfg ∣ n ∧
        ∃ l, n ≤ l ∧ Found cfg pool hashes { search with currHitLength := n } group l := by
      intro group hm kept
      obtain ⟨k, at_⟩ := mem_iff_getElem?.mp hm
      obtain ⟨hb, hf⟩ := full k group at_ kept.1
      exact ⟨aligned, _, hb, hf⟩
    obtain ⟨search', pass, length, _, each⟩ := searchPass hp hybrid noEagle maxLength 0
      (fun _ hm => hm) ((perm_attentionGroups cfg).nodup_iff.mpr nodup_range) ready
    have keeps : ∀ k group, (attentionGroups cfg)[k]? = some group → group.spec.isFullAttention →
        Found cfg pool hashes search' group (fullLength cfg pool hashes maxLength k) := by
      intro k group at_ isFull
      have hf := (full k group at_ isFull).2
      exact hf.congr ((each k group at_).1 (hf.kept (mem_of_getElem? at_) isFull))
    unfold searchLoop narrowLoop
    simp only [pass, Option.bind_eq_bind, Option.bind_some, length, Bool.false_eq_true]
    by_cases steady : n ≤ narrowAll (groupLength cfg pool hashes) (attentionGroups cfg) n
    · rw [if_pos steady, if_pos steady]
      refine ⟨search', rfl, fun k group at_ => ?_⟩
      split
      · rename_i isFull
        exact keeps k group at_ isFull
      · rename_i other
        have hf := (each k group at_).2 fun kept => other kept.1
        rwa [narrowAll_take_eq narrows steady] at hf
    rw [if_neg steady, if_neg steady]
    have hb : narrowAll (groupLength cfg pool hashes) (attentionGroups cfg) n ≤ n := narrowAll_le narrows
    apply ih (by omega)
    · by_cases none : attentionGroups cfg = []
      · rw [none]
        exact aligned
      · exact aligned_narrowAll hp hybrid (fun _ hm => hm) none pool hashes n
    · intro k group at_ isFull
      exact ⟨hb.trans (full k group at_ isFull).1, keeps k group at_ isFull⟩

theorem fullAttention_first {k k' : Nat} {group' : AttentionGroup} (at_ : (attentionGroups cfg)[k]? = some group)
    (full : group.spec.isFullAttention) (before : k' ≤ k) (at_' : (attentionGroups cfg)[k']? = some group') :
    group'.spec.isFullAttention := by
  unfold attentionGroups at at_ at_'
  rw [getElem?_append] at at_ at_'
  split at at_
  · rw [if_pos (by omega)] at at_'
    exact (mem_filter.mp (mem_of_getElem? at_')).2
  · have other := (mem_filter.mp (mem_of_getElem? at_)).2
    simp [full] at other

include hp hybrid in
theorem isGreatest_round (members : ∀ group ∈ groups, group ∈ attentionGroups cfg)
    (full : ∀ group ∈ groups.dropLast, group.spec.isFullAttention) (pool : BlockPool) (hashes : List Bytes) (n : Nat) :
    IsGreatest {m | m ≤ n ∧ ∀ group ∈ groups, Accepts cfg pool hashes group m}
      (narrowAll (groupLength cfg pool hashes) groups n) := by
  apply isGreatest_narrowAll (fun group hm => narrows_of_mem hp hybrid pool hashes group (members group hm))
  rw [pairwise_iff_getElem]
  intro i j hi hi' before m n hb ha ha'
  have early : groups[i] ∈ groups.dropLast := by
    rw [dropLast_eq_take]
    exact mem_take_iff_getElem.mpr ⟨i, by omega, rfl⟩
  have aligned := Accepts.aligned (members _ (getElem_mem hi')) ha'
  exact Accepts.closed (members _ (getElem_mem hi)) ha (full _ early) aligned hb

include hp hybrid noEagle in
theorem searchLoop_longest {simple : Bool} (shortcut : simple → (attentionGroups cfg).length = 2 ∧
      (attentionGroups cfg).head?.any (·.spec.isFullAttention)) (pool : BlockPool) (hashes : List Bytes)
    (maxLength : Nat) :
    ∃ n search, searchLoop cfg pool hashes maxLength simple (maxLength + 1) maxLength
        ⟨maxLength, fun _ => none, []⟩ = some (n, search) ∧
      IsGreatest {m | m ≤ maxLength ∧ ∀ group ∈ attentionGroups cfg, Accepts cfg pool hashes group m} n ∧
      AllFound cfg pool hashes maxLength n search := by
  have narrows := narrows_of_mem hp hybrid pool hashes
  have fresh : ∀ group, ¬ Kept ⟨maxLength, fun _ => none, []⟩ group := by
    intro group kept
    have some := kept.2
    cases first : group.groupIds.head? <;> simp at some
  have ready : ∀ group ∈ attentionGroups cfg, Kept ⟨maxLength, fun _ => none, []⟩ group →
      lcmBlockSize cfg ∣ maxLength ∧ ∃ l, maxLength ≤ l ∧
        Found cfg pool hashes ⟨maxLength, fun _ => none, []⟩ group l := fun group _ kept => absurd kept (fresh group)
  obtain ⟨search, pass, length, _, each⟩ := searchPass hp hybrid noEagle maxLength 0 (fun _ hm => hm)
    ((perm_attentionGroups cfg).nodup_iff.mpr nodup_range) ready
  have hf : ∀ k group, (attentionGroups cfg)[k]? = some group →
      Found cfg pool hashes search group (fullLength cfg pool hashes maxLength k) :=
    fun k group at_ => (each k group at_).2 (fresh group)
  have looped := isGreatest_narrowLoop narrows (Nat.lt_succ_self maxLength)
  unfold narrowLoop at looped
  unfold searchLoop
  simp only [pass, Option.bind_eq_bind, Option.bind_some, length]
  by_cases steady : maxLength ≤ narrowAll (groupLength cfg pool hashes) (attentionGroups cfg) maxLength
  · rw [if_pos steady] at looped ⊢
    refine ⟨_, _, rfl, looped, fun k group at_ => ?_⟩
    have here := hf k group at_
    split
    · exact here
    · unfold fullLength at here
      rwa [narrowAll_take_eq narrows steady] at here
  rw [if_neg steady] at looped ⊢
  cases simple with
  | true =>
    obtain ⟨two, full⟩ := shortcut rfl
    obtain ⟨first, second, both⟩ := length_eq_two.mp two
    rw [both] at full
    refine ⟨_, _, rfl, ?_, fun k group at_ => ?_⟩
    · exact isGreatest_round hp hybrid (fun _ hm => hm) (by simpa [both] using full) pool hashes maxLength
    have here := hf k group at_
    split
    · exact here
    rename_i other
    -- Only the second group can be of another kind, and the pass ends with it.
    have last : k = 1 := by
      rw [both] at at_
      rcases k with _ | _ | k
      · have hs : first = group := by simpa using at_
        exact absurd (hs ▸ full) other
      · rfl
      · simp at at_
    subst last
    unfold fullLength at here
    rwa [take_of_length_le two.le] at here
  | false =>
    have nonempty : attentionGroups cfg ≠ [] := by
      intro none
      rw [none] at steady
      exact steady (Nat.le_refl _)
    have later : ∀ k group, (attentionGroups cfg)[k]? = some group → group.spec.isFullAttention →
        narrowAll (groupLength cfg pool hashes) (attentionGroups cfg) maxLength ≤ fullLength cfg pool hashes maxLength k ∧
        Found cfg pool hashes search group (fullLength cfg pool hashes maxLength k) := by
      intro k group at_ _
      refine ⟨?_, hf k group at_⟩
      conv_lhs => rw [← take_append_drop (k + 1) (attentionGroups cfg), narrowAll_append]
      exact narrowAll_le fun group hm => narrows group (mem_of_mem_drop hm)
    obtain ⟨search', run, all⟩ := searchLoop_later hp hybrid noEagle (Nat.lt_of_not_le steady)
      (aligned_narrowAll hp hybrid (fun _ hm => hm) nonempty pool hashes maxLength) later
    exact ⟨_, search', run, looped, all⟩

end

/-! ### What the coordinator returns -/

section

/-- How the coordinator ends: the first attention group is cut to the length if it is full attention. -/
def cutHit (cfg : CacheConfig) (hitLength : Nat) (search : HitSearch) : KVCacheBlocks := fun g =>
  let found := (search.hitBlocksByGroup g).getD []
  match (attentionGroups cfg).head? with
  | some group =>
    if group.spec.isFullAttention ∧ g ∈ group.groupIds then found.take (hitLength / group.spec.blockSize) else found
  | none => found

variable (cfg pool hashes) in
def iteratedHit (maxLength : Nat) :
    Option (KVCacheBlocks × Nat) :=
  (searchLoop cfg pool hashes maxLength false (maxLength + 1) maxLength
    ⟨maxLength, fun _ => none, []⟩).bind fun result => some (cutHit cfg result.1 result.2, result.1)

theorem exists_group (hi : g < cfg.numGroups) :
    ∃ (k : Nat) (group : AttentionGroup), (attentionGroups cfg)[k]? = some group ∧ g ∈ group.groupIds := by
  have listed := (perm_attentionGroups cfg).mem_iff.mpr (mem_range.mpr hi)
  obtain ⟨group, hm, there⟩ := mem_flatMap.mp listed
  obtain ⟨k, at_⟩ := mem_iff_getElem?.mp hm
  exact ⟨k, group, at_, there⟩

theorem accepts_all_iff (n : Nat) : (∀ group ∈ attentionGroups cfg, Accepts cfg pool hashes group n) ↔
    ∀ g < cfg.numGroups, Covered cfg pool hashes g n := by
  constructor
  · intro ha g hi
    obtain ⟨k, group, at_, there⟩ := exists_group hi
    exact ha group (mem_of_getElem? at_) g there
  · intro covered group hm g there
    exact covered g (mem_attentionGroups hm there).1

theorem HitList.cut {blocks : List BlockId} {spec : KVCacheSpec} (hits : HitList cfg pool hashes g n blocks)
    (hs : cfg.spec g = spec) (full : spec.isFullAttention) (shorter : m ≤ n) :
    HitList cfg pool hashes g m (blocks.take (m / (cfg.spec g).blockSize)) := by
  refine ⟨?_, fun i block at_block => ?_⟩
  · rw [length_take, hits.length]
    exact min_eq_left (Nat.div_le_div_right shorter)
  · rw [getElem?_take] at at_block
    split at at_block
    · have kind : spec.kind = .fullAttention := by simpa [KVCacheSpec.isFullAttention] using full
      have block := hits.block i block at_block
      unfold NeedsBlock at block ⊢
      simpa [hs, kind] using block
    · cases at_block

theorem hitList_cutHit {maxLength k : Nat} (all : AllFound cfg pool hashes maxLength n search)
    (shorter : n ≤ fullLength cfg pool hashes maxLength 0) (at_ : (attentionGroups cfg)[k]? = some group)
    (there : g ∈ group.groupIds) : HitList cfg pool hashes g (if group.spec.isFullAttention ∧ k ≠ 0
      then fullLength cfg pool hashes maxLength k else n) (cutHit cfg n search g) := by
  obtain ⟨hi, hs⟩ := mem_attentionGroups (mem_of_getElem? at_) there
  obtain ⟨_, lists⟩ := all k group at_
  obtain ⟨blocks, here, hits⟩ := lists g there
  unfold cutHit
  rw [here, Option.getD_some]
  cases k with
  | zero =>
    rw [head?_eq_getElem?, at_]
    dsimp only
    by_cases full : group.spec.isFullAttention
    · rw [if_pos full] at hits
      rw [if_neg (show ¬ (group.spec.isFullAttention = true ∧ 0 ≠ 0) from fun both => both.2 rfl), if_pos ⟨full, there⟩]
      have cut := hits.cut hs full shorter
      rw [hs] at cut
      exact cut
    · rw [if_neg full] at hits
      rw [if_neg (fun both => full both.1), if_neg (fun both => full both.1)]
      exact hits
  | succ k =>
    -- The attention groups share no group.
    have apart : ∀ first ∈ (attentionGroups cfg).head?, g ∉ first.groupIds := by
      intro first head both
      have nodup := (perm_attentionGroups cfg).nodup_iff.mpr nodup_range
      cases groups : attentionGroups cfg with
      | nil => rw [groups] at at_; cases at_
      | cons first' rest =>
        rw [groups] at nodup head at_
        rw [flatMap_cons, nodup_append'] at nodup
        have hs' : first' = first := by simpa using head
        exact nodup.2.2 (hs' ▸ both) (mem_flatMap.mpr ⟨group, mem_of_getElem? (by simpa using at_), there⟩)
    have uncut : (match (attentionGroups cfg).head? with
        | some group => if group.spec.isFullAttention ∧ g ∈ group.groupIds then blocks.take (n / group.spec.blockSize) else blocks
        | none => blocks) = blocks := by
      split
      · rename_i first head
        rw [if_neg fun both => apart first head both.2]
      · rfl
    rw [uncut]
    by_cases full : group.spec.isFullAttention
    · rw [if_pos full] at hits
      rw [if_pos ⟨full, Nat.succ_ne_zero k⟩]
      exact hits
    · rw [if_neg full] at hits
      rw [if_neg fun both => full both.1]
      exact hits

variable (cfg pool hashes) in
/-- The full attention groups up to one that is not cut are cached no further than the hit. -/
def UncutFits (maxLength : Nat) : Prop :=
  ∀ k group, 0 < k → (attentionGroups cfg)[k]? = some group → group.spec.isFullAttention → ∀ n,
    IsGreatest {m | m ≤ maxLength ∧ ∀ first ∈ (attentionGroups cfg).take (k + 1), ∀ g ∈ first.groupIds,
      Covered cfg pool hashes g m} n → ∀ g < cfg.numGroups, Covered cfg pool hashes g n

section

variable (hp : ∀ g < cfg.numGroups, 0 < (cfg.spec g).blockSize) (hybrid : ∀ g < cfg.numGroups, (cfg.spec g).kind.Hybrid)
  {maxLength : Nat}
  (greatest : IsGreatest {m | m ≤ maxLength ∧ ∀ group ∈ attentionGroups cfg, Accepts cfg pool hashes group m} n)

include hp hybrid greatest

theorem le_fullLength (k : Nat) : n ≤ fullLength cfg pool hashes maxLength k := by
  obtain ⟨⟨hb, ha⟩, _⟩ := greatest
  apply le_narrowAll (fun group hm => narrows_of_mem hp hybrid pool hashes group (mem_of_mem_take hm)) hb
  exact fun group hm => ha group (mem_of_mem_take hm)

theorem fullLength_eq_iff {k : Nat} (at_ : (attentionGroups cfg)[k]? = some group)
    (full : group.spec.isFullAttention) : fullLength cfg pool hashes maxLength k = n ↔ ∀ m,
      IsGreatest {m | m ≤ maxLength ∧ ∀ first ∈ (attentionGroups cfg).take (k + 1), ∀ g ∈ first.groupIds,
        Covered cfg pool hashes g m} m → ∀ g < cfg.numGroups, Covered cfg pool hashes g m := by
  have isGreatest : IsGreatest {m | m ≤ maxLength ∧ ∀ first ∈ (attentionGroups cfg).take (k + 1), ∀ g ∈ first.groupIds,
      Covered cfg pool hashes g m} (fullLength cfg pool hashes maxLength k) := by
    apply isGreatest_round hp hybrid (fun group hm => mem_of_mem_take hm)
    intro first hm
    obtain ⟨k', at_', rfl⟩ := mem_take_iff_getElem.mp (dropLast_subset _ hm)
    exact fullAttention_first at_ full (by omega) (getElem?_eq_getElem (by omega))
  constructor
  · intro hs m isGreatest'
    rw [isGreatest'.unique isGreatest, hs, ← accepts_all_iff]
    exact greatest.1.2
  · intro covered
    have all := covered _ isGreatest
    rw [← accepts_all_iff] at all
    exact le_antisymm (greatest.2 ⟨isGreatest.1.1, all⟩) (le_fullLength hp hybrid greatest k)

end

/-- The search ends and finds the longest hit, with the shortcut as without it. The lists of all groups are those of this
hit if and only if the full attention groups that are not cut fit. -/
theorem hybrid_hit_exact_iff (hp : ∀ g < cfg.numGroups, 0 < (cfg.spec g).blockSize)
    (hybrid : ∀ g < cfg.numGroups, (cfg.spec g).kind.Hybrid) (noEagle : ∀ g < cfg.numGroups, cfg.eagleGroupIds g = false)
    (pool : BlockPool) (hashes : List Bytes) (maxLength : Nat) :
    ∃ blocks n, hybridHit cfg pool hashes maxLength = some (blocks, n) ∧
      IsGreatest {m | m ≤ maxLength ∧ ∀ g < cfg.numGroups, Covered cfg pool hashes g m} n ∧
      (∃ blocks', iteratedHit cfg pool hashes maxLength = some (blocks', n) ∧ ∀ g < cfg.numGroups, blocks' g = blocks g) ∧
      (∀ g < cfg.numGroups, HitList cfg pool hashes g n ((blocks g).take (n / (cfg.spec g).blockSize))) ∧
      ((∀ g < cfg.numGroups, HitList cfg pool hashes g n (blocks g)) ↔ UncutFits cfg pool hashes maxLength) := by
  obtain ⟨n, search, run, greatest, all⟩ := searchLoop_longest hp hybrid noEagle
    (fun simple => of_decide_eq_true simple) pool hashes maxLength
  have noShortcut : false = true → (attentionGroups cfg).length = 2 ∧
      (attentionGroups cfg).head?.any (·.spec.isFullAttention) := fun never => absurd never Bool.false_ne_true
  obtain ⟨n', search', run', greatest', all'⟩ := searchLoop_longest hp hybrid noEagle noShortcut pool hashes
    maxLength
  have same : n' = n := greatest'.unique greatest
  subst same
  have shorter := le_fullLength hp hybrid greatest 0
  refine ⟨cutHit cfg n' search, n', ?_, ?_, ⟨cutHit cfg n' search', ?_, ?_⟩, ?_, ?_, ?_⟩
  · exact congrArg (Option.bind · _) run
  · simpa only [accepts_all_iff] using greatest
  · unfold iteratedHit
    rw [run', Option.bind_some]
  · intro g inside
    obtain ⟨k, group, at_, there⟩ := exists_group inside
    exact (hitList_cutHit all' shorter at_ there).unique (hitList_cutHit all shorter at_ there)
  · intro g inside
    obtain ⟨k, group, at_, there⟩ := exists_group inside
    have hits := hitList_cutHit all shorter at_ there
    by_cases uncut : group.spec.isFullAttention ∧ k ≠ 0
    · rw [if_pos uncut] at hits
      exact hits.cut (mem_attentionGroups (List.mem_of_getElem? at_) there).2 uncut.1 (le_fullLength hp hybrid greatest k)
    · rw [if_neg uncut] at hits
      rw [List.take_of_length_le hits.length.le]
      exact hits
  · intro exact_ k group later at_ full
    rw [← fullLength_eq_iff hp hybrid greatest at_ full]
    obtain ⟨g, there, inside, spec⟩ := exists_member (List.mem_of_getElem? at_)
    have hits := hitList_cutHit all shorter at_ there
    rw [if_pos ⟨full, ne_of_gt later⟩] at hits
    have lengths := hits.length.symm.trans (exact_ g inside).length
    have aligned := (all k group at_).1
    rw [if_pos full] at aligned
    have aligned' := (greatest.1.2 group (List.mem_of_getElem? at_) g there).1
    have dvd := spec ▸ blockSize_dvd_lcm (List.mem_of_getElem? at_)
    rw [← Nat.div_mul_cancel (dvd.trans aligned), lengths, Nat.div_mul_cancel (dvd.trans aligned')]
  · intro fits g inside
    obtain ⟨k, group, at_, there⟩ := exists_group inside
    have hits := hitList_cutHit all shorter at_ there
    by_cases uncut : group.spec.isFullAttention ∧ k ≠ 0
    · rw [if_pos uncut, (fullLength_eq_iff hp hybrid greatest at_ uncut.1).mpr
        (fits k group (pos_of_ne_zero uncut.2) at_ uncut.1)] at hits
      exact hits
    · rw [if_neg uncut] at hits
      exact hits

end

end

def mixedConfig : CacheConfig where
  pool := { numGpuBlocks := 9, hashBlockSize := 4, scheme := spelledScheme }
  maxModelLen := 64
  maxNumBatchedTokens := 64
  numGroups := 3
  spec g := if g = 0 then ⟨4, .fullAttention, 0⟩ else if g = 1 then ⟨4, .fullAttention, 1⟩ else ⟨4, .slidingWindow 5, 0⟩

def mixedPool : BlockPool :=
  let entries : List (Bytes × Nat × BlockId) := [([1], 0, 1), ([2], 0, 2), ([1], 1, 3), ([2], 1, 4), ([1], 2, 5)]
  entries.foldl (fun pool entry =>
    let key := makeBlockHashWithGroupId entry.1 entry.2.1
    (pool.setCached (pool.cachedBlockHashToBlock.insertBlock key entry.2.2)).setHash entry.2.2 (some key))
    ((BlockPool.init mixedConfig.pool).toOption.get rfl)

theorem mixedConfig_hybrid (g : Nat) : (mixedConfig.spec g).kind.Hybrid := by
  simp only [mixedConfig]
  split
  · exact .fullAttention
  · split
    · exact .fullAttention
    · exact .slidingWindow 5 (by decide)

theorem hybrid_hit_exact_mixed : (∀ g < 3, 0 < (mixedConfig.spec g).blockSize) ∧ ∃ blocks,
    hybridHit mixedConfig mixedPool [[1], [2]] 9 = some (blocks, 4) ∧
    IsGreatest {m | m ≤ 9 ∧ ∀ g < 3, Covered mixedConfig mixedPool [[1], [2]] g m} 4 := by
  have hp : ∀ g < mixedConfig.numGroups, 0 < (mixedConfig.spec g).blockSize := by decide
  obtain ⟨blocks, n, run, greatest, _⟩ := hybrid_hit_exact_iff hp (fun g _ => mixedConfig_hybrid g) (fun _ _ => rfl)
    mixedPool [[1], [2]] 9
  have length : (hybridHit mixedConfig mixedPool [[1], [2]] 9).map (·.2) = some 4 := by decide
  rw [run] at length
  have four : n = 4 := by simpa using length
  subst four
  exact ⟨hp, blocks, run, greatest⟩

theorem second_full_attention_uncut : ∃ blocks, hybridHit mixedConfig mixedPool [[1], [2]] 9 = some (blocks, 4) ∧
    blocks 0 = [1] ∧ blocks 1 = [3, 4] ∧ blocks 2 = [5] ∧ ¬ HitList mixedConfig mixedPool [[1], [2]] 1 4 (blocks 1) := by
  have result : (hybridHit mixedConfig mixedPool [[1], [2]] 9).map (fun hit => (hit.1 0, hit.1 1, hit.1 2, hit.2)) =
      some ([1], [3, 4], [5], 4) := by decide
  obtain ⟨⟨blocks, n⟩, run, values⟩ := Option.map_eq_some_iff.mp result
  simp only [Prod.mk.injEq] at values
  obtain ⟨first, second, third, rfl⟩ := values
  refine ⟨blocks, run, first, second, third, fun hits => ?_⟩
  have length := hits.length
  rw [second] at length
  cases length

end KVOffload.Core
