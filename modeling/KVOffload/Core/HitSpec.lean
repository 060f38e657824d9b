import KVOffload.Core.CacheHit
import KVOffload.Core.PoolSpec

/-!
# What a lookup may return

Every block of a hit is the null block or a block cached under the hash of its position, for every kind
of group and for the coordinator. With distinct hashes no block occurs twice in a hit.
-/

namespace KVOffload.Core

open List Option

theorem mapM_some_getElem? {α β : Type} {f : α → Option β} {items : List α} {out : List β} (run : items.mapM f = some out) :
    out.length = items.length ∧ ∀ (j : Nat) x, items[j]? = some x → ∃ b, out[j]? = some b ∧ f x = some b := by
  induction items generalizing out with
  | nil =>
    have empty : out = [] := by simpa using run.symm
    subst empty
    simp
  | cons item items ih =>
    rw [mapM_cons] at run
    obtain ⟨b, hf, run⟩ := bind_eq_some_iff.mp run
    obtain ⟨rest, more, run⟩ := bind_eq_some_iff.mp run
    have joined : out = b :: rest := by simpa using run.symm
    subst joined
    obtain ⟨length, each⟩ := ih more
    refine ⟨by simp [length], fun j x at_ => ?_⟩
    cases j with
    | zero =>
      have hs : item = x := by simpa using at_
      subst hs
      exact ⟨b, rfl, hf⟩
    | succ j => exact each j x (by simpa using at_)

section

variable {nullRow : HitRow} {lookup : Nat → Option HitRow} {rows : List HitRow}

variable (nullRow lookup rows) in
def RowsAt : Prop :=
  ∀ (p : Nat) row, rows[p]? = some row → row = nullRow ∨ lookup p = some row

variable (lookup) in
def RunAt (start : Nat) (rows : List HitRow) : Prop :=
  ∀ (p : Nat) row, rows[p]? = some row → lookup (start + p) = some row

theorem RowsAt.take (hf : RowsAt nullRow lookup rows) (n : Nat) : RowsAt nullRow lookup (rows.take n) := by
  intro p row at_
  rw [getElem?_take] at at_
  split at at_
  · exact hf p row at_
  · cases at_

theorem RowsAt.dropLast (hf : RowsAt nullRow lookup rows) : RowsAt nullRow lookup rows.dropLast := by
  rw [dropLast_eq_take]
  exact hf.take _

theorem RowsAt.alignRows (hf : RowsAt nullRow lookup rows) (blockSize alignment : Nat) :
    RowsAt nullRow lookup (alignRows blockSize alignment rows) := hf.take _

theorem RunAt.nil (start : Nat) : RunAt lookup start [] := by
  intro p row at_
  simp at at_

variable {row : HitRow} {start : Nat}

theorem RunAt.cons (here : lookup start = some row) (hf : RunAt lookup (start + 1) rows) :
    RunAt lookup start (row :: rows) := by
  intro p row' at_
  cases p with
  | zero =>
    have hs : row = row' := by simpa using at_
    rw [← hs]
    exact here
  | succ p =>
    rw [← add_assoc, add_right_comm]
    exact hf p row' (by simpa using at_)

theorem RunAt.padded (hf : RunAt lookup start rows) :
    RowsAt nullRow lookup (replicate start nullRow ++ rows) := by
  intro p row at_
  rw [getElem?_append] at at_
  split at at_
  · exact .inl (eq_of_mem_replicate (mem_of_getElem? at_))
  · rename_i behind
    rw [length_replicate] at behind at_
    have hf' := hf _ row at_
    rw [Nat.add_sub_cancel' (Nat.le_of_not_lt behind)] at hf'
    exact .inr hf'

theorem RunAt.rowsAt (hf : RunAt lookup 0 rows) : RowsAt nullRow lookup rows := by
  simpa using hf.padded

theorem runAt_hitRun (start n : Nat) : RunAt lookup start (hitRun lookup start n) := by
  induction n generalizing start with
  | zero => exact RunAt.nil start
  | succ n ih =>
    unfold hitRun
    split
    · exact RunAt.nil start
    · rename_i row here
      exact RunAt.cons here (ih (start + 1))

variable (blockSize alignment : Nat) (useEagle : Bool)

theorem rowsAt_fullAttentionHit (n : Nat) : RowsAt nullRow lookup (fullAttentionHit blockSize alignment useEagle lookup n) := by
  have hf : RowsAt nullRow lookup (hitRun lookup 0 n) := (runAt_hitRun 0 n).rowsAt
  apply RowsAt.alignRows
  split
  · exact hf.dropLast
  · exact hf

theorem runAt_slidingWindowSearch (needed i : Nat) {run : List HitRow} (hf : RunAt lookup i run) :
    RunAt lookup (slidingWindowSearch blockSize alignment useEagle lookup needed i run).1
      (slidingWindowSearch blockSize alignment useEagle lookup needed i run).2.1 ∧
    ((slidingWindowSearch blockSize alignment useEagle lookup needed i run).2.2 = false →
      (slidingWindowSearch blockSize alignment useEagle lookup needed i run).1 = 0) := by
  fun_induction slidingWindowSearch blockSize alignment useEagle lookup needed i run with
  | case1 run => exact ⟨hf, fun _ => rfl⟩
  | case2 i run missed ih => exact ih (RunAt.nil i)
  | case3 i run row here _ skipped ih =>
    rw [skipped.1] at ih ⊢
    exact ih (RunAt.nil i)
  | case4 i run row here _ aligned enough => exact ⟨RunAt.cons here hf, fun never => by cases never⟩
  | case5 i run row here _ aligned few ih => exact ih (RunAt.cons here hf)

theorem rowsAt_slidingWindowHit (slidingWindow n : Nat) :
    RowsAt nullRow lookup (slidingWindowHit blockSize alignment useEagle nullRow lookup slidingWindow n) := by
  have searched := runAt_slidingWindowSearch blockSize alignment useEagle
    (cdiv (slidingWindow - 1) blockSize + if useEagle then 1 else 0) n (RunAt.nil n : RunAt lookup n [])
  rcases result : slidingWindowSearch blockSize alignment useEagle lookup
    (cdiv (slidingWindow - 1) blockSize + if useEagle then 1 else 0) n [] with ⟨i, run, matched⟩
  rw [result] at searched
  obtain ⟨hf, start⟩ := searched
  have rows : RowsAt nullRow lookup
      (if matched then replicate i nullRow ++ run else KVOffload.Core.alignRows blockSize alignment run) := by
    cases matched with
    | true => exact hf.padded
    | false =>
      have zero : i = 0 := start rfl
      subst zero
      exact hf.rowsAt.alignRows blockSize alignment
  simp only [slidingWindowHit, result]
  by_cases pops : useEagle ∧
      (if matched then replicate i nullRow ++ run else KVOffload.Core.alignRows blockSize alignment run) ≠ []
  · rw [if_pos pops]
    exact rows.dropLast.alignRows blockSize alignment
  · rw [if_neg pops]
    exact rows

theorem rowsAt_mambaHit (n : Nat) : RowsAt nullRow lookup (mambaHit blockSize alignment nullRow lookup n) := by
  induction n with
  | zero =>
    intro p row at_
    simp [mambaHit] at at_
  | succ i ih =>
    unfold mambaHit
    split
    · exact ih
    · rename_i row here
      split
      · exact ih
      · exact (RunAt.cons here (RunAt.nil (i + 1))).padded

end

def HitsAt (pool : BlockPool) (hashes : List Bytes) (g : Nat) (blocks : List BlockId) : Prop :=
  ∀ (p : Nat) block, blocks[p]? = some block → block = pool.nullBlock ∨
    ∃ hash, hashes[p]? = some hash ∧ pool.cachedBlockHashToBlock.getOneBlock (makeBlockHashWithGroupId hash g) = some block

variable {g : Nat} {pool : BlockPool} {block : BlockId} {hashes : List Bytes} {i j : Nat}

theorem HitsAt.take {blocks : List BlockId}
    (hits : HitsAt pool hashes g blocks) (n : Nat) : HitsAt pool hashes g (blocks.take n) := by
  intro p block at_
  rw [getElem?_take] at at_
  split at at_
  · exact hits p block at_
  · cases at_

theorem HitsAt.nil : HitsAt pool hashes g [] := by
  intro p block at_
  simp at at_

section

variable {cfg : PoolConfig} {blocks : List BlockId} (hits : HitsAt pool hashes g blocks) (inv : CacheInv cfg pool)

include hits inv

theorem HitsAt.hash {p : Nat} (at_ : blocks[p]? = some block) (real : block ≠ pool.nullBlock) :
    ∃ hash, hashes[p]? = some hash ∧ pool.blockHash block = some (makeBlockHashWithGroupId hash g) := by
  rcases hits p block at_ with null | ⟨hash, there, cached⟩
  · exact absurd null real
  · exact ⟨hash, there, (inv.hash_iff _ _).mpr (BlockHashToBlockMap.stores_of_getOneBlock cached)⟩

theorem HitsAt.known (null : pool.nullBlock < cfg.numGpuBlocks) (hm : block ∈ blocks) :
    block < cfg.numGpuBlocks := by
  obtain ⟨p, at_⟩ := mem_iff_getElem?.mp hm
  by_cases real : block = pool.nullBlock
  · exact real ▸ null
  · obtain ⟨hash, _, carried⟩ := hits.hash inv at_ real
    exact (inv.inside _ _ carried).1

theorem HitsAt.nodup (hd : hashes.Nodup) : (realBlocks pool.nullBlock blocks).Nodup := by
  unfold realBlocks List.Nodup
  rw [pairwise_filter, pairwise_iff_getElem]
  intro p q hi hi' before real real' hs
  obtain ⟨hash, there, carried⟩ := hits.hash inv (getElem?_eq_getElem hi) (by simpa using real)
  obtain ⟨hash', there', carried'⟩ := hits.hash inv (getElem?_eq_getElem hi') (by simpa using real')
  rw [hs, carried'] at carried
  -- One block carries one hash, and the hashes of two positions differ.
  have equal := append_cancel_right (some.inj carried)
  rw [equal] at there'
  obtain ⟨bound, value⟩ := List.getElem?_eq_some_iff.mp there
  obtain ⟨bound', value'⟩ := List.getElem?_eq_some_iff.mp there'
  have := hd.getElem_inj_iff.mp (value.trans value'.symm)
  omega

end

theorem groupIdBytes_inj (small : i < 2 ^ 32) (small' : j < 2 ^ 32) (hs : groupIdBytes i = groupIdBytes j) :
    i = j := by
  simp only [groupIdBytes, cons.injEq, ← UInt8.toNat_inj, UInt8.toNat_ofNat'] at hs
  omega

theorem HitsAt.apart {cfg : PoolConfig} {hashes' : List Bytes} {blocks blocks' : List BlockId}
    (inv : CacheInv cfg pool) (hits : HitsAt pool hashes i blocks) (hits' : HitsAt pool hashes' j blocks') (small : i < 2 ^ 32)
    (small' : j < 2 ^ 32) (different : i ≠ j) (real : block ≠ pool.nullBlock) (hm : block ∈ blocks) :
    block ∉ blocks' := by
  intro hm'
  obtain ⟨p, at_⟩ := mem_iff_getElem?.mp hm
  obtain ⟨q, at_'⟩ := mem_iff_getElem?.mp hm'
  obtain ⟨hash, _, carried⟩ := hits.hash inv at_ real
  obtain ⟨hash', _, carried'⟩ := hits'.hash inv at_' real
  rw [carried] at carried'
  have keys := some.inj carried'
  exact different (groupIdBytes_inj small small' (append_inj' keys rfl).2)

theorem getElem?_column {rows : List HitRow} {j p : Nat} (wide : ∀ row ∈ rows, j < row.length) :
    (column rows j)[p]? = rows[p]?.bind (·[j]?) := by
  induction rows generalizing p with
  | nil => simp [column]
  | cons row rows ih =>
    have here : row[j]? = some (row.get ⟨j, wide row (.head _)⟩) := by simp
    unfold column
    rw [filterMap_cons, here]
    cases p with
    | zero => simp
    | succ p => simpa [column] using ih fun row' hm => wide row' (mem_cons_of_mem row hm)

variable {groupIds : List Nat} {spec : KVCacheSpec} {useEagle : Bool}
  {maxLength alignment : Nat} {rows : List HitRow}

section

variable (run : findLongestCacheHit pool hashes maxLength groupIds spec useEagle alignment = some rows)

include run

theorem rowsAt_findLongestCacheHit :
    RowsAt (groupIds.map fun _ => pool.nullBlock) (fun i => hashes[i]?.bind (pool.getCachedBlock · groupIds)) rows := by
  unfold findLongestCacheHit at run
  split at run
  · cases run
    exact rowsAt_fullAttentionHit _ _ _ _
  · cases run
    exact rowsAt_slidingWindowHit _ _ _ _ _
  · unfold chunkedLocalHit at run
    split at run
    · cases run
    · cases run
      exact (runAt_hitRun _ _).padded
  · cases run
    exact rowsAt_mambaHit _ _ _

theorem length_of_mem_findLongestCacheHit (hm : row ∈ rows) : row.length = groupIds.length := by
  obtain ⟨p, there⟩ := mem_iff_getElem?.mp hm
  rcases rowsAt_findLongestCacheHit run p row there with null | cached
  · rw [null, length_map]
  · obtain ⟨hash, -, cached⟩ := bind_eq_some_iff.mp cached
    exact (mapM_some_getElem? cached).1

theorem hitsAt_findLongestCacheHit (at_ : groupIds[j]? = some g) : HitsAt pool hashes g (column rows j) := by
  have hi := (List.getElem?_eq_some_iff.mp at_).1
  intro p block there
  rw [getElem?_column fun row hm => length_of_mem_findLongestCacheHit run hm ▸ hi] at there
  obtain ⟨row, at_row, here⟩ := bind_eq_some_iff.mp there
  rcases rowsAt_findLongestCacheHit run p row at_row with null | cached
  · subst null
    rw [getElem?_map, at_] at here
    exact .inl (by simpa using here.symm)
  · obtain ⟨hash, hashed, cached⟩ := bind_eq_some_iff.mp cached
    obtain ⟨block', here', one⟩ := (mapM_some_getElem? cached).2 j g at_
    rw [here] at here'
    cases here'
    exact .inr ⟨hash, hashed, one⟩

theorem rows_eq_nil_of_column (hi : j < groupIds.length) (none : column rows j = []) : rows = [] := by
  cases rows with
  | nil => rfl
  | cons row rows =>
    have first := getElem?_column (p := 0) fun row' hm => length_of_mem_findLongestCacheHit run hm ▸ hi
    have wide := length_of_mem_findLongestCacheHit run (.head _) ▸ hi
    rw [none] at first
    simp [wide] at first

end

/-- What the constructors of the coordinators assert about block sizes. -/
structure CacheConfig.Valid (cfg : CacheConfig) : Prop where
  blockSize_pos : ∀ g < cfg.numGroups, 0 < (cfg.spec g).blockSize
  hashBlockSize_pos : 0 < cfg.pool.hashBlockSize
  divisible : cfg.pool.enableCaching → ∀ g < cfg.numGroups, (cfg.spec g).blockSize % cfg.pool.hashBlockSize = 0
  unitary : cfg.pool.enableCaching → cfg.numGroups = 1 → (cfg.spec 0).blockSize = cfg.pool.hashBlockSize
  hybrid : cfg.pool.enableCaching → cfg.numGroups ≠ 1 → 1 < (attentionGroups cfg).length

section

variable {cfg : CacheConfig}

def groupHashes (cfg : CacheConfig) (hashes : List Bytes) (g : Nat) : List Bytes :=
  hashesAt cfg.pool.hashBlockSize hashes (cfg.spec g).blockSize

theorem mem_insertGroup {groups : List AttentionGroup} {i : Nat} {P : Nat → KVCacheSpec → Prop}
    (each : ∀ group ∈ groups, ∀ g ∈ group.groupIds, P g group.spec) (new : P i spec) :
    ∀ group ∈ insertGroup groups spec i, ∀ g ∈ group.groupIds, P g group.spec := by
  fun_induction insertGroup groups spec i with
  | case1 => simpa using new
  | case2 group rest hs =>
    intro group' hm g there
    rcases mem_cons.mp hm with rfl | other
    · rcases mem_append.mp there with old | fresh
      · exact each group (.head _) g old
      · rw [mem_singleton.mp fresh, hs]
        exact new
    · exact each group' (.tail _ other) g there
  | case3 group rest different ih =>
    intro group' hm
    rcases mem_cons.mp hm with rfl | other
    · exact each _ (.head _)
    · exact ih (fun g hm => each g (.tail _ hm)) group' other

variable {group : AttentionGroup}

theorem mem_attentionGroups (hm : group ∈ attentionGroups cfg) (there : g ∈ group.groupIds) :
    g < cfg.numGroups ∧ cfg.spec g = group.spec := by
  have each : ∀ (ids : List Nat) groups, (∀ i ∈ ids, i < cfg.numGroups) →
      (∀ group ∈ groups, ∀ g ∈ group.groupIds, g < cfg.numGroups ∧ cfg.spec g = group.spec) →
      ∀ group ∈ ids.foldl (fun groups i => insertGroup groups (cfg.spec i) i) groups, ∀ g ∈ group.groupIds,
        g < cfg.numGroups ∧ cfg.spec g = group.spec := by
    intro ids
    induction ids with
    | nil => exact fun groups _ sofar => sofar
    | cons i ids ih =>
      intro groups hi sofar
      apply ih _ fun j hm => hi j (mem_cons_of_mem i hm)
      exact mem_insertGroup (P := fun g spec => g < cfg.numGroups ∧ cfg.spec g = spec) sofar
        ⟨hi i (.head _), rfl⟩
  have listed : group ∈ (range cfg.numGroups).foldl (fun groups i => insertGroup groups (cfg.spec i) i) [] := by
    rcases mem_append.mp hm with full | other
    · exact mem_of_mem_filter full
    · exact mem_of_mem_filter other
  exact each _ [] (fun i hm => mem_range.mp hm) (by simp) group listed g there

theorem perm_insertGroup (groups : List AttentionGroup) (spec : KVCacheSpec) (i : Nat) :
    ((insertGroup groups spec i).flatMap (·.groupIds)).Perm (i :: groups.flatMap (·.groupIds)) := by
  fun_induction insertGroup groups spec i with
  | case1 => exact List.Perm.refl _
  | case2 group rest hs =>
    simp only [flatMap_cons, append_assoc]
    exact perm_middle
  | case3 group rest different ih =>
    exact (ih.append_left _).trans perm_middle

theorem perm_attentionGroups (cfg : CacheConfig) : ((attentionGroups cfg).flatMap (·.groupIds)).Perm (range cfg.numGroups) := by
  have each : ∀ (ids : List Nat) groups,
      ((ids.foldl (fun groups i => insertGroup groups (cfg.spec i) i) groups).flatMap (·.groupIds)).Perm
        (groups.flatMap (·.groupIds) ++ ids) := by
    intro ids
    induction ids with
    | nil => simp
    | cons i ids ih =>
      intro groups
      refine (ih _).trans (((perm_insertGroup groups (cfg.spec i) i).append_right ids).trans ?_)
      exact perm_middle.symm
  have sorted := filter_append_perm (·.spec.isFullAttention)
    ((range cfg.numGroups).foldl (fun groups i => insertGroup groups (cfg.spec i) i) [])
  refine List.Perm.trans (List.Perm.flatMap_right _ ?_) (each (range cfg.numGroups) [])
  unfold attentionGroups
  refine List.Perm.trans (List.Perm.of_eq ?_) sorted
  simp

theorem attentionGroups_ne_nil (hm : group ∈ attentionGroups cfg) : group.groupIds ≠ [] := by
  have step : ∀ groups spec i, (∀ group ∈ groups, group.groupIds ≠ []) →
      ∀ group ∈ insertGroup groups spec i, group.groupIds ≠ [] := by
    intro groups spec i
    fun_induction insertGroup groups spec i with
    | case1 => simp
    | case2 group rest hs => simp
    | case3 group rest different ih => simp_all
  have each : ∀ (ids : List Nat) groups, (∀ group ∈ groups, group.groupIds ≠ []) →
      ∀ group ∈ ids.foldl (fun groups i => insertGroup groups (cfg.spec i) i) groups, group.groupIds ≠ [] := by
    intro ids
    induction ids with
    | nil => exact fun groups full => full
    | cons i ids ih => exact fun groups full => ih _ (step groups _ i full)
  rcases mem_append.mp hm with full | other
  · exact each _ [] (by simp) group (mem_of_mem_filter full)
  · exact each _ [] (by simp) group (mem_of_mem_filter other)

def SearchHits (cfg : CacheConfig) (pool : BlockPool) (hashes : List Bytes) (search : HitSearch) : Prop :=
  ∀ g blocks, search.hitBlocksByGroup g = some blocks → HitsAt pool (groupHashes cfg hashes g) g blocks

variable {search search' : HitSearch} {idx : Nat}

theorem searchHits_searchGroup (hm : group ∈ attentionGroups cfg) (sofar : SearchHits cfg pool hashes search)
    (run : searchGroup cfg pool hashes maxLength search idx group = some search') :
    SearchHits cfg pool hashes search' := by
  unfold searchGroup at run
  simp only [] at run
  split at run
  · cases run
    exact sofar
  split at run
  · cases run
  rename_i rows hf
  cases run
  intro g blocks there
  simp only [] at there
  split at there
  · rename_i j at_
    cases there
    have at_' : group.groupIds[j]? = some g := by
      obtain ⟨hi, hs, _⟩ := idxOf?_eq_some_iff.mp at_
      rw [getElem?_eq_getElem]
      simpa using hs
    have known := mem_attentionGroups hm (mem_of_getElem? at_')
    unfold groupHashes
    rw [known.2]
    exact hitsAt_findLongestCacheHit hf at_'
  · exact sofar g blocks there

variable {entries : List (AttentionGroup × Nat)}

theorem searchHits_foldlM (members : ∀ entry ∈ entries, entry.1 ∈ attentionGroups cfg)
    (sofar : SearchHits cfg pool hashes search)
    (run : entries.foldlM (fun search entry => searchGroup cfg pool hashes maxLength search entry.2 entry.1)
      search = some search') : SearchHits cfg pool hashes search' := by
  induction entries generalizing search with
  | nil =>
    have hs : search = search' := by simpa using run
    exact hs ▸ sofar
  | cons entry entries ih =>
    obtain ⟨middle, first, rest⟩ := bind_eq_some_iff.mp run
    exact ih (fun entry' hm => members entry' (.tail _ hm))
      (searchHits_searchGroup (members entry (.head _)) sofar first) rest

variable {hitLength : Nat} {simple : Bool}

theorem searchHits_searchLoop {fuel length : Nat} (sofar : SearchHits cfg pool hashes search)
    (run : searchLoop cfg pool hashes maxLength simple fuel hitLength search = some (length, search')) :
    SearchHits cfg pool hashes search' := by
  induction fuel generalizing hitLength search with
  | zero =>
    cases run
    exact sofar
  | succ fuel ih =>
    obtain ⟨middle, pass, run⟩ := bind_eq_some_iff.mp run
    have members : ∀ entry ∈ (attentionGroups cfg).zipIdx, entry.1 ∈ attentionGroups cfg :=
      fun entry hm => fst_mem_of_mem_zipIdx hm
    have start : SearchHits cfg pool hashes { search with currHitLength := hitLength } := sofar
    have hf := searchHits_foldlM members start pass
    split at run
    · cases run
      exact hf
    · split at run
      · cases run
        exact hf
      · exact ih hf run

variable {blocks : KVCacheBlocks} {last : AttentionGroup}

theorem hitsAt_hybridHit (run : hybridHit cfg pool hashes maxLength = some (blocks, hitLength)) (g : Nat) :
    HitsAt pool (groupHashes cfg hashes g) g (blocks g) := by
  obtain ⟨⟨length, search⟩, searched, run⟩ := bind_eq_some_iff.mp run
  have hf := searchHits_searchLoop (by intro g blocks never; cases never) searched
  have each : HitsAt pool (groupHashes cfg hashes g) g ((search.hitBlocksByGroup g).getD []) := by
    cases here : search.hitBlocksByGroup g with
    | none => exact HitsAt.nil
    | some hf' => exact hf g hf' here
  cases run
  simp only []
  split
  · split
    · exact each.take _
    · exact each
  · exact each

theorem searchGroup_other (other : g ∉ group.groupIds)
    (run : searchGroup cfg pool hashes maxLength search idx group = some search') :
    search'.hitBlocksByGroup g = search.hitBlocksByGroup g := by
  unfold searchGroup at run
  simp only [] at run
  split at run
  · cases run
    rfl
  · split at run
    · cases run
    · cases run
      simp only [idxOf?_eq_none_iff.mpr other]

def HitEmpty (g length : Nat) (search : HitSearch) : Prop :=
  ∃ blocks, search.hitBlocksByGroup g = some blocks ∧ (blocks = [] → length = 0)

theorem searchGroup_first (first : group.groupIds.head? = some g)
    (run : searchGroup cfg pool hashes maxLength search idx group = some search') :
    (search'.hitBlocksByGroup g = search.hitBlocksByGroup g ∧ search.hitBlocksByGroup g ≠ none) ∨
      HitEmpty g search'.currHitLength search' := by
  unfold searchGroup at run
  simp only [first] at run
  split at run
  · rename_i cached
    cases run
    exact .inl ⟨rfl, isSome_iff_ne_none.mp cached.2⟩
  split at run
  · cases run
  · rename_i rows hf
    cases run
    obtain ⟨rest, ids⟩ := head?_eq_some_iff.mp first
    have at_ : group.groupIds.idxOf? g = some 0 := by simp [ids, idxOf?_cons]
    have hi : 0 < group.groupIds.length := by simp [ids]
    refine .inr ⟨column rows 0, by simp only [at_], fun none => ?_⟩
    simp [rows_eq_nil_of_column hf hi none]

theorem searchPass_last (others : ∀ entry ∈ entries, g ∉ entry.1.groupIds)
    (first : last.groupIds.head? = some g)
    (run : (entries ++ [(last, idx)]).foldlM (fun search entry => searchGroup cfg pool hashes maxLength search
      entry.2 entry.1) search = some search') :
    (search'.hitBlocksByGroup g = search.hitBlocksByGroup g ∧ search.hitBlocksByGroup g ≠ none) ∨
      HitEmpty g search'.currHitLength search' := by
  induction entries generalizing search with
  | nil =>
    obtain ⟨middle, run, done⟩ := bind_eq_some_iff.mp run
    have hs : middle = search' := by simpa using done
    exact hs ▸ searchGroup_first first run
  | cons entry entries ih =>
    obtain ⟨middle, step, run⟩ := bind_eq_some_iff.mp run
    rw [← searchGroup_other (others entry (.head _)) step]
    exact ih (fun entry' hm => others entry' (.tail _ hm)) run

theorem searchLoop_last {fuel length : Nat}
    (all : (attentionGroups cfg).zipIdx = entries ++ [(last, idx)])
    (others : ∀ entry ∈ entries, g ∉ entry.1.groupIds) (first : last.groupIds.head? = some g)
    (sofar : (search.hitBlocksByGroup g = none ∧ fuel ≠ 0) ∨ HitEmpty g hitLength search)
    (run : searchLoop cfg pool hashes maxLength simple fuel hitLength search = some (length, search')) :
    HitEmpty g length search' := by
  induction fuel generalizing hitLength search with
  | zero =>
    cases run
    rcases sofar with start | empty
    · exact absurd rfl start.2
    · exact empty
  | succ fuel ih =>
    obtain ⟨middle, pass, run⟩ := bind_eq_some_iff.mp run
    rw [all] at pass
    -- A list that is found in this pass sets the length; one that was kept did so before.
    have either : HitEmpty g (min hitLength middle.currHitLength) middle := by
      rcases searchPass_last others first pass with ⟨kept, some⟩ | ⟨blocks, here, empty⟩
      · rcases sofar with start | ⟨blocks, here, empty⟩
        · exact absurd start.1 some
        · exact ⟨blocks, kept.trans here, fun none => by rw [empty none, Nat.zero_min]⟩
      · exact ⟨blocks, here, fun none => by rw [empty none, Nat.min_zero]⟩
    split at run
    · rename_i longer
      cases run
      rwa [min_eq_left longer] at either
    · rw [Nat.min_eq_right (by omega)] at either
      split at run
      · cases run
        exact either
      · exact ih (.inr either) run

theorem hybridHit_nil (several : 1 < (attentionGroups cfg).length)
    (run : hybridHit cfg pool hashes maxLength = some (blocks, hitLength))
    (none : ∀ g < cfg.numGroups, blocks g = []) : hitLength = 0 := by
  obtain ⟨groups, last, all⟩ : ∃ groups last, attentionGroups cfg = groups ++ [last] :=
    ⟨_, _, (dropLast_append_getLast (ne_nil_of_length_pos (Nat.lt_trans Nat.zero_lt_one several))).symm⟩
  have hm : last ∈ attentionGroups cfg := by simp [all]
  obtain ⟨g, rest, ids⟩ := exists_cons_of_ne_nil (attentionGroups_ne_nil hm)
  have hi : g < cfg.numGroups := (mem_attentionGroups hm (by simp [ids])).1
  -- The groups are spread over the attention groups without overlap.
  have apart : ∀ group ∈ groups, g ∉ group.groupIds := by
    have nodup := (perm_attentionGroups cfg).nodup_iff.mpr nodup_range
    rw [all, flatMap_append, nodup_append'] at nodup
    intro group before there
    exact nodup.2.2 (mem_flatMap.mpr ⟨group, before, there⟩) (by simp [ids])
  have zipped : (attentionGroups cfg).zipIdx = groups.zipIdx ++ [(last, groups.length)] := by
    rw [all, zipIdx_append]
    simp
  obtain ⟨⟨length, search⟩, searched, run⟩ := bind_eq_some_iff.mp run
  obtain ⟨hf, here, empty⟩ := searchLoop_last zipped (fun entry before => apart _ (fst_mem_of_mem_zipIdx before))
    (by rw [ids]; rfl) (.inl ⟨rfl, Nat.succ_ne_zero _⟩) searched
  cases run
  have nothing := none g hi
  obtain ⟨first, others, split⟩ : ∃ first others, groups = first :: others := by
    apply exists_cons_of_ne_nil
    rintro rfl
    simp [all] at several
  have notFirst := apart first (by simp [split])
  simp only [all, split, cons_append, head?_cons, notFirst, and_false, if_false, here] at nothing
  exact empty nothing

variable (valid : cfg.Valid) (run : coordinatorHit cfg pool hashes maxLength = some (blocks, hitLength))

include valid run

theorem hitsAt_coordinatorHit (g : Nat) : HitsAt pool (groupHashes cfg hashes g) g (blocks g) := by
  unfold coordinatorHit at run
  split at run
  · cases run
    exact HitsAt.nil
  rename_i caching
  split at run
  · rename_i one
    obtain ⟨rows, hf, run⟩ := bind_eq_some_iff.mp run
    cases run
    simp only []
    split
    · rename_i first
      subst first
      have hs : groupHashes cfg hashes 0 = hashes := if_pos (valid.unitary (by simpa using caching) one)
      rw [hs]
      exact hitsAt_findLongestCacheHit hf rfl
    · exact HitsAt.nil
  · exact hitsAt_hybridHit run g

theorem coordinatorHit_nil (none : ∀ g < cfg.numGroups, blocks g = []) : hitLength = 0 := by
  unfold coordinatorHit at run
  split at run
  · cases run
    rfl
  rename_i caching
  split at run
  · rename_i one
    obtain ⟨rows, hf, run⟩ := bind_eq_some_iff.mp run
    cases run
    have nothing := none 0 (one ▸ Nat.one_pos)
    rw [rows_eq_nil_of_column hf Nat.one_pos nothing, length_nil, Nat.zero_mul]
  · rename_i notOne
    exact hybridHit_nil (valid.hybrid (by simpa using caching) notOne) run none

end

end KVOffload.Core
