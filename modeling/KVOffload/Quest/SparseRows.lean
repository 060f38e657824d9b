import KVOffload.Lib.Purge
import KVOffload.Quest.BlockSummary
import KVOffload.Quest.Kvshare

/-!
# What the sparse decode attends

`quest_selection_torch`, and the rows that `run_sparse_decode` hands to `flash_attn_with_kvcache`.
-/

namespace KVOffload.Quest

open List KVBlock

/-- `torch.topk(scores, k, sorted=False)[1]`: `k` different indices. Which ones plays no part in what follows. -/
structure TorchTopK (F : Type) where
  indices : List F → Nat → List Nat
  nodup : ∀ scores k, (indices scores k).Nodup
  length : ∀ scores k, k ≤ scores.length → (indices scores k).length = k
  below : ∀ scores k, ∀ i ∈ indices scores k, i < scores.length

variable {n : Nat} {k : Nat}

section

variable {F C G : Type} [Field F] [LinearOrder F] [Fintype C] [Fintype G] {S : Type}

/-- The score of a block: for each query head of a group and each channel, the larger product with the two endpoints. -/
def questScore (query : G → C → F) (summary : (C → F) × (C → F)) : F :=
  ∑ c, ∑ g, max (query g c * summary.1 c) (query g c * summary.2 c)

inductive SelectionError where
  /-- `top_k ({top_k}) > num_candidates ({num_candidates})`. -/
  | tooFewCandidates (topK numCandidates : Nat)
  deriving DecidableEq, Repr

def questSelectionTorch (topk : TorchTopK F) (query : G → C → F) (blockSummary : Nat → (C → F) × (C → F))
    (candidateIds : List Nat) (topK : Nat) : Except SelectionError (List Nat) :=
  if topK > candidateIds.length then .error (.tooFewCandidates topK candidateIds.length)
  else
    let scores := candidateIds.map fun b => questScore query (blockSummary b)
    .ok ((topk.indices scores topK).map fun i => candidateIds.getD i 0)

/-- The call in `run_sparse_decode`: the candidates are the full blocks, and `top_k` has been cut to their number, so
that the error is never raised. -/
def questSelect (topk : TorchTopK F) (query : Request S → G → C → F) : Select S ((C → F) × (C → F)) :=
  fun r summary numFullBlocks topK =>
    match questSelectionTorch topk (query r) summary (range numFullBlocks) topK with
    | .ok ids => ids
    | .error _ => []

theorem questSelect_valid (topk : TorchTopK F) (query : Request S → G → C → F) (r : Request S)
    (summary : Nat → (C → F) × (C → F)) (few : k ≤ n) :
    ValidIds n k (questSelect topk query r summary n k) ∧ (questSelect topk query r summary n k).length = k := by
  let scores := (range n).map fun b => questScore (query r) (summary b)
  have count : scores.length = n := by simp [scores]
  have hb : ∀ i ∈ topk.indices scores k, i < n := fun i hm => count ▸ topk.below scores k i hm
  have selected : questSelect topk query r summary n k = topk.indices scores k := by
    unfold questSelect questSelectionTorch
    rw [if_neg (by simpa using few)]
    refine map_congr_left (fun i hm => ?_) |>.trans (map_id _)
    simp [hb i hm]
  rw [selected]
  have length := topk.length scores k (count ▸ few)
  exact ⟨⟨topk.nodup scores k, hb, length.le⟩, length⟩

end

section

variable {S D R : Type} {bs : Nat}

def KVBlock.rows (block : KVBlock bs R) : List (R × R) := ofFn fun i => (block.k i, block.v i)

def Gathered.cacheSeqlens (g : Gathered S D bs R) : Nat :=
  let residual := if g.request.seqLen % bs ≠ 0 then g.request.seqLen % bs else 0
  g.topIds.length * bs + residual

/-- What `flash_attn_with_kvcache` reads: `block_table` is the list of gathered slots. -/
def Gathered.kernelRows (g : Gathered S D bs R) : List (R × R) := (g.content.flatMap rows).take g.cacheSeqlens

def attendedTokens (bs : Nat) (ids : List Nat) (seqLen : Nat) : List Nat :=
  ids.flatMap (fun b => range' (b * bs) bs) ++ range' (seqLen / bs * bs) (seqLen % bs)

theorem mem_blockTokens {b t : Nat} (size : 0 < bs) : t ∈ range' (b * bs) bs ↔ t / bs = b := by
  rw [mem_range'_1, Nat.div_eq_iff size]
  omega

variable {ids : List Nat} {key value : Nat → R} {content : Nat → KVBlock bs R}

theorem mem_attendedTokens {t : Nat} (size : 0 < bs) :
    t ∈ attendedTokens bs ids n ↔ t / bs ∈ ids ∨ n / bs * bs ≤ t ∧ t < n := by
  have split := Nat.div_add_mod' n bs
  simp only [attendedTokens, mem_append, mem_flatMap, mem_blockTokens size, exists_eq_right', mem_range'_1, split]

theorem nodup_attendedTokens (size : 0 < bs) (valid : ValidIds (n / bs) k ids) : (attendedTokens bs ids n).Nodup := by
  refine nodup_append'.mpr ⟨nodup_flatMap.mpr ⟨fun _ _ => nodup_range', ?_⟩, nodup_range', ?_⟩
  · refine valid.distinct.imp fun {b b'} differ t hi hi' => differ ?_
    rw [← (mem_blockTokens size).mp hi, (mem_blockTokens size).mp hi']
  · intro t hi last
    obtain ⟨b, hm, hw⟩ := mem_flatMap.mp hi
    have hb := valid.below b hm
    rw [← (mem_blockTokens size).mp hw, Nat.div_lt_iff_lt_mul size] at hb
    have := (mem_range'_1.mp last).1
    omega

theorem lt_of_mem_attendedTokens {k t : Nat} (size : 0 < bs) (valid : ValidIds (n / bs) k ids)
    (hm : t ∈ attendedTokens bs ids n) : t < n := by
  rcases (mem_attendedTokens size).mp hm with full | last
  · have hb := valid.below _ full
    rw [Nat.div_lt_iff_lt_mul size] at hb
    exact hb.trans_le (Nat.div_mul_le_self n bs)
  · exact last.2

theorem getLast?_attendedTokens (rest : n % bs ≠ 0) : (attendedTokens bs ids n).getLast? = some (n - 1) := by
  have split := Nat.div_add_mod' n bs
  obtain ⟨m, rows⟩ := Nat.exists_eq_succ_of_ne_zero rest
  rw [attendedTokens, rows, range'_concat, ← append_assoc, getLast?_concat]
  congr 1
  omega

theorem attendedTokens_perm (size : 0 < bs) (valid : ValidIds (n / bs) (n / bs) ids)
    (all : ids.length = n / bs) : (attendedTokens bs ids n).Perm (range n) := by
  have blocks : ids.Perm (range (n / bs)) := by
    refine (valid.distinct.subperm fun b hm => mem_range.mpr (valid.below b hm)).perm_of_length_le ?_
    rw [length_range, all]
  refine (perm_ext_iff_of_nodup (nodup_attendedTokens size valid) nodup_range).mpr fun t => ?_
  have split := Nat.div_add_mod' n bs
  rw [mem_attendedTokens size, blocks.mem_iff, mem_range, mem_range, Nat.div_lt_iff_lt_mul size]
  omega

theorem RowsUpTo.rows_take {b m : Nat} {block : KVBlock bs R} (own : RowsUpTo key value n b block)
    (hw : b * bs + m ≤ n) (small : m ≤ bs) :
    block.rows.take m = (range' (b * bs) m).map fun t => (key t, value t) := by
  refine ext_getElem (by simp [rows, small]) fun i hb _ => ?_
  have row : i < m := by
    rw [length_take] at hb
    omega
  obtain ⟨k, v⟩ := own ⟨i, by omega⟩ (by simp only; omega)
  simp [rows, k, v]

theorem flatMap_rows (size : 0 < bs)
    (hb : ∀ b ∈ ids, b < n / bs) (own : ∀ b ∈ ids, RowsUpTo key value n b (content b)) :
    (ids.map content).flatMap rows = (ids.flatMap fun b => range' (b * bs) bs).map fun t => (key t, value t) := by
  rw [flatMap_map, map_flatMap]
  refine flatMap_congr fun b hm => ?_
  have whole := hb b hm
  rw [← Nat.succ_le_iff, Nat.le_div_iff_mul_le size, Nat.succ_mul] at whole
  rw [← (own b hm).rows_take whole (Nat.le_refl bs), take_of_length_le (by simp [rows])]

variable {r : Request S}

theorem Served.kernelRows_eq {topK k : Nat} {select : Select S D} {summary : Nat → D}
    {g : Gathered S D bs R} (served : Served topK select content summary r g)
    (size : 0 < bs) (valid : ValidIds (r.seqLen / bs) k g.topIds)
    (own : ∀ b ∈ g.blocks, RowsUpTo key value r.seqLen b (content b)) :
    g.kernelRows = (attendedTokens bs g.topIds r.seqLen).map fun t => (key t, value t) := by
  have blocks : g.blocks = g.topIds ++ liveBlocks bs r.seqLen := by rw [served.blocks, served.chosen]
  rw [blocks] at own
  have full : ((g.topIds.map content).flatMap rows).length = g.topIds.length * bs := by
    simp [rows, Function.comp_def]
  have length : g.cacheSeqlens = ((g.topIds.map content).flatMap rows).length + r.seqLen % bs := by
    rw [full, Gathered.cacheSeqlens, served.request]
    by_cases boundary : r.seqLen % bs = 0 <;> simp [boundary]
  unfold Gathered.kernelRows attendedTokens
  rw [length, served.content, blocks, map_append, flatMap_append, take_length_add_append, map_append,
    flatMap_rows size valid.below fun b hm => own b (mem_append_left _ hm)]
  congr 1
  by_cases boundary : r.seqLen % bs = 0
  · simp [boundary]
  · have trailing : liveBlocks bs r.seqLen = [r.seqLen / bs] := if_neg boundary
    have split := Nat.div_add_mod' r.seqLen bs
    rw [trailing, map_singleton, flatMap_singleton]
    exact (own _ (mem_append_right _ (by rw [trailing]; exact mem_singleton_self _))).rows_take split.le
      (Nat.mod_lt _ size).le

end

section

variable {S F C G : Type} [Field F] {bs : Nat}

def attention (weight : (C → F) → F) (rows : List ((C → F) × (C → F))) (c : C) : F :=
  (rows.map fun row => weight row.1 * row.2 c).sum / (rows.map fun row => weight row.1).sum

/-- The kernel is given these tokens of the request, each once: those of the selected blocks and of the trailing
block, the newest token last. If `top_k` covers all full blocks, the output is that of dense attention. -/
structure AttendsIntended (topK : Nat) (key value : Nat → C → F) (r : Request S)
    (g : Gathered S ((C → F) × (C → F)) bs (C → F)) (tokens : List Nat) : Prop where
  rows : g.kernelRows = tokens.map fun t => (key t, value t)
  once : tokens.Nodup
  covered : ∀ t, t ∈ tokens ↔ t / bs ∈ g.topIds ∨ r.seqLen / bs * bs ≤ t ∧ t < r.seqLen
  written : ∀ t ∈ tokens, t < r.seqLen
  last : r.seqLen % bs ≠ 0 → tokens.getLast? = some (r.seqLen - 1)
  all : r.seqLen / bs ≤ topK → tokens.Perm (range r.seqLen)
  dense : r.seqLen / bs ≤ topK → ∀ weight : (C → F) → F,
    attention weight g.kernelRows = attention weight ((range r.seqLen).map fun t => (key t, value t))

theorem Served.attends {topK : Nat} {select : Select S ((C → F) × (C → F))} {summary : Nat → (C → F) × (C → F)}
    {content : Nat → KVBlock bs (C → F)} {key value : Nat → C → F}
    {g : Gathered S ((C → F) × (C → F)) bs (C → F)} (served : Served topK select content summary r g) (size : 0 < bs)
    (valid : ValidIds (r.seqLen / bs) (min topK (r.seqLen / bs)) g.topIds) (count : g.topIds.length = min topK (r.seqLen / bs))
    (own : ∀ b ∈ g.blocks, RowsUpTo key value r.seqLen b (content b)) :
    AttendsIntended topK key value r g (attendedTokens bs g.topIds r.seqLen) := by
  have rows := served.kernelRows_eq size valid own
  have all : r.seqLen / bs ≤ topK → (attendedTokens bs g.topIds r.seqLen).Perm (range r.seqLen) := by
    intro enough
    rw [min_eq_right enough] at valid count
    exact attendedTokens_perm size valid count
  refine ⟨rows, nodup_attendedTokens size valid, fun t => mem_attendedTokens size,
    fun t hm => lt_of_mem_attendedTokens size valid hm, getLast?_attendedTokens, all, fun enough weight => ?_⟩
  rw [rows]
  funext c
  unfold attention
  rw [(((all enough).map _).map _).sum_eq, (((all enough).map _).map _).sum_eq]

variable [DecidableEq S] [LinearOrder F] [Fintype C] [Fintype G]

def threeSlots : TierConfig 2 (Unit → ℚ) ((Unit → ℚ) × (Unit → ℚ)) where
  layerIdx := 0
  gpuBudget := 3
  cpuBlocks := 4
  digest := digestOf .questMinmax

def numbered (_ : Nat) (t : Nat) : Unit → ℚ := fun _ => t

def firstIndices : TorchTopK ℚ where
  indices scores k := range (min k scores.length)
  nodup _ _ := nodup_range
  length _ _ few := by rw [length_range, min_eq_left few]
  below _ _ _ member := (mem_range.mp member).trans_le (min_le_right _ _)

def fiveTokens : TierManager Nat ((Unit → ℚ) × (Unit → ℚ)) (Memory 2 (Unit → ℚ)) :=
  finalState (do
    let _ ← onBlockFilled threeSlots 0 0 (blockAt (numbered 0) (numbered 0) 0)
    let _ ← onBlockFilled threeSlots 0 1 (blockAt (numbered 0) (numbered 0) 2)
    let _ ← writeLiveBlock threeSlots 0 2 (blockAt (numbered 0) (numbered 0) 4))
    (TierManager.init threeSlots Memory.zero fun _ => (0, 0))

end

end KVOffload.Quest
