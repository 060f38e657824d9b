import KVOffload.Quest.SparseRows

/-!
# Scores of blocks

What the score of `quest_selection_torch` bounds, and the kernels that compute it: `quest_score_kernel` of
`csrc/quest/quest_selection.cu` and `_quest_score_kernel` of `quest_selection_triton.py`. Sums and products are exact.
-/

namespace KVOffload.Quest

open Finset

section

variable {F : Type} [Field F] [LinearOrder F] {bs H G D : Nat}

/-- `query.view(H_kv, G, D)` -/
def viewQuery (query : Fin (H * G) → Fin D → F) : Fin G → Fin H × Fin D → F := fun g c => query (finProdFinEquiv (c.1, g)) c.2

/-- The sum over the query heads of `q_head . k_token`; a head reads the KV head of its group. -/
def attentionScore (query : Fin (H * G) → Fin D → F) (k : Fin H × Fin D → F) : F :=
  ∑ head, ∑ d, query head d * k (head.divNat, d)

omit [LinearOrder F] in
theorem attentionScore_eq (query : Fin (H * G) → Fin D → F) (k : Fin H × Fin D → F) :
    attentionScore query k = ∑ c, ∑ g, viewQuery query g c * k c := by
  rw [attentionScore, ← finProdFinEquiv.sum_comp, Fintype.sum_prod_type, Fintype.sum_prod_type]
  refine sum_congr rfl fun h _ => ?_
  rw [sum_comm]
  refine sum_congr rfl fun d _ => sum_congr rfl fun g _ => ?_
  have head : (finProdFinEquiv (h, g)).divNat = h := congrArg Prod.fst (finProdFinEquiv.symm_apply_apply (h, g))
  rw [viewQuery, head]

variable [IsStrictOrderedRing F]

theorem mul_le_max {q x lo hi : F} (above : lo ≤ x) (below : x ≤ hi) : q * x ≤ max (q * hi) (q * lo) := by
  rcases le_total 0 q with sign | sign
  · exact le_max_of_le_left (mul_le_mul_of_nonneg_left below sign)
  · exact le_max_of_le_right (mul_le_mul_of_nonpos_left above sign)

variable [NeZero bs]

theorem arkvale_within {C : Type} (k : Fin bs → C → F) (c : C) :
    (digestOf .arkvaleCuboidMean k).2 c ≤ (digestOf .arkvaleCuboidMean k).1 c ∧
      amin (k · c) ≤ (digestOf .arkvaleCuboidMean k).2 c ∧ (digestOf .arkvaleCuboidMean k).1 c ≤ amax (k · c) := by
  simp only [digestOf]
  generalize middle : (amax (k · c) + amin (k · c)) / 2 = center
  have size : (0 : F) < bs := Nat.cast_pos.mpr (Nat.pos_of_neZero bs)
  have radius : 0 ≤ (∑ i, |k i c - center|) / bs := div_nonneg (sum_nonneg fun i _ => abs_nonneg _) size.le
  have half : (∑ i, |k i c - center|) / bs ≤ (amax (k · c) - amin (k · c)) / 2 := by
    rw [div_le_iff₀ size]
    have each : ∀ i ∈ univ, |k i c - center| ≤ (amax (k · c) - amin (k · c)) / 2 := fun i _ => by
      have above := le_amax (k := (k · c)) i
      have below := amin_le (k := (k · c)) i
      rw [abs_le]
      constructor <;> linarith
    have total := sum_le_card_nsmul univ _ _ each
    rw [card_univ, Fintype.card_fin, nsmul_eq_mul] at total
    linarith
  refine ⟨?_, ?_, ?_⟩ <;> linarith

/-- The score of the extremes is at least that of every token of the block; the other summary lies between the extremes, and
its score is not larger. -/
theorem quest_score_bounds (k : Fin bs → Fin H × Fin D → F) (query : Fin (H * G) → Fin D → F) :
    (∀ token, attentionScore query (k token) ≤ questScore (viewQuery query) (digestOf .questMinmax k)) ∧
      (∀ c, (digestOf .arkvaleCuboidMean k).2 c ≤ (digestOf .arkvaleCuboidMean k).1 c ∧
        amin (k · c) ≤ (digestOf .arkvaleCuboidMean k).2 c ∧ (digestOf .arkvaleCuboidMean k).1 c ≤ amax (k · c)) ∧
      questScore (viewQuery query) (digestOf .arkvaleCuboidMean k) ≤ questScore (viewQuery query) (digestOf .questMinmax k) := by
  refine ⟨fun token => ?_, arkvale_within k, ?_⟩
  · rw [attentionScore_eq]
    exact Finset.sum_le_sum fun c _ => Finset.sum_le_sum fun g _ => mul_le_max (amin_le token) (le_amax (k := (k · c)) token)
  · refine Finset.sum_le_sum fun c _ => Finset.sum_le_sum fun g _ => ?_
    obtain ⟨order, above, below⟩ := arkvale_within k c
    exact max_le (mul_le_max (above.trans order) below) (mul_le_max above (order.trans below))

theorem quest_score_bounds_two_tokens : let k : Fin 2 → Fin 1 × Fin 1 → ℚ := ![fun _ => 1, fun _ => 3]
    attentionScore (G := 1) (fun _ _ => -1) (k 1) ≤ questScore (viewQuery (G := 1) fun _ _ => -1) (digestOf .questMinmax k) :=
  (quest_score_bounds _ _).1 1

end

/-! ### The kernels -/

/-- Shapes and strides of the query `[H_kv * G, D]` and of the summary `[blocks, 2, H_kv, D]`. -/
structure ScoreLayout where
  numKvHeads : Nat
  numKvGroups : Nat
  headSize : Nat
  qStrideH : Nat
  qStrideD : Nat
  sStrideB : Nat
  sStride2 : Nat
  sStrideH : Nat
  sStrideD : Nat

namespace ScoreLayout

variable {F : Type} [Field F] [LinearOrder F] (l : ScoreLayout)

def queryTerms (h g d : Nat) : List (Nat × Nat) := [(h * l.numKvGroups + g, l.qStrideH), (d, l.qStrideD)]

def summaryTerms (block half h d : Nat) : List (Nat × Nat) :=
  [(block, l.sStrideB), (half, l.sStride2), (h, l.sStrideH), (d, l.sStrideD)]

def offset (terms : List (Nat × Nat)) : Int := ((terms.map fun t => t.1 * t.2).sum : Nat)

def offset32 (terms : List (Nat × Nat)) : Int32 := (terms.map fun t => Int32.ofNat t.1 * Int32.ofNat t.2).sum

/-- An integer of a Triton kernel, with 64 bits or else 32. -/
structure TritonInt where
  wide : Bool
  value : Int

namespace TritonInt

def of (wide : Bool) (value : Int) : TritonInt := ⟨wide, if wide then value else value.bmod (2 ^ 32)⟩

/-- A stride that does not fit into 32 bits is passed with 64 bits, and what is multiplied with it is widened. -/
def term (t : Nat × Nat) : TritonInt := of (2 ^ 31 ≤ t.2) (t.1 * t.2)

def add (x y : TritonInt) : TritonInt := of (x.wide || y.wide) (x.value + y.value)

end TritonInt

def offsetTriton (terms : List (Nat × Nat)) : Int := (terms.foldl (fun x t => TritonInt.add x (.term t)) ⟨false, 0⟩).value

section

variable (address : List (Nat × Nat) → Int) (query summary : Int → F)

def elem (block h g d : Nat) : F :=
  let q := query (address (l.queryTerms h g d))
  max (q * summary (address (l.summaryTerms block 0 h d))) (q * summary (address (l.summaryTerms block 1 h d)))

def total (block : Nat) : F :=
  ∑ d ∈ range l.headSize, ∑ h ∈ range l.numKvHeads, ∑ g ∈ range l.numKvGroups, l.elem address query summary block h g d

end

variable (query summary : Int → F) (block : Nat) {terms : List (Nat × Nat)}

/-- `quest_selection_torch` for one candidate, on the tensors that the memory holds. -/
def torchScore : F :=
  questScore (fun (g : Fin l.numKvGroups) (c : Fin l.numKvHeads × Fin l.headSize) => query (offset (l.queryTerms c.1 g c.2)))
    (fun c => summary (offset (l.summaryTerms block 0 c.1 c.2)), fun c => summary (offset (l.summaryTerms block 1 c.1 c.2)))

/-- The accumulator is a vector over the head size, summed at the end. -/
def tritonScore : F := l.total offsetTriton query summary block

/-- `__shfl_down_sync`: a lane without a partner keeps its value. -/
def shflDown (offset : Nat) (v : Nat → F) (lane : Nat) : F := if lane + offset < 32 then v (lane + offset) else v lane

def warpReduce (v : Nat → F) : Nat → F := [16, 8, 4, 2, 1].foldl (fun v offset lane => v lane + shflDown offset v lane) v

/-- The accumulator of a thread: `d` goes from `tid` on in steps of the 128 threads. -/
def threadScore (tid : Nat) : F :=
  ∑ h ∈ range l.numKvHeads, ∑ g ∈ range l.numKvGroups, ∑ d ∈ range l.headSize with d % 128 = tid,
    l.elem (fun terms => (offset32 terms).toInt) query summary block h g d

def cudaScore : F :=
  let sbuf (warp : Nat) : F := warpReduce (fun lane => l.threadScore query summary block (32 * warp + lane)) 0
  warpReduce (fun lane => if lane < 4 then sbuf lane else 0) 0

omit [LinearOrder F] in
theorem warpReduce_zero (v : Nat → F) : warpReduce v 0 = ∑ lane ∈ range 32, v lane := by
  simp only [warpReduce, shflDown, List.foldl_cons, List.foldl_nil, sum_range_succ, range_zero, sum_empty]
  simp only [Nat.reduceAdd, Nat.reduceLT, if_true]
  abel

theorem torchScore_eq : l.torchScore query summary block = l.total offset query summary block := by
  rw [torchScore, questScore, Fintype.sum_prod_type, sum_comm, total, Finset.sum_range]
  refine sum_congr rfl fun d _ => ?_
  rw [Finset.sum_range]
  refine sum_congr rfl fun h _ => ?_
  rw [Finset.sum_range]
  rfl

theorem cudaScore_eq : l.cudaScore query summary block = l.total (fun terms => (offset32 terms).toInt) query summary block := by
  have thread : ∀ tid, l.threadScore query summary block tid = ∑ d ∈ range l.headSize with d % 128 = tid,
      ∑ h ∈ range l.numKvHeads, ∑ g ∈ range l.numKvGroups, l.elem (fun terms => (offset32 terms).toInt) query summary block h g d :=
    fun tid => (sum_congr rfl fun h _ => sum_comm).trans sum_comm
  have warps : (range 32).filter (· < 4) = range 4 := by decide
  have threads (v : Nat → F) : ∑ warp ∈ range 4, ∑ lane ∈ range 32, v (32 * warp + lane) = ∑ tid ∈ range 128, v tid := by
    rw [show 128 = 32 + 32 + 32 + 32 from rfl, sum_range_add, sum_range_add, sum_range_add]
    simp only [sum_range_succ _ 3, sum_range_succ _ 2, sum_range_succ _ 1, sum_range_one, mul_zero, zero_add, Nat.reduceAdd]
  simp only [cudaScore, warpReduce_zero, ← sum_filter, warps]
  rw [threads, sum_congr rfl fun tid _ => thread tid]
  exact sum_fiberwise_of_maps_to (fun d _ => mem_range.2 (Nat.mod_lt d (by decide))) _

/-- Every element that the score of the block reads lies below `2 ^ 31`. -/
def Within : Prop := ∀ h < l.numKvHeads, ∀ g < l.numKvGroups, ∀ d < l.headSize,
  offset (l.queryTerms h g d) < 2 ^ 31 ∧ ∀ half < 2, offset (l.summaryTerms block half h d) < 2 ^ 31

theorem offset32_eq (terms : List (Nat × Nat)) : (offset32 terms).toInt = (offset terms).bmod (2 ^ 32) := by
  induction terms with
  | nil => rfl
  | cons t rest ih =>
    have parts : offset (t :: rest) = t.1 * t.2 + offset rest := by simp [offset]
    have head : (Int32.ofNat t.1 * Int32.ofNat t.2).toInt = ((t.1 : Int) * t.2).bmod (2 ^ 32) := by
      simp
    rw [offset32, List.map_cons, List.sum_cons, Int32.toInt_add, ← offset32, ih, parts]
    simp

theorem offset32_of_lt (small : offset terms < 2 ^ 31) : (offset32 terms).toInt = offset terms := by
  rw [offset32_eq]
  have positive : 0 ≤ offset terms := Int.natCast_nonneg _
  exact Int.bmod_eq_of_le (by omega) (by omega)

theorem offsetTriton_of_lt (small : offset terms < 2 ^ 31) : offsetTriton terms = offset terms := by
  have run : ∀ terms x, 0 ≤ x.value → x.value + offset terms < 2 ^ 31 →
      (terms.foldl (fun x t => TritonInt.add x (.term t)) x).value = x.value + offset terms := by
    intro terms
    induction terms with
    | nil => simp [offset]
    | cons t rest ih =>
      intro x positive below
      have parts : offset (t :: rest) = t.1 * t.2 + offset rest := by simp [offset]
      have tail : 0 ≤ offset rest := Int.natCast_nonneg _
      have term : 0 ≤ (t.1 * t.2 : Int) := by positivity
      have narrow : ∀ wide v, 0 ≤ v → v < 2 ^ 31 → (TritonInt.of wide v).value = v := by
        intro wide v low high
        cases wide
        · exact Int.bmod_eq_of_le (by omega) (by omega)
        · rfl
      have sum : (x.add (.term t)).value = x.value + t.1 * t.2 := by
        have product : (TritonInt.term t).value = t.1 * t.2 := narrow _ _ term (by omega)
        rw [TritonInt.add, product]
        exact narrow _ _ (by omega) (by omega)
      rw [List.foldl_cons, ih _ (by omega) (by omega), sum, parts, add_assoc]
  exact (run terms ⟨false, 0⟩ le_rfl (by simpa using small)).trans (zero_add _)

theorem total_of_within {address : List (Nat × Nat) → Int} (within : l.Within block)
    (same : ∀ {terms}, offset terms < 2 ^ 31 → address terms = offset terms) :
    l.total address query summary block = l.total offset query summary block := by
  refine sum_congr rfl fun d hd => sum_congr rfl fun h hh => sum_congr rfl fun g hg => ?_
  obtain ⟨ofQuery, ofSummary⟩ := within h (mem_range.1 hh) g (mem_range.1 hg) d (mem_range.1 hd)
  rw [elem, same ofQuery, same (ofSummary 0 (by decide)), same (ofSummary 1 (by decide))]
  rfl

/-- Memory in which the elements from `2 ^ 31` on stand out. -/
def high (x : Int) : ℚ := if x < 2 ^ 31 then 0 else 1

theorem within_of_cuda (same : ∀ query summary : Int → ℚ, l.cudaScore query summary block = l.torchScore query summary block) :
    l.Within block := by
  have low : ∀ terms, high (offset32 terms).toInt = 0 := fun terms => if_pos (Int32.toInt_lt _)
  have nonneg : ∀ x, 0 ≤ high x := fun x => by unfold high; split <;> simp
  -- torch sees only zeros where `int` addresses do
  have zero : ∀ query summary : Int → ℚ, (∀ x, 0 ≤ query x) → (∀ x, 0 ≤ summary x) →
      l.total (fun terms => (offset32 terms).toInt) query summary block = 0 →
      ∀ h < l.numKvHeads, ∀ g < l.numKvGroups, ∀ d < l.headSize, l.elem offset query summary block h g d = 0 := by
    intro query summary ofQuery ofSummary none h hh g hg d hd
    have all := same query summary
    rw [cudaScore_eq, torchScore_eq, none] at all
    have positive : ∀ h g d, 0 ≤ l.elem offset query summary block h g d := fun h g d =>
      le_max_of_le_left (mul_nonneg (ofQuery _) (ofSummary _))
    have first := (sum_eq_zero_iff_of_nonneg fun d _ => sum_nonneg fun h _ => sum_nonneg fun g _ => positive h g d).1 all.symm d
      (mem_range.2 hd)
    have second := (sum_eq_zero_iff_of_nonneg fun h _ => sum_nonneg fun g _ => positive h g d).1 first h (mem_range.2 hh)
    exact (sum_eq_zero_iff_of_nonneg fun g _ => positive h g d).1 second g (mem_range.2 hg)
  have below : ∀ x, high x = 0 → x < 2 ^ 31 := by
    intro x hx
    by_contra above
    exact one_ne_zero ((if_neg above).symm.trans hx)
  intro h hh g hg d hd
  have ofQuery := zero high (fun _ => 1) nonneg (fun _ => zero_le_one) (by simp [total, elem, low]) h hh g hg d hd
  have ofSummary := zero (fun _ => 1) high (fun _ => zero_le_one) nonneg (by simp [total, elem, low]) h hh g hg d hd
  simp only [elem, mul_one, one_mul, max_self] at ofQuery ofSummary
  refine ⟨below _ ofQuery, fun half two => below _ (le_antisymm ?_ (nonneg _))⟩
  rw [← ofSummary]
  interval_cases half
  · exact le_max_left _ _
  · exact le_max_right _ _

/-- The kernels score a block as torch does, on every memory, exactly when all elements it reads lie below `2 ^ 31`. -/
theorem kernels_score_as_torch : (∀ query summary : Int → ℚ, l.cudaScore query summary block = l.torchScore query summary block ∧
    l.tritonScore query summary block = l.torchScore query summary block) ↔ l.Within block := by
  refine ⟨fun same => l.within_of_cuda block fun query summary => (same query summary).1, fun within query summary => ?_⟩
  rw [cudaScore_eq, torchScore_eq]
  exact ⟨l.total_of_within query summary block within offset32_of_lt, l.total_of_within query summary block within offsetTriton_of_lt⟩

/-- Eight heads of size 128: the summary of block `2 ^ 20` starts at `2 ^ 31`. -/
theorem kernel_misreads_block : ¬ ∀ query summary : Int → ℚ, cudaScore ⟨8, 1, 128, 128, 1, 2048, 1024, 128, 1⟩ query summary (2 ^ 20) =
    torchScore ⟨8, 1, 128, 128, 1, 2048, 1024, 128, 1⟩ query summary (2 ^ 20) := by
  intro same
  have within := within_of_cuda _ _ same 0 (by decide) 0 (by decide) 0 (by decide)
  exact absurd (within.2 0 (by decide)) (by decide)

end ScoreLayout

end KVOffload.Quest
