import KVOffload.Quest.Kvshare
import KVOffload.Quest.DecodeRun

/-!
# One request in the shared-scratch mode

A token reaches the tiers on two paths: the prefill of at least two tokens, and the sparse decode.
-/

namespace KVOffload.Quest

open List

variable {S D M R : Type} {bs : Nat}

/-- What was gathered for a request is made of its own tokens: each row that is read holds the token of its position,
and each full block was scored by the digest of its own keys. -/
structure Faithful (cfg : TierConfig bs R D) (key value : Nat → R) (g : Gathered S D bs R) : Prop where
  rows : List.Forall₂ (RowsUpTo key value g.request.seqLen) g.blocks g.content
  scored : g.scored = (List.range (g.request.seqLen / bs)).map fun b => cfg.digest (blockAt key value (b * bs) : KVBlock bs R).k

def tokenPass (seq : S) (key value : Nat → R) (scratch : Nat → KVBlock bs R) (table : Nat → Nat) (select : Select S D)
    (before after : Nat) : Pass S D bs R where
  batch := [{ seqId := seq, seqLen := after, queryStart := 0, queryEnd := after - before, blockTable := table }]
  engine := scratch
  select := select
  key i := key (before + i)
  value i := value (before + i)

variable [DecidableEq S]

def kvshareRun [ReadableMemory M bs R] (cfg : TierConfig bs R D) (topK : Nat) (pass : Nat → Nat → Pass S D bs R)
    (len steps : Nat) : TierM S D M (List (Gathered S D bs R)) := do
  let first ← forward cfg topK true (pass 0 len)
  let rest ← (List.range steps).mapM fun i => forward cfg topK true (pass (len + i) (len + i + 1))
  pure (first ++ rest.flatten)

variable {cfg : TierConfig bs R D} {seq : S} {key value : Nat → R} {n : Nat} {s : TierManager S D (Memory bs R)}

variable (key value n s) in
def readBlock (k : S × Nat) : KVBlock bs R :=
  if k.2 < n / bs then tokenBlocks key value k else ((s.slotMap.slot? k).map s.mem.arena).getD (tokenBlocks key value k)

theorem Ingested.rows_readBlock (ingested : Ingested cfg seq key value n s) {b : Nat}
    (known : b < n / bs ∨ b ∈ liveBlocks bs n) : RowsUpTo key value n b (readBlock key value n s (seq, b)) := by
  by_cases full : b < n / bs
  · simp only [readBlock, full]
    exact fun i _ => ⟨rfl, rfl⟩
  · obtain ⟨slot, held, rows⟩ := ingested.trailing b (known.resolve_left full)
    simpa [readBlock, full, held] using rows

theorem decodeRequest_ingested {r : Request S} {topK : Nat} {select : Select S D}
    (ingested : Ingested cfg r.seqId key value r.seqLen s)
    (valid : ValidIds (r.seqLen / bs) (cfg.gpuBudget - 1)
      (select r s.summary (r.seqLen / bs) (min topK (r.seqLen / bs)))) (hp : 0 < cfg.gpuBudget) :
    wp (decodeRequest cfg topK select r) (fun g t => Ingested cfg r.seqId key value r.seqLen t ∧ Faithful cfg key value g)
      (fun e _ => Exhausted cfg (blocksOf r.seqId (r.seqLen / bs)) e) s := by
  have full : ∀ k ∈ blocksOf r.seqId (r.seqLen / bs), readBlock key value r.seqLen s k = tokenBlocks key value k :=
    fun k hm => if_pos hm.2
  have hc := ingested.coherent.widen (Set.Subset.refl _) (fun _ _ => Iff.rfl) (fun _ _ => .inr) (fun k hm _ => full k hm)
  have liveHere : Readable r.seqId (liveBlocks bs r.seqLen) (readBlock key value r.seqLen s) s := by
    intro b trailing
    obtain ⟨slot, held, _⟩ := ingested.trailing b trailing
    have partly : ¬ b < r.seqLen / bs := by
      rw [eq_div_of_mem_liveBlocks trailing]
      exact lt_irrefl _
    exact ⟨slot, held, by simp [readBlock, partly, held]⟩
  refine wp_imp (decodeRequest_coherent ingested.books hc valid hp
    (fun k hm => ⟨k.2, hm.2, Prod.ext hm.1 rfl⟩) liveHere (ingested.plain _)) ?_
  rintro g t ⟨⟨books, hc', quiet, unmoved⟩, served⟩
  obtain ⟨active, plain⟩ := ingested.unchanged quiet.activeSeqs quiet.prevSelected
  refine ⟨⟨books, ?_, fun b trailing => ?_, fun b hb => ?_, active, plain⟩, ?_, ?_⟩
  · exact hc'.widen (Set.Subset.refl _) (fun _ _ => Iff.rfl) (fun _ _ => .inr) (fun k hm _ => (full k hm).symm)
  · obtain ⟨slot, held, filled⟩ := unmoved b trailing
    exact ⟨slot, held, filled ▸ ingested.rows_readBlock (.inr trailing)⟩
  · rw [quiet.summary]
    exact ingested.summary b hb
  · rw [served.content, forall₂_map_right_iff, forall₂_same, served.request, served.blocks]
    intro b hm
    refine ingested.rows_readBlock ((mem_append.mp hm).imp_left fun hi => valid.below b hi)
  · rw [served.scored, served.request]
    exact map_congr_left fun b hm => ingested.summary b (mem_range.mp hm)

section

variable {scratch : Nat → KVBlock bs R} {table : Nat → Nat} {select : Select S D} {topK before after : Nat}

variable (cfg select) in
def SelectsValid : Prop :=
  ∀ r summary k, ValidIds (r.seqLen / bs) (cfg.gpuBudget - 1) (select r summary (r.seqLen / bs) k)

omit [DecidableEq S] in
theorem takesDense_tokenPass :
    TakesDense bs (tokenPass seq key value scratch table select before after).batch ↔ 1 < after - before ∨ after < bs := by
  simp [TakesDense, tokenPass, maxQueryLen, Request.queryLen]

theorem forward_sparse_ingested (ingested : Ingested cfg seq key value n s) (long : bs ≤ n + 1)
    (valid : SelectsValid cfg select) (size : 0 < bs) (hp : 0 < cfg.gpuBudget) :
    wp (forward cfg topK true (tokenPass seq key value scratch table select n (n + 1)))
      (fun out t => Ingested cfg seq key value (n + 1) t ∧ ∀ g ∈ out, Faithful cfg key value g)
      (fun e _ => Exhausted cfg (blocksOf seq ((n + 1) / bs)) e) s := by
  unfold forward
  rw [if_neg (by rw [takesDense_tokenPass]; omega)]
  simp only [↓reduceIte, wp_bind, kvshareDecodeWrite]
  refine wp_releaseInactive_same (fun x hm => ?_) ?_
  · simp [activeIds, tokenPass, ingested.active x hm]
  have appended := appendDecodeTokenKvshare_ingested ingested.activate size hp
  simp only [activeIds, tokenPass, map_cons, map_nil, dedup_cons_of_notMem, not_mem_nil, not_false_eq_true, zipIdx_cons, zipIdx_nil, forM_cons, forM_nil, wp_bind, add_zero, wp_pure, runSparseDecode, mapM_cons, mapM_nil]
  refine wp_imp appended ?_
  intro _ t next
  refine wp_imp (decodeRequest_ingested next (valid ..) hp) ?_
  rintro g u ⟨kept, faithful⟩
  exact ⟨kept, by simpa using faithful⟩

theorem forward_prefill_ingested (ingested : Ingested cfg seq key value 0 s) (first : seq ∉ s.trimmed) (prompt : 2 ≤ n)
    (size : 0 < bs) (hp : 0 < cfg.gpuBudget) :
    wp (forward cfg topK true (tokenPass seq key value scratch table select 0 n))
      (fun out t => Ingested cfg seq key value n t ∧ out = [])
      (fun e _ => Exhausted cfg (blocksOf seq (n / bs)) e) s := by
  unfold forward
  have many : 1 < maxQueryLen (tokenPass seq key value scratch table select 0 n).batch := by
    simp [tokenPass, maxQueryLen, Request.queryLen]
    omega
  rw [if_pos (takesDense_tokenPass.mpr (.inl (by omega)))]
  simp only [many, and_self, ↓reduceIte, wp_bind, wp_pure]
  simp only [tokenPass, zero_add]
  exact wp_imp (kvsharePrefillOffload_ingested _ _ ingested first (by omega) size hp) (fun _ t h => ⟨h.1, trivial⟩)

theorem forward_short [ReadableMemory M bs R] (short : n + 1 < bs) :
    (forward cfg topK true (tokenPass seq key value scratch table select n (n + 1)) : TierM S D M _) = pure [] := by
  unfold forward
  rw [if_pos (takesDense_tokenPass.mpr (.inr short))]
  simp [tokenPass, maxQueryLen, Request.queryLen, notifyFilledBlocksAfterPrefill, show 1 < bs by omega]

section

variable (ingested : Ingested cfg seq key value 0 s) (first : seq ∉ s.trimmed) {len steps : Nat}

include ingested first

theorem forward_prompt_ingested (prompt : 1 ≤ n)
    (reached : 2 ≤ n ∨ bs = 1) (valid : SelectsValid cfg select) (size : 0 < bs) (hp : 0 < cfg.gpuBudget) :
    wp (forward cfg topK true (tokenPass seq key value scratch table select 0 n))
      (fun out t => Ingested cfg seq key value n t ∧ ∀ g ∈ out, Faithful cfg key value g)
      (fun e _ => Exhausted cfg (blocksOf seq (n / bs)) e) s := by
  rcases lt_or_ge n 2 with one | many
  · obtain rfl : n = 1 := by omega
    exact forward_sparse_ingested ingested (by omega) valid size hp
  · refine wp_imp (forward_prefill_ingested ingested first many size hp) ?_
    rintro out t ⟨kept, none⟩
    exact ⟨kept, by simp [none]⟩

theorem wp_kvshareRun
    (prompt : 1 ≤ len) (reached : bs = 1 ∨ 2 ≤ len ∧ bs ≤ len + 1) (valid : SelectsValid cfg select)
    (size : 0 < bs) (hp : 0 < cfg.gpuBudget) :
    wp (kvshareRun cfg topK (tokenPass seq key value scratch table select) len steps)
      (fun out t => Ingested cfg seq key value (len + steps) t ∧ ∀ g ∈ out, Faithful cfg key value g)
      (fun e _ => Exhausted cfg (blocksOf seq ((len + steps) / bs)) e) s := by
  unfold kvshareRun
  simp only [wp_bind]
  refine wp_mono (forward_prompt_ingested ingested first prompt (by omega) valid size hp) ?_
    (fun _ _ h => h.mono (blocksOf_mono (Nat.div_le_div_right (by omega))))
  rintro out t ⟨kept, faithful⟩
  refine wp_imp (wp_mapM_range (I := fun i t => Ingested cfg seq key value (len + i) t)
    (P := fun gs => ∀ g ∈ gs, Faithful cfg key value g) (fun i hb u next => ?_) kept) ?_
  · refine wp_mono (forward_sparse_ingested next (by omega) valid size hp) (fun _ _ h => h) (fun _ _ h => h.mono ?_)
    exact blocksOf_mono (Nat.div_le_div_right (by omega))
  · rintro rest u ⟨done, all⟩
    refine ⟨done, fun g hm => ?_⟩
    rcases mem_append.mp hm with early | late
    · exact faithful g early
    · obtain ⟨gs, hi, here⟩ := mem_flatten.mp late
      exact all gs hi g here

theorem wp_kvshareRun_short (prompt : 1 ≤ len) (short : len + steps < bs) (hp : 0 < cfg.gpuBudget) :
    wp (kvshareRun cfg topK (tokenPass seq key value scratch table select) len steps)
      (fun out _ => out = []) (fun e _ => Exhausted cfg (blocksOf seq ((len + steps) / bs)) e) s := by
  unfold kvshareRun
  simp only [wp_bind]
  have start : wp (forward cfg topK true (tokenPass seq key value scratch table select 0 len))
      (fun out _ => out = []) (fun e _ => Exhausted cfg (blocksOf seq ((len + steps) / bs)) e) s := by
    rcases lt_or_ge len 2 with one | many
    · obtain rfl : len = 1 := by omega
      rw [forward_short (by omega), wp_pure]
    · exact wp_mono (forward_prefill_ingested ingested first many (by omega) hp) (fun _ _ h => h.2)
        (fun _ _ h => h.mono (blocksOf_mono (Nat.div_le_div_right (by omega))))
  refine wp_imp start ?_
  rintro out t rfl
  refine wp_imp (wp_mapM_range (I := fun _ _ => True) (P := fun gs => gs = []) (fun i hb u _ => ?_) trivial) ?_
  · rw [forward_short (by omega)]
    exact ⟨trivial, rfl⟩
  · rintro rest u ⟨-, none⟩
    simpa using none

end

variable {key' value' : Nat → R}

theorem forward_tokenPass_congr [ReadableMemory M bs R] (computes : before < after)
    (keys : ∀ i, before ≤ i → i < after → key i = key' i) (values : ∀ i, before ≤ i → i < after → value i = value' i) :
    (forward cfg topK true (tokenPass seq key value scratch table select before after) : TierM S D M _) =
      forward cfg topK true (tokenPass seq key' value' scratch table select before after) := by
  rcases lt_or_ge (before + 1) after with many | one
  · have ingest : (prefillIngestKvshare cfg seq ((after - before) / bs) (fun i => key (before + i))
        (fun i => value (before + i)) (some (after - before)) : TierM S D M Unit) =
        prefillIngestKvshare cfg seq ((after - before) / bs) (fun i => key' (before + i)) (fun i => value' (before + i))
          (some (after - before)) :=
      prefillIngestKvshare_congr (fun i hb => keys _ (by omega) (by omega)) (fun i hb => values _ (by omega) (by omega))
    unfold forward
    rw [if_pos (takesDense_tokenPass.mpr (.inl (by omega))), if_pos (takesDense_tokenPass.mpr (.inl (by omega)))]
    simp only [tokenPass, maxQueryLen, Request.queryLen, map_cons, map_nil, foldr_cons, foldr_nil,
      Nat.sub_zero, max_zero, show 1 < after - before by omega, and_self, ↓reduceIte, kvsharePrefillOffload,
      forM_cons, forM_nil, zero_add, ingest]
  obtain rfl : after = before + 1 := by omega
  by_cases short : before + 1 < bs
  · rw [forward_short short, forward_short short]
  · have sparse : ¬ (1 < before + 1 - before ∨ before + 1 < bs) := by omega
    unfold forward
    rw [if_neg (takesDense_tokenPass.not.mpr sparse), if_neg (takesDense_tokenPass.not.mpr sparse)]
    simp only [tokenPass, kvshareDecodeWrite, zipIdx_cons, zipIdx_nil, forM_cons, forM_nil, add_zero, keys before (le_refl _) computes, values before (le_refl _) computes]

theorem kvshareRun_blind [ReadableMemory M bs R] {len steps lost : Nat} (short : lost + 1 < bs)
    (prompt : 1 ≤ len) (missed : lost = 0 ∧ len = 1 ∨ len ≤ lost)
    (keys : ∀ i ≠ lost, key i = key' i) (values : ∀ i ≠ lost, value i = value' i) :
    (kvshareRun cfg topK (tokenPass seq key value scratch table select) len steps : TierM S D M _) =
      kvshareRun cfg topK (tokenPass seq key' value' scratch table select) len steps := by
  have step : ∀ n, (forward cfg topK true (tokenPass seq key value scratch table select n (n + 1)) : TierM S D M _) =
      forward cfg topK true (tokenPass seq key' value' scratch table select n (n + 1)) := by
    intro n
    by_cases here : n = lost
    · subst here
      rw [forward_short short, forward_short short]
    · exact forward_tokenPass_congr (Nat.lt_succ_self n) (fun i low high => keys i (by omega))
        (fun i low high => values i (by omega))
  have first : (forward cfg topK true (tokenPass seq key value scratch table select 0 len) : TierM S D M _) =
      forward cfg topK true (tokenPass seq key' value' scratch table select 0 len) := by
    rcases missed with ⟨_, rfl⟩ | later
    · exact step 0
    · exact forward_tokenPass_congr prompt (fun i _ high => keys i (by omega)) (fun i _ high => values i (by omega))
  unfold kvshareRun
  rw [first, mapM_congr fun i _ => step (len + i)]

theorem forward_sparse_gathers (long : bs ≤ n + 1) :
    wp (forward cfg topK true (tokenPass seq key value scratch table select n (n + 1)))
      (fun out _ => ∃ g ∈ out, g.request.seqLen = n + 1 ∧ ∃ summary k, g.blocks =
      select g.request summary ((n + 1) / bs) k ++ liveBlocks bs (n + 1)) (fun _ _ => True) s := by
  unfold forward
  rw [if_neg (by rw [takesDense_tokenPass]; omega)]
  simp only [↓reduceIte, wp_bind]
  refine wp_any (fun _ t => ?_) (fun _ _ => trivial)
  simp only [tokenPass, runSparseDecode, mapM_cons, wp_bind, decodeRequest, wp_get]
  refine wp_any (fun _ u => wp_any (fun slots v => ?_) (fun _ _ => trivial)) (fun _ _ => trivial)
  exact ⟨_, mem_singleton_self _, rfl, t.summary, min topK ((n + 1) / bs), rfl⟩

end

def selectFirst : Select S D := fun _ _ n _ => List.range (min n 1)

omit [DecidableEq S] in
theorem selectsValid_first (two : 2 ≤ cfg.gpuBudget) : SelectsValid cfg (selectFirst : Select S D) := by
  intro r summary k
  refine ⟨nodup_range, fun b hm => ?_, ?_⟩
  · have := mem_range.mp hm
    omega
  · rw [selectFirst, length_range]
    omega

theorem kvshareRun_gathers {scratch : Nat → KVBlock bs R} {table : Nat → Nat} {topK len steps : Nat}
    (before : len < bs) (reached : bs ≤ len + steps) :
    wp (kvshareRun cfg topK (tokenPass seq key value scratch table selectFirst) len steps)
      (fun out _ => ∃ g ∈ out, g.request.seqLen = bs ∧ g.blocks = [0]) (fun _ _ => True) s := by
  unfold kvshareRun
  simp only [wp_bind]
  refine wp_any (fun out t => ?_) (fun _ _ => trivial)
  refine wp_imp (wp_mapM (I := fun _ => True) (P := fun i gs =>
    len + i + 1 = bs → ∃ g ∈ gs, g.request.seqLen = bs ∧ g.blocks = [0]) (fun i _ u _ => ?_) trivial) ?_
  · by_cases last : len + i + 1 = bs
    · refine wp_imp (forward_sparse_gathers (by omega)) ?_
      rintro gs v ⟨g, hm, length, summary, k, blocks⟩
      have single : bs / bs = 1 := Nat.div_self (by omega)
      refine ⟨trivial, fun _ => ⟨g, hm, length.trans last, blocks.trans ?_⟩⟩
      simp [last, selectFirst, liveBlocks, single]
    · exact wp_any (fun _ _ => ⟨trivial, fun equal => absurd equal last⟩) (fun _ _ => trivial)
  · rintro rest u ⟨-, related⟩
    obtain ⟨lengths, items⟩ := forall₂_iff_get.mp related
    rw [length_range] at lengths
    have hi : bs - 1 - len < steps := by omega
    obtain ⟨g, hm, facts⟩ := items (bs - 1 - len) (by simpa using hi) (lengths ▸ hi) (by simp; omega)
    exact ⟨g, mem_append_right _ (mem_flatten.mpr ⟨_, get_mem _ _, hm⟩), facts⟩

/-- A shared-scratch request is decoded from its own tokens exactly if it never has a full block, a block is one token, or
its prompt has two tokens and reaches the last row of its first block. Otherwise a token is never ingested. -/
theorem kvshare_decode_faithful_iff [Nontrivial R] (cfg : TierConfig bs R D) (mem : Memory bs R) (summary : Nat → D)
    (seq : S) (scratch : Nat → KVBlock bs R) (table : Nat → Nat) (topK len steps : Nat) (size : 0 < bs)
    (two : 2 ≤ cfg.gpuBudget) (prompt : 1 ≤ len) (pool : (len + steps) / bs ≤ cfg.cpuBlocks) :
    (∀ key value select, SelectsValid cfg select → ∃ out t,
      kvshareRun cfg topK (tokenPass seq key value scratch table select) len steps
        (TierManager.init cfg mem summary) = .ok out t ∧ ∀ g ∈ out, Faithful cfg key value g) ↔
      len + steps < bs ∨ bs = 1 ∨ 2 ≤ len ∧ bs ≤ len + 1 := by
  constructor
  · intro faithful
    by_contra outside
    -- The first token of a prompt of one token is lost, otherwise the first decode token.
    obtain ⟨lost, short, missed⟩ : ∃ lost, lost + 1 < bs ∧ (lost = 0 ∧ len = 1 ∨ len ≤ lost) := by
      rcases lt_or_ge len 2 with one | many
      · exact ⟨0, by omega, by omega⟩
      · exact ⟨len, by omega, by omega⟩
    obtain ⟨x, y, differ⟩ := exists_pair_ne R
    let other : Nat → R := fun i => if i = lost then y else x
    obtain ⟨out, t, run, right⟩ := faithful (fun _ => x) (fun _ => x) selectFirst (selectsValid_first two)
    obtain ⟨out', t', run', right'⟩ := faithful other (fun _ => x) selectFirst (selectsValid_first two)
    have same : (kvshareRun cfg topK (tokenPass seq (fun _ => x) (fun _ => x) scratch table selectFirst) len steps :
        TierM S D (Memory bs R) _) = kvshareRun cfg topK (tokenPass seq other (fun _ => x) scratch table selectFirst) len steps :=
      kvshareRun_blind short prompt missed (fun i elsewhere => (if_neg elsewhere).symm) (fun _ _ => rfl)
    rw [same, run'] at run
    obtain ⟨rfl, -⟩ := EStateM.Result.ok.inj run
    obtain ⟨g, member, length, blocks⟩ := wp_ok (kvshareRun_gathers (by omega) (by omega)) run'
    have rows := (right g member).rows
    have rows' := (right' g member).rows
    rw [blocks] at rows rows'
    obtain ⟨block, _, holds, _, shape⟩ := List.forall₂_cons_left_iff.mp rows
    rw [shape] at rows'
    have holds' := (List.forall₂_cons.mp rows').1
    have first := (holds ⟨lost, by omega⟩ (by simp; omega)).1
    have second := (holds' ⟨lost, by omega⟩ (by simp; omega)).1
    rw [first] at second
    exact differ (by simpa [other] using second)
  · intro cases key value select valid
    have fresh : seq ∉ (TierManager.init cfg mem summary).trimmed := Finset.notMem_empty _
    have start := ingested_init cfg seq key value mem summary
    have enough : ∀ e (t : TierManager S D (Memory bs R)), ¬ Exhausted cfg (blocksOf seq ((len + steps) / bs)) e := by
      intro e _ exhausted
      have := exhausted.lt_blocks
      omega
    refine wp_total ?_ enough
    rcases cases with short | reached
    · refine wp_imp (wp_kvshareRun_short start fresh prompt short (by omega)) (fun out _ none => ?_)
      simp [none]
    · exact wp_imp (wp_kvshareRun start fresh prompt reached valid size (by omega)) (fun _ _ h => h.2)

theorem kvshare_decode_faithful_iff_pairs : ∃ out t,
    kvshareRun pairConfig 1 (tokenPass 0 (· + 1) (· + 101) countingEngine id selectFirst) 3 3
      (TierManager.init pairConfig Memory.zero fun _ => 0 : TierManager Nat Nat (Memory 2 Nat)) = .ok out t ∧
      ∀ g ∈ out, Faithful pairConfig (· + 1) (· + 101) g :=
  (kvshare_decode_faithful_iff pairConfig Memory.zero (fun _ => 0) 0 countingEngine id 1 3 3 (by decide) (by decide)
    (by decide) (by decide)).mpr (by decide) _ _ selectFirst (selectsValid_first (by decide))

def quadConfig : TierConfig 4 Nat Nat where
  layerIdx := 0
  gpuBudget := 2
  cpuBlocks := 4
  digest k := k 0

def quadPass : Nat → Nat → Pass Nat Nat 4 Nat :=
  tokenPass 0 (· + 1) (· + 101) (fun _ => ⟨fun _ => 0, fun _ => 0⟩) id selectFirst

/-- Two prompt tokens and two decode tokens in one block: the row of the third token is never written. -/
theorem short_prompt_loses_token : ∃ out t,
    kvshareRun quadConfig 1 quadPass 2 2 (TierManager.init quadConfig Memory.zero fun _ => 0) = .ok out t ∧
      ¬ ∀ g ∈ out, Faithful quadConfig (· + 1) (· + 101) g := by
  obtain ⟨out, t, run, read⟩ := reads_iff.mp (by decide :
    reads (fun out =>
        out.map fun g => (g.request.seqLen, g.blocks, g.content.map fun block => block.k 2))
      (kvshareRun quadConfig 1 quadPass 2 2) (TierManager.init quadConfig Memory.zero fun _ => 0) =
        some [(4, [0], [0])])
  refine ⟨out, t, run, fun faithful => ?_⟩
  obtain ⟨g, _, rfl, read, -⟩ := List.map_eq_cons_iff.mp read
  obtain ⟨length, blocks, content⟩ : g.request.seqLen = 4 ∧ g.blocks = [0] ∧ (g.content.map fun block => block.k 2) = [0] := by
    simpa using read
  have rows := (faithful g (.head _)).rows
  rw [blocks, length] at rows
  obtain ⟨block, _, holds, _, shape⟩ := List.forall₂_cons_left_iff.mp rows
  have written : block.k 2 = 3 := (holds 2 (by decide)).1
  rw [shape] at content
  have unwritten : block.k 2 = 0 := (List.cons.inj content).1
  omega

end KVOffload.Quest
