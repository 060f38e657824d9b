import KVOffload.Quest.BlockSummary
import KVOffload.Quest.Kvshare
import KVOffload.Quest.Prefill

/-!
# A prompt in chunks

Both prefill hooks count from the start of the chunk.
-/

namespace KVOffload.Quest

open List

variable {S D M R : Type} {bs : Nat} {cfg : TierConfig bs R D}

def chunkBatch (seq : S) (table : Nat → Nat) (o c : Nat) : Batch S := [⟨seq, o + c, 0, c, table⟩]

def prefillHook [DecidableEq S] [ReadableMemory M bs R] (cfg : TierConfig bs R D) (footprintKvshare : Bool)
    (key value : Nat → R) (batch : Batch S) : TierM S D M Unit :=
  if footprintKvshare then kvsharePrefillOffload cfg key value batch
  else notifyFilledBlocksAfterPrefill cfg key batch

def prefillChunks (hook : (Nat → R) → (Nat → R) → Batch S → TierM S D M Unit) (seq : S) (table : Nat → Nat)
    (key value : Nat → R) : Nat → List Nat → TierM S D M Unit
  | _, [] => pure ()
  | o, c :: rest => do
    hook (fun i => key (o + i)) (fun i => value (o + i)) (chunkBatch seq table o c)
    prefillChunks hook seq table key value (o + c) rest

def chunkedSummary (cfg : TierConfig bs R D) (key : Nat → R) : Nat → List Nat → (Nat → D) → Nat → D
  | _, [], summary => summary
  | o, c :: rest, summary => chunkedSummary cfg key (o + c) rest fun b =>
      if b < c / bs then cfg.digest fun i => key (o + b * bs + i) else summary b

theorem wp_prefillChunks [DecidableEq S] [ReadableMemory M bs R] {seq : S}
    {table : Nat → Nat} {key value : Nat → R} {E : QuestError S → TierManager S D M → Prop} (chunks : List Nat) (o : Nat)
    (s : TierManager S D M) : wp (prefillChunks (prefillHook cfg false) seq table key value o chunks)
      (fun _ t => t = { s with summary := chunkedSummary cfg key o chunks s.summary }) E s := by
  induction chunks generalizing o s with
  | nil => simp [prefillChunks, chunkedSummary]
  | cons c rest ih =>
    simp only [prefillChunks, prefillHook, Bool.false_eq_true, ↓reduceIte, wp_bind]
    refine wp_notifyPrefill ?_
    refine wp_imp (ih (o + c) _) ?_
    rintro _ t rfl
    have written : prefillSummary cfg (fun i => key (o + i)) s.summary ⟨seq, o + c, 0, c, table⟩ = fun b =>
        if b < c / bs then cfg.digest fun i => key (o + b * bs + i) else s.summary b := by
      funext b
      simp [prefillSummary, Request.queryLen, add_assoc]
    simp [chunkedSummary, chunkBatch, written]

theorem chunkedSummary_short (cfg : TierConfig bs R D) (key : Nat → R) (chunks : List Nat) (o : Nat)
    (summary : Nat → D) (short : chunks.sum < bs) : chunkedSummary cfg key o chunks summary = summary := by
  induction chunks generalizing o with
  | nil => rfl
  | cons c rest ih =>
    rw [sum_cons] at short
    rw [chunkedSummary]
    simp only [Nat.div_eq_of_lt (show c < bs by omega)]
    exact ih (o + c) (by omega)

theorem chunkedSummary_row (cfg : TierConfig bs R D) (chunks : List Nat) (o b : Nat) :
    (∀ key summary, chunkedSummary cfg key o chunks summary b = summary b) ∨
      ∃ start ≥ o, ∀ key summary, chunkedSummary cfg key o chunks summary b = cfg.digest fun i => key (start + b * bs + i) := by
  induction chunks generalizing o with
  | nil => exact .inl fun _ _ => rfl
  | cons c rest ih =>
    rcases ih (o + c) with kept | ⟨start, later, last⟩
    · by_cases written : b < c / bs
      · refine .inr ⟨o, le_refl o, fun key summary => ?_⟩
        rw [chunkedSummary, kept, if_pos written]
      · refine .inl fun key summary => ?_
        rw [chunkedSummary, kept, if_neg written]
    · exact .inr ⟨start, by omega, fun key summary => by rw [chunkedSummary, last]⟩

def overlay (a : Nat) (block : Fin bs → R) (base : Nat → R) (j : Nat) : R :=
  if inside : a ≤ j ∧ j - a < bs then block ⟨j - a, inside.2⟩ else base j

theorem overlay_inside (a : Nat) (block : Fin bs → R) (base : Nat → R) :
    (fun i : Fin bs => overlay a block base (a + i)) = block := by
  simp [overlay]

theorem digest_const_of_shift {digest : (Fin bs → R) → D} (a shift : Nat) (hp : 0 < shift) (size : 0 < bs)
    (hs : ∀ key : Nat → R, digest (fun i => key (shift + a + i)) = digest fun i => key (a + i)) (x y : Fin bs → R) :
    digest x = digest y := by
  -- The windows at `a`, `a + shift`, ... all have one digest, and after `bs` shifts they do not overlap.
  have chain : ∀ k (key : Nat → R), digest (fun i => key (k * shift + a + i)) = digest fun i => key (a + i) := by
    intro k
    induction k with
    | zero => intro key; simp
    | succ k ih =>
      intro key
      rw [← ih]
      have shifted := hs fun j => key (k * shift + j)
      simpa only [Nat.succ_mul, Nat.add_assoc] using shifted
  let key : Nat → R := overlay a y (overlay (bs * shift + a) x fun _ => x ⟨0, size⟩)
  have far := Nat.le_mul_of_pos_right bs hp
  have upper : (fun i : Fin bs => key (bs * shift + a + i)) = x := by
    rw [← overlay_inside (bs * shift + a) x]
    funext i
    exact dif_neg (by omega)
  have windows := chain bs key
  rwa [upper, overlay_inside] at windows

theorem chunkedSummary_iff (chunks : List Nat) (hp : ∀ c ∈ chunks, 0 < c)
    (size : 0 < bs) (varies : ∃ x y, cfg.digest x ≠ cfg.digest y) :
    (∀ key summary, ∀ b < chunks.sum / bs,
      chunkedSummary cfg key 0 chunks summary b = cfg.digest fun i => key (b * bs + i)) ↔
      chunks.sum / bs = chunks.headD 0 / bs := by
  cases chunks with
  | nil => simp
  | cons c rest =>
    have least : c / bs ≤ (c :: rest).sum / bs := Nat.div_le_div_right (by simp)
    rw [headD_cons]
    constructor
    · intro right
      by_contra more
      have hb : c / bs < (c :: rest).sum / bs := by omega
      obtain ⟨x, y, differ⟩ := varies
      have later := fun key summary => right key summary (c / bs) hb
      simp only [chunkedSummary] at later
      rcases chunkedSummary_row cfg rest (0 + c) (c / bs) with kept | ⟨start, from_, last⟩
      · -- No chunk writes the row: it is what the summaries started with.
        have row := later (overlay (c / bs * bs) y fun _ => y ⟨0, size⟩) fun _ => cfg.digest x
        rw [kept, if_neg (lt_irrefl _), overlay_inside] at row
        exact differ row
      · -- The row has the block at the same distance from a later start.
        refine differ (digest_const_of_shift (c / bs * bs) start ?_ size (fun key => ?_) x y)
        · have := hp c (.head _)
          omega
        · rw [← later key fun _ => cfg.digest x, last]
    · intro all key summary b hb
      have split := Nat.div_add_mod' c bs
      have upper := Nat.lt_div_mul_add (a := (c :: rest).sum) size
      rw [all] at hb upper
      rw [chunkedSummary, chunkedSummary_short cfg key rest _ _ (by rw [sum_cons] at upper; omega), if_pos hb]
      simp

section

variable [DecidableEq S] {seq : S} {table : Nat → Nat} {key value : Nat → R} {n : Nat}
  {s : TierManager S D (Memory bs R)}

variable (cfg s) in
/-- The block where the two tiers have it: in its arena slot, or in its backup. -/
def tierRead (k : S × Nat) : Option (KVBlock bs R) :=
  match s.slotMap.slot? k with
  | some slot => some (s.mem.arena slot)
  | none => (backup cfg s k).map s.mem.host

variable (cfg seq key value n s) in
/-- The tiers have the K/V of a prompt of `n` tokens, its full blocks and the rows of the trailing one, and the
summaries are those of its full blocks. -/
structure PromptHeld : Prop where
  summary : ∀ b < n / bs, s.summary b = cfg.digest fun i => key (b * bs + i)
  full : ∀ b < n / bs, tierRead cfg s (seq, b) = some (blockAt key value (b * bs))
  trailing : ∀ b ∈ liveBlocks bs n, ∃ block, tierRead cfg s (seq, b) = some block ∧ RowsUpTo key value n b block

theorem Ingested.held (ingested : Ingested cfg seq key value n s) : PromptHeld cfg seq key value n s := by
  refine ⟨ingested.summary, fun b hb => ?_, fun b trailing => ?_⟩
  · have hm : (seq, b) ∈ blocksOf seq (n / bs) := ⟨rfl, hb⟩
    unfold tierRead
    cases held : s.slotMap.slot? (seq, b) with
    | some slot => exact congrArg some (ingested.coherent.resident _ hm (Set.notMem_empty _) slot held)
    | none =>
      obtain ⟨c, hf⟩ := ingested.coherent.covered _ hm (Set.notMem_empty _) held
      rw [hf]
      exact congrArg some (ingested.coherent.backed _ (Set.notMem_empty _) c hf).2
  · obtain ⟨slot, held, rows⟩ := ingested.trailing b trailing
    exact ⟨_, by rw [tierRead, held], rows⟩

theorem PromptHeld.token (held : PromptHeld cfg seq key value n s) (size : 0 < bs) {p : Nat} (hb : p < n) :
    (tierRead cfg s (seq, p / bs)).map (fun block => block.k ⟨p % bs, Nat.mod_lt p size⟩) = some (key p) := by
  have split := Nat.div_add_mod' p bs
  by_cases full : p / bs < n / bs
  · rw [held.full _ full]
    simp [blockAt, split]
  · have last : p / bs = n / bs := le_antisymm (Nat.div_le_div_right (by omega)) (by omega)
    have partly : p / bs ∈ liveBlocks bs n := by
      have split' := Nat.div_add_mod' n bs
      rw [liveBlocks, if_neg (by rw [← last] at split'; omega), last]
      exact mem_singleton_self _
    obtain ⟨block, read, rows⟩ := held.trailing _ partly
    rw [read, Option.map_some, (rows ⟨p % bs, Nat.mod_lt p size⟩ (by simp only [split]; exact hb)).1, split]

theorem wp_prefillChunks_ingested {E : QuestError S → TierManager S D (Memory bs R) → Prop}
    (ingested : seq ∈ s.trimmed) (active : s.activeSeqs = some [seq]) (rest : List Nat) (o : Nat) :
    wp (prefillChunks (prefillHook cfg true) seq table key value o rest) (fun _ t => t = s) E s := by
  induction rest generalizing o with
  | nil => simp [prefillChunks]
  | cons c rest ih =>
    simp only [prefillChunks, prefillHook, ↓reduceIte, wp_bind, kvsharePrefillOffload]
    refine wp_releaseInactive_same (fun x hm => ?_) ?_
    · simpa [previousSeqs, active, activeIds, chunkBatch] using hm
    have hs : { s with activeSeqs := some (activeIds (chunkBatch seq table o c)) } = s := by
      rw [activeIds, chunkBatch, map_cons, map_nil, dedup_cons_of_notMem not_mem_nil, dedup_nil, ← active]
    rw [hs]
    simp only [chunkBatch, forM_cons]
    split
    · simpa using ih (o + c)
    · simpa [prefillIngestKvshare, ingested] using ih (o + c)

theorem prefillChunks_first {c : Nat} (table : Nat → Nat) (rest : List Nat) (ingested : Ingested cfg seq key value 0 s)
    (first : seq ∉ s.trimmed) (prompt : 0 < c) (size : 0 < bs) (hp : 0 < cfg.gpuBudget)
    (pool : c / bs ≤ cfg.cpuBlocks) : ∃ t, Ingested cfg seq key value c t ∧
      kvsharePrefillOffload cfg key value (chunkBatch seq table 0 c) s = .ok () t ∧
      prefillChunks (prefillHook cfg true) seq table key value 0 (c :: rest) s = .ok () t := by
  obtain ⟨_, t, run, taken, marked, active⟩ := wp_total
    (kvsharePrefillOffload_ingested (0 + c) table ingested first prompt size hp)
    fun e _ exhausted => by
      have := exhausted.lt_blocks
      omega
  refine ⟨t, taken, run, ?_⟩
  obtain ⟨_, u, later, rfl⟩ : ∃ a u, prefillChunks (prefillHook cfg true) seq table key value c rest t = .ok a u ∧ u = t :=
    wp_total (wp_prefillChunks_ingested marked active rest c) fun _ _ impossible => impossible
  simp only [prefillChunks, zero_add]
  exact bind_ok_iff.mpr ⟨(), _, run, later⟩

theorem prefillChunks_held_iff (mem : Memory bs R) (summary : Nat → D) (chunks : List Nat)
    (hp : ∀ c ∈ chunks, 0 < c) (size : 0 < bs) (arena : 0 < cfg.gpuBudget)
    (pool : chunks.sum / bs ≤ cfg.cpuBlocks) {x y : R} (differ : x ≠ y) :
    (∀ key value, ∃ t, prefillChunks (prefillHook cfg true) seq table key value 0 chunks
      (TierManager.init cfg mem summary) = .ok () t ∧ PromptHeld cfg seq key value chunks.sum t) ↔ chunks.length ≤ 1 := by
  have start := fun key value => ingested_init cfg seq key value mem summary
  have fresh : seq ∉ (TierManager.init cfg mem summary).trimmed := Finset.notMem_empty _
  cases chunks with
  | nil => exact iff_of_true (fun key value => ⟨_, rfl, (start key value).held⟩) (Nat.zero_le 1)
  | cons c rest =>
    have least : c / bs ≤ (c :: rest).sum / bs := Nat.div_le_div_right (by simp)
    have first := fun key value => prefillChunks_first table rest (start key value) fresh
      (hp c (.head _)) size arena (le_trans least pool)
    constructor
    · intro holds
      by_contra more
      obtain ⟨c', rest, rfl⟩ : ∃ c' rest', rest = c' :: rest' := by
        cases rest with
        | nil => simp at more
        | cons c' rest' => exact ⟨c', rest', rfl⟩
      have beyond : c ≤ (c :: c' :: rest).sum - 1 := by
        have := hp c' (by simp)
        simp only [sum_cons]
        omega
      -- Two prompts that differ in their last token leave the tiers in one state.
      let other : Nat → R := fun i => if i = (c :: c' :: rest).sum - 1 then y else x
      obtain ⟨t, run, held⟩ := holds (fun _ => x) fun _ => x
      obtain ⟨t', run', held'⟩ := holds other fun _ => x
      obtain ⟨u, _, offload, whole⟩ := first (fun _ => x) fun _ => x
      obtain ⟨u', _, offload', whole'⟩ := first other fun _ => x
      have keys : ∀ i < c, (fun _ => x) i = other i := fun i hb => (if_neg (by omega)).symm
      have ingest : (prefillIngestKvshare cfg seq (c / bs) (fun _ => x) (fun _ => x) (some c) : TierM S D (Memory bs R) Unit) =
          prefillIngestKvshare cfg seq (c / bs) other (fun _ => x) (some c) := prefillIngestKvshare_congr keys fun _ _ => rfl
      simp only [kvsharePrefillOffload, chunkBatch, forM_cons, forM_nil, Request.queryLen, Nat.sub_zero, zero_add,
        ingest] at offload offload'
      rw [offload'] at offload
      obtain ⟨-, rfl⟩ := EStateM.Result.ok.inj offload
      obtain ⟨-, rfl⟩ := EStateM.Result.ok.inj (run.symm.trans whole)
      obtain ⟨-, rfl⟩ := EStateM.Result.ok.inj (run'.symm.trans whole')
      have last : (c :: c' :: rest).sum - 1 < (c :: c' :: rest).sum := by
        have := hp c (.head _)
        omega
      have read := (held.token size last).symm.trans (held'.token size last)
      simp only [other, Option.some.injEq] at read
      exact differ read
    · intro single key value
      obtain rfl : rest = [] := length_eq_zero_iff.mp (by simpa using single)
      obtain ⟨t, taken, _, run⟩ := first key value
      exact ⟨t, run, by simpa using taken.held⟩

end

def channelConfig : TierConfig 2 (Unit → ℚ) ((Unit → ℚ) × (Unit → ℚ)) where
  layerIdx := 0
  gpuBudget := 2
  cpuBlocks := 4
  digest := digestOf .questMinmax

def channelToken (i : Nat) : Unit → ℚ := fun _ => i

end KVOffload.Quest
