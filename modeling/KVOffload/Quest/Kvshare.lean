import KVOffload.Quest.DecodeStep

/-!
# The shared-scratch mode

`Ingested` says that the first `n` tokens of the sequence are in the two tiers; the trailing block has its first rows only.
-/

namespace KVOffload.Quest

open List TierManager BlockMemory

variable {S D M R : Type} {bs : Nat} [DecidableEq S]

/-- The rows of block `b` that belong to tokens before position `n` hold these tokens. -/
def RowsUpTo (key value : Nat → R) (n b : Nat) (block : KVBlock bs R) : Prop :=
  ∀ i : Fin bs, b * bs + i < n → block.k i = key (b * bs + i) ∧ block.v i = value (b * bs + i)

def tokenBlocks (key value : Nat → R) (k : S × Nat) : KVBlock bs R := blockAt key value (k.2 * bs)

def tailOf (bs : Nat) (seq : S) (n : Nat) : Set (S × Nat) := {k | k.1 = seq ∧ k.2 ∈ liveBlocks bs n}

/-- The manager holds the first `n` tokens of the sequence and nothing else. -/
structure Ingested (cfg : TierConfig bs R D) (seq : S) (key value : Nat → R) (n : Nat)
    (s : TierManager S D (Memory bs R)) : Prop where
  books : Books cfg [] s
  coherent : Coherent cfg ∅ (blocksOf seq (n / bs)) (tailOf bs seq n) (tokenBlocks key value) s
  trailing : ∀ b ∈ liveBlocks bs n, ∃ slot, s.slotMap.slot? (seq, b) = some slot ∧ RowsUpTo key value n b (s.mem.arena slot)
  summary : ∀ b < n / bs, s.summary b = cfg.digest (blockAt key value (b * bs) : KVBlock bs R).k
  active : ∀ x ∈ previousSeqs s, x = seq
  plain : ∀ x, protectedKeys cfg s x = []

variable {cfg : TierConfig bs R D} {seq : S} {key value : Nat → R} {n : Nat} {s : TierManager S D (Memory bs R)}
  {block : KVBlock bs R} {b : Nat} {m : Nat}

theorem ingested_init (cfg : TierConfig bs R D) (seq : S) (key value : Nat → R) (mem : Memory bs R) (summary : Nat → D) :
    Ingested cfg seq key value 0 (init cfg mem summary) where
  books := books_init cfg mem summary
  coherent := by
    have stored : blocksOf seq (0 / bs) = ∅ := by simp [blocksOf]
    have live : tailOf bs seq 0 = ∅ := by simp [tailOf, liveBlocks]
    rw [stored, live]
    exact coherent_init cfg mem summary _
  trailing := by simp [liveBlocks]
  summary := by simp
  active := by simp [previousSeqs, init]
  plain := by simp [init, protectedKeys]

omit [DecidableEq S] in
theorem blockAt_of_rows (rows : RowsUpTo key value n b block) (full : (b + 1) * bs ≤ n) :
    block = blockAt key value (b * bs) := by
  have hi : ∀ i : Fin bs, b * bs + i < n := fun i => by
    rw [Nat.succ_mul] at full
    omega
  ext i
  · exact (rows i (hi i)).1
  · exact (rows i (hi i)).2

omit [DecidableEq S] in
theorem rowsUpTo_append (rows : n % bs ≠ 0 → RowsUpTo key value n (n / bs) block) :
    RowsUpTo key value (n + 1) (n / bs)
      (block.overwrite fun i => if i.val = n % bs then some (key n, value n) else none) := by
  have split := Nat.div_add_mod' n bs
  intro i hb
  by_cases last : i.val = n % bs
  · simp only [KVBlock.overwrite, last]
    rw [split]
    exact ⟨rfl, rfl⟩
  · simp only [KVBlock.overwrite, last]
    exact rows (by omega) i (by omega)

omit [DecidableEq S] in
theorem rowsUpTo_leadingRows (block : KVBlock bs R) :
    RowsUpTo key value n (n / bs) (block.overwrite (leadingRows key value (n / bs * bs) (n - n / bs * bs))) := by
  intro i hb
  simp only [KVBlock.overwrite, leadingRows, show i.val < n - n / bs * bs by omega, ↓reduceIte, Option.map_some,
    Option.getD_some, and_self]

theorem wp_releaseInactive_same {active : List S} {Q : Unit → TierManager S D M → Prop}
    {E : QuestError S → TierManager S D M → Prop} {s : TierManager S D M}
    (hs : ∀ x ∈ previousSeqs s, x ∈ active) (done : Q () { s with activeSeqs := some active }) :
    wp (releaseInactive active) Q E s := by
  unfold releaseInactive
  simp only [wp_bind, wp_get]
  cases seen : s.activeSeqs with
  | none => simpa using done
  | some previous =>
    have none : previous.filter (· ∉ active) = [] := by
      refine filter_eq_nil_iff.mpr fun x hm => ?_
      have := hs x (by simpa [previousSeqs, seen] using hm)
      simpa using this
    simp only [none]
    exact done

omit [DecidableEq S] in
theorem blocksOf_mono (le : n ≤ m) : blocksOf seq n ⊆ blocksOf seq m :=
  fun _ hm => ⟨hm.1, lt_of_lt_of_le hm.2 le⟩

omit [DecidableEq S] in
theorem Exhausted.lt_blocks {e : QuestError S} (exhausted : Exhausted cfg (blocksOf seq n) e) : cfg.cpuBlocks < n := by
  have bound := exhausted.small ((range n).map fun b => (seq, b)) fun k hm =>
    mem_map.mpr ⟨k.2, mem_range.mpr hm.2, Prod.ext hm.1.symm rfl⟩
  simpa using bound

omit [DecidableEq S] in
theorem insert_blocksOf_self (seq : S) (n : Nat) : insert (seq, n) (blocksOf seq n) = blocksOf seq (n + 1) := by
  simpa using insert_blocksOf ∅ seq n

omit [DecidableEq S] in
theorem eq_of_mem_tailOf {k : S × Nat} (hm : k ∈ tailOf bs seq n) : k = (seq, n / bs) :=
  Prod.ext hm.1 (eq_div_of_mem_liveBlocks hm.2)

theorem Coherent.victims_tail {content : S × Nat → KVBlock bs R}
    (hc : Coherent cfg ∅ (blocksOf seq (n / bs)) (tailOf bs seq n) content s) :
    Victims (blocksOf seq (n / bs)) [] (seq, n / bs) s := by
  intro missing _ v chosen
  obtain ⟨slot, held⟩ := LRUSlotMap.mem_keys_iff.mp (LRUSlotMap.victim_mem chosen)
  refine ⟨?_, fun k hm => hm.1⟩
  rcases hc.known v (Set.notMem_empty _) slot held with hm | hm
  · exact hm
  · rw [eq_of_mem_tailOf hm, missing] at held
    cases held

omit [DecidableEq S] in
theorem rowFree_blocksOf [DecidableEq S] {s : TierManager S D M} : RowFree (blocksOf seq n) (seq, b) s :=
  fun _ hm owner => absurd hm.1 owner

section

variable (ingested : Ingested cfg seq key value n s) {t : TierManager S D (Memory bs R)}

include ingested

theorem Ingested.unchanged
    (active : t.activeSeqs = s.activeSeqs) (previous : t.prevSelected = s.prevSelected) :
    (∀ x ∈ previousSeqs t, x = seq) ∧ ∀ x, protectedKeys cfg t x = [] := by
  refine ⟨fun x hm => ingested.active x ?_, fun x => ?_⟩
  · rwa [previousSeqs, active] at hm
  · rw [← ingested.plain x]
    simp only [protectedKeys, previous]

theorem Ingested.rows_append {slot : Nat}
    (claim : Claim cfg [] [] (seq, n / bs) slot s t) : RowsUpTo key value (n + 1) (n / bs)
      ((t.mem.arena slot).overwrite fun i => if i.val = n % bs then some (key n, value n) else none) := by
  refine rowsUpTo_append fun rest => ?_
  obtain ⟨slot', held, old⟩ := ingested.trailing (n / bs) (by simp [liveBlocks, rest])
  rw [claim.arena, ← claim.same slot' held]
  exact old

theorem appendDecodeTokenKvshare_last (last : n % bs + 1 = bs) (hp : 0 < cfg.gpuBudget) :
    wp (appendDecodeTokenKvshare cfg seq n (key n) (value n)) (fun _ t => Ingested cfg seq key value (n + 1) t)
      (fun e _ => Exhausted cfg (blocksOf seq ((n + 1) / bs)) e) s := by
  obtain ⟨quotient, boundary⟩ := div_succ_of_last last
  have partly : (seq, n / bs) ∉ blocksOf seq (n / bs) := fun hm => lt_irrefl _ hm.2
  have bare := ingested.coherent.bare partly
  rw [quotient, ← insert_blocksOf_self]
  unfold appendDecodeTokenKvshare
  simp only [wp_bind, markOnGpu]
  refine wp_imp (claimSlot_coherent ingested.books ingested.coherent.open (not_mem_cpuSlots_of_bare bare)
    (victims_insert ingested.coherent.victims_tail) (.inl rfl) hp) ?_
  rintro slot t ⟨books, hc, claim⟩
  have full := blockAt_of_rows (ingested.rows_append claim) (by
    rw [← quotient]
    exact Nat.div_mul_le_self ..)
  have written : (writeRows slot (fun i => if i.val = n % bs then some (key n, value n) else none) t.mem :
      Memory bs R) = fillSlot slot (blockAt key value (n / bs * bs)) t.mem := by
    rw [← full]
    rfl
  simp only [last, ↓reduceIte, wp_bind, wp_get, wp_modify, setMem, written]
  refine wp_imp (claim.store books hc (Set.mem_insert _ _) (rowFree_insert rowFree_blocksOf)
    (fun c hf => absurd (bare.symm.trans hf) (by simp)) rfl rfl rfl rfl rfl rfl (fun c => ?_)) ?_
  · simp [spillSlot, fillSlot, setSummary, setResidency, tokenBlocks]
  rintro _ v ⟨books', stored, _, _, quiet⟩
  obtain ⟨active, plain⟩ := ingested.unchanged (quiet.activeSeqs.trans claim.quiet.activeSeqs)
    (quiet.prevSelected.trans claim.quiet.prevSelected)
  refine ⟨books', ?_, by simp [liveBlocks, boundary], fun b hb => ?_, active, plain⟩
  · rw [quotient, ← insert_blocksOf_self]
    refine stored.relive fun k hm => ?_
    exact .inl (.inl (eq_of_mem_tailOf hm))
  · have sums : v.summary = Function.update t.summary (n / bs) (cfg.digest (blockAt key value (n / bs * bs)).k) := by
      rw [quiet.summary]
      simp [setSummary, setResidency, ReadableMemory.readSlot, fillSlot]
    rw [sums]
    by_cases new : b = n / bs
    · simp [new]
    · rw [Function.update_of_ne new, claim.quiet.summary]
      exact ingested.summary b (by omega)

theorem appendDecodeTokenKvshare_inside (hi : n % bs + 1 ≠ bs) (size : 0 < bs) (hp : 0 < cfg.gpuBudget) :
    wp (appendDecodeTokenKvshare cfg seq n (key n) (value n)) (fun _ t => Ingested cfg seq key value (n + 1) t)
      (fun e _ => Exhausted cfg (blocksOf seq ((n + 1) / bs)) e) s := by
  obtain ⟨quotient, rest⟩ := div_succ_of_inside hi size
  have partly : (seq, n / bs) ∉ blocksOf seq (n / bs) := fun hm => lt_irrefl _ hm.2
  rw [quotient]
  unfold appendDecodeTokenKvshare
  simp only [wp_bind, hi]
  refine wp_imp (claimLive_coherent ingested.books ingested.coherent partly ingested.coherent.victims_tail
    rowFree_blocksOf hp) ?_
  rintro slot t ⟨books, claim, settled⟩
  obtain ⟨active, plain⟩ := ingested.unchanged claim.quiet.activeSeqs claim.quiet.prevSelected
  refine ⟨books.congr rfl rfl rfl rfl, ?_, fun b hm => ?_, fun b hb => ?_, active, plain⟩
  · rw [quotient]
    refine (settled _).relive fun k hm => .inr ?_
    have last := hm.elim id eq_of_mem_tailOf
    rw [last]
    exact ⟨rfl, by simp [liveBlocks, rest, quotient]⟩
  · rw [eq_div_of_mem_liveBlocks hm, quotient]
    refine ⟨slot, claim.held, ?_⟩
    have written := ingested.rows_append claim
    simpa [setMem, setResidency, writeRows] using written
  · rw [quotient] at hb
    exact (congrFun claim.quiet.summary b).trans (ingested.summary b hb)

theorem appendDecodeTokenKvshare_ingested (size : 0 < bs) (hp : 0 < cfg.gpuBudget) :
    wp (appendDecodeTokenKvshare cfg seq n (key n) (value n)) (fun _ t => Ingested cfg seq key value (n + 1) t)
      (fun e _ => Exhausted cfg (blocksOf seq ((n + 1) / bs)) e) s := by
  by_cases last : n % bs + 1 = bs
  · exact appendDecodeTokenKvshare_last ingested last hp
  · exact appendDecodeTokenKvshare_inside ingested last size hp

end

def keptBlocks (seq : S) (capacity n : Nat) : List (S × Nat) :=
  (List.range' (keepLo capacity n) (n - keepLo capacity n)).map fun b => (seq, b)

omit [DecidableEq S] in
theorem length_keptBlocks (seq : S) (capacity n : Nat) : (keptBlocks seq capacity n).length ≤ capacity := by
  simp only [keptBlocks, length_map, length_range', keepLo]
  omega

omit [DecidableEq S] in
theorem mem_keptBlocks {capacity b : Nat} (low : keepLo capacity n ≤ b) (high : b < n) :
    (seq, b) ∈ keptBlocks seq capacity n :=
  mem_map.mpr ⟨b, mem_range'_1.mpr ⟨low, by omega⟩, rfl⟩

theorem ingestLoop_coherent (ingested : Ingested cfg seq key value 0 s) (hp : 0 < cfg.gpuBudget) :
    wp (forM (range m) fun b => do
        modify (setSummary b (cfg.digest (blockAt key value (b * bs)).k))
        keepOrSpill cfg seq (keepLo cfg.gpuBudget m) .ingestOverflow
          (.ingestExhausted (keepLo cfg.gpuBudget m) seq cfg.layerIdx) b (blockAt key value (b * bs)))
      (fun _ t => Books cfg [] t ∧ Coherent cfg ∅ (blocksOf seq m) ∅ (tokenBlocks key value) t ∧
        Trimmed seq (keepLo cfg.gpuBudget m) m s t ∧
        ∀ b < m, t.summary b = cfg.digest (blockAt key value (b * bs)).k)
      (fun e _ => Exhausted cfg (blocksOf seq m) e) s := by
  have stored : blocksOf seq (0 / bs) = ∅ := by simp [blocksOf]
  have live : tailOf bs seq 0 = ∅ := by simp [tailOf, liveBlocks]
  have empty := ingested.coherent
  rw [stored, live] at empty
  have unplaced : ∀ k, s.slotMap.slot? k = none := by
    intro k
    cases held : s.slotMap.slot? k with
    | none => rfl
    | some slot => exact (empty.known k (Set.notMem_empty _) slot held).elim (absurd · (Set.notMem_empty _)) (absurd · (Set.notMem_empty _))
  rw [← Set.empty_union (blocksOf seq m)]
  refine prefillLoop_coherent
    (J := fun i summary => ∀ b < i, summary b = cfg.digest (blockAt key value (b * bs)).k) ?_ ingested.books
    empty (fun b => ⟨Set.notMem_empty _, unplaced _⟩) (fun _ hm => absurd hm (Set.notMem_empty _))
    (length_keptBlocks seq cfg.gpuBudget m) (fun k hm => ?_) (fun _ => mem_keptBlocks) (by simp)
  · intro b t stored' hb books hc fresh unplaced free here sums
    set t' := t.setSummary b (cfg.digest (blockAt key value (b * bs)).k)
    have hc' : Coherent cfg ∅ stored' ∅ (tokenBlocks key value) t' := hc.congr rfl rfl rfl rfl rfl
    have books' : Books cfg [] t' := books.congr rfl rfl rfl rfl
    refine wp_imp (keepOrSpill_coherent books' hc' fresh unplaced free here trivial hp) ?_
    rintro _ u ⟨books', stored'', settled, kept⟩
    refine ⟨books', stored'', ⟨settled.slots, settled.own, settled.arena, settled.prevSelected, settled.trimmed,
      settled.activeSeqs⟩, fun b' hi => ?_⟩
    rw [kept]
    by_cases last : b' = b
    · rw [last]
      exact Function.update_self ..
    · exact (Function.update_of_ne last ..).trans (sums b' (by omega))
  · obtain ⟨slot, held⟩ := LRUSlotMap.mem_keys_iff.mp hm
    rw [unplaced] at held
    cases held

theorem prefillIngestKvshare_ingested (ingested : Ingested cfg seq key value 0 s) (first : seq ∉ s.trimmed)
    (size : 0 < bs) (hp : 0 < cfg.gpuBudget) :
    wp (prefillIngestKvshare cfg seq (n / bs) key value (some n))
      (fun _ t => Ingested cfg seq key value n t ∧ seq ∈ t.trimmed ∧ t.activeSeqs = s.activeSeqs)
      (fun e _ => Exhausted cfg (blocksOf seq (n / bs)) e) s := by
  have partly : (seq, n / bs) ∉ blocksOf seq (n / bs) := fun hm => lt_irrefl _ hm.2
  have marked : Ingested cfg seq key value 0 { s with trimmed := insert seq s.trimmed } :=
    ⟨ingested.books.congr rfl rfl rfl rfl, ingested.coherent.congr rfl rfl rfl rfl rfl, ingested.trailing, ingested.summary,
      ingested.active, ingested.plain⟩
  unfold prefillIngestKvshare
  simp only [wp_bind, wp_get, first, ↓reduceIte, wp_modify, ingested.books.arena]
  refine wp_imp (ingestLoop_coherent marked hp) ?_
  rintro _ t ⟨books, hc, loop, sums⟩
  obtain ⟨active, plain⟩ := marked.unchanged loop.activeSeqs loop.prevSelected
  have split := Nat.div_add_mod' n bs
  have tailed : Coherent cfg ∅ (blocksOf seq (n / bs)) (tailOf bs seq n) (tokenBlocks key value) t :=
    hc.relive fun k hm => absurd hm (Set.notMem_empty _)
  by_cases whole : n % bs = 0
  · rw [if_neg (by omega)]
    refine ⟨⟨books, tailed, by simp [liveBlocks, whole], sums, active, plain⟩, ?_, loop.activeSeqs⟩
    rw [loop.trimmed]
    exact Finset.mem_insert_self ..
  have small := Nat.mod_lt n size
  rw [if_pos (by omega)]
  simp only [wp_bind, show ¬ bs < n - n / bs * bs by omega]
  refine wp_imp (claimLive_coherent books tailed partly tailed.victims_tail rowFree_blocksOf hp) ?_
  rintro slot u ⟨books', claim, settled⟩
  obtain ⟨active, plain⟩ := marked.unchanged (claim.quiet.activeSeqs.trans loop.activeSeqs)
    (claim.quiet.prevSelected.trans loop.prevSelected)
  refine ⟨⟨books'.congr rfl rfl rfl rfl, ?_, fun b hm => ?_, fun b hb => ?_, active, plain⟩, ?_,
    claim.quiet.activeSeqs.trans loop.activeSeqs⟩
  · refine (settled _).relive fun k hm => .inr ?_
    rw [hm.elim id eq_of_mem_tailOf]
    exact ⟨rfl, by simp [liveBlocks, whole]⟩
  · rw [eq_div_of_mem_liveBlocks hm]
    refine ⟨slot, claim.held, ?_⟩
    have written : RowsUpTo key value n (n / bs) _ := rowsUpTo_leadingRows (u.mem.arena slot)
    simpa [setMem, setResidency, writeRows] using written
  · exact (congrFun claim.quiet.summary b).trans (sums b hb)
  · show seq ∈ u.trimmed
    rw [claim.quiet.trimmed, loop.trimmed]
    exact Finset.mem_insert_self ..

theorem prefillIngestKvshare_congr [ReadableMemory M bs R] {key' value' : Nat → R} (keys : ∀ i < n, key i = key' i)
    (values : ∀ i < n, value i = value' i) : (prefillIngestKvshare cfg seq (n / bs) key value (some n) : TierM S D M Unit) =
      prefillIngestKvshare cfg seq (n / bs) key' value' (some n) := by
  have split := Nat.div_mul_le_self n bs
  have blocks : ∀ b < n / bs, (blockAt key value (b * bs) : KVBlock bs R) = blockAt key' value' (b * bs) := by
    intro b hb
    have hi : ∀ i : Fin bs, b * bs + i < n := fun i => by
      have := Nat.mul_le_mul_right bs (Nat.succ_le_of_lt hb)
      rw [Nat.succ_mul] at this
      omega
    exact congrArg₂ KVBlock.mk (funext fun i => keys _ (hi i)) (funext fun i => values _ (hi i))
  have rows : (leadingRows key value (n / bs * bs) (n - n / bs * bs) : Fin bs → Option (R × R)) =
      leadingRows key' value' (n / bs * bs) (n - n / bs * bs) := by
    funext i
    unfold leadingRows
    split_ifs with hi
    · rw [keys _ (by omega), values _ (by omega)]
    · rfl
  let body (key value) (lo b) : TierM S D M Unit := do
    modify (setSummary b (cfg.digest (blockAt key value (b * bs)).k))
    keepOrSpill cfg seq lo .ingestOverflow (.ingestExhausted lo seq cfg.layerIdx) b (blockAt key value (b * bs))
  have loop : ∀ lo, forM (range (n / bs)) (body key value lo) = forM (range (n / bs)) (body key' value' lo) := by
    refine fun lo => forM_congr fun b hm => ?_
    simp only [body, blocks b (mem_range.mp hm)]
  simp only [body] at loop
  unfold prefillIngestKvshare
  simp only [rows, loop]

theorem Ingested.activate (ingested : Ingested cfg seq key value n s) :
    Ingested cfg seq key value n { s with activeSeqs := some [seq] } :=
  ⟨ingested.books.congr rfl rfl rfl rfl, ingested.coherent.congr rfl rfl rfl rfl rfl, ingested.trailing, ingested.summary,
    by simp [previousSeqs], ingested.plain⟩

theorem kvsharePrefillOffload_ingested (seqLen : Nat) (table : Nat → Nat) (ingested : Ingested cfg seq key value 0 s)
    (first : seq ∉ s.trimmed) (prompt : 0 < n) (size : 0 < bs) (hp : 0 < cfg.gpuBudget) :
    wp (kvsharePrefillOffload cfg key value [⟨seq, seqLen, 0, n, table⟩])
      (fun _ t => Ingested cfg seq key value n t ∧ seq ∈ t.trimmed ∧ t.activeSeqs = some [seq])
      (fun e _ => Exhausted cfg (blocksOf seq (n / bs)) e) s := by
  have taken := prefillIngestKvshare_ingested (n := n) ingested.activate first size hp
  simp only [kvsharePrefillOffload, activeIds, map_cons, map_nil, dedup_cons_of_notMem, not_mem_nil, not_false_eq_true, forM_cons, wp_bind, Request.queryLen, Nat.sub_zero, Nat.zero_add, show n ≠ 0 by omega]
  refine wp_releaseInactive_same (fun x hm => ?_) taken
  simp [ingested.active x hm]

end KVOffload.Quest
