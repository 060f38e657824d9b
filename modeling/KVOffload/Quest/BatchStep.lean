import KVOffload.Quest.DecodeStep

/-!
# One decode step of a batch

`lens` says how many tokens each request had in the last step. A batch that is one request, or that fits the arena, is served
step after step.
-/

namespace KVOffload.Quest

open List Function

variable {S D R : Type} {bs : Nat}

def storedOf (bs : Nat) (lens : S → Option Nat) : Set (S × Nat) := {k | ∃ n, lens k.1 = some n ∧ k.2 < n / bs}

def liveOf (bs : Nat) (lens : S → Option Nat) : Set (S × Nat) := {k | ∃ n, lens k.1 = some n ∧ k.2 ∈ liveBlocks bs n}

/-- The manager holds the blocks of the sequences of `lens`, with `content`. A sequence that is shorter than the arena
is resident, and a longer one is the only one. -/
structure Serving [DecidableEq S] (cfg : TierConfig bs R D) (lens : S → Option Nat) (data : S × Nat → KVBlock bs R)
    (s : TierManager S D (Memory bs R)) : Prop where
  books : Books cfg [] s
  coherent : Coherent cfg ∅ (storedOf bs lens) (liveOf bs lens) data s
  trimmed : ∀ x, x ∈ s.trimmed ↔ lens x ≠ none
  active : ∀ x, x ∈ previousSeqs s ↔ lens x ≠ none
  short : ∀ x n, lens x = some n → n / bs < cfg.gpuBudget → ∀ b < n / bs, s.slotMap.slot? (x, b) ≠ none
  long : ∀ x n, lens x = some n → cfg.gpuBudget ≤ n / bs → ∀ y, lens y ≠ none → y = x
  plain : ∀ x, protectedKeys cfg s x = []

variable {batch : Batch S} {r : Request S}

section

variable {lens : S → Option Nat} {k : S × Nat}

theorem lens_of_known (known : k ∈ storedOf bs lens ∨ k ∈ liveOf bs lens) : lens k.1 ≠ none := by
  rcases known with ⟨n, hf, _⟩ | ⟨n, hf, _⟩ <;> exact hf ▸ Option.some_ne_none n

variable [DecidableEq S] {x : S}

theorem storedOf_update (lens : S → Option Nat) (x : S) (n : Nat) :
    storedOf bs (update lens x (some n)) = others x (storedOf bs lens) ∪ blocksOf x (n / bs) := by
  ext ⟨y, b⟩
  simp only [storedOf, others, Set.mem_union, mem_blocksOf]
  by_cases hs : y = x
  · subst hs
    simp
  · simp [hs]

theorem liveOf_update (lens : S → Option Nat) (r : Request S) :
    liveOf bs (update lens r.seqId (some r.seqLen)) = others r.seqId (liveOf bs lens) ∪ trailingOf bs r := by
  ext ⟨y, b⟩
  simp only [liveOf, others, trailingOf]
  by_cases hs : y = r.seqId
  · subst hs
    simp
  · simp [hs]

def restrict (lens : S → Option Nat) (active : List S) : S → Option Nat := fun x => if x ∈ active then lens x else none

theorem storedOf_restrict (lens : S → Option Nat) (active : List S) :
    storedOf bs (restrict lens active) = {k ∈ storedOf bs lens | k.1 ∈ active} := by
  ext ⟨y, b⟩
  by_cases hm : y ∈ active <;> simp [storedOf, restrict, hm]

theorem liveOf_restrict (lens : S → Option Nat) (active : List S) :
    liveOf bs (restrict lens active) = {k ∈ liveOf bs lens | k.1 ∈ active} := by
  ext ⟨y, b⟩
  by_cases hm : y ∈ active <;> simp [liveOf, restrict, hm]

def lensAfter (lens : S → Option Nat) (batch : Batch S) : S → Option Nat :=
  batch.foldl (fun lens r => Function.update lens r.seqId (some r.seqLen)) lens

@[simp] theorem lensAfter_nil (lens : S → Option Nat) : lensAfter lens [] = lens := rfl

theorem lensAfter_append (lens : S → Option Nat) (batch : Batch S) (r : Request S) :
    lensAfter lens (batch ++ [r]) = update (lensAfter lens batch) r.seqId (some r.seqLen) := by
  simp [lensAfter]

theorem lensAfter_of_not_mem
    (absent : ∀ r ∈ batch, r.seqId ≠ x) : lensAfter lens batch x = lens x := by
  induction batch using reverseRecOn with
  | nil => rfl
  | append_singleton batch r ih =>
    rw [lensAfter_append, update_of_ne (absent r (by simp)).symm]
    exact ih fun r' hm => absent r' (mem_append_left _ hm)

variable (hd : (batch.map Request.seqId).Nodup)

include hd in
theorem lensAfter_of_mem (hm : r ∈ batch) :
    lensAfter lens batch r.seqId = some r.seqLen := by
  induction batch using reverseRecOn with
  | nil => cases hm
  | append_singleton batch last ih =>
    rw [map_append, nodup_append'] at hd
    rw [lensAfter_append]
    rcases mem_append.mp hm with earlier | hs
    · have other : r.seqId ≠ last.seqId := fun equal =>
        hd.2.2 (mem_map_of_mem earlier) (by simp [equal])
      rw [update_of_ne other]
      exact ih hd.1 earlier
    · rw [mem_singleton.mp hs, update_self]

def batchLens (batch : Batch S) : S → Option Nat := lensAfter (fun _ => none) batch

include hd in
theorem batchLens_ne_none_iff :
    batchLens batch x ≠ none ↔ ∃ r ∈ batch, r.seqId = x := by
  constructor
  · intro hf
    by_contra absent
    exact hf (lensAfter_of_not_mem fun r hm hs => absent ⟨r, hm, hs⟩)
  · rintro ⟨r, hm, rfl⟩
    rw [batchLens, lensAfter_of_mem hd hm]
    exact Option.some_ne_none _

include hd in
theorem request_of_batchLens {n : Nat}
    (hf : batchLens batch x = some n) : ∃ r ∈ batch, r.seqId = x ∧ r.seqLen = n := by
  obtain ⟨r, hm, rfl⟩ := (batchLens_ne_none_iff hd).mp (hf ▸ Option.some_ne_none n)
  exact ⟨r, hm, rfl, Option.some.inj ((lensAfter_of_mem hd hm).symm.trans hf)⟩

theorem lensAfter_restrict (lens : S → Option Nat) (hd : (batch.map Request.seqId).Nodup) :
    lensAfter (restrict lens (activeIds batch)) batch = batchLens batch := by
  funext x
  by_cases known : ∃ r ∈ batch, r.seqId = x
  · obtain ⟨r, hm, rfl⟩ := known
    rw [batchLens, lensAfter_of_mem hd hm, lensAfter_of_mem hd hm]
  · have absent : ∀ r ∈ batch, r.seqId ≠ x := fun r hm hs => known ⟨r, hm, hs⟩
    rw [batchLens, lensAfter_of_not_mem absent, lensAfter_of_not_mem absent, restrict, if_neg]
    simpa [activeIds] using absent

end

section

def blockCount (bs n : Nat) : Nat := (n + bs - 1) / bs

theorem lt_blockCount_iff (size : 0 < bs) {b n : Nat} : b < blockCount bs n ↔ b * bs < n := by
  unfold blockCount
  rw [Nat.lt_iff_add_one_le, Nat.le_div_iff_mul_le size, Nat.succ_mul]
  omega

def Bounded (cap bs : Nat) (batch : Batch S) : Prop :=
  batch.length ≤ 1 ∨ (batch.map fun r => blockCount bs r.seqLen).sum ≤ cap

instance (cap bs : Nat) (batch : Batch S) : Decidable (Bounded cap bs batch) := inferInstanceAs (Decidable (_ ∨ _))

def batchRoom (bs : Nat) (batch : Batch S) : List (S × Nat) :=
  batch.flatMap fun r => (List.range (blockCount bs r.seqLen)).map fun b => (r.seqId, b)

theorem mem_batchRoom (size : 0 < bs) (hm : r ∈ batch) {b : Nat}
    (hb : b * bs < r.seqLen) : (r.seqId, b) ∈ batchRoom bs batch := by
  refine mem_flatMap.mpr ⟨r, hm, mem_map.mpr ⟨b, ?_, rfl⟩⟩
  exact mem_range.mpr ((lt_blockCount_iff size).mpr hb)

theorem blockCount_le (size : 0 < bs) (n : Nat) : blockCount bs n ≤ n / bs + 1 := by
  rw [← Nat.add_div_right n size]
  exact Nat.div_le_div_right (by omega)

/-- How a batch within the arena is served: all of it resident, or one request longer than the arena. -/
inductive Service (cap bs : Nat) (batch : Batch S) : Mode → Prop
  | alone (r : Request S) (only : batch = [r]) (long : cap ≤ r.seqLen / bs) : Service cap bs batch .alone
  | shared (short : ∀ r ∈ batch, r.seqLen / bs < cap) (fits : (batchRoom bs batch).length ≤ cap) : Service cap bs batch .shared

theorem service_of_bounded {cap : Nat} (size : 0 < bs) (bounded : Bounded cap bs batch)
    (hp : ∀ r ∈ batch, 0 < r.seqLen) : ∃ mode, Service cap bs batch mode := by
  by_cases short : ∀ r ∈ batch, r.seqLen / bs < cap
  · refine ⟨.shared, .shared short ?_⟩
    simp only [batchRoom, length_flatMap, length_map, length_range]
    rcases bounded with single | fits
    · match batch, single with
      | [], _ => simp
      | [r], _ =>
        have := blockCount_le size r.seqLen
        have := short r (.head _)
        simp only [map_cons, map_nil, sum_cons, sum_nil]
        omega
    · exact fits
  push Not at short
  obtain ⟨r, hm, long⟩ := short
  refine ⟨.alone, .alone r ?_ long⟩
  have whole : r.seqLen / bs ≤ blockCount bs r.seqLen := Nat.div_le_div_right (by omega)
  obtain ⟨before, after, rfl⟩ := append_of_mem hm
  -- Next to a request that fills the arena there is no room for another one.
  have others : ∀ r' ∈ before ++ after, 0 < blockCount bs r'.seqLen := by
    intro r' hi
    refine (lt_blockCount_iff size).mpr ?_
    rw [Nat.zero_mul]
    refine hp r' ?_
    simp only [mem_append] at hi ⊢
    tauto
  have none : before ++ after = [] := by
    rcases bounded with single | fits
    · simp only [length_append, length_cons] at single
      exact eq_nil_of_length_eq_zero (by rw [length_append]; omega)
    · by_contra some
      obtain ⟨r', hi⟩ := exists_mem_of_ne_nil _ some
      have count := le_sum_of_mem (mem_map_of_mem (f := fun r => blockCount bs r.seqLen) hi)
      have := others r' hi
      simp only [map_append, map_cons, sum_append, sum_cons] at fits count
      omega
  obtain ⟨rfl, rfl⟩ := append_eq_nil_iff.mp none
  rfl

end

section

variable [DecidableEq S] {cfg : TierConfig bs R D} {lens : S → Option Nat} {data content' : S × Nat → KVBlock bs R}
  {s t : TierManager S D (Memory bs R)}

theorem serving_init (cfg : TierConfig bs R D) (mem : Memory bs R) (summary : Nat → D)
    (data : S × Nat → KVBlock bs R) : Serving cfg (fun _ => none) data (TierManager.init cfg mem summary) where
  books := books_init cfg mem summary
  coherent := by
    have empty : storedOf bs (fun _ : S => none) = ∅ ∧ liveOf bs (fun _ : S => none) = ∅ := by
      simp [storedOf, liveOf]
    rw [empty.1, empty.2]
    exact coherent_init cfg mem summary data
  trimmed := by simp [TierManager.init]
  active := by simp [TierManager.init, previousSeqs]
  short _ _ hf := by cases hf
  long _ _ hf := by cases hf
  plain := by simp [TierManager.init, protectedKeys]

variable (lens data) in
def Continues (engine : Nat → KVBlock bs R)
    (batch : Batch S) : Prop :=
  ∀ r ∈ batch, ∀ n, lens r.seqId = some n →
    n / bs = (r.seqLen - 1) / bs ∧ ∀ b < n / bs, engine (r.blockTable b) = data (r.seqId, b)

variable (cfg data) in
def noteSummary (summary : Nat → D) (r : Request S) :
    Nat → D :=
  if r.seqLen % bs = 0 then
    Function.update summary (r.seqLen / bs - 1) (cfg.digest (data (r.seqId, r.seqLen / bs - 1)).k)
  else summary

variable (cfg lens data) in
structure Handled (batch : Batch S) (mode : Mode) (done : Batch S) (s t : TierManager S D (Memory bs R)) : Prop where
  books : Books cfg [] t
  coherent : Coherent cfg ∅ (storedOf bs (lensAfter lens done)) (liveOf bs (lensAfter lens done)) data t
  regime : ∀ r ∈ batch, Regime cfg (storedOf bs (lensAfter lens done)) (liveOf bs (lensAfter lens done))
    (batchRoom bs batch) r.seqId (r.seqLen / bs) t mode
  trimmed : ∀ x, x ∈ t.trimmed ↔ lensAfter lens done x ≠ none
  activeSeqs : t.activeSeqs = some (activeIds batch)
  plain : ∀ x, protectedKeys cfg t x = []
  liveHere : ∀ r ∈ done, ∀ b ∈ liveBlocks bs r.seqLen, ∃ slot, t.slotMap.slot? (r.seqId, b) = some slot ∧
    t.mem.arena slot = data (r.seqId, b)
  summary : t.summary = done.foldl (noteSummary cfg data) s.summary

variable {engine : Nat → KVBlock bs R} {mode : Mode} {done : Batch S}

theorem mem_batchRoom_of_known (size : 0 < bs)
    (continues : Continues lens data engine batch) (hp : ∀ r ∈ batch, 0 < r.seqLen) {k : S × Nat}
    (known : k ∈ storedOf bs (restrict lens (activeIds batch)) ∨ k ∈ liveOf bs (restrict lens (activeIds batch))) :
    k ∈ batchRoom bs batch := by
  obtain ⟨x, b⟩ := k
  have bound : ∃ n, restrict lens (activeIds batch) x = some n ∧ b ≤ n / bs := by
    rcases known with ⟨n, hf, hb⟩ | ⟨n, hf, last⟩
    · exact ⟨n, hf, le_of_lt hb⟩
    · exact ⟨n, hf, (eq_div_of_mem_liveBlocks last).le⟩
  obtain ⟨n, hf, hb⟩ := bound
  unfold restrict at hf
  split at hf
  · rename_i active
    obtain ⟨r, hm, rfl⟩ := mem_map.mp (mem_dedup.mp active)
    refine mem_batchRoom size hm ?_
    have := hp r hm
    have := Nat.div_mul_le_self (r.seqLen - 1) bs
    rw [(continues r hm n hf).1] at hb
    have := Nat.mul_le_mul_right bs hb
    omega
  · cases hf

theorem Serving.release
    (serving : Serving cfg lens data s) (size : 0 < bs) (continues : Continues lens data engine batch)
    (agrees : ∀ r ∈ batch, ∀ b, engine (r.blockTable b) = content' (r.seqId, b))
    (hp : ∀ r ∈ batch, 0 < r.seqLen) (service : Service cfg.gpuBudget bs batch mode)
    {E : QuestError S → TierManager S D (Memory bs R) → Prop} :
    wp (releaseInactive (activeIds batch))
      (fun _ t => Handled cfg (restrict lens (activeIds batch)) content' batch mode [] s t) E s := by
  refine wp_imp (releaseInactive_coherent serving.books serving.coherent (fun k known => ?_) (fun x hm left k hi foreign => ?_))
    ?_
  · exact (serving.active _).mpr (lens_of_known known)
  · obtain ⟨n, hf, hb⟩ := hi
    by_cases short : n / bs < cfg.gpuBudget
    · exact serving.short k.1 n hf short k.2 hb
    · have only := serving.long k.1 n hf (Nat.le_of_not_lt short) x ((serving.active x).mp hm)
      exact absurd only.symm foreign
  rintro _ t released
  have hc : Coherent cfg ∅ (storedOf bs (restrict lens (activeIds batch)))
      (liveOf bs (restrict lens (activeIds batch))) content' t := by
    rw [storedOf_restrict, liveOf_restrict]
    refine released.coherent.widen (Set.empty_subset _) (fun _ _ => Iff.rfl) (fun _ _ => .inr) (fun k hm _ => ?_)
    obtain ⟨x, b⟩ := k
    obtain ⟨⟨n, hf, hb⟩, active⟩ := hm
    obtain ⟨r, hi, rfl⟩ := mem_map.mp (mem_dedup.mp active)
    exact (agrees r hi b).symm.trans ((continues r hi n hf).2 b hb)
  refine ⟨released.books, hc, fun r hm => ?_, fun x => ?_, released.activeSeqs, released.plain serving.plain,
    fun r none => absurd none not_mem_nil, released.summary⟩
  · cases service with
    | alone only single _ =>
      refine .alone fun k known => ?_
      have active : k.1 ∈ activeIds batch := by
        by_contra absent
        exact lens_of_known known (if_neg absent)
      rw [single] at active hm
      rw [mem_singleton.mp hm]
      simpa [activeIds] using active
    | shared short fits =>
      refine .shared ⟨fits, fun k held => ?_, fun k hi => ?_⟩ (short r hm)
      · obtain ⟨slot, held⟩ := Option.ne_none_iff_exists'.mp held
        exact mem_batchRoom_of_known size continues hp (hc.known k (Set.notMem_empty _) slot held)
      · rw [lensAfter_nil, storedOf_restrict] at hi
        obtain ⟨⟨n, hf, hb⟩, active⟩ := hi
        rw [released.slots k active]
        obtain ⟨r', hm', owner⟩ := mem_map.mp (mem_dedup.mp active)
        refine serving.short k.1 n hf ?_ k.2 hb
        rw [(continues r' hm' n (owner ▸ hf)).1]
        exact lt_of_le_of_lt (Nat.div_le_div_right (Nat.sub_le _ _)) (short r' hm')
  · rw [released.trimmed, serving.trimmed]
    rw [lensAfter_nil, restrict]
    by_cases active : x ∈ activeIds batch
    · simp [active]
    · simp only [active, false_or, ↓reduceIte, ne_eq, not_true_eq_false, iff_false, not_and, not_not]
      exact (serving.active x).mpr

theorem Handled.next
    (handled : Handled cfg lens data batch mode done s t) (size : 0 < bs) (hm : r ∈ batch)
    (fresh : ∀ r' ∈ done, r'.seqId ≠ r.seqId) (service : Service cfg.gpuBudget bs batch mode)
    (continues : ∀ n, lens r.seqId = some n → n / bs = (r.seqLen - 1) / bs)
    (agrees : ∀ b, engine (r.blockTable b) = data (r.seqId, b)) (hp : 0 < r.seqLen) (two : 2 ≤ cfg.gpuBudget) :
    wp (notifyDecodeRequest cfg engine r)
      (fun _ u => Handled cfg lens data batch mode (done ++ [r]) s u)
      (fun e _ => Exhausted cfg (storedOf bs (lensAfter lens (done ++ [r]))) e) t := by
  have before : lensAfter lens done r.seqId = lens r.seqId := lensAfter_of_not_mem fresh
  have tracking : Tracking bs (storedOf bs (lensAfter lens done)) (liveOf bs (lensAfter lens done)) r t := by
    cases known : lens r.seqId with
    | none =>
      refine .new (fun trimmed => (handled.trimmed _).mp trimmed (before.trans known)) fun b => ⟨?_, ?_⟩
      · exact fun hi => lens_of_known (.inl hi) (before.trans known)
      · exact fun hi => lens_of_known (.inr hi) (before.trans known)
    | some n =>
      have hf := before.trans known
      refine .old ((handled.trimmed _).mpr (hf ▸ Option.some_ne_none n)) (fun b => ?_) (fun b hi => ?_)
      · simp [storedOf, hf, continues n known]
      · obtain ⟨n', hf', last⟩ := hi
        obtain rfl := Option.some.inj (hf.symm.trans hf')
        exact (eq_div_of_mem_liveBlocks last).trans (continues n known)
  have stored : storedOf bs (update (lensAfter lens done) r.seqId (some r.seqLen)) = _ := storedOf_update ..
  have live : liveOf bs (update (lensAfter lens done) r.seqId (some r.seqLen)) = _ := liveOf_update ..
  rw [← lensAfter_append] at stored live
  refine wp_mono (notifyDecodeRequest_coherent handled.books handled.coherent agrees tracking (handled.regime r hm)
    (fun b hb => mem_batchRoom size hm hb) two hp) ?_ (fun _ _ h => stored ▸ h)
  rintro _ u notified
  have hc := notified.coherent
  have regime := notified.regime
  rw [← stored, ← live] at hc regime
  refine ⟨notified.books, hc, fun r' hm' => ?_, fun x => ?_, notified.spared.activeSeqs.trans handled.activeSeqs,
    fun x => ?_, fun r' hi b last => ?_, ?_⟩
  · cases service with
    | alone only single _ =>
      rw [single, mem_singleton] at hm hm'
      rw [hm', ← hm]
      exact regime
    | shared short _ =>
      cases regime with
      | shared roomy _ => exact .shared roomy (short r' hm')
  · rw [notified.spared.trimmed, Finset.mem_insert, handled.trimmed, lensAfter_append]
    by_cases hs : x = r.seqId <;> simp [hs]
  · have plain := handled.plain x
    unfold protectedKeys at plain ⊢
    rw [notified.spared.prevSelected]
    exact plain
  · rcases mem_append.mp hi with earlier | last'
    · have other := fresh r' earlier
      obtain ⟨slot, held, filled⟩ := handled.liveHere r' earlier b last
      exact ⟨slot, (notified.spared.slots _ other).trans held, (notified.spared.arena _ other slot held).trans filled⟩
    · obtain rfl := mem_singleton.mp last'
      exact notified.liveHere b last
  · rw [notified.summary, handled.summary, foldl_append]
    rfl

theorem storedOf_lensAfter_subset
    (hd : (batch.map Request.seqId).Nodup) (continues : Continues lens data engine batch) (sub : done.Sublist batch) :
    storedOf bs (lensAfter (restrict lens (activeIds batch)) done) ⊆ storedOf bs (batchLens batch) := by
  rintro ⟨x, b⟩ ⟨n, hf, hb⟩
  by_cases handled : ∃ r ∈ done, r.seqId = x
  · obtain ⟨r, hm, rfl⟩ := handled
    rw [lensAfter_of_mem (hd.sublist (sub.map _)) hm] at hf
    exact ⟨n, (lensAfter_of_mem hd (sub.subset hm)).trans hf, hb⟩
  · rw [lensAfter_of_not_mem fun r hm hs => handled ⟨r, hm, hs⟩, restrict] at hf
    split at hf
    · rename_i active
      obtain ⟨r, hm, rfl⟩ := mem_map.mp (mem_dedup.mp active)
      refine ⟨r.seqLen, lensAfter_of_mem hd hm, lt_of_lt_of_le hb ?_⟩
      rw [(continues r hm n hf).1]
      exact Nat.div_le_div_right (Nat.sub_le _ _)
    · cases hf

theorem Serving.notify (serving : Serving cfg lens data s) (size : 0 < bs) (hd : (batch.map Request.seqId).Nodup)
    (continues : Continues lens data engine batch) (agrees : ∀ r ∈ batch, ∀ b, engine (r.blockTable b) = content' (r.seqId, b))
    (hp : ∀ r ∈ batch, 0 < r.seqLen) (service : Service cfg.gpuBudget bs batch mode) (two : 2 ≤ cfg.gpuBudget) :
    wp (notifyFilledBlocksAfterDecode cfg engine batch)
      (fun _ t => Handled cfg (restrict lens (activeIds batch)) content' batch mode batch s t)
      (fun e _ => Exhausted cfg (storedOf bs (batchLens batch)) e) s := by
  unfold notifyFilledBlocksAfterDecode
  rw [wp_bind]
  refine wp_imp (serving.release size continues agrees hp service) ?_
  rintro _ t handled
  refine wp_forM_handled (I := fun done u => Handled cfg (restrict lens (activeIds batch)) content' batch mode done s u)
    (fun done r rest split u handled' => ?_) handled
  have hm := split ▸ mem_append_right _ (.head _)
  refine wp_mono (handled'.next size hm (fun r' earlier hs => ?_) service (fun n hf => ?_) (agrees r hm)
    (hp r hm) two) (fun _ _ h => h) (fun _ _ h => h.mono (storedOf_lensAfter_subset hd continues ?_))
  · rw [split, map_append, nodup_append'] at hd
    exact hd.2.2 (mem_map_of_mem earlier) (hs ▸ mem_map_of_mem (.head _))
  · unfold restrict at hf
    split at hf
    · exact (continues r hm n hf).1
    · cases hf
  · rw [split]
    simp

variable (handled : Handled cfg (restrict lens (activeIds batch)) data batch mode batch s t) (hd : (batch.map Request.seqId).Nodup) (service : Service cfg.gpuBudget bs batch mode)

include handled hd service in
theorem Handled.serving {u : TierManager S D (Memory bs R)}
    (books : Books cfg [] u) (hc : Coherent cfg ∅ (storedOf bs (batchLens batch)) (liveOf bs (batchLens batch)) data u)
    (quiet : Quiet t u) (slots : mode = .shared → ∀ k, u.slotMap.slot? k = t.slotMap.slot? k) :
    Serving cfg (batchLens batch) data u := by
  have after := lensAfter_restrict lens hd
  refine ⟨books, hc, fun x => ?_, fun x => ?_, fun x n hf short b hb => ?_, fun x n hf long y known => ?_, fun x => ?_⟩
  · rw [quiet.trimmed, handled.trimmed, after]
  · rw [batchLens_ne_none_iff hd, previousSeqs, quiet.activeSeqs, handled.activeSeqs]
    simp [activeIds]
  · obtain ⟨r, hm, rfl, rfl⟩ := request_of_batchLens hd hf
    have regime := handled.regime r hm
    cases service with
    | alone only single long =>
      rw [single, mem_singleton] at hm
      exact absurd (hm ▸ short) (not_lt.mpr long)
    | shared _ _ =>
      cases regime with
      | shared roomy _ =>
        rw [slots rfl]
        refine roomy.here _ ?_
        rw [after]
        exact ⟨r.seqLen, hf, hb⟩
  · obtain ⟨r, hm, rfl, rfl⟩ := request_of_batchLens hd hf
    obtain ⟨r', hm', rfl⟩ := (batchLens_ne_none_iff hd).mp known
    cases service with
    | alone only single _ =>
      rw [single, mem_singleton] at hm hm'
      rw [hm, hm']
    | shared short _ => exact absurd (short r hm) (not_lt.mpr long)
  · have plain := handled.plain x
    unfold protectedKeys at plain ⊢
    rw [quiet.prevSelected]
    exact plain

/-- Every selection the scoring may return for a request of the batch fits the arena next to the trailing block. -/
def ValidSelect (cap topK bs : Nat) (select : Select S D) (batch : Batch S) : Prop :=
  ∀ r ∈ batch, ∀ summary, ValidIds (r.seqLen / bs) (cap - 1) (select r summary (r.seqLen / bs) (min topK (r.seqLen / bs)))

include handled hd service in
theorem Handled.decode {topK : Nat} {select : Select S D}
    (valid : ValidSelect cfg.gpuBudget topK bs select batch) (two : 2 ≤ cfg.gpuBudget) :
    wp (runSparseDecode cfg topK select batch) (fun out u => Serving cfg (batchLens batch) data u ∧
      u.summary = t.summary ∧
      List.Forall₂ (fun r g => Served topK select (fun b => data (r.seqId, b)) t.summary r g) batch out)
      (fun e _ => Exhausted cfg (storedOf bs (batchLens batch)) e) t := by
  have hc := handled.coherent
  have regimes := handled.regime
  rw [lensAfter_restrict lens hd] at hc regimes
  unfold runSparseDecode
  cases service with
  | alone r single long =>
    subst single
    have lone : storedOf bs (batchLens [r]) = blocksOf r.seqId (r.seqLen / bs) := by
      rw [show batchLens [r] = update (fun _ => none) r.seqId (some r.seqLen) from rfl, storedOf_update]
      simp [others, storedOf]
    have hc' := hc
    rw [lone] at hc'
    simp only [mapM_cons, wp_bind]
    refine wp_mono (decodeRequest_coherent handled.books hc' (valid r (.head _) t.summary) (by omega)
      (fun k hm => ?_) (handled.liveHere r (.head _)) (handled.plain r.seqId)) ?_ (fun _ _ h => lone ▸ h)
    · obtain ⟨n, hf, last⟩ := hm
      obtain ⟨r', hm', owner, rfl⟩ := request_of_batchLens hd hf
      obtain rfl := mem_singleton.mp hm'
      exact ⟨k.2, last, Prod.ext owner.symm rfl⟩
    rintro g u ⟨⟨books, hc'', quiet, _⟩, served⟩
    refine ⟨handled.serving hd (.alone r rfl long) books (lone ▸ hc'') quiet nofun, quiet.summary, ?_⟩
    exact .cons served .nil
  | shared short fits =>
    refine wp_imp (wp_mapM (E := fun e _ => Exhausted cfg (storedOf bs (batchLens batch)) e) (I := fun u => Reordered t u) (P := fun r g =>
      Served topK select (fun b => data (r.seqId, b)) t.summary r g) (fun r hm u hs => ?_) (Reordered.refl t))
      ?_
    · have readable : Readable r.seqId (range (r.seqLen / bs) ++ liveBlocks bs r.seqLen) data t := by
        intro b hi
        rcases mem_append.mp hi with hb | last
        · have stored : (r.seqId, b) ∈ storedOf bs (batchLens batch) :=
            ⟨r.seqLen, lensAfter_of_mem hd hm, mem_range.mp hb⟩
          cases regimes r hm with
          | shared roomy _ =>
            obtain ⟨slot, held⟩ := Option.ne_none_iff_exists'.mp (roomy.here _ stored)
            exact ⟨slot, held, hc.resident _ stored (Set.notMem_empty _) slot held⟩
        · exact handled.liveHere r hm b last
      have chosen := valid r hm u.summary
      refine wp_imp (decodeRequest_here chosen ((hs.readable readable).selected chosen)) ?_
      rintro g v ⟨hs', served⟩
      rw [hs.quiet.summary] at served
      exact ⟨hs.trans hs', served⟩
    · rintro out u ⟨hs, served⟩
      exact ⟨handled.serving hd (.shared short fits) (hs.books handled.books) (hs.coherent hc) hs.quiet
        fun _ => hs.slots, hs.quiet.summary, served⟩

end

end KVOffload.Quest
