import KVOffload.Lib.Purge
import KVOffload.Quest.KvshareRun

/-!
# The shared scratch

With `footprint_kvshare` the Quest layers of a model keep their K/V in one tensor. The engine writes it for the first of them,
`forward` for the others. The model is one request on one device; `reads` records what FlashAttention was given.
-/

namespace KVOffload.Quest

open List Function

/-! ### Which layers share -/

/-- `_quest_kvshare_target`, with the layers by their indices. `constructed` are the layers built so far. -/
def questKvshareTarget (layerIdx : Nat) (fullKvLayers constructed : List Nat) : Option Nat :=
  if layerIdx ∈ fullKvLayers then none
  else
    match (constructed.filter (· ∉ fullKvLayers)).min? with
    | none => none
    | some scratch => if layerIdx ≤ scratch then none else some scratch

/-- A model with `footprint_kvshare` on. `numBlocks` is the size of the scratch tensor. -/
structure ShareModel (D : Type) (bs : Nat) (R : Type) where
  numLayers : Nat
  fullKvLayers : List Nat
  layer : Nat → TierConfig bs R D
  topK : Nat
  numBlocks : Nat

variable {rest : List Nat} {first l : Nat} {S D R : Type}

namespace ShareModel

variable {D R : Type} {bs : Nat} (m : ShareModel D bs R)

def questLayers : List Nat := (List.range m.numLayers).filter (· ∉ m.fullKvLayers)

/-- The `kv_sharing_target` that a layer gets when it is built, after the layers before it. -/
def target (l : Nat) : Option Nat := questKvshareTarget l m.fullKvLayers (List.range (l + 1))

theorem nodup_questLayers : m.questLayers.Nodup := nodup_range.filter _

variable {m}

theorem mem_questLayers : l ∈ m.questLayers ↔ l < m.numLayers ∧ l ∉ m.fullKvLayers := by
  simp [questLayers]

theorem target_eq_none_iff (quest : l ∉ m.fullKvLayers) : m.target l = none ↔ ∀ l' < l, l' ∈ m.fullKvLayers := by
  unfold target questKvshareTarget
  rw [if_neg quest]
  cases lowest : ((range (l + 1)).filter (· ∉ m.fullKvLayers)).min? with
  | none =>
    have hm : l ∈ (range (l + 1)).filter (· ∉ m.fullKvLayers) := by simp [quest]
    rw [min?_eq_none_iff.mp lowest] at hm
    exact absurd hm not_mem_nil
  | some scratch =>
    obtain ⟨hm, least⟩ := min?_eq_some_iff.mp lowest
    simp only [mem_filter, mem_range, decide_eq_true_eq] at hm least
    dsimp only
    constructor
    · intro kept l' before
      by_contra other
      have := least l' ⟨by omega, other⟩
      rw [if_neg (by omega)] at kept
      cases kept
    · intro alone
      have : ¬ scratch < l := fun before => hm.2 (alone scratch before)
      rw [if_pos (by omega)]

theorem target_of_questLayers (layers : m.questLayers = first :: rest) :
    m.target first = none ∧ ∀ l ∈ rest, m.target l ≠ none := by
  have sorted : m.questLayers.Pairwise (· < ·) := pairwise_lt_range.filter _
  rw [layers, pairwise_cons] at sorted
  have quest : ∀ l ∈ first :: rest, l < m.numLayers ∧ l ∉ m.fullKvLayers := fun l hm => by
    rw [← layers] at hm
    exact mem_questLayers.mp hm
  constructor
  · rw [target_eq_none_iff (quest first (.head _)).2]
    intro l before
    by_contra other
    have hm : l ∈ first :: rest := by
      rw [← layers]
      exact mem_questLayers.mpr ⟨before.trans (quest first (.head _)).1, other⟩
    rcases mem_cons.mp hm with rfl | later
    · exact lt_irrefl _ before
    · exact lt_asymm before (sorted.1 l later)
  · intro l hm kept
    rw [target_eq_none_iff (quest l (.tail _ hm)).2] at kept
    exact (quest first (.head _)).2 (kept first (sorted.1 l hm))

end ShareModel

/-! ### Rows of a paged cache -/

section

variable {R : Type} {bs : Nat} [NeZero bs]

def tokenRow (table : Nat → Nat) (cache : Nat → KVBlock bs R) (t : Nat) : R × R :=
  ((cache (table (t / bs))).k (Fin.ofNat bs t), (cache (table (t / bs))).v (Fin.ofNat bs t))

def storeToken (table : Nat → Nat) (t : Nat) (row : R × R) (cache : Nat → KVBlock bs R) : Nat → KVBlock bs R :=
  update cache (table (t / bs))
    ((cache (table (t / bs))).overwrite fun i => if i = Fin.ofNat bs t then some row else none)

def storeTokens (table : Nat → Nat) (row : Nat → R × R) (before after : Nat) (cache : Nat → KVBlock bs R) :
    Nat → KVBlock bs R :=
  (List.range (after - before)).foldl (fun cache i => storeToken table (before + i) (row (before + i)) cache) cache

variable {table : Nat → Nat} {total : Nat} (distinct : Set.InjOn table {b | b * bs < total})

include distinct

theorem tokenRow_storeToken {t u : Nat} (row : R × R) (cache : Nat → KVBlock bs R) (stored : t < total) (read : u < total) :
    tokenRow table (storeToken table t row cache) u = if u = t then row else tokenRow table cache u := by
  unfold tokenRow storeToken
  by_cases block : u / bs = t / bs
  · rw [block, update_self]
    by_cases place : Fin.ofNat bs u = Fin.ofNat bs t
    · have offset : u % bs = t % bs := congrArg Fin.val place
      have hs : u = t := by rw [← Nat.div_add_mod' u, ← Nat.div_add_mod' t, block, offset]
      simp [KVBlock.overwrite, hs]
    · have other : u ≠ t := fun hs => place (by rw [hs])
      simp only [KVBlock.overwrite, place, other, ↓reduceIte, Option.map_none, Option.getD_none]
  · have other : u ≠ t := fun hs => block (by rw [hs])
    have blocks : u / bs * bs < total ∧ t / bs * bs < total :=
      ⟨(Nat.div_mul_le_self u bs).trans_lt read, (Nat.div_mul_le_self t bs).trans_lt stored⟩
    rw [update_of_ne (fun hs => block (distinct blocks.1 blocks.2 hs)), if_neg other]

theorem tokenRow_storeTokens (row : Nat → R × R) {before after u : Nat} (cache : Nat → KVBlock bs R) (stored : after ≤ total)
    (read : u < total) :
    tokenRow table (storeTokens table row before after cache) u =
      if before ≤ u ∧ u < after then row u else tokenRow table cache u := by
  have upTo : ∀ n ≤ after - before, tokenRow table
      ((range n).foldl (fun cache i => storeToken table (before + i) (row (before + i)) cache) cache) u =
      if before ≤ u ∧ u < before + n then row u else tokenRow table cache u := by
    intro n bound
    induction n with
    | zero => rw [range_zero, foldl_nil, if_neg (by omega)]
    | succ n ih =>
      rw [range_succ, foldl_append, foldl_cons, foldl_nil, tokenRow_storeToken distinct _ _ (by omega) read, ih (by omega)]
      by_cases last : u = before + n
      · rw [if_pos last, if_pos (by omega), last]
      · rw [if_neg last]
        by_cases hi : before ≤ u ∧ u < before + n
        · rw [if_pos hi, if_pos (by omega)]
        · rw [if_neg hi, if_neg (by omega)]
  unfold storeTokens
  rw [upTo _ (le_refl _)]
  by_cases hi : before ≤ u ∧ u < after
  · rw [if_pos hi, if_pos (by omega)]
  · rw [if_neg hi, if_neg (by omega)]

end

/-! ### The passes -/

inductive ScratchError (S : Type) where
  /-- "kvshare scratch overflow". -/
  | overflow
  /-- "INVARIANT-1 violated": the layer that wrote the scratch has not offloaded. -/
  | ownerBusy (writer layer : Nat)
  | tier (layer : Nat) (error : QuestError S)

structure DenseRead (R : Type) where
  layer : Nat
  seqLen : Nat
  row : Nat → R × R

structure ScratchState (S D : Type) (bs : Nat) (R : Type) where
  scratch : Nat → KVBlock bs R
  /-- The entry of `_SCRATCH_OWNER`: the last writer, and whether its offload is done. -/
  owner : Option (Nat × Bool) := none
  wrote : List Nat := []
  tiers : Nat → TierManager S D (Memory bs R)
  reads : List (DenseRead R) := []

structure ShareRequest (S D R : Type) where
  seq : S
  table : Nat → Nat
  kv : Nat → Nat → R × R
  select : Nat → Select S D

structure OnScratch (bs numBlocks : Nat) (req : ShareRequest S D R) (total : Nat) : Prop where
  distinct : Set.InjOn req.table {b | b * bs < total}
  fits : ∀ b, b * bs < total → req.table b < numBlocks

def OwnRows (req : ShareRequest S D R) (read : DenseRead R) : Prop :=
  ∀ t < read.seqLen, read.row t = req.kv read.layer t

abbrev ScratchM (S D : Type) (bs : Nat) (R : Type) := EStateM (ScratchError S) (ScratchState S D bs R)

section

variable {S D R : Type} {bs : Nat} [NeZero bs] [DecidableEq S] (m : ShareModel D bs R) (req : ShareRequest S D R)

def onTier (l : Nat) {α : Type} (x : TierM S D (Memory bs R) α) : ScratchM S D bs R α :=
  onPart (fun s => s.tiers l) (fun t s => { s with tiers := update s.tiers l t }) (.tier l) x

def layerPass (l before after : Nat) (scratch : Nat → KVBlock bs R) : Pass S D bs R :=
  tokenPass req.seq (fun t => (req.kv l t).1) (fun t => (req.kv l t).2) scratch req.table (req.select l) before after

def writeRows (l before after : Nat) (s : ScratchState S D bs R) : ScratchState S D bs R :=
  { s with scratch := storeTokens req.table (req.kv l) before after s.scratch }

def kvshareWriteScratch (l before after : Nat) : ScratchM S D bs R Unit := do
  ensure (∀ t < after, before ≤ t → req.table (t / bs) * bs + t % bs < m.numBlocks * bs) .overflow
  match (← get).owner with
  | none => pure ()
  | some (writer, done) => ensure (done = true) (.ownerBusy writer l)
  modify fun s => { writeRows req l before after s with owner := some (l, false), wrote := l :: s.wrote }

def releaseScratch (l : Nat) (s : ScratchState S D bs R) : ScratchState S D bs R :=
  if l ∈ s.wrote then { s with owner := s.owner.map fun entry => (entry.1, true) } else s

def recordRead (l after : Nat) (s : ScratchState S D bs R) : ScratchState S D bs R :=
  { s with reads := s.reads ++ [⟨l, after, tokenRow req.table s.scratch⟩] }

def attend (before after l : Nat) : ScratchM S D bs R Unit := do
  onlyIf (m.target l = none) (modify (writeRows req l before after))
  let pass := layerPass req l before after (← get).scratch
  onlyIf (TakesDense bs pass.batch) do
    onlyIf (1 < maxQueryLen pass.batch ∧ m.target l ≠ none) (kvshareWriteScratch m req l before after)
    modify (recordRead req l after)

/-- `Attention.forward` of a Quest layer. The hooks and the sparse decode work on the layer's own tier manager. -/
def layerForward (before after l : Nat) : ScratchM S D bs R Unit := do
  attend m req before after l
  let pass := layerPass req l before after (← get).scratch
  let _ ← onTier l (forward (m.layer l) m.topK true pass)
  onlyIf (1 < maxQueryLen pass.batch) (modify (releaseScratch l))

def sharedPass (pass : Nat × Nat) : ScratchM S D bs R Unit :=
  forM m.questLayers fun l => layerForward m req pass.1 pass.2 l

def chunkPasses : Nat → List Nat → List (Nat × Nat)
  | _, [] => []
  | before, c :: rest => (before, before + c) :: chunkPasses (before + c) rest

def sharedRun (chunks : List Nat) : ScratchM S D bs R Unit := forM (chunkPasses 0 chunks) fun pass => sharedPass m req pass

def ScratchState.init (scratch : Nat → KVBlock bs R) (mem : Memory bs R) (summary : Nat → D) : ScratchState S D bs R where
  scratch := scratch
  tiers l := TierManager.init (m.layer l) mem summary

end

/-! ### One layer of one pass -/

section

variable {S D R : Type} {bs before after total : Nat} {m : ShareModel D bs R} {req : ShareRequest S D R}
  {s s' : ScratchState S D bs R}

theorem maxQueryLen_layerPass (scratch : Nat → KVBlock bs R) :
    maxQueryLen (layerPass req l before after scratch).batch = after - before := by
  simp [layerPass, tokenPass, maxQueryLen, Request.queryLen]

theorem takesDense_layerPass (scratch : Nat → KVBlock bs R) :
    TakesDense bs (layerPass req l before after scratch).batch ↔ 1 < after - before ∨ after < bs := takesDense_tokenPass

variable (s) in
def ScratchState.Idle : Prop := ∀ writer done, s.owner = some (writer, done) → done = true

theorem releaseScratch_frame (l : Nat) (s : ScratchState S D bs R) :
    (releaseScratch l s).scratch = s.scratch ∧ (releaseScratch l s).reads = s.reads ∧ (releaseScratch l s).tiers = s.tiers := by
  unfold releaseScratch
  split <;> exact ⟨rfl, rfl, rfl⟩

theorem idle_releaseScratch (held : s.Idle ∨ l ∈ s.wrote) : (releaseScratch l s).Idle := by
  unfold releaseScratch
  split
  · intro writer done owned
    obtain ⟨_, _, hs⟩ := Option.map_eq_some_iff.mp owned
    exact (congrArg Prod.snd hs).symm
  · rename_i other
    exact held.resolve_right other

variable [NeZero bs] {E : ScratchError S → ScratchState S D bs R → Prop} {s₁ : ScratchState S D bs R}

variable (m req) in
/-- What a layer does to the scratch: it writes its tokens unless it shares and the pass is no prefill, and if it
delegates, FlashAttention reads the scratch after that. -/
structure Attended (l before after : Nat)
    (s s' : ScratchState S D bs R) : Prop where
  scratch : s'.scratch = if m.target l = none ∨ 1 < after - before then storeTokens req.table (req.kv l) before after s.scratch
    else s.scratch
  reads : s'.reads = s.reads ++ if 1 < after - before ∨ after < bs then [⟨l, after, tokenRow req.table s'.scratch⟩] else []
  others : ∀ l' ≠ l, s'.tiers l' = s.tiers l'

variable (placed : OnScratch bs m.numBlocks req total)

include placed in
theorem wp_kvshareWriteScratch {Q : Unit → ScratchState S D bs R → Prop}
    (hi : after ≤ total) (idle : s.Idle)
    (done : Q () { writeRows req l before after s with owner := some (l, false), wrote := l :: s.wrote }) :
    wp (kvshareWriteScratch m req l before after) Q E s := by
  have fits : ∀ t < after, before ≤ t → req.table (t / bs) * bs + t % bs < m.numBlocks * bs := by
    intro t hb _
    have row := Nat.mod_lt t (Nat.pos_of_neZero bs)
    have block := Nat.mul_le_mul_right bs (placed.fits (t / bs) ((Nat.div_mul_le_self t bs).trans_lt (by omega)))
    rw [Nat.succ_mul] at block
    omega
  simp only [kvshareWriteScratch, wp_bind, wp_ensure, wp_get]
  refine ⟨fun _ => ?_, fun beyond => absurd fits beyond⟩
  rcases owned : s.owner with _ | ⟨writer, offloaded⟩
  · simpa using done
  · obtain rfl := idle writer offloaded owned
    simpa using done

theorem Attended.onTier (attended : Attended m req l before after s s₁)
    (t : TierManager S D (Memory bs R)) : Attended m req l before after s { s₁ with tiers := update s₁.tiers l t } :=
  ⟨attended.scratch, attended.reads, fun l' other => (update_of_ne other _ _).trans (attended.others l' other)⟩

theorem Attended.release (attended : Attended m req l before after s s₁) :
    Attended m req l before after s (releaseScratch l s₁) := by
  obtain ⟨scratch, reads, tiers⟩ := releaseScratch_frame l s₁
  refine ⟨scratch ▸ attended.scratch, ?_, tiers ▸ attended.others⟩
  rw [reads, scratch]
  exact attended.reads

include placed in
theorem wp_attend
    (hi : after ≤ total) (idle : s.Idle) :
    wp (attend m req before after l) (fun _ s₁ => Attended m req l before after s s₁ ∧ s₁.tiers = s.tiers ∧
      (s₁.Idle ∨ 1 < after - before ∧ l ∈ s₁.wrote)) E s := by
  unfold attend
  simp only [wp_bind, wp_onlyIf, wp_get, takesDense_layerPass, maxQueryLen_layerPass]
  by_cases own : m.target l = none
  · refine ⟨fun _ => ⟨fun dense => ⟨fun both => absurd own both.2, fun _ => ⟨⟨?_, ?_, fun _ _ => rfl⟩, rfl, .inl idle⟩⟩,
      fun sparse => ⟨⟨?_, ?_, fun _ _ => rfl⟩, rfl, .inl idle⟩⟩, fun shared => absurd own shared⟩
    · simp [recordRead, writeRows, own]
    · simp [recordRead, writeRows, dense]
    · simp [writeRows, own]
    · simp [writeRows, sparse]
  refine ⟨fun none => absurd none own, fun _ => ⟨fun dense => ⟨fun both => ?_, fun no => ?_⟩, fun sparse => ?_⟩⟩
  · refine wp_kvshareWriteScratch placed hi idle ⟨⟨?_, ?_, fun _ _ => rfl⟩, rfl, .inr ⟨both.1, .head _⟩⟩
    · simp [recordRead, writeRows, both.1]
    · simp [recordRead, writeRows, dense]
  · have short : ¬ 1 < after - before := fun many => no ⟨many, own⟩
    refine ⟨⟨?_, ?_, fun _ _ => rfl⟩, rfl, .inl idle⟩
    · simp [recordRead, own, short]
    · simp [recordRead, dense]
  · have short : ¬ 1 < after - before := fun many => sparse (.inl many)
    refine ⟨⟨?_, ?_, fun _ _ => rfl⟩, trivial, .inl idle⟩
    · simp [own, short]
    · simp [sparse]

variable [DecidableEq S]

include placed in
theorem wp_layerForward {P : TierManager S D (Memory bs R) → Prop} {T : Prop}
    (hi : after ≤ total) (idle : s.Idle) (tier : ∀ scratch, wp (forward (m.layer l) m.topK true (layerPass req l before after scratch))
      (fun _ t => P t) (fun _ _ => T) (s.tiers l)) :
    wp (layerForward m req before after l) (fun _ s' => Attended m req l before after s s' ∧ s'.Idle ∧ P (s'.tiers l))
      (fun _ s' => Attended m req l before after s s' ∧ T) s := by
  unfold layerForward
  simp only [wp_bind]
  refine wp_imp (wp_attend placed hi idle) ?_
  rintro _ s₁ ⟨attended, tiers, owner⟩
  rw [← tiers] at tier
  simp only [wp_get, onTier, wp_onPart, wp_onlyIf, maxQueryLen_layerPass]
  refine wp_mono (tier s₁.scratch) (fun _ t held => ⟨fun many => ⟨(attended.onTier t).release, ?_, ?_⟩, fun few =>
    ⟨attended.onTier t, ?_, ?_⟩⟩) (fun _ t failed => ⟨attended.onTier t, failed⟩)
  · exact idle_releaseScratch (owner.imp id And.right)
  · rw [(releaseScratch_frame l _).2.2]
    simpa using held
  · exact owner.resolve_right fun both => few both.1
  · simpa using held

end

/-! ### Runs -/

section

variable {S D R : Type} {bs total : Nat} [NeZero bs] [DecidableEq S] {m : ShareModel D bs R} {req : ShareRequest S D R}
  {s s' : ScratchState S D bs R}

def DensePass (bs : Nat) (pass : Nat × Nat) : Prop := 1 < pass.2 - pass.1 ∨ pass.2 < bs

instance (bs : Nat) (pass : Nat × Nat) : Decidable (DensePass bs pass) := inferInstanceAs (Decidable (_ ∨ _))

def ScratchSafe (bs : Nat) (pass : Nat × Nat) : Prop := DensePass bs pass → pass.1 = 0 ∧ 2 ≤ pass.2

instance (bs : Nat) (pass : Nat × Nat) : Decidable (ScratchSafe bs pass) := inferInstanceAs (Decidable (_ → _))

variable {pass : Nat × Nat}

omit [DecidableEq S] in
theorem Attended.ownRows (attended : Attended m req l pass.1 pass.2 s s')
    (distinct : Set.InjOn req.table {b | b * bs < total}) (hi : pass.2 ≤ total) (safe : ScratchSafe bs pass) (own : ∀ read ∈ s.reads, OwnRows req read) :
    ∀ read ∈ s'.reads, OwnRows req read := by
  rw [attended.reads]
  by_cases dense : 1 < pass.2 - pass.1 ∨ pass.2 < bs
  · obtain ⟨first, many⟩ := safe dense
    rw [if_pos dense]
    intro read hm
    rcases mem_append.mp hm with earlier | now
    · exact own read earlier
    · obtain rfl := mem_singleton.mp now
      intro t hb
      change tokenRow req.table s'.scratch t = req.kv l t
      have read : t < total := lt_of_lt_of_le hb hi
      rw [attended.scratch, if_pos (.inr (by omega)), tokenRow_storeTokens distinct _ _ hi read, if_pos ⟨by omega, hb⟩]
  · rwa [if_neg dense, append_nil]

variable {chunks : List Nat} {second n : Nat}

theorem chunkPasses_le (hm : pass ∈ chunkPasses n chunks) : pass.2 ≤ n + chunks.sum := by
  induction chunks generalizing n with
  | nil => exact absurd hm not_mem_nil
  | cons c chunks ih =>
    rw [sum_cons]
    rcases mem_cons.mp hm with rfl | later
    · exact Nat.add_le_add_left (Nat.le_add_right _ _) n
    · have := ih later
      omega

theorem wp_sharedRun_own (placed : OnScratch bs m.numBlocks req chunks.sum) (safe : ∀ pass ∈ chunkPasses 0 chunks, ScratchSafe bs pass) (idle : s.Idle)
    (own : ∀ read ∈ s.reads, OwnRows req read) :
    wp (sharedRun m req chunks) (fun _ t => ∀ read ∈ t.reads, OwnRows req read)
      (fun _ t => ∀ read ∈ t.reads, OwnRows req read) s := by
  refine wp_imp (wp_forM (I := fun t => t.Idle ∧ ∀ read ∈ t.reads, OwnRows req read) ?_ ⟨idle, own⟩)
    (fun _ _ h => h.2)
  intro pass hm t held
  have hi := chunkPasses_le hm
  rw [zero_add] at hi
  refine wp_forM (I := fun t : ScratchState S D bs R => t.Idle ∧ ∀ read ∈ t.reads, OwnRows req read) ?_ held
  rintro l _ u ⟨idle, own⟩
  refine wp_mono (wp_layerForward (P := fun _ => True) (T := True) placed hi idle fun _ => wp_any (fun _ _ => trivial) fun _ _ => trivial)
    ?_ ?_
  · rintro _ v ⟨attended, idle', -⟩
    exact ⟨idle', attended.ownRows placed.distinct hi (safe pass hm) own⟩
  · rintro _ v ⟨attended, -⟩
    exact attended.ownRows placed.distinct hi (safe pass hm) own

/-! ### Runs with another dense pass -/

variable (req s) in
def Misread : Prop := ∃ read ∈ s.reads, ¬ OwnRows req read

theorem wp_sharedPass_misread {layers : List Nat} (placed : OnScratch bs m.numBlocks req total)
    (hi : pass.2 ≤ total) (idle : s.Idle) (wrong : Misread req s) :
    wp (forM layers fun l => layerForward m req pass.1 pass.2 l) (fun _ t => t.Idle ∧ Misread req t)
      (fun _ t => Misread req t) s := by
  refine wp_forM (I := fun t => t.Idle ∧ Misread req t) ?_ ⟨idle, wrong⟩
  rintro l _ u ⟨idle, read, hm, not_own⟩
  refine wp_mono (wp_layerForward (P := fun _ => True) (T := True) placed hi idle fun _ => wp_any (fun _ _ => trivial) fun _ _ => trivial)
    ?_ ?_
  · rintro _ v ⟨attended, idle', -⟩
    exact ⟨idle', read, attended.reads ▸ mem_append_left _ hm, not_own⟩
  · rintro _ v ⟨attended, -⟩
    exact ⟨read, attended.reads ▸ mem_append_left _ hm, not_own⟩

theorem wp_sharedPasses_misread {passes : List (Nat × Nat)} (placed : OnScratch bs m.numBlocks req total)
    (hi : ∀ pass ∈ passes, pass.2 ≤ total) (idle : s.Idle) (wrong : Misread req s) :
    wp (forM passes fun pass => sharedPass m req pass) (fun _ t => Misread req t)
      (fun _ t => Misread req t) s :=
  wp_imp (wp_forM (I := fun t : ScratchState S D bs R => t.Idle ∧ Misread req t)
    (fun pass hm _ held => wp_sharedPass_misread placed (hi pass hm) held.1 held.2) ⟨idle, wrong⟩) (fun _ _ h => h.2)

variable (req pass) in
def FirstRow (done : List Nat) (s t : ScratchState S D bs R) : Prop :=
  (pass.1 = 0 → 1 < pass.2 → ∀ l ∈ done.getLast?, tokenRow req.table t.scratch 0 = req.kv l 0) ∧
    (0 < pass.1 → tokenRow req.table t.scratch 0 = tokenRow req.table s.scratch 0)

theorem wp_sharedPass (Before After : Nat → TierManager S D (Memory bs R) → Prop)
    (placed : OnScratch bs m.numBlocks req total) (hi : pass.2 ≤ total) (computes : pass.1 < pass.2) (idle : s.Idle)
    (each : ∀ l ∈ m.questLayers, ∀ t, Before l t → ∀ scratch,
      wp (forward (m.layer l) m.topK true (layerPass req l pass.1 pass.2 scratch)) (fun _ t => After l t) (fun _ _ => False) t)
    (start : ∀ l ∈ m.questLayers, Before l (s.tiers l)) :
    wp (sharedPass m req pass) (fun _ t => t.Idle ∧ (∀ l ∈ m.questLayers, After l (t.tiers l)) ∧
      FirstRow req pass m.questLayers s t) (fun _ _ => False) s := by
  refine wp_imp (wp_forM_handled (I := fun done t => t.Idle ∧ (∀ l ∈ done, After l (t.tiers l)) ∧
    (∀ l ∈ m.questLayers, l ∉ done → Before l (t.tiers l)) ∧ FirstRow req pass done s t) ?_ ?_)
    (fun _ t h => ⟨h.1, h.2.1, h.2.2.2⟩)
  · rintro done l rest layers t ⟨idle, finished, waiting, row⟩
    have quest : l ∈ m.questLayers := by simp [layers]
    have unfinished : l ∉ done := by
      have nodup := m.nodup_questLayers
      rw [layers] at nodup
      exact fun hm => (disjoint_of_nodup_append nodup) hm (.head _)
    refine wp_mono (wp_layerForward placed hi idle fun scratch => each l quest _ (waiting l quest unfinished) scratch) ?_
      (fun _ _ h => h.2)
    rintro _ u ⟨attended, idle', after⟩
    refine ⟨idle', fun l' hm => ?_, fun l' quest' ho => ?_, fun first many l' last => ?_, fun later => ?_⟩
    · rcases mem_append.mp hm with earlier | now
      · rw [attended.others l' fun hs => unfinished (hs ▸ earlier)]
        exact finished l' earlier
      · rwa [mem_singleton.mp now]
    · simp only [mem_append, mem_singleton, not_or] at ho
      rw [attended.others l' ho.2]
      exact waiting l' quest' ho.1
    · obtain rfl : l = l' := by simpa using last
      rw [attended.scratch, if_pos (.inr (by omega)), tokenRow_storeTokens placed.distinct _ _ hi (by omega), if_pos (by omega)]
    · rw [attended.scratch, ← row.2 later]
      split
      · rw [tokenRow_storeTokens placed.distinct _ _ hi (by omega), if_neg (by omega)]
      · rfl
  · exact ⟨idle, fun _ => not_mem_nil.elim, fun l quest _ => start l quest, fun _ _ l last => by simp at last, fun _ => rfl⟩

variable (m req) in
abbrev HasTokens (n l : Nat) (t : TierManager S D (Memory bs R)) : Prop :=
  Ingested (m.layer l) req.seq (fun t => (req.kv l t).1) (fun t => (req.kv l t).2) n t

variable (m req n) in
/-- After the first chunk, with `n` tokens: the tier managers have them, and the row of the first token is another
layer's. -/
structure Overwritten (s : ScratchState S D bs R) : Prop where
  idle : s.Idle
  ingested : ∀ l ∈ m.questLayers, HasTokens m req n l (s.tiers l)
  row : ∀ l ∈ m.questLayers.head?, tokenRow req.table s.scratch 0 ≠ req.kv l 0

theorem Overwritten.dense {after : Nat} (stale : Overwritten m req n s) (placed : OnScratch bs m.numBlocks req total)
    (hi : after ≤ total) (later : 0 < n) (computes : n < after) (dense : DensePass bs (n, after))
    (layers : m.questLayers = first :: rest) :
    wp (sharedPass m req (n, after)) (fun _ t => t.Idle ∧ Misread req t)
      (fun _ t => Misread req t) s := by
  have wrong : ∀ u, Attended m req first n after s u → Misread req u := by
    intro u attended
    refine ⟨⟨first, after, tokenRow req.table u.scratch⟩, ?_, fun own => ?_⟩
    · rw [attended.reads, if_pos (show 1 < after - n ∨ after < bs from dense)]
      exact mem_append_right _ (mem_singleton_self _)
    · refine stale.row first (by rw [layers]; rfl) ((own 0 (by omega : 0 < after)).symm ▸ ?_)
      change _ = tokenRow req.table u.scratch 0
      rw [attended.scratch]
      split
      · rw [tokenRow_storeTokens placed.distinct _ _ hi (by omega), if_neg (by omega)]
      · rfl
  unfold sharedPass
  rw [layers, forM_cons, wp_bind]
  refine wp_mono (wp_layerForward placed hi stale.idle fun _ =>
    wp_any (fun _ _ => trivial) fun _ _ => trivial) ?_ ?_
  · rintro _ u ⟨attended, idle, -⟩
    exact wp_sharedPass_misread placed hi idle (wrong u attended)
  · rintro _ u ⟨attended, -⟩
    exact wrong u attended

section

variable (budget : ∀ l ∈ m.questLayers, 0 < (m.layer l).gpuBudget)
  (valid : ∀ l ∈ m.questLayers, SelectsValid (m.layer l) (req.select l))

include budget valid

theorem Overwritten.sparse (stale : Overwritten m req n s) (placed : OnScratch bs m.numBlocks req total)
    (hi : n + 1 ≤ total) (later : 0 < n) (long : bs ≤ n + 1)
    (pool : ∀ l ∈ m.questLayers, (n + 1) / bs ≤ (m.layer l).cpuBlocks) :
    wp (sharedPass m req (n, n + 1)) (fun _ t => Overwritten m req (n + 1) t) (fun _ _ => False) s := by
  refine wp_imp (wp_sharedPass (HasTokens m req n) (HasTokens m req (n + 1)) placed hi (Nat.lt_succ_self n) stale.idle (fun l quest t ingested scratch => ?_)
    stale.ingested) ?_
  · exact wp_mono (forward_sparse_ingested ingested long (valid l quest) (Nat.pos_of_neZero bs) (budget l quest))
      (fun _ _ h => h.1) (fun _ _ exhausted => absurd (pool l quest) (not_le.mpr exhausted.lt_blocks))
  · rintro _ t ⟨idle, ingested, row⟩
    refine ⟨idle, ingested, fun l head => ?_⟩
    rw [row.2 later]
    exact stale.row l head

theorem Overwritten.run (stale : Overwritten m req n s)
    (placed : OnScratch bs m.numBlocks req (n + chunks.sum)) (later : 0 < n) (hp : ∀ c ∈ chunks, 0 < c)
    (pool : ∀ l ∈ m.questLayers, (n + chunks.sum) / bs ≤ (m.layer l).cpuBlocks)
    (layers : m.questLayers = first :: rest) (unsafe_ : ∃ pass ∈ chunkPasses n chunks, ¬ ScratchSafe bs pass) :
    wp (forM (chunkPasses n chunks) fun pass => sharedPass m req pass) (fun _ t => Misread req t)
      (fun _ t => Misread req t) s := by
  induction chunks generalizing n s with
  | nil => simp [chunkPasses] at unsafe_
  | cons c chunks ih =>
    have computes := hp c (.head _)
    rw [chunkPasses, forM_cons, wp_bind]
    by_cases dense : DensePass bs (n, n + c)
    · refine wp_imp (stale.dense placed (by rw [sum_cons]; omega) later (by omega) dense layers) ?_
      rintro _ t ⟨idle, wrong⟩
      refine wp_sharedPasses_misread placed (fun pass hm => ?_) idle wrong
      exact chunkPasses_le (mem_cons_of_mem (n, n + c) hm)
    obtain ⟨rfl, long⟩ : c = 1 ∧ bs ≤ n + 1 := by
      simp only [DensePass] at dense
      omega
    rw [sum_cons, ← add_assoc] at pool placed
    have sooner : (n + 1) / bs ≤ (n + 1 + chunks.sum) / bs := Nat.div_le_div_right (by omega)
    refine wp_mono (stale.sparse budget valid placed (by omega) later long fun l quest => sooner.trans (pool l quest)) ?_
      (fun _ _ impossible => impossible.elim)
    intro _ t stale'
    refine ih stale' placed (Nat.succ_pos n) (fun c hm => hp c (.tail _ hm)) pool ?_
    obtain ⟨pass, hm, risky⟩ := unsafe_
    rcases mem_cons.mp hm with rfl | rest
    · exact absurd (fun dense' => absurd dense' dense) risky
    · exact ⟨pass, rest, risky⟩

end

omit [NeZero bs] [DecidableEq S] in
theorem ScratchState.idle_init (scratch : Nat → KVBlock bs R) (mem : Memory bs R) (summary : Nat → D) :
    (ScratchState.init m scratch mem summary : ScratchState S D bs R).Idle := fun _ _ owned => nomatch owned

theorem wp_sharedPass_single (layers : m.questLayers = first :: second :: rest)
    (placed : OnScratch bs m.numBlocks req total) (hi : 1 ≤ total) (idle : s.Idle) (two : 1 < bs)
    (differ : req.kv first 0 ≠ req.kv second 0) :
    wp (sharedPass m req (0, 1)) (fun _ t => t.Idle ∧ Misread req t)
      (fun _ t => Misread req t) s := by
  obtain ⟨own, shared⟩ := ShareModel.target_of_questLayers layers
  unfold sharedPass
  rw [layers, forM_cons, wp_bind]
  -- The first layer returns: its hook has no block to register.
  refine wp_mono (wp_layerForward (P := fun _ => True) (T := False) placed hi idle fun scratch => ?_) ?_ ?_
  · have short : (forward (m.layer first) m.topK true (layerPass req first 0 1 scratch) : TierM S D (Memory bs R) _) = pure [] :=
      forward_short (by omega)
    rw [short]
    trivial
  · rintro _ t ⟨attended, idle', -⟩
    have wrong : ∀ u, Attended m req second 0 1 t u → Misread req u := by
      intro u attended'
      refine ⟨⟨second, 1, tokenRow req.table u.scratch⟩, ?_, fun read => differ ?_⟩
      · rw [attended'.reads, if_pos (.inr two)]
        exact mem_append_right _ (mem_singleton_self _)
      · have hs : tokenRow req.table u.scratch 0 = req.kv second 0 := read 0 one_pos
        rw [attended'.scratch, if_neg (not_or.mpr ⟨shared second (.head _), by omega⟩), attended.scratch,
          if_pos (.inl own), tokenRow_storeTokens placed.distinct _ _ hi hi, if_pos (by omega)] at hs
        exact hs
    rw [forM_cons, wp_bind]
    refine wp_mono (wp_layerForward placed hi idle' fun _ =>
      wp_any (fun _ _ => trivial) fun _ _ => trivial) ?_ ?_
    · rintro _ u ⟨attended', idle'', -⟩
      exact wp_sharedPass_misread placed hi idle'' (wrong u attended')
    · rintro _ u ⟨attended', -⟩
      exact wrong u attended'
  · rintro _ _ ⟨-, impossible⟩
    exact impossible.elim

/-- A run with a dense pass that is not a first chunk of two tokens, when the scratch layer's first token differs from
the others'. -/
theorem wp_sharedRun_misread {scratch : Nat → KVBlock bs R}
    {mem : Memory bs R} {summary : Nat → D} (layers : m.questLayers = first :: second :: rest)
    (foreign : ∀ l ∈ second :: rest, req.kv first 0 ≠ req.kv l 0) (hp : ∀ c ∈ chunks, 0 < c) (size : 2 ≤ bs)
    (placed : OnScratch bs m.numBlocks req chunks.sum) (budget : ∀ l ∈ m.questLayers, 0 < (m.layer l).gpuBudget)
    (valid : ∀ l ∈ m.questLayers, SelectsValid (m.layer l) (req.select l))
    (pool : ∀ l ∈ m.questLayers, chunks.sum / bs ≤ (m.layer l).cpuBlocks)
    (risky : ∃ pass ∈ chunkPasses 0 chunks, ¬ ScratchSafe bs pass) :
    wp (sharedRun m req chunks) (fun _ t => Misread req t) (fun _ t => Misread req t) (ScratchState.init m scratch mem summary) := by
  have idle : (ScratchState.init m scratch mem summary : ScratchState S D bs R).Idle := ScratchState.idle_init scratch mem summary
  cases chunks with
  | nil => simp [chunkPasses] at risky
  | cons c chunks =>
    have computes := hp c (.head _)
    rw [sum_cons] at placed pool
    rw [sharedRun, chunkPasses, forM_cons, wp_bind, zero_add]
    rcases lt_or_ge c 2 with few | many
    · obtain rfl : c = 1 := by omega
      refine wp_imp (wp_sharedPass_single layers placed (by omega) idle size (foreign second (.head _))) ?_
      rintro _ t ⟨idle', wrong⟩
      exact wp_sharedPasses_misread placed (fun pass hm => chunkPasses_le hm) idle' wrong
    have sooner : c / bs ≤ (c + chunks.sum) / bs := Nat.div_le_div_right (by omega)
    refine wp_mono (wp_sharedPass (fun l t => t = TierManager.init (m.layer l) mem summary) (HasTokens m req c) placed
      (Nat.le_add_right c _) computes idle (fun l quest t fresh _ => ?_) (fun _ _ => rfl)) ?_ (fun _ _ impossible => impossible.elim)
    · rw [fresh]
      exact wp_mono (forward_prefill_ingested (ingested_init _ _ _ _ mem summary) (Finset.notMem_empty _) many
        (Nat.pos_of_neZero bs) (budget l quest)) (fun _ _ h => h.1)
        (fun _ _ exhausted => absurd (sooner.trans (pool l quest)) (not_le.mpr exhausted.lt_blocks))
    rintro _ t ⟨idle', ingested, row⟩
    have stale : Overwritten m req c t := by
      refine ⟨idle', ingested, fun l head => ?_⟩
      have scratchLayer : first = l := by simpa [layers] using head
      rw [row.1 rfl many ((second :: rest).getLast (cons_ne_nil _ _)) (by rw [layers]; rfl), ← scratchLayer]
      exact (foreign _ (getLast_mem _)).symm
    refine stale.run budget valid placed computes (fun c hm => hp c (.tail _ hm)) pool
      layers ?_
    obtain ⟨pass, hm, risk⟩ := risky
    rw [chunkPasses, zero_add] at hm
    rcases mem_cons.mp hm with rfl | later
    · exact absurd (fun _ => ⟨rfl, many⟩) risk
    · exact ⟨pass, later, risk⟩

end

/-- Every dense attention of a Quest layer reads the layer's own K/V exactly when each pass that takes the dense path is the
first of the request and computes at least two tokens. -/
theorem dense_reads_own_iff {S D R : Type} {bs : Nat} [NeZero bs] [DecidableEq S] [Nontrivial R] (m : ShareModel D bs R)
    (req : ShareRequest S D R) (scratch : Nat → KVBlock bs R) (mem : Memory bs R) (summary : Nat → D) (chunks : List Nat)
    (positive : ∀ c ∈ chunks, 0 < c) (sharing : 2 ≤ m.questLayers.length) (size : 2 ≤ bs)
    (placed : OnScratch bs m.numBlocks req chunks.sum) (budget : ∀ l ∈ m.questLayers, 0 < (m.layer l).gpuBudget)
    (valid : ∀ l ∈ m.questLayers, SelectsValid (m.layer l) (req.select l))
    (pool : ∀ l ∈ m.questLayers, chunks.sum / bs ≤ (m.layer l).cpuBlocks) :
    (∀ kv, ∀ read ∈ (finalState (sharedRun m { req with kv := kv } chunks) (ScratchState.init m scratch mem summary)).reads,
      OwnRows { req with kv := kv } read) ↔
      ∀ pass ∈ chunkPasses 0 chunks, DensePass bs pass → pass.1 = 0 ∧ 2 ≤ pass.2 := by
  constructor
  · intro own
    by_contra risky
    obtain ⟨first, second, rest, layers⟩ : ∃ first second rest, m.questLayers = first :: second :: rest := by
      match m.questLayers, sharing with
      | first :: second :: rest, _ => exact ⟨first, second, rest, rfl⟩
    have nodup := m.nodup_questLayers
    rw [layers, List.nodup_cons] at nodup
    obtain ⟨x, y, differ⟩ := exists_pair_ne R
    let request : ShareRequest S D R := { req with kv := fun l _ => if l = first then (x, x) else (y, y) }
    have foreign : ∀ l ∈ second :: rest, request.kv first 0 ≠ request.kv l 0 := by
      intro l member
      have other : l ≠ first := fun same => nodup.1 (same ▸ member)
      simpa [request, other] using differ
    have wrong : Misread request (finalState (sharedRun m request chunks) (ScratchState.init m scratch mem summary)) :=
      finalState_of_wp (wp_sharedRun_misread layers foreign positive size ⟨placed.distinct, placed.fits⟩ budget valid pool
        (by simpa [ScratchSafe] using risky))
    obtain ⟨read, member, other⟩ := wrong
    exact other (own _ read member)
  · intro safe kv
    let request : ShareRequest S D R := { req with kv := kv }
    have placed' : OnScratch bs m.numBlocks request chunks.sum := ⟨placed.distinct, placed.fits⟩
    have kept : wp (sharedRun m request chunks) (fun _ t => ∀ read ∈ t.reads, OwnRows request read)
        (fun _ t => ∀ read ∈ t.reads, OwnRows request read) (ScratchState.init m scratch mem summary) :=
      wp_sharedRun_own placed' safe (ScratchState.idle_init scratch mem summary) fun _ => List.not_mem_nil.elim
    exact finalState_of_wp kept

def threeLayers : ShareModel Nat 2 Nat where
  numLayers := 3
  fullKvLayers := [0]
  layer _ := pairConfig
  topK := 1
  numBlocks := 8

def sharedTokens : ShareRequest Nat Nat Nat where
  seq := 0
  table := id
  kv l t := (10 * l + t, 10 * l + t)
  select _ := selectFirst

theorem dense_reads_own_iff_one_chunk : (∀ pass ∈ chunkPasses 0 [3, 1, 1], ScratchSafe 2 pass) ∧
    ∀ kv, ∀ read ∈ (finalState (sharedRun threeLayers { sharedTokens with kv := kv } [3, 1, 1])
      (ScratchState.init threeLayers countingEngine Memory.zero fun _ => 0)).reads, OwnRows { sharedTokens with kv := kv } read :=
  ⟨by decide, (dense_reads_own_iff threeLayers sharedTokens countingEngine Memory.zero (fun _ => 0) [3, 1, 1] (by decide) (by decide)
    (by decide) ⟨injective_id.injOn, fun b below => (show b < 8 by simp at below; omega)⟩ (by decide)
    (fun l _ => selectsValid_first (show 2 ≤ pairConfig.gpuBudget by decide)) (by decide)).mpr (by decide)⟩

/-- A prompt of four tokens in two chunks: in the second, layer 1 attends the first token with the K/V of layer 2. -/
theorem second_chunk_reads_other_layer :
    ∃ read ∈ (finalState (sharedRun threeLayers sharedTokens [2, 2])
      (ScratchState.init threeLayers countingEngine Memory.zero fun _ => 0)).reads,
      read.layer = 1 ∧ read.seqLen = 4 ∧ read.row 0 = sharedTokens.kv 2 0 ∧ ¬ OwnRows sharedTokens read := by
  have seen : (1, 4, 20, 20) ∈ (finalState (sharedRun threeLayers sharedTokens [2, 2])
      (ScratchState.init threeLayers countingEngine Memory.zero fun _ => 0)).reads.map fun read =>
      (read.layer, read.seqLen, read.row 0) := by decide
  obtain ⟨read, member, facts⟩ := List.mem_map.mp seen
  obtain ⟨layer, length, row⟩ : read.layer = 1 ∧ read.seqLen = 4 ∧ read.row 0 = (20, 20) := by simpa using facts
  refine ⟨read, member, layer, length, row, fun own => ?_⟩
  have first := own 0 (by omega)
  rw [layer, row] at first
  exact absurd first (by decide)

end KVOffload.Quest
