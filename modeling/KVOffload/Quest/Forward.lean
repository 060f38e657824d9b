import KVOffload.Quest.Calls

/-!
# One forward pass of a Quest layer

`impl_helpers.py` and the dispatch of `QuestSparseOffloadImpl.forward`. `engine` is the cache the engine left; the scoring of
blocks is the parameter `select`.
-/

namespace KVOffload.Quest

structure Request (S : Type) where
  /-- `_seq_id_for`: the stable request id. -/
  seqId : S
  /-- `seq_lens[req_idx]`, the tokens of this step included. -/
  seqLen : Nat
  /-- `query_start_loc[req_idx]`. -/
  queryStart : Nat
  /-- `query_start_loc[req_idx + 1]`. -/
  queryEnd : Nat
  /-- `block_table[req_idx]`. -/
  blockTable : Nat → Nat

abbrev Batch (S : Type) := List (Request S)

/-- `quest_selection`: from the layer's summaries, the number of candidates and `top_k`, the chosen ids. -/
abbrev Select (S D : Type) := Request S → (Nat → D) → Nat → Nat → List Nat

/-- What `run_sparse_decode` hands to the kernel for one request: the summaries it was scored against, the
selection, the logical blocks in gather order, their arena slots and what the arena holds there. -/
structure Gathered (S D : Type) (bs : Nat) (R : Type) where
  request : Request S
  scored : List D
  topIds : List Nat
  blocks : List Nat
  slots : List Nat
  content : List (KVBlock bs R)

variable {S D M R : Type} {bs : Nat} {n : Nat}

namespace Request

def queryLen (r : Request S) : Nat := r.queryEnd - r.queryStart

def computed (r : Request S) : Nat := r.seqLen - r.queryLen

end Request

def maxQueryLen (batch : Batch S) : Nat := (batch.map Request.queryLen).foldr max 0

theorem one_lt_maxQueryLen_iff {batch : Batch S} : 1 < maxQueryLen batch ↔ ∃ r ∈ batch, 1 < r.queryLen := by
  unfold maxQueryLen
  induction batch with
  | nil => simp
  | cons r rest ih => simp [ih]

theorem div_succ_of_inside (hi : n % bs + 1 ≠ bs) (size : 0 < bs) : (n + 1) / bs = n / bs ∧ (n + 1) % bs ≠ 0 := by
  have split := Nat.div_add_mod' n bs
  have small := Nat.mod_lt n size
  have rest : n + 1 = n % bs + 1 + n / bs * bs := by omega
  rw [rest, Nat.add_mul_div_right _ _ size, Nat.add_mul_mod_self_right, Nat.div_eq_of_lt (by omega),
    Nat.mod_eq_of_lt (by omega)]
  omega

theorem div_succ_of_last (last : n % bs + 1 = bs) : (n + 1) / bs = n / bs + 1 ∧ (n + 1) % bs = 0 := by
  have split := Nat.div_add_mod' n bs
  have whole : n + 1 = (n / bs + 1) * bs := by
    rw [Nat.succ_mul]
    omega
  have size : 0 < bs := by omega
  exact ⟨by rw [whole, Nat.mul_div_cancel _ size], by rw [whole, Nat.mul_mod_left]⟩

section

variable [DecidableEq S] [BlockMemory M bs R] (cfg : TierConfig bs R D)

def activeIds (batch : Batch S) : List S := (batch.map Request.seqId).dedup

def releaseInactive (active : List S) : TierM S D M Unit := do
  match (← get).activeSeqs with
  | none => pure ()
  | some previous => forM (previous.filter (· ∉ active)) fun old => freeRequest old
  modify fun s => { s with activeSeqs := some active }

/-- `notify_filled_blocks_after_prefill`: the block id is counted from the start of the query range. -/
def notifyFilledBlocksAfterPrefill (key : Nat → R) (batch : Batch S) : TierM S D M Unit :=
  forM batch fun r =>
    if r.queryLen < bs then pure ()
    else forM (List.range (r.queryLen / bs)) fun b =>
      registerPrefillSummary cfg b fun i => key (r.queryStart + b * bs + i)

def notifyDecodeRequest (engine : Nat → KVBlock bs R) (r : Request S) : TierM S D M Unit := do
  let full := r.seqLen / bs
  trimToWorkingSet cfg r.seqId full engine r.blockTable
  if r.seqLen ≠ 0 ∧ r.seqLen % bs = 0 then
    let _ ← onBlockFilled cfg r.seqId (full - 1) (engine (r.blockTable (full - 1)))
  if r.seqLen % bs ≠ 0 then
    let _ ← writeLiveBlock cfg r.seqId full (engine (r.blockTable full))

def notifyFilledBlocksAfterDecode (engine : Nat → KVBlock bs R) (batch : Batch S) : TierM S D M Unit := do
  releaseInactive (activeIds batch)
  forM batch fun r => notifyDecodeRequest cfg engine r

end

section

variable [DecidableEq S] [ReadableMemory M bs R] (cfg : TierConfig bs R D)

def kvsharePrefillOffload (key value : Nat → R) (batch : Batch S) : TierM S D M Unit := do
  releaseInactive (activeIds batch)
  forM batch fun r =>
    if r.queryLen = 0 then pure ()
    else prefillIngestKvshare cfg r.seqId (r.queryLen / bs) (fun i => key (r.queryStart + i))
      (fun i => value (r.queryStart + i)) (some r.queryLen)

def kvshareDecodeWrite (key value : Nat → R) (batch : Batch S) : TierM S D M Unit := do
  releaseInactive (activeIds batch)
  forM batch.zipIdx fun (r, i) => appendDecodeTokenKvshare cfg r.seqId (r.seqLen - 1) (key i) (value i)

def liveBlocks (bs seqLen : Nat) : List Nat := if seqLen % bs = 0 then [] else [seqLen / bs]

def decodeRequest (topK : Nat) (select : Select S D) (r : Request S) : TierM S D M (Gathered S D bs R) := do
  let summary := (← get).summary
  let full := r.seqLen / bs
  let ids := select r summary full (min topK full)
  ensureResident cfg r.seqId ids (liveBlocks bs r.seqLen)
  let slots ← (ids ++ liveBlocks bs r.seqLen).mapM fun b => logicalToSlot r.seqId b
  let mem := (← get).mem
  pure {
    request := r
    scored := (List.range full).map summary
    topIds := ids
    blocks := ids ++ liveBlocks bs r.seqLen
    slots := slots
    content := slots.map (ReadableMemory.readSlot mem) }

def runSparseDecode (topK : Nat) (select : Select S D) (batch : Batch S) : TierM S D M (List (Gathered S D bs R)) :=
  batch.mapM fun r => decodeRequest cfg topK select r

/-- The pass takes the dense path: a prefill or mixed batch, or a request inside its first block. -/
def TakesDense (bs : Nat) (batch : Batch S) : Prop := 1 < maxQueryLen batch ∨ ∃ r ∈ batch, r.seqLen < bs

instance (bs : Nat) (batch : Batch S) : Decidable (TakesDense bs batch) :=
  inferInstanceAs (Decidable (_ ∨ ∃ r ∈ batch, _))

structure DecodePass (S D : Type) (bs : Nat) (R : Type) where
  batch : Batch S
  engine : Nat → KVBlock bs R
  select : Select S D

def decodePass (topK : Nat) (pass : DecodePass S D bs R) : TierM S D M (List (Gathered S D bs R)) := do
  notifyFilledBlocksAfterDecode cfg pass.engine pass.batch
  runSparseDecode cfg topK pass.select pass.batch

structure Pass (S D : Type) (bs : Nat) (R : Type) extends DecodePass S D bs R where
  key : Nat → R
  value : Nat → R

/-- `QuestSparseOffloadImpl.forward` of a layer that is not full-KV; a dense pass gathers nothing. -/
def forward (topK : Nat) (footprintKvshare : Bool) (pass : Pass S D bs R) :
    TierM S D M (List (Gathered S D bs R)) := do
  if TakesDense bs pass.batch then
    if footprintKvshare ∧ 1 < maxQueryLen pass.batch then kvsharePrefillOffload cfg pass.key pass.value pass.batch
    else notifyFilledBlocksAfterPrefill cfg pass.key pass.batch
    pure []
  else if footprintKvshare then
    kvshareDecodeWrite cfg pass.key pass.value pass.batch
    runSparseDecode cfg topK pass.select pass.batch
  else decodePass cfg topK pass.toDecodePass

end

end KVOffload.Quest
