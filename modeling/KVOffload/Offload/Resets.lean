import KVOffload.Offload.TieringRun

/-!
# Resetting the offload cache

`OffloadingConnectorScheduler.reset_cache` resets the manager and forgets the jobs in flight, whose completions it drops as
stale.
-/

namespace KVOffload.Offload

open List

/-- The block is pinned by exactly the transfers that read it, or one transfer writes it. -/
def BlockStatus.Accounted (b : BlockStatus) (numReaders numWriters : Nat) : Prop :=
  (b.refCnt = numReaders ∧ numWriters = 0) ∨ (b.refCnt = -1 ∧ numReaders = 0 ∧ numWriters = 1)

namespace CPUOffloadingManager

variable {P Key : Type} [DecidableEq Key] [CachePolicy P Key]

section

variable (numBlocks : Nat) (enableEvents : Bool) (storeThreshold maxTrackerSize : Nat)

/-- The states of a CPU cache, with the loads and stores that its scheduler knows to be in flight. -/
inductive Serves : CPUOffloadingManager P Key → List (Transfer Key) → List (Transfer Key) → Prop
  | start : Serves (init numBlocks enableEvents storeThreshold maxTrackerSize) [] []
  | lookup {m m' loads stores key answer} (before : Serves m loads stores) (run : lookup key m = .ok answer m') :
      Serves m' loads stores
  | prepareLoad {m m' loads stores keys slots} (before : Serves m loads stores) (run : prepareLoad keys m = .ok slots m') :
      Serves m' (⟨keys, slots⟩ :: loads) stores
  | completeLoad {m m' loads stores load keys} (before : Serves m loads stores) (inFlight : load ∈ loads)
      (same : keys.Perm load.keys) (run : completeLoad keys m = .ok () m') : Serves m' (loads.erase load) stores
  | prepareStore {m m' loads stores keys out} (before : Serves m loads stores) (run : prepareStore keys m = .ok out m') :
      Serves m' loads (out.toList.map (fun o => ⟨o.keysToStore, o.storeSpec⟩) ++ stores)
  | completeStore {m m' loads stores store keys success} (before : Serves m loads stores) (inFlight : store ∈ stores)
      (same : ∀ key, key ∈ keys ↔ key ∈ store.keys) (run : completeStore keys success m = .ok () m') :
      Serves m' loads (stores.erase store)
  | touch {m loads stores} (before : Serves m loads stores) (keys : List Key) : Serves (m.touch keys) loads stores
  | takeEvents {m m' loads stores events} (before : Serves m loads stores) (run : takeEvents m = .ok events m') :
      Serves m' loads stores
  | resetCache {m loads stores} (before : Serves m loads stores) : Serves m.resetCache [] []

end

variable [LawfulCachePolicy P Key]

theorem ledger_resetCache (m : CPUOffloadingManager P Key) : Ledger m.resetCache [] [] := by
  have empty : ∀ key, m.resetCache.block key = none := LawfulCachePolicy.get_clear m.policy
  refine ⟨slots_resetCache m, fun _ _ => ⟨rfl, rfl⟩, fun key b hf => ?_, by simp⟩
  rw [empty] at hf
  cases hf

variable {enableEvents : Bool} {numBlocks storeThreshold maxTrackerSize : Nat} {m : CPUOffloadingManager P Key}
  {loads stores : List (Transfer Key)}

theorem ledger_of_serves
    (served : Serves numBlocks enableEvents storeThreshold maxTrackerSize m loads stores) : Ledger m loads stores := by
  induction served with
  | start => exact Ledger.empty ..
  | @lookup m m' loads stores key _ _ run ledger =>
    have counted : wp (lookup key) (fun _ m' => Ledger m' loads stores) (fun _ _ => True) m := by
      simp only [lookup, wp_bind, wp_get, wp_ensure, wp_modify, implies_true, and_true]
      intro _
      have same : Ledger (m.setCounts (m.counts.map (trackLookup key m.maxTrackerSize))) loads stores :=
        ledger.of_same ledger.slots.inv rfl rfl rfl rfl
      split
      · exact same
      · exact same
    have after := wp_ok counted run
    exact after
  | prepareLoad _ run ledger =>
    obtain ⟨_, _, again, after, _⟩ := ledger.prepareLoad (wp_ok (wp_prepareLoad ledger.slots.inv _) run).2.1
    rw [run] at again
    cases again
    exact after
  | completeLoad _ inFlight same run ledger =>
    obtain ⟨_, again, after⟩ := (ledger.perm (perm_cons_erase inFlight) (.refl _)).completeLoad same
    rw [run] at again
    cases again
    exact after
  | prepareStore _ run ledger =>
    obtain ⟨rfl, rfl⟩ | ⟨o, rfl, _, after⟩ := wp_ok (ledger.prepareStore _) run
    · exact ledger
    · exact after
  | completeStore _ inFlight same run ledger =>
    obtain ⟨_, again, after, _⟩ := (ledger.perm (.refl _) (perm_cons_erase inFlight)).completeStore same _
    rw [run] at again
    cases again
    exact after
  | touch _ keys ledger =>
    have inv := ledger.slots.inv
    exact ledger.of_same (LawfulCachePolicy.inv_touch inv keys) (funext fun key => LawfulCachePolicy.get_touch inv keys key) rfl rfl rfl
  | takeEvents _ run ledger =>
    cases run
    exact ledger.of_same ledger.slots.inv rfl rfl rfl rfl
  | resetCache => exact ledger_resetCache _

/-- A store that succeeds, whatever was called since it began, can be loaded from the slots that it was given. -/
theorem stored_blocks_load {store : Transfer Key}
    (served : Serves numBlocks enableEvents storeThreshold maxTrackerSize m loads stores) (inFlight : store ∈ stores) :
    ∃ m' ids m'', completeStore store.keys true m = .ok () m' ∧ prepareLoad store.keys m' = .ok ids m'' ∧
      ∀ e ∈ store.keys.zip ids, e ∈ store.keys.zip store.slots := by
  have ledger := (ledger_of_serves served).perm (.refl _) (perm_cons_erase inFlight)
  obtain ⟨m', done, after, ready⟩ := ledger.completeStore_success fun _ => Iff.rfl
  obtain ⟨ids, m'', loaded, _⟩ := after.prepareLoad ready
  refine ⟨m', ids, m'', done, loaded, ?_⟩
  rintro ⟨key, id⟩ hm
  have same := (wp_ok (wp_completeStore_success ledger.slots.inv _) done).held
  have read := (forall₂_iff_zip.mp (wp_ok (wp_prepareLoad after.slots.inv _) loaded).2.2).2 hm
  obtain ⟨slot, pair, written⟩ := (ledger.inPlace store (by simp)).current key (of_mem_zip hm).1
  rw [same, written] at read
  exact Option.some.inj read ▸ pair

theorem stored_blocks_load_one :
    let m : CPUOffloadingManager (CachePolicyName.lru.Policy Nat) Nat := finalState (prepareStore [7]) (init 1 false 1 0)
    ∃ m' ids m'', completeStore [7] true m = .ok () m' ∧ prepareLoad [7] m' = .ok ids m'' ∧
      ∀ e ∈ [7].zip ids, e ∈ [7].zip [0] :=
  stored_blocks_load (.prepareStore .start (rfl : prepareStore [7] (init 1 false 1 0) = .ok (some ⟨[7], [0], []⟩) _)) (.head _)

end CPUOffloadingManager

namespace TieringRun

variable {P Key ReqId : Type} [DecidableEq Key] [DecidableEq ReqId] [CachePolicy P Key] {r : TieringRun P Key ReqId}

variable (r) in
def resetCache : TieringRun P Key ReqId := { manager := r.manager.resetCache }

variable (r) in
/-- No block is in a load or store between the GPU and the cache. -/
def Quiet : Prop := ∀ key, readers r.loads key = 0 ∧ writers r.stores key = 0

variable (allowed : TieringRun P Key ReqId → Prop) (numBlocks : Nat) (enableEvents : Bool) (numTiers : Nat)

/-- Runs with resets, in states where they are allowed. -/
inductive Resets : TieringRun P Key ReqId → Prop
  | start : Resets (init numBlocks enableEvents numTiers)
  | step {r r' : TieringRun P Key ReqId} {c : TieringCall Key ReqId} (before : Resets r) (enabled : r.Enabled c)
      (run : exec c r = .ok () r') : Resets r'
  | reset {r : TieringRun P Key ReqId} (before : Resets r) (ready : allowed r) : Resets r.resetCache

variable [LawfulCachePolicy P Key]

omit [DecidableEq ReqId] in
theorem consistent_resetCache (hc : r.manager.Consistent r.loads r.stores) (quiet : r.Quiet) :
    r.resetCache.manager.Consistent [] [] := by
  obtain ⟨⟨slots, absent, busy, inPlace⟩, fresh, untracked, once⟩ := hc
  simp only [readers_append, writers_append, quiet _, Nat.zero_add] at absent busy
  refine ⟨⟨slots, absent, busy, fun t hm => inPlace t ?_⟩, fresh, untracked, once⟩
  simp only [nil_append, mem_append] at hm ⊢
  exact hm.imp .inr .inr

theorem Resets.consistent {numTiers : Nat}
    (reached : Resets Quiet numBlocks enableEvents numTiers r) : r.manager.Consistent r.loads r.stores := by
  induction reached with
  | start => exact consistent_init numBlocks enableEvents numTiers
  | step _ enabled run ih =>
    have after := wp_ok (wp_exec ih enabled) run
    exact after
  | reset _ quiet ih => exact consistent_resetCache ih quiet

end TieringRun

/-- After resets a block is held by transfers that were begun since, or by jobs of the slower tiers. The tiering manager
needs that its resets find no GPU transfer of a block in flight. -/
theorem reset_leaks_nothing {Key ReqId : Type} [DecidableEq Key] [DecidableEq ReqId] (name : CachePolicyName) (numBlocks : Nat)
    (enableEvents : Bool) (storeThreshold maxTrackerSize numTiers : Nat) :
    (∀ (m : CPUOffloadingManager (name.Policy Key) Key) loads stores,
      CPUOffloadingManager.Serves numBlocks enableEvents storeThreshold maxTrackerSize m loads stores →
      ∀ key b, m.block key = some b → b.Accounted (readers loads key) (writers stores key)) ∧
    ∀ r : TieringRun (name.Policy Key) Key ReqId, r.Resets TieringRun.Quiet numBlocks enableEvents numTiers →
      ∀ key b, r.manager.primaryTier.block key = some b →
        b.Accounted (readers (r.loads ++ r.manager.cascades) key) (writers (r.stores ++ r.manager.promotions) key) :=
  ⟨fun _ _ _ served => (CPUOffloadingManager.ledger_of_serves served).busy, fun _ reached => reached.consistent.ledger.busy⟩

/-- The block of a forgotten store stays unreadable, with no job left that would finish it. -/
theorem reset_strands_store :
    let r : TieringRun (CachePolicyName.lru.Policy Nat) Nat Nat :=
      (finalState (TieringRun.exec (.prepareStore (fun _ => []) [7])) (.init 1 false 1)).resetCache
    r.Resets (fun _ => True) 1 false 1 ∧ r.manager.primaryTier.block 7 = some { refCnt := -1, blockId := 0 } ∧
      r.stores ++ r.manager.promotions = [] := by
  intro r
  have polls : (TieringRun.init 1 false 1 : TieringRun (CachePolicyName.lru.Policy Nat) Nat Nat).manager.Polls fun _ => [] :=
    fun _ => ⟨List.nodup_nil, fun _ member => nomatch member⟩
  exact ⟨.reset (.step .start (c := .prepareStore (fun _ => []) [7]) polls rfl) trivial, rfl, rfl⟩

end KVOffload.Offload
