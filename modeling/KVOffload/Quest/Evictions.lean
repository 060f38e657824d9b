import KVOffload.Lib.Purge
import KVOffload.Quest.WorkingSet

/-!
# What `ensure_resident` evicts

The needed blocks are the most recent ones. The mixture ordering looks for its victim among the blocks that the previous layer did
not select, and the needed blocks are among them.
-/

namespace KVOffload.Quest

open List LRUSlotMap

section

variable {K : Type} [DecidableEq K] {protect needed ids : List K} {m m' : LRUSlotMap K} {key v : K}

def Ensures (protect : List K) (key : K) (m m' : LRUSlotMap K) : Prop :=
  (∃ slot, m.Claimed key slot m') ∨ ∃ v slot, m.victim protect = some v ∧ m.Replaced key v slot m'

variable (protect needed m) in
def engaged : Nat := m.keys.countP fun k => k ∈ needed ∨ k ∈ protect

variable (protect needed m) in
/-- The missing ids fit next to the engaged blocks. Or all needed blocks are protected, with the exception of one id behind which
no id is missing. -/
def Sheltered (ids : List K) : Prop :=
  ids.countP (· ∉ m.keys) + engaged protect needed m ≤ m.capacity ∨
    ∃ last rest, last :: rest <:+ ids ∧ (∀ k ∈ needed, k ≠ last → k ∈ protect) ∧ ∀ k ∈ rest, k ∈ m.keys

variable (protect needed m) in
structure Fetched (ids : List K) : Prop where
  held : ∀ k ∈ needed, k ∈ m.keys ∨ k ∈ ids
  sheltered : Sheltered protect needed m ids

theorem engaged_le : engaged protect needed m ≤ m.capacity := by
  have few : engaged protect needed m ≤ m.keys.length := countP_le_length
  have size := length_free_add_keys m
  omega

theorem engaged_load (protect : List K) {d : K} (keys : m'.keys = m.keys.filter (· ≠ d) ++ [key]) (hm : key ∈ needed) :
    engaged protect needed m' + (if d ∈ m.keys ∧ (d ∈ needed ∨ d ∈ protect) then 1 else 0) =
      engaged protect needed m + 1 := by
  have dropped := countP_erase (fun k => k ∈ needed ∨ k ∈ protect) m.keys d
  rw [(nodup_keys m).erase_eq_filter] at dropped
  have hs : m.keys.filter (· ≠ d) = m.keys.filter (· != d) := filter_congr fun k _ => by by_cases hs : k = d <;> simp [hs]
  have one : [key].countP (fun k => k ∈ needed ∨ k ∈ protect) = 1 := by simp [hm]
  have positive : d ∈ m.keys ∧ (d ∈ needed ∨ d ∈ protect) → 0 < m.keys.countP fun k => k ∈ needed ∨ k ∈ protect :=
    fun held => countP_pos_iff.mpr ⟨d, held.1, by simpa using held.2⟩
  simp only [decide_eq_true_eq] at dropped
  rw [engaged, keys, hs, countP_append, dropped, one, engaged]
  split
  · have := positive ‹_›
    omega
  · rfl

theorem victim_cases (chosen : m.victim protect = some v) :
    v ∉ protect ∨ (∀ k ∈ m.keys, k ∈ protect) ∧ m.victim [] = some v := by
  unfold victim at chosen ⊢
  cases hf : m.keys.find? (fun k => k ∉ protect) with
  | some w =>
    rw [hf, Option.some_or, Option.some.injEq] at chosen
    exact .inl (by simpa [chosen] using find?_some hf)
  | none =>
    rw [hf] at chosen
    refine .inr ⟨by simpa using hf, ?_⟩
    cases hk : m.keys <;> simp_all

theorem Ensures.recent (ensures : Ensures protect key m m') (recent : Recent needed m) (hm : key ∈ needed) :
    Recent needed m' := by
  rcases ensures with ⟨slot, claimed⟩ | ⟨v, slot, _, replaced⟩
  · exact recent.load claimed.keys (.inl rfl) hm
  · exact recent.load replaced.keys (.inr (slot?_eq_none_iff.mp replaced.absent)) hm

theorem Ensures.capacity (ensures : Ensures protect key m m') : m'.capacity = m.capacity := by
  rcases ensures with ⟨_, claimed⟩ | ⟨_, _, _, replaced⟩
  · exact claimed.capacity
  · exact replaced.capacity

section

variable (sub : ∀ k ∈ key :: ids, k ∈ needed) (hd : (key :: ids).Nodup)

include sub hd

theorem fetched_load {d : K} (keys : m'.keys = m.keys.filter (· ≠ d) ++ [key]) (size : m'.capacity = m.capacity)
    (loose : d = key ∨ key ∉ m.keys ∧ d ∉ needed ∧ d ∉ protect) :
    Fetched protect needed m' ids ↔ Fetched protect needed m (key :: ids) := by
  obtain ⟨fresh, _⟩ := nodup_cons.mp hd
  have hm := sub key (.head _)
  have here : ∀ k ∈ needed, k ∈ m'.keys ↔ k = key ∨ k ∈ m.keys := by
    intro k hk
    rw [keys]
    rcases loose with rfl | ⟨_, spare, _⟩
    · by_cases hs : k = d <;> simp [hs]
    · simp [or_comm, show k ≠ d from fun hs => spare (hs ▸ hk)]
  have same : ∀ k ∈ ids, k ∈ m'.keys ↔ k ∈ m.keys := by
    intro k hk
    rw [here k (sub k (.tail _ hk)), or_iff_right (fun hs : k = key => fresh (hs ▸ hk))]
  have missing : (key :: ids).countP (· ∉ m.keys) + (if key ∈ m.keys then 1 else 0) = ids.countP (· ∉ m'.keys) + 1 := by
    have hs : ids.countP (· ∉ m'.keys) = ids.countP (· ∉ m.keys) := countP_congr fun k hk => by simp [same k hk]
    rw [hs]
    by_cases held : key ∈ m.keys <;> simp [held]
  have room : ids.countP (· ∉ m'.keys) + engaged protect needed m' ≤ m'.capacity ↔
      (key :: ids).countP (· ∉ m.keys) + engaged protect needed m ≤ m.capacity := by
    have load := engaged_load protect keys hm
    grind
  refine ⟨fun fetched => ⟨by grind [fetched.held], ?_⟩, fun fetched => ⟨by grind [fetched.held], ?_⟩⟩
  · rcases fetched.sheltered with fits | ⟨last, rest, tail, most, there⟩
    · exact .inl (room.mp fits)
    · exact .inr ⟨last, rest, tail.trans (suffix_cons _ _), most, by grind⟩
  · rcases fetched.sheltered with fits | ⟨last, rest, tail, most, there⟩
    · exact .inl (room.mpr fits)
    · rcases suffix_cons_iff.mp tail with hs | tail
      · cases hs
        have none : ids.countP (· ∉ m'.keys) = 0 := countP_eq_zero.mpr fun k hk => by simpa [same k hk] using there k hk
        exact .inl (by rw [none, Nat.zero_add]; exact engaged_le)
      · exact .inr ⟨last, rest, tail, most, by grind⟩

theorem fetched_steal {slot : Nat} (recent : Recent needed m) (fits : needed.length ≤ m.capacity)
    (chosen : m.victim protect = some v) (replaced : m.Replaced key v slot m') (taken : v ∈ needed ∨ v ∈ protect) :
    Fetched protect needed m' ids ↔ Fetched protect needed m (key :: ids) := by
  obtain ⟨fresh, hd'⟩ := nodup_cons.mp hd
  have hm := sub key (.head _)
  have absent := slot?_eq_none_iff.mp replaced.absent
  have here : ∀ k, k ∈ m'.keys ↔ k = key ∨ k ∈ m.keys ∧ k ≠ v := fun _ => replaced.mem_keys
  have other := replaced.ne
  have bare : v ∈ needed → v ∉ protect := fun hv =>
    (victim_cases chosen).resolve_right fun h => recent.victim_not_needed hm replaced.absent replaced.full fits h.2 hv
  have full : engaged protect needed m = m.capacity := by
    have total := length_free_add_keys m
    rw [replaced.full, length_nil, Nat.zero_add] at total
    rw [← total]
    exact countP_eq_length.mpr fun k hk => by simpa using recent.victim_loose chosen taken k hk
  have room : ids.countP (· ∉ m'.keys) + engaged protect needed m' ≤ m'.capacity ↔ ∀ k ∈ ids, k ∈ m'.keys := by
    have load := engaged_load protect replaced.keys hm
    rw [if_pos ⟨mem_keys_of_slot? replaced.held, taken⟩] at load
    have none : ids.countP (· ∉ m'.keys) = 0 ↔ ∀ k ∈ ids, k ∈ m'.keys := by simp
    rw [← none, replaced.capacity]
    omega
  have beyond : ¬ (key :: ids).countP (· ∉ m.keys) + engaged protect needed m ≤ m.capacity := by
    rw [countP_cons, if_pos (by simpa using absent)]
    omega
  constructor
  · rintro ⟨held, fits | ⟨last, rest, tail, most, there⟩⟩
    · -- nothing is left to load, so the victim was the oldest of blocks that are all protected
      have hv : v ∉ needed := by grind
      obtain ⟨each, _⟩ := (victim_cases chosen).resolve_left fun no => taken.elim hv no
      exact ⟨by grind, .inr ⟨key, ids, suffix_refl _, by grind, by grind⟩⟩
    · exact ⟨by grind, .inr ⟨last, rest, tail.trans (suffix_cons _ _), most, by grind⟩⟩
  rintro ⟨held, fits | ⟨last, rest, tail, most, there⟩⟩
  · exact absurd fits beyond
  have hs : v ∈ needed → v = last := fun hv => by_contra fun ne => bare hv (most v hv ne)
  rcases suffix_cons_iff.mp tail with equal | tail
  · cases equal
    exact ⟨by grind, .inl (room.mpr (by grind))⟩
  · have once := (nodup_cons.mp (hd'.sublist tail.sublist)).1
    have within := tail.subset
    exact ⟨by grind, .inr ⟨last, rest, tail, most, by grind⟩⟩

theorem Ensures.fetched_iff (ensures : Ensures protect key m m') (recent : Recent needed m)
    (fits : needed.length ≤ m.capacity) : Fetched protect needed m' ids ↔ Fetched protect needed m (key :: ids) := by
  rcases ensures with ⟨slot, claimed⟩ | ⟨v, slot, chosen, replaced⟩
  · exact fetched_load sub hd claimed.keys claimed.capacity (.inl rfl)
  · by_cases taken : v ∈ needed ∨ v ∈ protect
    · exact fetched_steal sub hd recent fits chosen replaced taken
    · refine fetched_load sub hd replaced.keys replaced.capacity (.inr ⟨?_, not_or.mp taken⟩)
      exact slot?_eq_none_iff.mp replaced.absent

end

theorem sheltered_reorder (hs : m'.keys.Perm m.keys) (size : m'.capacity = m.capacity) :
    Sheltered protect needed m' ids ↔ Sheltered protect needed m ids := by
  simp only [Sheltered, engaged, hs.mem_iff, hs.countP_eq, size]

theorem sheltered_plain (hd : ids.Nodup) (sub : ∀ k ∈ ids, k ∈ needed) (fits : needed.length ≤ m.capacity) :
    Sheltered [] needed m ids := by
  have apart : (ids.filter (· ∉ m.keys) ++ m.keys.filter (· ∈ needed)).Nodup := by
    refine nodup_append'.mpr ⟨hd.filter _, (nodup_keys m).filter _, fun k missing held => ?_⟩
    exact absurd (mem_filter.mp held).1 (by simpa using (mem_filter.mp missing).2)
  have among : ids.filter (· ∉ m.keys) ++ m.keys.filter (· ∈ needed) ⊆ needed := by grind
  have count := (apart.subperm among).length_le
  rw [length_append, ← countP_eq_length_filter, ← countP_eq_length_filter] at count
  exact .inl (by simpa [engaged] using count.trans fits)

end

variable {S D M R : Type} {bs : Nat} [DecidableEq S] [BlockMemory M bs R] {cfg : TierConfig bs R D}
  {s t : TierManager S D M} {seq : S}

theorem ensureOne_ensures {b : Nat} : wp (ensureOne cfg seq b) (fun _ t =>
    Ensures (protectedKeys cfg s seq) (seq, b) s.slotMap t.slotMap ∧ t.prevSelected = s.prevSelected) (fun _ _ => True) s := by
  have claims : ∀ u : TierManager S D M, u.slotMap = s.slotMap → u.prevSelected = s.prevSelected →
      wp (claimSlot cfg (seq, b) (protectedKeys cfg s seq)) (fun _ t => wp (beginLoad cfg.layerIdx b) (fun _ u =>
        Ensures (protectedKeys cfg s seq) (seq, b) s.slotMap u.slotMap ∧ u.prevSelected = s.prevSelected)
        (fun _ _ => True) t) (fun _ _ => True) u := by
    intro u map prev
    refine wp_claimSlot (fun slot m claimed => ?_) (fun victim slot m chosen replaced => ?_) (fun _ => trivial)
    · exact wp_beginLoad (fun _ => ⟨.inl ⟨slot, map ▸ claimed⟩, prev⟩) (fun _ => trivial)
    · have ensures : Ensures (protectedKeys cfg s seq) (seq, b) s.slotMap m := .inr ⟨victim, slot, map ▸ chosen, map ▸ replaced⟩
      refine wp_spillHook (fun _ _ _ _ _ => ?_) (fun _ _ _ => ?_) (fun _ _ => trivial) (fun _ _ => trivial) (fun _ _ _ => trivial)
      all_goals exact wp_beginLoad (fun _ => ⟨ensures, prev⟩) (fun _ => trivial)
  refine wp_ensureOne (fun present => ⟨.inl ?_, rfl⟩) (fun _ _ _ => trivial) (fun _ _ _ _ => claims s rfl rfl)
    (fun _ _ _ _ => claims _ rfl rfl)
  obtain ⟨slot, held⟩ := mem_keys_iff.mp present
  refine ⟨slot, .inl held, fun k => ?_, keys_touch present, rfl⟩
  by_cases hs : k = (seq, b) <;> simp [hs, held]

omit [BlockMemory M bs R] in
theorem protectedKeys_congr (prev : t.prevSelected = s.prevSelected) : protectedKeys cfg t seq = protectedKeys cfg s seq := by
  unfold protectedKeys
  rw [prev]

theorem ensureLoop_fetched {needed : List (S × Nat)} {ids : List Nat} (recent : Recent needed s.slotMap)
    (fits : needed.length ≤ s.slotMap.capacity) (sub : ∀ b ∈ ids, (seq, b) ∈ needed) (hd : ids.Nodup) :
    wp (forM ids fun b => ensureOne cfg seq b) (fun _ t => (∀ k ∈ needed, k ∈ t.slotMap.keys) ↔
      Fetched (protectedKeys cfg s seq) needed s.slotMap (ids.map fun b => (seq, b))) (fun _ _ => True) s := by
  induction ids generalizing s with
  | nil =>
    refine ⟨fun all => ⟨fun k hm => .inl (all k hm), .inl ?_⟩, fun fetched k hm => (fetched.held k hm).resolve_right not_mem_nil⟩
    simpa using engaged_le
  | cons b ids ih =>
    have inj : Function.Injective fun b : Nat => (seq, b) := fun _ _ hs => congrArg Prod.snd hs
    have sub' : ∀ k ∈ (seq, b) :: ids.map (fun b => (seq, b)), k ∈ needed := by
      exact forall_mem_map.mpr sub
    rw [forM_cons, wp_bind]
    refine wp_imp ensureOne_ensures fun _ t ensured => ?_
    obtain ⟨ensures, prev⟩ := ensured
    refine wp_imp (ih (ensures.recent recent (sub b (.head _))) (ensures.capacity.symm ▸ fits)
      (fun b hm => sub b (.tail _ hm)) (nodup_cons.mp hd).2) fun _ u done => done.trans ?_
    rw [protectedKeys_congr prev]
    exact ensures.fetched_iff sub' (hd.map inj) recent fits

variable (s seq) in
def neededKeys (ids keepIds : List Nat) : List (S × Nat) :=
  ((ids ++ keepIds).dedup.filter fun b => b ∈ ids ∨ (seq, b) ∈ s.slotMap.keys).map fun b => (seq, b)

variable {ids keepIds : List Nat}

omit [BlockMemory M bs R] in
theorem mem_neededKeys {k : S × Nat} : k ∈ neededKeys s seq ids keepIds ↔
    k.1 = seq ∧ (k.2 ∈ ids ∨ k.2 ∈ keepIds ∧ (seq, k.2) ∈ s.slotMap.keys) := by
  obtain ⟨r, b⟩ := k
  simp only [neededKeys, mem_map, mem_filter, mem_dedup, mem_append, Prod.mk.injEq]
  grind

theorem ensureResident_sheltered (hd : ids.Nodup) (few : (neededKeys s seq ids keepIds).length ≤ s.slotMap.capacity) :
    wp (ensureResident cfg seq ids keepIds) (fun _ t => (∀ k ∈ neededKeys s seq ids keepIds, k ∈ t.slotMap.keys) ↔
      Sheltered (protectedKeys cfg s seq) (neededKeys s seq ids keepIds) s.slotMap (ids.map fun b => (seq, b)))
      (fun _ _ => True) s := by
  unfold ensureResident
  simp only [wp_bind]
  refine wp_touchResident fun u hs recent => ?_
  have recent' : Recent (neededKeys s seq ids keepIds) u.slotMap := by
    refine recent.mono fun k held => ?_
    rw [hs.mem_keys] at held
    rw [mem_neededKeys]
    grind
  have perm := (perm_ext_iff_of_nodup (nodup_keys _) (nodup_keys _)).mpr fun _ => hs.mem_keys
  have start : ∀ k ∈ neededKeys s seq ids keepIds, k ∈ u.slotMap.keys ∨ k ∈ ids.map fun b => (seq, b) := by
    intro k hm
    rw [mem_neededKeys] at hm
    grind
  refine wp_imp (ensureLoop_fetched recent' (hs.capacity.symm ▸ few) (fun b hm => mem_neededKeys.mpr ⟨rfl, .inl hm⟩) hd)
    fun _ t done => ?_
  have begun := done.trans ⟨Fetched.sheltered, Fetched.mk start⟩
  rw [sheltered_reorder perm hs.capacity, protectedKeys_congr (by rw [hs.rest])] at begun
  split <;> exact begun

/-- With the needed blocks within the capacity, `ensure_resident` keeps all of them under the orderings `lru` and `prefetch`,
and under `mixture` exactly if they are sheltered. -/
theorem ensure_resident_keeps_iff (cfg : TierConfig bs R D) (s t : TierManager S D M) (seq : S) (ids keepIds : List Nat)
    (hd : ids.Nodup) (fits : (ids ++ keepIds).dedup.length ≤ s.slotMap.capacity)
    (run : ensureResident cfg seq ids keepIds s = .ok () t) :
    ((∀ b ∈ ids, (seq, b) ∈ t.slotMap.keys) ∧
      ∀ b ∈ keepIds, (seq, b) ∈ s.slotMap.keys → (seq, b) ∈ t.slotMap.keys) ↔
    (cfg.blockOrdering = .mixture →
      Sheltered (protectedKeys cfg s seq) (neededKeys s seq ids keepIds) s.slotMap (ids.map fun b => (seq, b))) := by
  have few : (neededKeys s seq ids keepIds).length ≤ s.slotMap.capacity := by
    rw [neededKeys, length_map]
    exact (length_filter_le _ _).trans fits
  have sub : ∀ b ∈ ids, (seq, b) ∈ neededKeys s seq ids keepIds := fun b hm => mem_neededKeys.mpr ⟨rfl, .inl hm⟩
  have plain : cfg.blockOrdering ≠ .mixture →
      Sheltered (protectedKeys cfg s seq) (neededKeys s seq ids keepIds) s.slotMap (ids.map fun b => (seq, b)) := by
    intro other
    rw [protectedKeys, if_neg other]
    exact sheltered_plain (hd.map fun _ _ hs => congrArg Prod.snd hs) (forall_mem_map.mpr sub) few
  rw [imp_iff_or_not, or_iff_left_of_imp plain, ← wp_ok (ensureResident_sheltered hd few) run]
  constructor
  · intro kept k hm
    rw [mem_neededKeys] at hm
    grind
  · intro all
    exact ⟨fun b hm => all _ (sub b hm), fun b hm held => all _ (mem_neededKeys.mpr ⟨rfl, .inr ⟨hm, held⟩⟩)⟩

def mixtureConfig : TierConfig 1 Nat Nat := { tinyConfig with gpuBudget := 2, blockOrdering := .mixture }

/-- Block 0 is spilled, blocks 1 and 2 are resident. -/
def mixedState (previous : List Nat) : TierManager Nat Nat (Memory 1 Nat) :=
  finalState (runCalls mixtureConfig [.onBlockFilled 7 0 (tinyBlock 1), .onBlockFilled 7 1 (tinyBlock 2),
    .onBlockFilled 7 2 (tinyBlock 3), .setPrevSelected 7 previous]) (.init mixtureConfig tinyInit.mem tinyInit.summary)

theorem ensure_resident_keeps_live : let t := finalState (ensureResident mixtureConfig 7 [0] [2]) (mixedState [2])
    (∀ b ∈ [0], (7, b) ∈ t.slotMap.keys) ∧ ∀ b ∈ [2], (7, b) ∈ (mixedState [2]).slotMap.keys → (7, b) ∈ t.slotMap.keys :=
  (ensure_resident_keeps_iff mixtureConfig (mixedState [2]) _ 7 [0] [2] (by decide) (by decide) rfl).mpr
    fun _ => .inl (by decide)

/-- The previous layer selected block 1, so the load of block 0 evicts block 2. -/
theorem mixture_evicts_live : let t := finalState (ensureResident mixtureConfig 7 [0] [2]) (mixedState [1])
    ([0] ++ [2]).dedup.length ≤ (mixedState [1]).slotMap.capacity ∧ (7, 2) ∈ (mixedState [1]).slotMap.keys ∧
      returns (ensureResident mixtureConfig 7 [0] [2]) (mixedState [1]) ∧ t.slotMap.keys = [(7, 1), (7, 0)] := by
  decide

end KVOffload.Quest
