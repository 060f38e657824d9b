import KVOffload.Quest.TierManager

/-!
# What one operation of the tier manager can do

One rule for each building block: the states it can leave and the exceptions it can raise. Later
modules cite these rules and do not unfold the operations again.
-/

namespace KVOffload.Quest

open TierManager List OrderedDict Function LRUSlotMap

variable {S D M R : Type} {bs : Nat}

def Evictable (s : TierManager S D M) (block : Nat) : Prop :=
  s.residency block = .onGpu ∨ s.residency block = .evicting

variable {block layer : Nat} {Q : Unit → TierManager S D M → Prop} {E : QuestError S → TierManager S D M → Prop}
  {s : TierManager S D M}

theorem wp_beginEvict (done : Evictable s block → Q () { s with residency := update s.residency block .evicting })
    (stuck : ¬ Evictable s block → E (.beginEvict layer block (s.residency block)) s) :
    wp (beginEvict layer block) Q E s := by
  unfold beginEvict
  simp only [wp_bind, wp_get]
  cases state : s.residency block with
  | onGpu => simpa [setResidency] using done (.inl state)
  | evicting =>
    have hs : update s.residency block .evicting = s.residency := by
      rw [← state, update_eq_self]
    simpa [hs] using done (.inr state)
  | onCpu => simpa [state] using stuck (by simp [Evictable, state])
  | loading => simpa [state] using stuck (by simp [Evictable, state])

theorem wp_completeEvict (state : s.residency block = .evicting)
    (done : Q () { s with residency := update s.residency block .onCpu }) :
    wp (completeEvict layer block) Q E s := by
  unfold completeEvict
  simpa [state, setResidency] using done

theorem wp_evictRow (done : Evictable s block → Q () { s with residency := update s.residency block .onCpu })
    (stuck : ¬ Evictable s block → E (.beginEvict layer block (s.residency block)) s) :
    wp (do beginEvict layer block; completeEvict layer block) Q E s := by
  rw [wp_bind]
  refine wp_beginEvict (fun ready => ?_) stuck
  refine wp_completeEvict (by simp) ?_
  simpa using done ready

theorem wp_beginLoad
    (done : s.residency block = .onCpu → Q () { s with residency := update s.residency block .loading })
    (stuck : s.residency block ≠ .onCpu → E (.beginLoad layer block (s.residency block)) s) :
    wp (beginLoad layer block) Q E s := by
  unfold beginLoad
  simp only [wp_bind, wp_get]
  cases state : s.residency block with
  | onCpu => simpa [setResidency] using done state
  | onGpu => simpa [state] using stuck (by simp [state])
  | evicting => simpa [state] using stuck (by simp [state])
  | loading => simpa [state] using stuck (by simp [state])

theorem wp_completeLoad (state : s.residency block = .loading)
    (done : Q () { s with residency := update s.residency block .onGpu }) :
    wp (completeLoad layer block) Q E s := by
  unfold completeLoad
  simpa [state, setResidency] using done

theorem wp_allocOr {error : QuestError S} {Q : Nat → TierManager S D M → Prop}
    (done : ∀ cpuSlot rest, s.cpuFree = cpuSlot :: rest → Q cpuSlot { s with cpuFree := rest })
    (full : s.cpuFree = [] → E error s) : wp (allocOr error) Q E s := by
  unfold allocOr
  simp only [wp_bind, wp_get]
  split
  · rename_i none
    exact full none
  · rename_i cpuSlot rest some
    simpa using done cpuSlot rest some

variable [DecidableEq S] [BlockMemory M bs R] {cfg : TierConfig bs R D} {key : S × Nat} {protect : List (S × Nat)} {seq : S}

/-- The evicted block is in the host tier afterwards: in a new pool slot under write-back, in the mirror it
already has under write-through. -/
theorem wp_spillHook {slot : Nat}
    (spill : cfg.enableWriteThrough = false → ∀ cpuSlot rest, s.cpuFree = cpuSlot :: rest → Evictable s key.2 →
      Q () { s with
        cpuFree := rest
        mem := BlockMemory.spillSlot cpuSlot slot s.mem
        residency := update s.residency key.2 .onCpu
        cpuSlots := s.cpuSlots.insert key cpuSlot })
    (drop : cfg.enableWriteThrough = true → key ∈ s.hostSlots → Evictable s key.2 →
      Q () { s with residency := update s.residency key.2 .onCpu })
    (full : cfg.enableWriteThrough = false → s.cpuFree = [] → E (.cpuPoolFull cfg.layerIdx cfg.cpuBlocks) s)
    (bare : cfg.enableWriteThrough = true → key ∉ s.hostSlots → E (.noHostBackup key) s)
    (stuck : ∀ t, t.mem = s.mem → ¬ Evictable s key.2 → E (.beginEvict cfg.layerIdx key.2 (s.residency key.2)) t) :
    wp (spillHook cfg key slot) Q E s := by
  unfold spillHook
  cases mode : cfg.enableWriteThrough with
  | true =>
    simp only [↓reduceIte, dropGpuSlot, wp_bind, wp_get]
    by_cases backed : key ∈ s.hostSlots
    · simp only [backed]
      exact wp_evictRow (drop mode backed) (stuck s rfl)
    · simpa [backed] using bare mode backed
  | false =>
    simp only [Bool.false_eq_true, ↓reduceIte, spillToCpu, wp_bind]
    refine wp_allocOr (fun cpuSlot rest free => ?_) (full mode)
    refine wp_beginEvict (fun ready => ?_) (fun unready => stuck _ rfl unready)
    simp only [wp_modify, setMem]
    refine wp_completeEvict (by simp) ?_
    simpa [setCpuSlot] using spill mode cpuSlot rest free ready

theorem wp_addSlot {Q : Nat × Option (S × Nat) → TierManager S D M → Prop}
    (done : ∀ slot evicted m, s.slotMap.add key protect = some (slot, evicted, m) → Q (slot, evicted) { s with slotMap := m })
    (empty : s.slotMap.capacity = 0 → E .emptyArena s) : wp (addSlot key protect) Q E s := by
  unfold addSlot
  simp only [wp_bind, wp_get]
  split
  · rename_i none
    refine empty (Nat.eq_zero_of_not_pos fun hp => ?_)
    obtain ⟨_, some⟩ := add_isSome key protect hp
    rw [some] at none
    cases none
  · rename_i slot evicted m some
    simpa [setSlotMap] using done slot evicted m some

theorem wp_claimSlot {Q : Nat → TierManager S D M → Prop}
    (kept : ∀ slot m, s.slotMap.Claimed key slot m → Q slot { s with slotMap := m })
    (evict : ∀ victim slot m, s.slotMap.victim protect = some victim → s.slotMap.Replaced key victim slot m →
      wp (spillHook cfg victim slot) (fun _ t => Q slot t) E { s with slotMap := m })
    (empty : s.slotMap.capacity = 0 → E .emptyArena s) : wp (claimSlot cfg key protect) Q E s := by
  unfold claimSlot
  rw [wp_bind]
  refine wp_addSlot (fun slot evicted m added => ?_) empty
  obtain ⟨rfl, claimed⟩ | ⟨v, rfl, chosen, replaced⟩ := add_cases added
  · simpa using kept slot m claimed
  · simpa using evict v slot m chosen replaced

omit [BlockMemory M bs R] in
theorem wp_mirrorWith {copy : Nat → M → M} (there : key ∈ s.hostSlots → Q () s)
    (stored : key ∉ s.hostSlots → ∀ cpuSlot rest, s.cpuFree = cpuSlot :: rest →
      Q () { s with
        cpuFree := rest
        hostSlots := s.hostSlots.insert key cpuSlot
        mem := copy cpuSlot s.mem })
    (full : key ∉ s.hostSlots → s.cpuFree = [] → E (.cpuPoolFull cfg.layerIdx cfg.cpuBlocks) s) :
    wp (mirrorWith cfg key copy) Q E s := by
  unfold mirrorWith
  simp only [wp_bind, wp_get]
  by_cases backed : key ∈ s.hostSlots
  · simpa [backed] using there backed
  · simp only [backed, ↓reduceIte, wp_bind]
    refine wp_allocOr (fun cpuSlot rest free => ?_) (full backed)
    simpa [setHostSlot, setMem] using stored backed cpuSlot rest free

theorem wp_keepOrSpill {lo b : Nat} {overflow exhausted : QuestError S} {content : KVBlock bs R}
    (kept : lo ≤ b → ∀ slot m, s.slotMap.Claimed (seq, b) slot m →
      wp (if cfg.enableWriteThrough then mirrorToHost cfg (seq, b) content else pure ()) Q E
        { s with
          slotMap := m
          mem := BlockMemory.fillSlot slot content s.mem
          residency := update s.residency b .onGpu })
    (overfull : lo ≤ b → s.slotMap.slot? (seq, b) = none → s.slotMap.freeSlots = [] → ∀ t, E overflow t)
    (mirrored : b < lo → cfg.enableWriteThrough = true →
      wp (mirrorToHost cfg (seq, b) content)
        (fun _ t => wp (do beginEvict cfg.layerIdx b; completeEvict cfg.layerIdx b) Q E t) E s)
    (spilled : b < lo → cfg.enableWriteThrough = false → ∀ cpuSlot rest, s.cpuFree = cpuSlot :: rest →
      wp (do beginEvict cfg.layerIdx b; completeEvict cfg.layerIdx b) Q E
        { s with
          cpuFree := rest
          mem := BlockMemory.storeBlock cpuSlot content s.mem
          cpuSlots := s.cpuSlots.insert (seq, b) cpuSlot })
    (full : b < lo → cfg.enableWriteThrough = false → s.cpuFree = [] → E exhausted s)
    (empty : lo ≤ b → s.slotMap.capacity = 0 → E .emptyArena s) :
    wp (keepOrSpill cfg seq lo overflow exhausted b content) Q E s := by
  unfold keepOrSpill
  by_cases keep : lo ≤ b
  · simp only [keep, ↓reduceIte, wp_bind]
    refine wp_addSlot (fun slot evicted m added => ?_) (empty keep)
    obtain ⟨rfl, claimed⟩ | ⟨v, rfl, chosen, replaced⟩ := add_cases added
    · simpa [markOnGpu, setMem, setResidency] using kept keep slot m claimed
    · simpa using overfull keep replaced.absent replaced.full _
  have hb : b < lo := Nat.lt_of_not_le keep
  simp only [keep]
  cases mode : cfg.enableWriteThrough with
  | true =>
    simp only [↓reduceIte]
    rw [wp_bind]
    exact mirrored hb mode
  | false =>
    simp only [Bool.false_eq_true, ↓reduceIte]
    rw [wp_bind]
    refine wp_allocOr (fun cpuSlot rest free => ?_) (full hb mode)
    simp only [wp_bind, wp_modify, setMem, setCpuSlot]
    simpa using spilled hb mode cpuSlot rest free

theorem wp_ensureOne (hit : (seq, block) ∈ s.slotMap.keys → Q () { s with slotMap := s.slotMap.touch (seq, block) })
    (lost : (seq, block) ∉ s.slotMap.keys →
      (cfg.enableWriteThrough = true → s.hostSlots.get? (seq, block) = none) →
      (cfg.enableWriteThrough = false → s.cpuSlots.get? (seq, block) = none) → E (.notStored (seq, block)) s)
    (mirror : cfg.enableWriteThrough = true → (seq, block) ∉ s.slotMap.keys →
      ∀ cpuSlot, s.hostSlots.get? (seq, block) = some cpuSlot →
      wp (claimSlot cfg (seq, block) (protectedKeys cfg s seq))
        (fun slot t => wp (beginLoad cfg.layerIdx block)
          (fun _ u => Q () { u with
            residency := update u.residency block .onGpu
            mem := BlockMemory.loadSlot cpuSlot slot u.mem }) E t) E s)
    (back : cfg.enableWriteThrough = false → (seq, block) ∉ s.slotMap.keys →
      ∀ cpuSlot, s.cpuSlots.get? (seq, block) = some cpuSlot →
      wp (claimSlot cfg (seq, block) (protectedKeys cfg s seq))
        (fun slot t => wp (beginLoad cfg.layerIdx block)
          (fun _ u => Q () { u with
            residency := update u.residency block .onGpu
            mem := BlockMemory.loadSlot cpuSlot slot u.mem
            cpuFree := cpuSlot :: u.cpuFree }) E t) E { s with cpuSlots := s.cpuSlots.erase (seq, block) }) :
    wp (ensureOne cfg seq block) Q E s := by
  unfold ensureOne
  by_cases present : (seq, block) ∈ s.slotMap.keys
  · simpa [present, setSlotMap] using hit present
  simp only [present, ↓reduceIte, takeBackup, wp_bind, wp_get]
  cases mode : cfg.enableWriteThrough with
  | true =>
    simp only [↓reduceIte, wp_pure]
    cases hf : s.hostSlots.get? (seq, block) with
    | none => simpa using lost present (fun _ => hf) (by simp [mode])
    | some cpuSlot =>
      simp only [wp_bind, wp_modify]
      refine wp_imp (mirror mode present cpuSlot hf) (fun slot t claimed => ?_)
      refine wp_mono (wp_and claimed (wp_beginLoad (Q := fun _ u => u.residency block = .loading)
        (E := fun _ _ => True) (fun _ => by simp) (fun _ => trivial))) ?_ (fun _ _ h => h.1)
      rintro _ u ⟨loaded, loading⟩
      exact wp_completeLoad loading loaded
  | false =>
    simp only [Bool.false_eq_true, ↓reduceIte, wp_bind, wp_set, wp_pure]
    cases hf : s.cpuSlots.get? (seq, block) with
    | none =>
      rw [erase_of_get?_eq_none hf]
      simpa using lost present (by simp [mode]) (fun _ => hf)
    | some cpuSlot =>
      simp only [wp_bind, wp_modify, setMem]
      refine wp_imp (back mode present cpuSlot hf) (fun slot t claimed => ?_)
      refine wp_mono (wp_and claimed (wp_beginLoad (Q := fun _ u => u.residency block = .loading)
        (E := fun _ _ => True) (fun _ => by simp) (fun _ => trivial))) ?_ (fun _ _ h => h.1)
      rintro _ u ⟨loaded, loading⟩
      exact wp_completeLoad loading loaded

/-- What `free_request(seq)` makes of a state. -/
structure Freed (seq : S) (s t : TierManager S D M) : Prop where
  slots : ∀ k, t.slotMap.slot? k = if k.1 = seq then none else s.slotMap.slot? k
  capacity : t.slotMap.capacity = s.slotMap.capacity
  cpuSlots : ∀ k, t.cpuSlots.get? k = if k.1 = seq then none else s.cpuSlots.get? k
  hostSlots : ∀ k, t.hostSlots.get? k = if k.1 = seq then none else s.hostSlots.get? k
  pool : (t.cpuFree ++ t.cpuSlots.values ++ t.hostSlots.values).Perm
    (s.cpuFree ++ s.cpuSlots.values ++ s.hostSlots.values)
  residency : ∀ b, t.residency b =
    if (seq, b) ∈ s.slotMap.keys ∨ (seq, b) ∈ s.cpuSlots ∨ (seq, b) ∈ s.hostSlots then .onGpu else s.residency b
  mem : t.mem = s.mem
  summary : t.summary = s.summary
  prevSelected : t.prevSelected = s.prevSelected.erase seq
  trimmed : t.trimmed = s.trimmed.erase seq
  activeSeqs : t.activeSeqs = s.activeSeqs

omit [DecidableEq S] in
theorem foldl_markOnGpu (ks : List (S × Nat)) (s : TierManager S D M) :
    ks.foldl (fun t k => setResidency k.2 .onGpu t) s =
      { s with residency := fun b => if b ∈ ks.map Prod.snd then .onGpu else s.residency b } := by
  induction ks generalizing s with
  | nil => simp
  | cons k ks ih =>
    rw [foldl_cons, ih]
    simp only [setResidency, TierManager.mk.injEq, true_and, and_true]
    funext b
    by_cases later : b ∈ ks.map Prod.snd
    · simp [later]
    · by_cases hs : b = k.2 <;> simp [later, hs]

theorem foldl_freeSlots (ks : List (S × Nat)) (s : TierManager S D M) :
    ks.foldl (fun t k => setSlotMap (t.slotMap.free k) t) s = { s with slotMap := s.slotMap.freeAll ks } := by
  induction ks generalizing s with
  | nil => rfl
  | cons k ks ih =>
    rw [foldl_cons, ih]
    rfl

theorem foldl_freeCpuSlots (es : List ((S × Nat) × Nat)) (s : TierManager S D M) :
    es.foldl (fun t e => freeCpu e.2 { t with cpuSlots := t.cpuSlots.erase e.1 }) s =
      { s with
        cpuFree := (es.map Prod.snd).reverse ++ s.cpuFree
        cpuSlots := s.cpuSlots.eraseAll (es.map Prod.fst) } := by
  induction es generalizing s with
  | nil => rfl
  | cons e es ih =>
    rw [foldl_cons, ih]
    simp [freeCpu, eraseAll]

theorem foldl_freeHostSlots (es : List ((S × Nat) × Nat)) (s : TierManager S D M) :
    es.foldl (fun t e => freeCpu e.2 { t with hostSlots := t.hostSlots.erase e.1 }) s =
      { s with
        cpuFree := (es.map Prod.snd).reverse ++ s.cpuFree
        hostSlots := s.hostSlots.eraseAll (es.map Prod.fst) } := by
  induction es generalizing s with
  | nil => rfl
  | cons e es ih =>
    rw [foldl_cons, ih]
    simp [freeCpu, eraseAll]

theorem eraseAll_request (d : OrderedDict (S × Nat) Nat) (seq : S) :
    let es := d.entries.filter fun e => e.1.1 = seq
    (∀ k, (d.eraseAll (es.map Prod.fst)).get? k = if k.1 = seq then none else d.get? k) ∧
    (es.map Prod.snd ++ (d.eraseAll (es.map Prod.fst)).values).Perm d.values ∧
    ∀ b, b ∈ (es.map Prod.fst).map Prod.snd ↔ (seq, b) ∈ d := by
  intro es
  have hm : ∀ k, k ∈ es.map Prod.fst ↔ k.1 = seq ∧ k ∈ d := by
    intro k
    simp only [es, mem_map, mem_filter, decide_eq_true_eq, mem_def, OrderedDict.keys]
    constructor
    · rintro ⟨e, ⟨stored, owner⟩, rfl⟩
      exact ⟨owner, e, stored, rfl⟩
    · rintro ⟨owner, e, stored, rfl⟩
      exact ⟨e, ⟨stored, owner⟩, rfl⟩
  refine ⟨fun k => ?_, ?_, fun b => ?_⟩
  · rw [get?_eraseAll]
    by_cases owner : k.1 = seq
    · by_cases present : k ∈ d
      · simp [hm, present]
      · simp [hm, get?_eq_none_iff.mpr present]
    · simp [hm, owner]
  · exact values_perm_eraseAll (fun e h => (mem_filter.mp h).1)
      (d.nodup.sublist (filter_sublist.map _))
  · simp only [mem_map, hm]
    constructor
    · rintro ⟨k, ⟨rfl, present⟩, rfl⟩
      exact present
    · intro present
      exact ⟨(seq, b), ⟨rfl, present⟩, rfl⟩

theorem wp_freeRequest (done : ∀ t, Freed seq s t → Q () t) : wp (freeRequest seq) Q E s := by
  unfold freeRequest
  simp only [wp_bind, wp_get, wp_forM_modify, wp_modify, markOnGpu]
  rw [foldl_freeSlots, foldl_freeCpuSlots, foldl_freeHostSlots, foldl_markOnGpu]
  obtain ⟨cpuLookup, cpuPerm, cpuMem⟩ := eraseAll_request s.cpuSlots seq
  obtain ⟨hostLookup, hostPerm, hostMem⟩ := eraseAll_request s.hostSlots seq
  refine done _ ⟨fun k => ?_, capacity_freeAll _ _, cpuLookup, hostLookup, ?_, fun b => ?_, rfl, rfl, rfl, rfl, rfl⟩
  · rw [slot?_freeAll]
    by_cases owner : k.1 = seq
    · by_cases present : k ∈ s.slotMap.keys
      · simp [present]
      · simp [slot?_eq_none_iff.mpr present]
    · simp [owner]
  · rw [perm_iff_count]
    intro c
    have cpuCount := cpuPerm.count_eq c
    have hostCount := hostPerm.count_eq c
    simp only [count_append, count_reverse] at cpuCount hostCount ⊢
    omega
  · have resident : b ∈ (s.slotMap.keys.filter fun k => k.1 = seq).map Prod.snd ↔ (seq, b) ∈ s.slotMap.keys := by
      simp only [mem_map, mem_filter, decide_eq_true_eq]
      constructor
      · rintro ⟨k, ⟨present, rfl⟩, rfl⟩
        exact present
      · intro present
        exact ⟨(seq, b), ⟨present, rfl⟩, rfl⟩
    simp only [map_append, mem_append, cpuMem, hostMem, resident, or_assoc]

end KVOffload.Quest
