import KVOffload.Quest.Shelf

/-!
# Sequences that share a layer

A call for one sequence reaches another one exactly through the summaries and residency rows it writes, which are indexed by the
block number alone.
-/

namespace KVOffload.Quest

open TierManager List OrderedDict LRUSlotMap Quest.Shelf

variable {S D R : Type} {bs lo : Nat} [DecidableEq S] {cfg : TierConfig bs R D} {owner seq : S} {blocks : Finset Nat}
  {v : Shelf bs R D} {s t : TierManager S D (Memory bs R)} {l : List Nat}

/-! ### The prefill loop -/

variable (cfg) in
/-- How a call for `seq` ends: for `owner` as on its shelf, for the others without a trace on that shelf. -/
structure Ends (owner : S) (blocks : Finset Nat) (seq : S) (s : TierManager S D (Memory bs R)) (v : Shelf bs R D)
    (result : Option (QuestError S) × Shelf bs R D) (raised : Option (QuestError S))
    (t : TierManager S D (Memory bs R)) : Prop where
  shows : Shows cfg owner blocks seq s (if seq = owner then result.2 else v) t
  outcome : seq = owner → raised = result.1

variable (cfg) in
abbrev EndsIn {α : Type} (owner : S) (blocks : Finset Nat) (seq : S) (s : TierManager S D (Memory bs R)) (v : Shelf bs R D)
    (result : Option (QuestError S) × Shelf bs R D) (x : TierM S D (Memory bs R) α) : Prop :=
  wp x (fun _ t => Ends cfg owner blocks seq s v result none t)
    (fun e t => Ends cfg owner blocks seq s v result (some e) t) s

theorem keepOrSpill_loop {overflow exhausted : QuestError S} (content : Nat → KVBlock bs R)
    (hd : l.Nodup) (sound : Sound cfg s) (sees : Sees cfg owner blocks v s)
    (side : ∀ b ∈ l, (b ∈ blocks ↔ seq = owner)) (room : Room cfg seq lo l s) (begun : seq ∈ s.trimmed)
    (rows : ∀ b ∈ l, seq = owner → s.residency b = .onGpu) (bare : ∀ b ∈ l, (seq, b) ∉ s.cpuSlots) :
    wp (forM l fun b => keepOrSpill cfg seq lo overflow exhausted b (content b))
      (fun _ t => Shows cfg owner blocks seq s
      (forSeq owner seq (fun w => l.foldl (fun w b => w.settle cfg lo b (content b)) w) v) t)
      (fun _ t => seq ≠ owner ∧ Sound cfg t ∧ Sees cfg owner blocks v t) s := by
  induction l generalizing v s with
  | nil =>
    exact ⟨sound, by unfold forSeq; split <;> exact sees, fun _ => rfl⟩
  | cons b rest ih =>
    obtain ⟨fresh, hd'⟩ := nodup_cons.mp hd
    have ne : ∀ b' ∈ rest, b' ≠ b := fun b' later hs => fresh (hs ▸ later)
    rw [forM_cons, wp_bind]
    refine wp_imp (keepOrSpill_shows sound sees (side b (.head _)) fresh room begun (rows b (.head _)) (bare b (.head _))) ?_
    rintro _ t ⟨shows, there, tail⟩
    have later := ih hd' shows.sound shows.sees (fun b' hm => side b' (.tail _ hm)) tail
      (there.trimmed ▸ begun)
      (fun b' hm own => (there.rows b' (ne b' hm)).trans (rows b' (.tail _ hm) own))
      (fun b' hm => (there.cpuSlots _ (other_block (ne b' hm))).not.mpr (bare b' (.tail _ hm)))
    refine wp_mono later (fun _ u done => ?_) (fun _ u failed => ?_)
    · rw [forSeq_comp] at done
      exact ⟨done.sound, done.sees, fun own => (done.total own).trans (shows.total own)⟩
    · obtain ⟨other, sound', sees'⟩ := failed
      rw [forSeq_other other] at sees'
      exact ⟨other, sound', sees'⟩

theorem trimToWorkingSet_ends {n : Nat} {engine : Nat → KVBlock bs R} {row : Nat → Nat} (sound : Sound cfg s)
    (sees : Sees cfg owner blocks v s) (side : seq ∉ s.trimmed → ∀ b < n, (b ∈ blocks ↔ seq = owner))
    (room : seq ∉ s.trimmed → Room cfg seq (keepLo cfg.gpuBudget n) (range n) s) :
    EndsIn cfg owner blocks seq s v (none, v.trim cfg n fun b => engine (row b))
      (trimToWorkingSet cfg seq n engine row) := by
  unfold trimToWorkingSet
  simp only [wp_bind, wp_get]
  by_cases done : seq ∈ s.trimmed
  · simp only [done]
    refine ⟨⟨sound, ?_, fun _ => rfl⟩, fun _ => rfl⟩
    split
    · rename_i own
      rw [trim, if_pos (sees.trimmed.mp (own ▸ done))]
      exact sees
    · exact sees
  simp only [done, ↓reduceIte, wp_bind, wp_modify, wp_get, sound.capacity]
  have begin : Sees cfg owner blocks (forSeq owner seq (fun w => { w with trimmed := true }) v)
      { s with trimmed := insert seq s.trimmed } := by
    by_cases own : seq = owner
    · subst own
      rw [forSeq, if_pos rfl]
      exact ⟨sees.summary, sees.arena, sees.hosted, by simp, sees.inside, sees.away, sees.rows, by simp⟩
    · rw [forSeq_other own]
      exact sees.frame (fun _ _ => rfl) (fun _ _ => rfl) (fun _ => rfl) (fun _ _ _ => rfl) (fun _ => rfl)
        (fun _ _ _ => rfl) (by simp [Ne.symm own])
  have sound' : Sound cfg { s with trimmed := insert seq s.trimmed } :=
    ⟨sound.capacity, sound.pool, sound.durable, sound.unmirrored,
      fun k held => Finset.mem_insert_of_mem (sound.spilled k held)⟩
  have fresh : seq = owner → v.trimmed = false := by
    rintro rfl
    exact Bool.eq_false_iff.mpr fun already => done (sees.trimmed.mpr already)
  refine wp_mono (keepOrSpill_loop (fun b => engine (row b)) nodup_range sound' begin
    (fun b hm => side done b (mem_range.mp hm)) ⟨(room done).arena, (room done).pool⟩
    (Finset.mem_insert_self _ _)
    (fun b hm own => sees.untrimmed (fresh own) b ((side done b (mem_range.mp hm)).mpr own))
    (fun b _ held => done (sound.spilled _ held)))
    (fun _ t shows => ⟨⟨shows.sound, ?_, shows.total⟩, fun _ => rfl⟩) (fun e t failed => ?_)
  · have sees' := shows.sees
    rw [forSeq_comp] at sees'
    by_cases own : seq = owner
    · rw [if_pos own, trim, if_neg (by simp [fresh own])]
      rwa [forSeq, if_pos own] at sees'
    · rw [if_neg own]
      rwa [forSeq_other own] at sees'
  · obtain ⟨other, sound'', sees'⟩ := failed
    rw [forSeq_other other] at sees'
    exact ⟨⟨sound'', by rwa [if_neg other], fun own => absurd own other⟩, fun own => absurd own other⟩

/-! ### Residency on demand -/

variable {b : Nat} {rest : List Nat} {k : S × Nat} {c : Nat}

theorem Sees.drop (sees : Sees cfg owner blocks v s) (side : b ∈ blocks ↔ seq = owner)
    (resident : seq = owner → v.arena b ≠ none) (row : seq = owner → s.residency b = .onGpu)
    (slotMap : t.slotMap = s.slotMap) (mem : t.mem = s.mem) (summary : t.summary = s.summary)
    (trimmed : t.trimmed = s.trimmed) (residency : t.residency = s.residency)
    (lookup : ∀ k, backup cfg t k = if k = (seq, b) then none else backup cfg s k) :
    Sees cfg owner blocks (forSeq owner seq (fun w => { w with backup := Function.update w.backup b none }) v) t := by
  refine sees.rebacked side slotMap (by rw [mem]) (by simp [mem]) summary trimmed lookup (by simp [residency]) fun own => ?_
  rw [residency]
  exact ⟨fun missing => absurd missing (resident own), .inl (row own), fun _ => row own⟩

theorem Sees.refused {slot : Nat} {m : LRUSlotMap (S × Nat)} (sees : Sees cfg owner blocks v s)
    (claimed : s.slotMap.Claimed (seq, b) slot m) (other : seq ≠ owner) (slotMap : t.slotMap = m) (mem : t.mem = s.mem)
    (summary : t.summary = s.summary) (trimmed : t.trimmed = s.trimmed) (residency : t.residency = s.residency)
    (lookup : ∀ k, k ≠ (seq, b) → backup cfg t k = backup cfg s k) : Sees cfg owner blocks v t := by
  have differs : ∀ b', (owner, b') ≠ (seq, b) := fun b' => other_key (Ne.symm other)
  refine sees.frame (by simp [summary]) (by simp [residency]) (fun b' => ?_) (by simp [mem])
    (fun b' => lookup _ (differs b')) (by simp [mem]) (by rw [trimmed])
  rw [slotMap, claimed.lookup, if_neg (differs b')]

theorem Sound.take (sound : Sound cfg s) (hf : s.cpuSlots.get? k = some c)
    (capacity : t.slotMap.capacity = s.slotMap.capacity) (cpuFree : t.cpuFree = s.cpuFree ∨ t.cpuFree = c :: s.cpuFree)
    (cpuSlots : t.cpuSlots = s.cpuSlots.erase k) (hostSlots : t.hostSlots = s.hostSlots)
    (trimmed : t.trimmed = s.trimmed) : Sound cfg t := by
  have gone : ∀ k', k' ∈ t.cpuSlots → k' ∈ s.cpuSlots := by
    rw [cpuSlots]
    exact fun k' held => (mem_erase.mp held).2
  refine ⟨capacity.trans sound.capacity, List.Subperm.trans ?_ sound.pool, fun mode k' held => ?_, ?_, fun k' held => ?_⟩
  · have values := values_perm_erase hf
    rw [cpuSlots, hostSlots]
    refine subperm_iff_count.mpr fun x => ?_
    have count := values.count_eq x
    rcases cpuFree with free | free <;> rw [free]
    all_goals
      simp only [count_append, count_cons] at count ⊢
      omega
  · exact sound.durable mode k' (gone k' held)
  · rw [hostSlots]
    exact sound.unmirrored
  · rw [trimmed]
    exact sound.spilled k' (gone k' held)

variable (cfg b) in
def Shelf.fetch (w : Shelf bs R D) : Shelf bs R D :=
  match w.arena b, w.backup b with
  | none, some content => w.load cfg b content
  | _, _ => w

theorem Sees.reordered (sees : Sees cfg owner blocks v s) (hs : Reordered s t) : Sees cfg owner blocks v t := by
  rw [hs.rest]
  exact sees.frame (fun _ _ => rfl) (fun _ _ => rfl) (fun _ => hs.slots _) (fun _ _ _ => rfl) (fun _ => rfl)
    (fun _ _ _ => rfl) Iff.rfl

theorem Sound.reordered (sound : Sound cfg s) (hs : Reordered s t) : Sound cfg t := by
  rw [hs.rest]
  exact sound.slotMap_change hs.capacity rfl rfl rfl rfl

theorem Reordered.arenaNeed_le (hs : Reordered s t)
    (room : arenaNeed seq 0 l s ≤ s.slotMap.freeSlots.length) : arenaNeed seq 0 l t ≤ t.slotMap.freeSlots.length := by
  have before := length_free_add_keys s.slotMap
  have after := length_free_add_keys t.slotMap
  have keys := (perm_ext_iff_of_nodup (LRUSlotMap.nodup_keys _) (LRUSlotMap.nodup_keys _)).mpr fun k => hs.mem_keys.symm
  have count := keys.length_eq
  have size := hs.capacity
  have need : arenaNeed seq 0 l t = arenaNeed seq 0 l s := by
    unfold arenaNeed
    congr 1
    exact Finset.filter_congr fun b _ => by rw [hs.mem_keys]
  omega

theorem Sees.forSeq_fetch_resident (sees : Sees cfg owner blocks v s) (present : (seq, b) ∈ s.slotMap.keys) :
    forSeq owner seq (fetch cfg b) v = v := by
  by_cases own : seq = owner
  · rw [forSeq, if_pos own, fetch]
    cases held : v.arena b with
    | some _ => rfl
    | none =>
      exact absurd (own ▸ present) (slot?_eq_none_iff.mp (sees.arena_none_iff.mp held))
  · exact forSeq_other own

theorem Sees.forSeq_fetch_load (sees : Sees cfg owner blocks v s) (missing : (seq, b) ∉ s.slotMap.keys)
    (hf : backup cfg s (seq, b) = some c) : forSeq owner seq (fetch cfg b) v =
      forSeq owner seq (load cfg b (s.mem.host c)) v := by
  by_cases own : seq = owner
  · subst own
    have gone := sees.arena_none_iff.mpr (slot?_eq_none_iff.mpr missing)
    have held : v.backup b = some (s.mem.host c) := by
      rw [← sees.hosted b, hf]
      rfl
    rw [forSeq, forSeq, if_pos rfl, if_pos rfl, fetch, gone, held]
  · rw [forSeq_other own, forSeq_other own]

theorem ensureOne_shows (sound : Sound cfg s) (sees : Sees cfg owner blocks v s)
    (side : (seq, b) ∈ s.slotMap.keys ∨ (b ∈ blocks ↔ seq = owner))
    (room : arenaNeed seq 0 (b :: rest) s ≤ s.slotMap.freeSlots.length) :
    wp (ensureOne cfg seq b)
      (fun _ t => Shows cfg owner blocks seq s (forSeq owner seq (fetch cfg b) v) t ∧
      (∀ k ∈ s.slotMap.keys, k ∈ t.slotMap.keys) ∧ arenaNeed seq 0 rest t ≤ t.slotMap.freeSlots.length ∧
      (seq = owner → v.arena b ≠ none ∨ v.backup b ≠ none))
      (fun e t => Shows cfg owner blocks seq s v t ∧
      (seq = owner → e = .notStored (seq, b) ∧ v.arena b = none ∧ v.backup b = none)) s := by
  have kept : ∀ {slot m}, s.slotMap.Claimed (seq, b) slot m → ∀ k ∈ s.slotMap.keys, k ∈ m.keys := by
    intro slot m claimed k held
    exact claimed.mem_keys.mpr (.inr held)
  refine wp_ensureOne (fun present => ?_) (fun missing noHost noCpu => ?_) (fun mode missing c hf => ?_)
    (fun mode missing c hf => ?_)
  · have hs := reordered_touch s (seq, b)
    rw [sees.forSeq_fetch_resident present]
    refine ⟨⟨sound.reordered hs, sees.reordered hs, fun _ => rfl⟩, fun k held => hs.mem_keys.mpr held,
      le_trans (card_filter_tail_le fun _ _ need => need) (hs.arenaNeed_le room), fun own => .inl ?_⟩
    rw [Ne, sees.arena_none_iff, slot?_eq_none_iff]
    exact not_not.mpr (own ▸ present)
  · refine ⟨⟨sound, sees, fun _ => rfl⟩, fun own => ⟨rfl, ?_, ?_⟩⟩
    · exact sees.arena_none_iff.mpr (slot?_eq_none_iff.mpr (own ▸ missing))
    · rw [sees.backup_none_iff, ← own]
      unfold backup
      split
      · rename_i mode
        exact noHost mode
      · rename_i mode
        exact noCpu (by simpa using mode)
  all_goals
    replace side : b ∈ blocks ↔ seq = owner := side.resolve_left missing
    have held : backup cfg s (seq, b) = some c := by simpa [backup, mode] using hf
    have stored : seq = owner → v.backup b ≠ none := by
      rintro rfl
      rw [Ne, sees.backup_none_iff, held]
      simp
    have away : seq = owner → s.residency b = .onCpu := by
      rintro rfl
      refine sees.away b (side.mpr rfl) ?_ (stored rfl)
      exact sees.arena_none_iff.mpr (slot?_eq_none_iff.mpr missing)
    rw [sees.forSeq_fetch_load missing held]
  · refine wp_claimSlot_room (arena_room room (Nat.zero_le b)) fun slot m claimed => ?_
    refine wp_beginLoad (fun _ => ⟨⟨sound.slotMap_change claimed.capacity rfl rfl rfl rfl, ?_, fun _ => rfl⟩,
      kept claimed, claimed.arena_room rfl room (Nat.zero_le b), fun own => .inr (stored own)⟩) (fun stuck => ?_)
    · have placed := sees.place claimed side (s.mem.host c)
      have hs : Shelf.load cfg b (s.mem.host c) = Shelf.place b (s.mem.host c) := by
        funext w
        simp [Shelf.load, Shelf.place, mode]
      rw [hs]
      simpa [fillClaimed, setResidency, setMem, BlockMemory.loadSlot, BlockMemory.fillSlot] using placed
    · have other : seq ≠ owner := fun own => stuck (away own)
      exact ⟨⟨sound.slotMap_change claimed.capacity rfl rfl rfl rfl,
        sees.refused claimed other rfl rfl rfl rfl rfl fun _ _ => rfl, fun own => absurd own other⟩,
        fun own => absurd own other⟩
  have lookup : ∀ u : TierManager S D (Memory bs R), u.cpuSlots = s.cpuSlots.erase (seq, b) →
      ∀ k, backup cfg u k = if k = (seq, b) then none else backup cfg s k := by
    intro u cpu k
    simp [backup, mode, cpu, get?_erase]
  refine wp_claimSlot_room (arena_room room (Nat.zero_le b))
    fun slot m claimed => ?_
  refine wp_beginLoad (fun _ => ⟨⟨?_, ?_, fun _ => ?_⟩, kept claimed, claimed.arena_room rfl room (Nat.zero_le b),
    fun own => .inr (stored own)⟩) (fun stuck => ?_)
  · exact sound.take hf claimed.capacity (.inr rfl) rfl rfl rfl
  · have placed := sees.place claimed side (s.mem.host c)
    have hs : load cfg b (s.mem.host c) =
        fun w => { w.place b (s.mem.host c) with backup := Function.update (w.place b (s.mem.host c)).backup b none } := by
      funext w
      simp [Shelf.load, Shelf.place, mode]
    have resident : seq = owner →
        (Shelf.forSeq owner seq (Shelf.place b (s.mem.host c)) v).arena b ≠ none := by
      rintro rfl
      simp [Shelf.forSeq, Shelf.place]
    have row : (fillClaimed (seq, b) slot (s.mem.host c) { s with slotMap := m }).residency b = .onGpu := by
      simp [fillClaimed, setResidency]
    have dropped := placed.drop (t := { fillClaimed (seq, b) slot (s.mem.host c) { s with slotMap := m } with
      cpuSlots := s.cpuSlots.erase (seq, b), cpuFree := c :: s.cpuFree }) side resident (fun _ => row) rfl rfl rfl rfl rfl
      (lookup _ rfl)
    rw [forSeq_comp, ← hs] at dropped
    simpa [fillClaimed, setResidency, setMem, BlockMemory.loadSlot, BlockMemory.fillSlot] using dropped
  · have values := (values_perm_erase hf).length_eq
    simp only [length_cons] at values
    simp only [poolTotal, length_cons]
    omega
  · have other : seq ≠ owner := fun own => stuck (away own)
    refine ⟨⟨sound.take hf claimed.capacity (.inl rfl) rfl rfl rfl, ?_, fun own => absurd own other⟩,
      fun own => absurd own other⟩
    exact sees.refused claimed other rfl rfl rfl rfl rfl fun k differs => by rw [lookup _ rfl, if_neg differs]

omit [DecidableEq S] in
theorem ensure_cons (stored : v.arena b ≠ none ∨ v.backup b ≠ none) :
    v.ensure cfg seq (b :: rest) = (v.fetch cfg b).ensure cfg seq rest := by
  rw [Shelf.ensure, Shelf.fetch]
  cases here : v.arena b with
  | some _ => rfl
  | none =>
    cases there : v.backup b with
    | some _ => rfl
    | none => simp [here, there] at stored

theorem ensure_loop {ids : List Nat} (sound : Sound cfg s) (sees : Sees cfg owner blocks v s)
    (side : ∀ b ∈ ids, (seq, b) ∈ s.slotMap.keys ∨ (b ∈ blocks ↔ seq = owner))
    (room : arenaNeed seq 0 ids s ≤ s.slotMap.freeSlots.length) :
    EndsIn cfg owner blocks seq s v (v.ensure cfg seq ids) (forM ids fun b => ensureOne cfg seq b) := by
  induction ids generalizing v s with
  | nil =>
    exact ⟨⟨sound, by split <;> exact sees, fun _ => rfl⟩, fun _ => rfl⟩
  | cons b rest ih =>
    rw [EndsIn, forM_cons, wp_bind]
    refine wp_mono (ensureOne_shows sound sees (side b (.head _)) room) ?_ ?_
    · rintro _ t ⟨shows, kept, tail, stored⟩
      have later := ih shows.sound shows.sees
        (fun b' hm => (side b' (.tail _ hm)).imp (kept _) id) tail
      have step : ∀ raised u, Ends cfg owner blocks seq t (forSeq owner seq (fetch cfg b) v)
          ((forSeq owner seq (fetch cfg b) v).ensure cfg seq rest) raised u →
          Ends cfg owner blocks seq s v (v.ensure cfg seq (b :: rest)) raised u := by
        intro raised u ends
        obtain ⟨⟨sound', sees', total⟩, outcome⟩ := ends
        by_cases own : seq = owner
        · rw [if_pos own, forSeq, if_pos own] at sees'
          rw [forSeq, if_pos own] at outcome
          rw [ensure_cons (stored own)]
          exact ⟨⟨sound', by rwa [if_pos own], fun own => (total own).trans (shows.total own)⟩, outcome⟩
        · rw [if_neg own, forSeq_other own] at sees'
          exact ⟨⟨sound', by rwa [if_neg own], fun hs => absurd hs own⟩, fun hs => absurd hs own⟩
      exact wp_mono later (fun _ u => step none u) (fun e u => step (some e) u)
    · rintro e t ⟨shows, lost⟩
      by_cases own : seq = owner
      · obtain ⟨which, here, there⟩ := lost own
        rw [Shelf.ensure, here, there]
        exact ⟨by rwa [if_pos own], fun _ => congrArg some which⟩
      · exact ⟨by rwa [if_neg own], fun hs => absurd hs own⟩

theorem ensureResident_ends {ids keepIds : List Nat} (sound : Sound cfg s) (sees : Sees cfg owner blocks v s)
    (side : ∀ b ∈ ids, (seq, b) ∈ s.slotMap.keys ∨ (b ∈ blocks ↔ seq = owner))
    (room : arenaNeed seq 0 ids s ≤ s.slotMap.freeSlots.length) :
    EndsIn cfg owner blocks seq s v (v.ensure cfg seq ids) (ensureResident cfg seq ids keepIds) := by
  unfold ensureResident
  rw [EndsIn, wp_bind]
  refine wp_touchResident fun t hs _ => ?_
  have total : poolTotal t = poolTotal s := by
    rw [hs.rest]
    rfl
  have started : ∀ raised u, Ends cfg owner blocks seq t v (v.ensure cfg seq ids) raised u →
      Ends cfg owner blocks seq s v (v.ensure cfg seq ids) raised u := fun raised u ends =>
    ⟨⟨ends.shows.sound, ends.shows.sees, fun own => (ends.shows.total own).trans total⟩, ends.outcome⟩
  rw [wp_bind]
  refine wp_mono (ensure_loop (sound.reordered hs) (sees.reordered hs)
    (fun b hm => (side b hm).imp hs.mem_keys.mpr id) (hs.arenaNeed_le room)) (fun _ u ends => ?_)
    (fun e u ends => started (some e) u ends)
  split
  · exact started none u ends
  · exact started none u ends

/-! ### Releasing a request -/

theorem Freed.sound (freed : Freed seq s t) (sound : Sound cfg s) : Sound cfg t := by
  have cpu : ∀ k ∈ t.cpuSlots, k.1 ≠ seq ∧ k ∈ s.cpuSlots := by
    intro k held
    obtain ⟨c, hf⟩ := mem_iff_get?.mp held
    rw [freed.cpuSlots k] at hf
    split at hf
    · cases hf
    · exact ⟨‹_›, mem_iff_get?.mpr ⟨c, hf⟩⟩
  refine ⟨freed.capacity.trans sound.capacity, freed.pool.subperm.trans sound.pool, fun mode k held => ?_,
    fun mode k held => ?_, fun k held => ?_⟩
  · exact sound.durable mode k (cpu k held).2
  · obtain ⟨c, hf⟩ := mem_iff_get?.mp held
    rw [freed.hostSlots k] at hf
    split at hf
    · cases hf
    · exact sound.unmirrored mode k (mem_iff_get?.mpr ⟨c, hf⟩)
  · rw [freed.trimmed]
    exact Finset.mem_erase.mpr ⟨(cpu k held).1, sound.spilled k (cpu k held).2⟩

theorem backup_held (kept : backup cfg s k ≠ none) : k ∈ s.cpuSlots ∨ k ∈ s.hostSlots := by
  obtain ⟨c, hf⟩ := Option.ne_none_iff_exists'.mp kept
  unfold backup at hf
  split at hf
  · exact .inr (mem_iff_get?.mpr ⟨c, hf⟩)
  · exact .inl (mem_iff_get?.mpr ⟨c, hf⟩)

theorem Freed.sees (freed : Freed seq s t) (sees : Sees cfg owner blocks v s)
    (side : ∀ b, (seq, b) ∈ s.slotMap.keys ∨ (seq, b) ∈ s.cpuSlots ∨ (seq, b) ∈ s.hostSlots → seq ≠ owner → b ∉ blocks) :
    Sees cfg owner blocks (forSeq owner seq release v) t := by
  by_cases own : seq = owner
  · subst own
    have cleared : ∀ b ∈ blocks, t.residency b = .onGpu := by
      intro b hw
      rw [freed.residency]
      split
      · rfl
      · rename_i absent
        refine (sees.rows b hw).resolve_right fun gone => absent (.inr ?_)
        exact backup_held (sees.backup_none_iff.not.mp gone.2)
    rw [forSeq, if_pos rfl]
    refine ⟨by rw [freed.summary]; exact sees.summary, fun b => ?_, fun b => ?_, ?_, by simp [release, bare],
      by simp [release, bare], fun b hw => .inl (cleared b hw), fun _ => cleared⟩
    · rw [freed.slots, if_pos rfl]
      rfl
    · rw [freed.backup_eq, if_pos rfl]
      rfl
    · simp [freed.trimmed, release, bare]
  · rw [forSeq_other own]
    have other := Ne.symm own
    refine sees.frame (by simp [freed.summary]) (fun b hw => ?_) (fun b => ?_) (by simp [freed.mem]) (fun b => ?_)
      (by simp [freed.mem]) (by simp [freed.trimmed, other])
    · rw [freed.residency, if_neg fun held => side b held own hw]
    · rw [freed.slots, if_neg other]
    · rw [freed.backup_eq, if_neg other]

theorem freeRequest_ends (sound : Sound cfg s) (sees : Sees cfg owner blocks v s)
    (side : ∀ b, (seq, b) ∈ s.slotMap.keys ∨ (seq, b) ∈ s.cpuSlots ∨ (seq, b) ∈ s.hostSlots → seq ≠ owner → b ∉ blocks) :
    EndsIn cfg owner blocks seq s v (none, v.release) (freeRequest seq) := by
  refine wp_freeRequest fun t freed => ⟨⟨freed.sound sound, freed.sees sees side, fun _ => ?_⟩, fun _ => rfl⟩
  simpa [poolTotal, Nat.add_assoc] using freed.pool.length_eq

/-! ### Calls -/

def Call.Tabled : Call S R bs → Prop
  | .registerPrefillSummary .. | .onBlockFilled .. | .writeLiveBlock .. | .trimToWorkingSet .. | .ensureResident ..
  | .freeRequest .. => True
  | _ => False

instance (call : Call S R bs) : Decidable call.Tabled := by
  unfold Call.Tabled
  split <;> infer_instance

def Call.named : Call S R bs → List Nat
  | .registerPrefillSummary _ b _ | .onBlockFilled _ b _ | .writeLiveBlock _ b _ => [b]
  | .trimToWorkingSet _ n _ _ => List.range n
  | .ensureResident _ ids _ => ids
  | _ => []

def ownBlocks (owner : S) (calls : List (Call S R bs)) : Finset Nat :=
  ((calls.filter fun call => call.seq = owner).flatMap Call.named).toFinset

variable (s) in
def rowsWritten : Call S R bs → List Nat
  | .registerPrefillSummary _ b _ | .onBlockFilled _ b _ | .writeLiveBlock _ b _ => [b]
  | .trimToWorkingSet seq n _ _ => if seq ∈ s.trimmed then [] else List.range n
  | .ensureResident seq ids _ => ids.filter fun b => (seq, b) ∉ s.slotMap.keys
  | .freeRequest seq =>
    ((s.slotMap.keys ++ s.cpuSlots.keys ++ s.hostSlots.keys).filter fun k => k.1 = seq).map Prod.snd
  | _ => []

variable (owner blocks s) in
def OffRows (call : Call S R bs) : Prop :=
  call.seq ≠ owner → ∀ b ∈ rowsWritten s call, b ∉ blocks

instance (owner : S) (blocks : Finset Nat) (s : TierManager S D (Memory bs R)) (call : Call S R bs) :
    Decidable (OffRows owner blocks s call) := inferInstanceAs (Decidable (_ → _))

variable (cfg) in
def EvictsNothing (s : TierManager S D (Memory bs R)) : Call S R bs → Prop
  | .onBlockFilled seq b _ => Room cfg seq 0 [b] s
  | .writeLiveBlock seq b _ => arenaNeed seq 0 [b] s ≤ s.slotMap.freeSlots.length
  | .trimToWorkingSet seq n _ _ => seq ∉ s.trimmed → Room cfg seq (keepLo cfg.gpuBudget n) (List.range n) s
  | .ensureResident seq ids _ => arenaNeed seq 0 ids s ≤ s.slotMap.freeSlots.length
  | _ => True

instance (s : TierManager S D (Memory bs R)) (call : Call S R bs) : Decidable (EvictsNothing cfg s call) := by
  unfold EvictsNothing
  split <;> infer_instance

section

variable (sound : Sound cfg s) (sees : Sees cfg owner blocks v s) (side : b ∈ blocks ↔ seq = owner) {content : KVBlock bs R}

include sound sees side

theorem onBlockFilled_ends (room : Room cfg seq 0 [b] s) :
    EndsIn cfg owner blocks seq s v (none, (v.score b (cfg.digest content.k)).install cfg b content)
      (onBlockFilled cfg seq b content) := by
  have scored : Sees cfg owner blocks (forSeq owner seq (score b (cfg.digest content.k)) v)
      { s with summary := Function.update s.summary b (cfg.digest content.k) } := sees.score side _
  have sound' : Sound cfg { s with summary := Function.update s.summary b (cfg.digest content.k) } :=
    sound.slotMap_change rfl rfl rfl rfl rfl
  unfold onBlockFilled
  simp only [wp_bind]
  refine wp_claimSlot_room (fun missing => arena_room room.arena (Nat.zero_le b) missing) fun slot m claimed => ?_
  simp only [markOnGpu, wp_modify]
  rw [wp_when]
  refine wp_mono (install_shows sound' scored side not_mem_nil claimed room.pool) ?_ (fun _ _ h => h.elim)
  rintro _ t ⟨shows, -⟩
  rw [forSeq_comp] at shows
  exact ⟨⟨shows.sound, shows.sees, shows.total⟩, fun _ => rfl⟩

theorem writeLiveBlock_ends (room : arenaNeed seq 0 [b] s ≤ s.slotMap.freeSlots.length) :
    EndsIn cfg owner blocks seq s v (none, v.place b content) (writeLiveBlock cfg seq b content) := by
  unfold writeLiveBlock
  rw [EndsIn, wp_bind]
  refine wp_claimSlot_room (fun missing => arena_room room (Nat.zero_le b) missing) fun slot m claimed => ?_
  exact ⟨⟨sound.slotMap_change claimed.capacity rfl rfl rfl rfl, sees.place claimed side content, fun _ => rfl⟩, fun _ => rfl⟩

end

variable {call : Call S R bs}

theorem runCall_ends (tabled : call.Tabled) (sound : Sound cfg s) (sees : Sees cfg owner blocks v s)
    (room : EvictsNothing cfg s call) (named : call.seq = owner → ∀ b ∈ call.named, b ∈ blocks) (off : OffRows owner blocks s call) :
    Ends cfg owner blocks call.seq s v (v.step cfg call) (raised (runCall cfg call) s) (finalState (runCall cfg call) s) := by
  have side : ∀ b, b ∈ call.named → (call.seq ≠ owner → b ∈ rowsWritten s call) → (b ∈ blocks ↔ call.seq = owner) := by
    intro b mentioned written
    refine ⟨fun hw => ?_, fun own => named own b mentioned⟩
    by_contra other
    exact off other b (written other) hw
  refine wp_outcome.mp ?_
  cases call with
  | registerPrefillSummary seq b kBlock =>
    refine ⟨⟨sound.slotMap_change rfl rfl rfl rfl rfl, ?_, fun _ => rfl⟩, fun _ => rfl⟩
    exact sees.score (side b (by simp [Call.named]) (by simp [rowsWritten])) _
  | onBlockFilled seq b content =>
    simp only [runCall, wp_map]
    exact onBlockFilled_ends sound sees (side b (by simp [Call.named]) (by simp [rowsWritten])) room
  | writeLiveBlock seq b content =>
    simp only [runCall, wp_map]
    exact writeLiveBlock_ends sound sees (side b (by simp [Call.named]) (by simp [rowsWritten])) room
  | trimToWorkingSet seq n engine row =>
    simp only [runCall, wp_bind]
    refine trimToWorkingSet_ends sound sees (fun fresh b hb => side b ?_ fun _ => ?_) room
    · exact mem_range.mpr hb
    · rw [rowsWritten, if_neg fresh]
      exact mem_range.mpr hb
  | ensureResident seq ids keepIds =>
    simp only [runCall, wp_bind]
    refine ensureResident_ends sound sees (fun b hm => ?_) room
    by_cases present : (seq, b) ∈ s.slotMap.keys
    · exact .inl present
    · refine .inr (side b hm fun _ => ?_)
      simp [rowsWritten, hm, present]
  | freeRequest seq =>
    simp only [runCall, wp_bind]
    refine freeRequest_ends sound sees fun b held other => off other b ?_
    refine mem_map.mpr ⟨(seq, b), mem_filter.mpr ⟨?_, by simp⟩, rfl⟩
    simpa [← mem_def] using held
  | prefillIngestKvshare | appendDecodeTokenKvshare | logicalToSlot | setPrevSelected | prefetchTopIds =>
    exact tabled.elim

/-! ### Two runs -/

variable (cfg) in
structure Alone (owner : S) (t : TierManager S D (Memory bs R)) : Prop where
  arena : ∀ k ∈ t.slotMap.keys, k.1 = owner
  hosted : ∀ k, backup cfg t k ≠ none → k.1 = owner
  total : poolTotal t = cfg.cpuBlocks

variable (cfg) in
structure Alike (owner : S) (blocks : Finset Nat) (s t : TierManager S D (Memory bs R)) : Prop where
  sound : Sound cfg s
  soundAlone : Sound cfg t
  alone : Alone cfg owner t
  shelf : ∃ v, Sees cfg owner blocks v s ∧ Sees cfg owner blocks v t

theorem sees_nothing {other : S} (arena : ∀ b, (other, b) ∉ t.slotMap.keys) (hosted : ∀ b, backup cfg t (other, b) = none) :
    Sees cfg other ∅ ⟨t.summary, fun _ => none, fun _ => none, decide (other ∈ t.trimmed)⟩ t := by
  refine ⟨by simp, fun b => ?_, fun b => ?_, by simp, by simp, by simp, by simp, by simp⟩
  · rw [slot?_eq_none_iff.mpr (arena b)]
    rfl
  · rw [hosted b]
    rfl

theorem runCall_alone (tabled : call.Tabled) (sound : Sound cfg t) (alone : Alone cfg owner t)
    (room : EvictsNothing cfg t call) (own : call.seq = owner) (kept : poolTotal (finalState (runCall cfg call) t) = poolTotal t) :
    Alone cfg owner (finalState (runCall cfg call) t) := by
  have unseen : ∀ other, other ≠ owner → ∃ v, (∀ b, v.arena b = none ∧ v.backup b = none) ∧
      Sees cfg other ∅ v (finalState (runCall cfg call) t) := by
    intro other differs
    have before := sees_nothing (fun b held => differs (alone.arena _ held))
        (fun b => by_contra fun kept => differs (alone.hosted _ kept))
    have different : call.seq ≠ other := fun hs => differs (hs.symm.trans own)
    have after := runCall_ends tabled sound before room (fun hs => absurd hs different) (fun _ _ _ => by simp)
    have sees := after.shows.sees
    rw [if_neg different] at sees
    exact ⟨_, fun _ => ⟨rfl, rfl⟩, sees⟩
  refine ⟨fun k held => ?_, fun k held => ?_, kept.trans alone.total⟩
  · by_contra differs
    obtain ⟨v, empty, sees⟩ := unseen k.1 differs
    exact slot?_eq_none_iff.mp (sees.arena_none_iff.mp (empty k.2).1) held
  · by_contra differs
    obtain ⟨v, empty, sees⟩ := unseen k.1 differs
    exact held (sees.backup_none_iff.mp (empty k.2).2)

theorem length_values_le {K V : Type} [DecidableEq K] {d d' : OrderedDict K V}
    (sub : ∀ k, d.get? k ≠ none → d'.get? k ≠ none) : d.values.length ≤ d'.values.length := by
  rw [length_values, length_values]
  refine (d.nodup.subperm fun k held => ?_).length_le
  have hf := sub k fun absent => get?_eq_none_iff.mp absent held
  by_contra missing
  exact hf (get?_eq_none_iff.mpr missing)

section

variable (alike : Alike cfg owner blocks s t)

include alike

theorem Alike.frees : s.slotMap.freeSlots.length ≤ t.slotMap.freeSlots.length ∧ s.cpuFree.length ≤ t.cpuFree.length := by
  obtain ⟨v, shared, alone⟩ := alike.shelf
  have keys : t.slotMap.keys.length ≤ s.slotMap.keys.length := by
    refine ((LRUSlotMap.nodup_keys _).subperm fun k held => ?_).length_le
    obtain ⟨x, b⟩ := k
    obtain rfl : x = owner := alike.alone.arena _ held
    by_contra missing
    have gone := shared.arena_none_iff.mpr (slot?_eq_none_iff.mpr missing)
    exact slot?_eq_none_iff.mp (alone.arena_none_iff.mp gone) held
  have backed : ∀ k, backup cfg t k ≠ none → backup cfg s k ≠ none := by
    rintro ⟨x, b⟩ held
    obtain rfl : x = owner := alike.alone.hosted _ held
    rw [Ne, ← shared.backup_none_iff, alone.backup_none_iff]
    exact held
  have stored : t.cpuSlots.values.length + t.hostSlots.values.length ≤
      s.cpuSlots.values.length + s.hostSlots.values.length := by
    cases mode : cfg.enableWriteThrough with
    | true =>
      have cpu : t.cpuSlots.values.length ≤ s.cpuSlots.values.length := length_values_le fun k held =>
        absurd (get?_eq_none_iff.mpr (alike.soundAlone.durable mode k)) held
      have host := length_values_le fun k held => by
        simpa [backup, mode] using backed k (by simpa [backup, mode] using held)
      omega
    | false =>
      have host : t.hostSlots.values.length ≤ s.hostSlots.values.length := length_values_le fun k held =>
        absurd (get?_eq_none_iff.mpr (alike.soundAlone.unmirrored mode k)) held
      have cpu := length_values_le fun k held => by
        simpa [backup, mode] using backed k (by simpa [backup, mode] using held)
      omega
  have arenaS := length_free_add_keys s.slotMap
  have arenaT := length_free_add_keys t.slotMap
  rw [alike.sound.capacity] at arenaS
  rw [alike.soundAlone.capacity] at arenaT
  have poolS := alike.sound.pool.length_le
  have poolT := alike.alone.total
  simp only [length_append, length_range] at poolS
  simp only [poolTotal] at poolT
  omega

theorem Alike.arena_room
    (room : arenaNeed owner lo l s ≤ s.slotMap.freeSlots.length) : arenaNeed owner lo l t ≤ t.slotMap.freeSlots.length := by
  obtain ⟨v, shared, alone⟩ := alike.shelf
  have hs : arenaNeed owner lo l t = arenaNeed owner lo l s := by
    unfold arenaNeed
    congr 1
    refine Finset.filter_congr fun b _ => and_congr_right fun _ => ?_
    rw [← slot?_eq_none_iff, ← slot?_eq_none_iff, ← shared.arena_none_iff, ← alone.arena_none_iff]
  exact hs ▸ le_trans room alike.frees.1

theorem Alike.room (room : Room cfg owner lo l s) : Room cfg owner lo l t := by
  obtain ⟨v, shared, alone⟩ := alike.shelf
  obtain ⟨arena, pool⟩ := alike.frees
  have hs : poolNeed cfg owner lo l t = poolNeed cfg owner lo l s := by
    unfold poolNeed
    congr 1
    refine Finset.filter_congr fun b _ => or_congr_left (and_congr_right fun mode => ?_)
    have here : backup cfg s (owner, b) = s.hostSlots.get? (owner, b) := by simp [backup, mode]
    have there : backup cfg t (owner, b) = t.hostSlots.get? (owner, b) := by simp [backup, mode]
    rw [← get?_eq_none_iff, ← get?_eq_none_iff, ← here, ← there, ← shared.backup_none_iff, ← alone.backup_none_iff]
  exact ⟨alike.arena_room room.arena, hs ▸ le_trans room.pool pool⟩

theorem Alike.evictsNothing (own : call.seq = owner) (room : EvictsNothing cfg s call) : EvictsNothing cfg t call := by
  obtain ⟨v, shared, alone⟩ := alike.shelf
  have begun := alone.trimmed.trans shared.trimmed.symm
  cases call with
  | onBlockFilled seq b content =>
    obtain rfl : seq = owner := own
    exact alike.room room
  | writeLiveBlock seq b content =>
    obtain rfl : seq = owner := own
    exact alike.arena_room room
  | trimToWorkingSet seq n engine row =>
    obtain rfl : seq = owner := own
    exact fun fresh => alike.room (room (begun.not.mp fresh))
  | ensureResident seq ids keepIds =>
    obtain rfl : seq = owner := own
    exact alike.arena_room room
  | _ => trivial

theorem Alike.own (tabled : call.Tabled) (own : call.seq = owner)
    (room : EvictsNothing cfg s call) (named : ∀ b ∈ call.named, b ∈ blocks) :
    raised (runCall cfg call) s = raised (runCall cfg call) t ∧
      Alike cfg owner blocks (finalState (runCall cfg call) s) (finalState (runCall cfg call) t) := by
  obtain ⟨v, shared, alone⟩ := alike.shelf
  have roomT := alike.evictsNothing own room
  have here := runCall_ends tabled alike.sound shared room (fun _ => named) fun other => absurd own other
  have there := runCall_ends tabled alike.soundAlone alone roomT (fun _ => named) fun other => absurd own other
  have seesHere := here.shows.sees
  have seesThere := there.shows.sees
  exact ⟨(here.outcome own).trans (there.outcome own).symm, here.shows.sound, there.shows.sound,
    runCall_alone tabled alike.soundAlone alike.alone roomT own (there.shows.total own), _, seesHere, seesThere⟩

theorem Alike.other (tabled : call.Tabled)
    (other : call.seq ≠ owner) (room : EvictsNothing cfg s call) (off : OffRows owner blocks s call) :
    Alike cfg owner blocks (finalState (runCall cfg call) s) t := by
  obtain ⟨v, shared, alone⟩ := alike.shelf
  have here := runCall_ends tabled alike.sound shared room (fun hs => absurd hs other) off
  have sees := here.shows.sees
  rw [if_neg other] at sees
  exact ⟨here.shows.sound, alike.soundAlone, alike.alone, v, sees, alone⟩

end

theorem alike_init (mem : Memory bs R) (summary : Nat → D) :
    Alike cfg owner blocks (.init cfg mem summary) (.init cfg mem summary) := by
  have empty : ∀ k : S × Nat, backup cfg (.init cfg mem summary) k = none := by
    intro k
    unfold backup
    split <;> rfl
  have sound : Sound cfg (.init cfg mem summary : TierManager S D (Memory bs R)) := by
    refine ⟨rfl, ?_, fun _ k held => ?_, fun _ k held => ?_, fun k held => ?_⟩
    · simp only [TierManager.init, OrderedDict.values, OrderedDict.empty, map_nil, append_nil]
      exact List.Subperm.refl _
    all_goals exact absurd held (OrderedDict.get?_eq_none_iff.mp rfl)
  have sees : Sees cfg owner blocks (bare summary) (.init cfg mem summary : TierManager S D (Memory bs R)) :=
    ⟨fun _ _ => rfl, fun _ => rfl, fun b => by rw [empty]; rfl, by simp [TierManager.init, bare],
      by simp [bare], by simp [bare], fun _ _ => .inl rfl, fun _ _ _ => rfl⟩
  refine ⟨sound, sound, ⟨fun k held => ?_, fun k held => absurd (empty k) held, ?_⟩, _, sees, sees⟩
  · simp [TierManager.init] at held
  · simp [poolTotal, TierManager.init, OrderedDict.values, OrderedDict.empty]

theorem outcomes_alike {calls : List (Call S R bs)} (mem : Memory bs R) (summary : Nat → D)
    (every : EveryStep (runCall cfg) (fun s call => (call.Tabled ∧ (call.seq = owner → ∀ b ∈ call.named, b ∈ blocks)) ∧
      EvictsNothing cfg s call ∧ OffRows owner blocks s call) calls (.init cfg mem summary)) :
    outcomes (runCall cfg) (fun call => call.seq = owner) calls (.init cfg mem summary) =
      outcomes (runCall cfg) (fun call => call.seq = owner) (calls.filter fun call => call.seq = owner)
      (.init cfg mem summary) ∧
    Alike cfg owner blocks (runPast (runCall cfg) calls (.init cfg mem summary))
      (runPast (runCall cfg) (calls.filter fun call => call.seq = owner) (.init cfg mem summary)) := by
  refine outcomes_purge (fun call s t own met alike => ?_) (fun call s t other met alike => ?_) every
    (alike_init mem summary)
  · obtain ⟨⟨tabled, named⟩, room, _⟩ := met
    have own' : call.seq = owner := by simpa using own
    exact alike.own tabled own' room (named own')
  · obtain ⟨⟨tabled, _⟩, room, off⟩ := met
    exact alike.other tabled (by simpa using other) room off

/-- In a run that evicts nothing, and in which the calls for the other sequences write no summary or residency row of a
block number that `owner` uses, `owner` sees what it sees when those calls are left out. Slots may be numbered differently. -/
theorem sequences_do_not_interfere (cfg : TierConfig bs R D) (owner : S) (calls : List (Call S R bs)) (mem : Memory bs R)
    (summary : Nat → D) (tabled : ∀ call ∈ calls, call.Tabled)
    (room : EveryStep (runCall cfg) (EvictsNothing cfg) calls (.init cfg mem summary))
    (off : EveryStep (runCall cfg) (OffRows owner (ownBlocks owner calls)) calls (.init cfg mem summary)) :
    outcomes (runCall cfg) (fun call => call.seq = owner) calls (.init cfg mem summary) =
      outcomes (runCall cfg) (fun call => call.seq = owner) (calls.filter fun call => call.seq = owner)
        (.init cfg mem summary) ∧
    ∀ first second, calls = first ++ second →
      let s := runPast (runCall cfg) first (.init cfg mem summary)
      let t := runPast (runCall cfg) (first.filter fun call => call.seq = owner) (.init cfg mem summary)
      (∀ b ∈ ownBlocks owner calls, s.summary b = t.summary b) ∧
      ∀ b, (s.slotMap.slot? (owner, b)).map s.mem.arena = (t.slotMap.slot? (owner, b)).map t.mem.arena := by
  have named : ∀ call ∈ calls, call.seq = owner → ∀ b ∈ call.named, b ∈ ownBlocks owner calls := by
    intro call member own b mentioned
    refine List.mem_toFinset.mpr (List.mem_flatMap.mpr ⟨call, ?_, mentioned⟩)
    exact List.mem_filter.mpr ⟨member, by simpa using own⟩
  have every := ((EveryStep.of_forall tabled).and (EveryStep.of_forall named)).and (room.and off)
  refine ⟨(outcomes_alike mem summary every).1, ?_⟩
  rintro first second rfl
  obtain ⟨v, here, there⟩ := (outcomes_alike mem summary every.before).2.shelf
  exact ⟨fun b within => (here.summary b within).trans (there.summary b within).symm,
    fun b => (here.arena b).trans (there.arena b).symm⟩

def shareConfig : TierConfig 1 Nat Nat where
  layerIdx := 0
  gpuBudget := 4
  cpuBlocks := 4
  digest k := k 0

def shareBlock (x : Nat) : KVBlock 1 Nat := ⟨fun _ => x, fun _ => x⟩

def shareInit : TierManager Nat Nat (Memory 1 Nat) := .init shareConfig .zero fun _ => 0

def apartCalls : List (Call Nat Nat 1) :=
  [.onBlockFilled 2 1 (shareBlock 7), .onBlockFilled 1 0 (shareBlock 3), .writeLiveBlock 2 1 (shareBlock 8),
    .ensureResident 1 [0, 5] [], .freeRequest 2, .registerPrefillSummary 1 0 fun _ => 4]

theorem sequences_do_not_interfere_apart :
    outcomes (runCall shareConfig) (fun call => call.seq = 1) apartCalls shareInit =
      outcomes (runCall shareConfig) (fun call => call.seq = 1) (apartCalls.filter fun call => call.seq = 1) shareInit ∧
    outcomes (runCall shareConfig) (fun call => call.seq = 1) apartCalls shareInit = [none, some (.notStored (1, 5)), none] :=
  ⟨(sequences_do_not_interfere shareConfig 1 apartCalls .zero (fun _ => 0) (by decide) (by decide)
    (by decide)).1, by decide +kernel⟩

/-- Sequence 1 is scored against the summary of sequence 2, and a spilled block of sequence 1 cannot be loaded any more once
sequence 2 has marked the row of its own block. -/
theorem shared_rows_interfere :
    (let calls : List (Call Nat Nat 1) := [.onBlockFilled 1 0 (shareBlock 3), .onBlockFilled 2 0 (shareBlock 7)]
     EveryStep (runCall shareConfig) (EvictsNothing shareConfig) calls shareInit ∧
      (runPast (runCall shareConfig) calls shareInit).summary 0 = 7 ∧
      (runPast (runCall shareConfig) (calls.filter fun call => call.seq = 1) shareInit).summary 0 = 3) ∧
    (let calls : List (Call Nat Nat 1) :=
      [.trimToWorkingSet 1 4 (fun b => shareBlock b) id, .writeLiveBlock 2 0 (shareBlock 7), .freeRequest 2,
        .ensureResident 1 [0] []]
     EveryStep (runCall shareConfig) (EvictsNothing shareConfig) calls shareInit ∧
      outcomes (runCall shareConfig) (fun call => call.seq = 1) calls shareInit = [none, some (.beginLoad 0 0 .onGpu)] ∧
      outcomes (runCall shareConfig) (fun call => call.seq = 1) (calls.filter fun call => call.seq = 1) shareInit =
        [none, none]) := by
  decide

end KVOffload.Quest
