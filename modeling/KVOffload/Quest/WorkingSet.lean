import KVOffload.Quest.Forward
import KVOffload.Quest.TwoTier

/-!
# The working set of a decode step

As long as the needed blocks fit the arena, the oldest block is never one of them.
-/

namespace KVOffload.Quest

open List LRUSlotMap

variable {S D M R : Type} {bs : Nat}

section

variable {K : Type} {needed : List K} {m m' : LRUSlotMap K} {key v : K}

variable (needed m) in
/-- The resident keys of `needed` are the most recent ones. -/
def Recent : Prop :=
  ∃ old fresh, m.keys = old ++ fresh ∧ (∀ k ∈ old, k ∉ needed) ∧ ∀ k ∈ fresh, k ∈ needed

theorem Recent.mono {needed' : List K} (recent : Recent needed m) (hs : ∀ k ∈ m.keys, k ∈ needed' ↔ k ∈ needed) :
    Recent needed' m := by
  obtain ⟨old, fresh, split, ho, hi⟩ := recent
  refine ⟨old, fresh, split, fun k hm => ?_, fun k hm => ?_⟩
  · rw [hs k (split ▸ mem_append_left _ hm)]
    exact ho k hm
  · rw [hs k (split ▸ mem_append_right _ hm)]
    exact hi k hm

variable [DecidableEq K]

theorem Recent.use {d : K} (recent : Recent needed m) (keys : m'.keys = m.keys.filter (· ≠ d) ++ [key])
    (left : d = key ∨ key ∉ m.keys) : Recent (needed ++ [key]) m' := by
  obtain ⟨old, fresh, split, ho, hi⟩ := recent
  rw [split, filter_append, append_assoc] at keys
  refine ⟨_, _, keys, fun k hm => ?_, fun k hm => ?_⟩
  · grind
  · grind

theorem Recent.load {d : K} (recent : Recent needed m) (keys : m'.keys = m.keys.filter (· ≠ d) ++ [key])
    (left : d = key ∨ key ∉ m.keys) (hm : key ∈ needed) : Recent needed m' :=
  (recent.use keys left).mono fun k _ => by simp [or_iff_left_of_imp (fun hs : k = key => hs ▸ hm)]

theorem Recent.victim_loose {protect : List K} (recent : Recent needed m) (chosen : m.victim protect = some v)
    (taken : v ∈ needed ∨ v ∈ protect) : ∀ k ∈ m.keys, k ∈ needed ∨ k ∈ protect := by
  obtain ⟨old, fresh, split, ho, hi⟩ := recent
  unfold victim at chosen
  rw [split, find?_append] at chosen
  cases hf : old.find? (fun k => k ∉ protect) with
  | some w =>
    rw [hf, Option.some_or, Option.some_or, Option.some.injEq] at chosen
    subst chosen
    have bare := find?_some hf
    exact absurd taken (by simpa [ho w (mem_of_find?_eq_some hf)] using bare)
  | none =>
    grind

theorem Recent.victim_not_needed (recent : Recent needed m) (hm : key ∈ needed) (missing : m.slot? key = none)
    (full : m.freeSlots = []) (fits : needed.length ≤ m.capacity) (chosen : m.victim [] = some v) : v ∉ needed := by
  intro hv
  refine freeSlots_ne_nil missing hm (fun k held => ?_) fits full
  exact (recent.victim_loose chosen (.inl hv) k held).resolve_right not_mem_nil

end

structure Reordered [DecidableEq S] (s t : TierManager S D M) : Prop where
  rest : t = { s with slotMap := t.slotMap }
  slots : ∀ k, t.slotMap.slot? k = s.slotMap.slot? k
  capacity : t.slotMap.capacity = s.slotMap.capacity

variable [DecidableEq S]

theorem Reordered.refl (s : TierManager S D M) : Reordered s s := ⟨rfl, fun _ => rfl, rfl⟩

variable {s t : TierManager S D M} {cfg : TierConfig bs R D} {k : S × Nat}

theorem Reordered.trans {u : TierManager S D M} (first : Reordered s t) (second : Reordered t u) : Reordered s u where
  rest := by
    rw [second.rest, first.rest]
  slots k := (second.slots k).trans (first.slots k)
  capacity := second.capacity.trans first.capacity

theorem reordered_touch (s : TierManager S D M) (key : S × Nat) :
    Reordered s { s with slotMap := s.slotMap.touch key } := ⟨rfl, fun _ => slot?_touch _ _ _, rfl⟩

theorem Reordered.mem_keys (hs : Reordered s t) : k ∈ t.slotMap.keys ↔ k ∈ s.slotMap.keys := by
  rw [mem_keys_iff, mem_keys_iff, hs.slots]

theorem Reordered.books {extra : List Nat} (hs : Reordered s t)
    (books : Books cfg extra s) : Books cfg extra t := by
  refine ⟨hs.capacity.trans books.arena, ?_, fun mode k held => ?_, ?_, ?_⟩
  · rw [hs.rest]
    exact books.pool
  · have apart := books.apart mode k (hs.mem_keys.mp held)
    rw [hs.rest]
    exact apart
  · rw [hs.rest]
    exact books.durable
  · rw [hs.rest]
    exact books.unmirrored

theorem Reordered.quiet (hs : Reordered s t) : Quiet s t := by
  rw [hs.rest]
  exact ⟨rfl, rfl, rfl, rfl⟩

theorem Reordered.mem (hs : Reordered s t) : t.mem = s.mem := by
  rw [hs.rest]

theorem Reordered.coherent {stored live : Set (S × Nat)} {data : S × Nat → KVBlock bs R}
    {s t : TierManager S D (Memory bs R)} (hs : Reordered s t) (hc : Coherent cfg ∅ stored live data s) :
    Coherent cfg ∅ stored live data t := by
  refine hc.frame (fun k _ => hs.slots k) (fun _ _ _ _ => ?_) (fun k _ => ?_) (fun _ _ _ _ => ?_) (fun b _ => ?_)
  all_goals rw [hs.rest]
  rfl

variable {seq : S} {ids keepIds : List Nat} {E : QuestError S → TierManager S D M → Prop}

theorem wp_touchResident {Q : Unit → TierManager S D M → Prop}
    (done : ∀ t, Reordered s t → Recent ((keepIds ++ ids).map fun b => (seq, b)) t.slotMap → Q () t) :
    wp (touchResident seq ids keepIds) Q E s := by
  refine wp_imp (wp_forM_handled (I := fun before t => Reordered s t ∧
    Recent (before.map fun b => (seq, b)) t.slotMap) ?_ ⟨Reordered.refl s, s.slotMap.keys, [], by simp⟩)
    (fun _ t touched => done t touched.1 touched.2)
  rintro before b rest _ t ⟨hs, recent⟩
  rw [wp_modify, map_append, map_singleton]
  by_cases present : (seq, b) ∈ t.slotMap.keys
  · rw [if_pos present]
    exact ⟨hs.trans (reordered_touch t _), recent.use (keys_touch present) (.inl rfl)⟩
  · rw [if_neg present]
    refine ⟨hs, recent.mono fun k held => ?_⟩
    rw [mem_append, mem_singleton, or_iff_left]
    rintro rfl
    exact present held

variable {blocks slots : List Nat} {m : LRUSlotMap (S × Nat)} {slot : Nat}

theorem wp_gatherSlots {Q : List Nat → TierManager S D M → Prop}
    (here : ∀ b ∈ blocks, ∃ slot, s.slotMap.slot? (seq, b) = some slot)
    (done : ∀ slots t, Reordered s t → List.Forall₂ (fun b slot => s.slotMap.slot? (seq, b) = some slot) blocks slots →
      Q slots t) : wp (blocks.mapM fun b => logicalToSlot seq b) Q E s := by
  refine wp_imp (wp_mapM (I := fun t => Reordered s t) (P := fun b slot => s.slotMap.slot? (seq, b) = some slot)
    (E := E) ?_ (Reordered.refl s)) (fun slots t gathered => done slots t gathered.1 gathered.2)
  intro b hm t hs
  obtain ⟨slot, held⟩ := here b hm
  have held' := (hs.slots _).trans held
  simp only [logicalToSlot, LRUSlotMap.get, wp_bind, wp_get, held', Option.map_some, wp_pure]
  exact ⟨hs.trans (reordered_touch t _), held⟩

variable (gathered : List.Forall₂ (fun b slot => m.slot? (seq, b) = some slot) blocks slots)

include gathered in
theorem mem_of_gathered
    (hm : slot ∈ slots) :
    ∃ b ∈ blocks, m.slot? (seq, b) = some slot := by
  induction gathered with
  | nil => cases hm
  | @cons b _ _ _ held _ ih =>
    rcases mem_cons.mp hm with rfl | later
    · exact ⟨b, .head _, held⟩
    · obtain ⟨b', hi, held'⟩ := ih later
      exact ⟨b', .tail _ hi, held'⟩

theorem nodup_of_gathered (hd : blocks.Nodup)
    (gathered : List.Forall₂ (fun b slot => m.slot? (seq, b) = some slot) blocks slots) : slots.Nodup := by
  induction gathered with
  | nil => exact nodup_nil
  | @cons b slot blocks slots held rest ih =>
    obtain ⟨fresh, tail⟩ := nodup_cons.mp hd
    refine nodup_cons.mpr ⟨fun again => fresh ?_, ih tail⟩
    obtain ⟨b', hm, held'⟩ := mem_of_gathered rest again
    have hs := slot?_inj held held'
    exact (Prod.mk.inj hs).2 ▸ hm

include gathered in
theorem map_of_gathered {α : Type} {f g : Nat → α}
    (agree : ∀ b ∈ blocks, ∀ slot, m.slot? (seq, b) = some slot → f slot = g b) : slots.map f = blocks.map g := by
  induction gathered with
  | nil => rfl
  | cons held rest ih =>
    rw [map_cons, map_cons, agree _ (.head _) _ held, ih fun b hm => agree b (.tail _ hm)]

section

variable {stored live : Set (S × Nat)} {data : S × Nat → KVBlock bs R}
  {s : TierManager S D (Memory bs R)}

/-- What `ensure_resident` leaves: the ids have slots, and the blocks to keep have not moved. -/
structure Ensured (seq : S) (ids keepIds : List Nat) (s t : TierManager S D (Memory bs R)) : Prop where
  here : ∀ b ∈ ids, ∃ slot, t.slotMap.slot? (seq, b) = some slot
  kept : ∀ b ∈ keepIds, b ∉ ids → ∀ slot, s.slotMap.slot? (seq, b) = some slot →
    t.slotMap.slot? (seq, b) = some slot ∧ t.mem.arena slot = s.mem.arena slot
  quiet : Quiet s t

theorem Loaded.keeps {key : S × Nat} {needed : List (S × Nat)} {t : TierManager S D (Memory bs R)}
    (loaded : Loaded key s t) (spares : ∀ v, s.slotMap.victim [] = some v → s.slotMap.slot? key = none →
      s.slotMap.freeSlots = [] → v ∉ needed) (hm : k ∈ needed) (other : k ≠ key)
    (held : s.slotMap.slot? k = some slot) :
    t.slotMap.slot? k = some slot ∧ t.mem.arena slot = s.mem.arena slot := by
  have before := mem_keys_of_slot? held
  have after : k ∈ t.slotMap.keys := by
    rcases loaded.keys with keys | ⟨v, chosen, missing, full, keys⟩
    · rw [keys]
      exact mem_append_left _ (mem_filter.mpr ⟨before, by simpa using other⟩)
    · rw [keys]
      refine mem_append_left _ (mem_filter.mpr ⟨before, ?_⟩)
      have spared : k ≠ v := fun equal => spares v chosen missing full (equal ▸ hm)
      simpa using spared
  obtain ⟨slot', held'⟩ := mem_keys_iff.mp after
  obtain ⟨hs, arena⟩ := loaded.others k other slot' held'
  obtain rfl := Option.some.inj (hs.symm.trans held)
  exact ⟨held', arena⟩

/-- `ensure_resident` brings the selected blocks into the arena, when all stored blocks belong to the sequence and
the selection fits the arena together with the blocks to keep. -/
theorem ensureResident_coherent (books : Books cfg [] s)
    (hc : Coherent cfg ∅ stored live data s) (alone : ∀ k ∈ stored, k.1 = seq)
    (selected : ∀ b ∈ ids, (seq, b) ∈ stored) (pinned : ∀ k ∈ live, k ∈ (keepIds ++ ids).map fun b => (seq, b))
    (fits : (keepIds ++ ids).length ≤ cfg.gpuBudget) (plain : protectedKeys cfg s seq = []) (hp : 0 < cfg.gpuBudget) :
    wp (ensureResident cfg seq ids keepIds) (fun _ t => Books cfg [] t ∧ Coherent cfg ∅ stored live data t ∧
      Ensured seq ids keepIds s t) (fun e _ => Exhausted cfg stored e) s := by
  set needed := (keepIds ++ ids).map fun b => (seq, b) with shape
  have size : needed.length ≤ cfg.gpuBudget := by simpa [shape] using fits
  unfold ensureResident
  rw [wp_bind]
  refine wp_touchResident fun t hs recent => ?_
  rw [wp_bind]
  refine wp_imp (wp_forM_handled (I := fun before u => Books cfg [] u ∧
    Coherent cfg ∅ stored live data u ∧ Recent needed u.slotMap ∧
    Ensured seq before keepIds s u) ?_ ⟨hs.books books, hs.coherent hc, recent, ?_⟩) ?_
  · rintro before b rest split u ⟨books', hc', recent', ensured⟩
    have inIds : b ∈ ids := split ▸ mem_append_right _ (.head _)
    have inNeeded : ∀ b' ∈ ids, (seq, b') ∈ needed := fun b' hm =>
      mem_map.mpr ⟨b', mem_append_right _ hm, rfl⟩
    have spares : ∀ v, u.slotMap.victim [] = some v → u.slotMap.slot? (seq, b) = none → u.slotMap.freeSlots = [] →
        v ∉ needed := fun v chosen missing full =>
      recent'.victim_not_needed (inNeeded b inIds) missing full (books'.arena ▸ size) chosen
    have unprotected : protectedKeys cfg u seq = [] := by
      unfold protectedKeys at plain ⊢
      rw [ensured.quiet.prevSelected]
      exact plain
    refine wp_imp (ensureOne_coherent books' hc' alone (selected b inIds) unprotected ?victims hp) ?_
    case victims =>
      intro missing full v chosen
      obtain ⟨slot, held⟩ := mem_keys_iff.mp (victim_mem chosen)
      rcases hc'.known v (Set.notMem_empty _) slot held with hm | hm
      · exact hm
      · exact absurd (pinned v hm) (spares v chosen missing full)
    rintro _ w ⟨books'', hc'', loaded⟩
    refine ⟨books'', hc'', ?_, fun b' hm => ?_, fun b' hm skipped slot held => ?_, ensured.quiet.trans loaded.quiet⟩
    · rcases loaded.keys with keys | ⟨v, _, missing, _, keys⟩
      · exact recent'.load keys (.inl rfl) (inNeeded b inIds)
      · exact recent'.load keys (.inr (slot?_eq_none_iff.mp missing)) (inNeeded b inIds)
    · by_cases last : b' = b
      · exact last ▸ loaded.held
      · have earlier : b' ∈ before := by simpa [last] using hm
        obtain ⟨slot, held⟩ := ensured.here b' earlier
        have hi := split ▸ mem_append_left _ earlier
        exact ⟨slot, (loaded.keeps spares (inNeeded b' hi) (fun equal => last (Prod.mk.inj equal).2) held).1⟩
    · rw [mem_append, mem_singleton, not_or] at skipped
      obtain ⟨held', arena'⟩ := ensured.kept b' hm skipped.1 slot held
      have hi : (seq, b') ∈ needed := mem_map.mpr ⟨b', mem_append_left _ hm, rfl⟩
      obtain ⟨held'', arena''⟩ := loaded.keeps spares hi (fun equal => skipped.2 (Prod.mk.inj equal).2) held'
      exact ⟨held'', arena''.trans arena'⟩
  · refine ⟨fun b none => absurd none (not_mem_nil), fun b _ _ slot held => ⟨(hs.slots _).trans held, ?_⟩, hs.quiet⟩
    rw [hs.mem]
  · rintro _ u ⟨books', hc', _, ensured⟩
    split
    · exact ⟨books', hc', ensured⟩
    · exact ⟨books', hc', ensured⟩

variable {E : QuestError S → TierManager S D (Memory bs R) → Prop} {select : Select S D} {r : Request S} {topK : Nat}
  {n k : Nat}

theorem ensureResident_here (here : ∀ b ∈ ids, ∃ slot, s.slotMap.slot? (seq, b) = some slot) :
    wp (ensureResident cfg seq ids keepIds) (fun _ t => Reordered s t) E s := by
  unfold ensureResident
  rw [wp_bind]
  refine wp_touchResident fun t hs _ => ?_
  rw [wp_bind]
  refine wp_imp (wp_forM (E := E) (I := fun u => Reordered s u) (fun b hm u hs' => ?_) hs) ?_
  · obtain ⟨slot, held⟩ := here b hm
    have present := mem_keys_of_slot? ((hs'.slots _).trans held)
    refine wp_ensureOne (fun _ => hs'.trans (reordered_touch u _)) ?_ ?_ ?_
    · exact fun missing => absurd present missing
    · exact fun _ missing => absurd present missing
    · exact fun _ missing => absurd present missing
  · rintro _ u hs'
    split
    · exact hs'
    · exact hs'

/-- What a request of the sparse decode is given: the summaries it was scored against, and its chosen blocks and its
trailing block, each with its content from a slot of its own. -/
structure Served (topK : Nat) (select : Select S D) (data : Nat → KVBlock bs R) (summary : Nat → D) (r : Request S)
    (g : Gathered S D bs R) : Prop where
  request : g.request = r
  scored : g.scored = (List.range (r.seqLen / bs)).map summary
  chosen : g.topIds = select r summary (r.seqLen / bs) (min topK (r.seqLen / bs))
  blocks : g.blocks = select r summary (r.seqLen / bs) (min topK (r.seqLen / bs)) ++ liveBlocks bs r.seqLen
  distinct : g.slots.Nodup
  content : g.content = g.blocks.map data

variable (seq blocks data s) in
def Readable : Prop :=
  ∀ b ∈ blocks, ∃ slot, s.slotMap.slot? (seq, b) = some slot ∧ s.mem.arena slot = data (seq, b)

theorem Reordered.readable {t : TierManager S D (Memory bs R)} (hs : Reordered s t)
    (readable : Readable seq blocks data s) : Readable seq blocks data t := by
  intro b hm
  obtain ⟨slot, held, filled⟩ := readable b hm
  exact ⟨slot, (hs.slots _).trans held, hs.mem ▸ filled⟩

/-- A selection of `quest_selection`: at most `k` of the candidates, each once. -/
structure ValidIds (n k : Nat) (ids : List Nat) : Prop where
  distinct : ids.Nodup
  below : ∀ b ∈ ids, b < n
  count : ids.length ≤ k

instance (n k : Nat) (ids : List Nat) : Decidable (ValidIds n k ids) :=
  decidable_of_iff (ids.Nodup ∧ (∀ b ∈ ids, b < n) ∧ ids.length ≤ k)
    ⟨fun h => ⟨h.1, h.2.1, h.2.2⟩, fun h => ⟨h.distinct, h.below, h.count⟩⟩

theorem eq_div_of_mem_liveBlocks {b n : Nat} (hm : b ∈ liveBlocks bs n) : b = n / bs := by
  unfold liveBlocks at hm
  split at hm
  · cases hm
  · exact mem_singleton.mp hm

theorem not_mem_of_live {b n k : Nat} (valid : ValidIds (n / bs) k ids) (last : b ∈ liveBlocks bs n) :
    b ∉ ids := fun hi => ne_of_lt (valid.below b hi) (eq_div_of_mem_liveBlocks last)

theorem nodup_append_liveBlocks (valid : ValidIds (n / bs) k ids) : (ids ++ liveBlocks bs n).Nodup := by
  refine nodup_append'.mpr ⟨valid.distinct, ?_, fun b hi last => not_mem_of_live valid last hi⟩
  unfold liveBlocks
  split <;> simp

theorem wp_decodeRequest {I : TierManager S D (Memory bs R) → Prop}
    (chosen : select r s.summary (r.seqLen / bs) (min topK (r.seqLen / bs)) = ids)
    (separate : (ids ++ liveBlocks bs r.seqLen).Nodup)
    (ensured : wp (ensureResident cfg r.seqId ids (liveBlocks bs r.seqLen))
      (fun _ t => I t ∧ Readable r.seqId (ids ++ liveBlocks bs r.seqLen) data t) E s)
    (stable : ∀ t u, Reordered t u → I t → I u) :
    wp (decodeRequest cfg topK select r)
      (fun g t => I t ∧ Served topK select (fun b => data (r.seqId, b)) s.summary r g) E s := by
  unfold decodeRequest
  simp only [wp_bind, wp_get, chosen]
  refine wp_imp ensured ?_
  rintro _ t ⟨kept, readable⟩
  refine wp_gatherSlots (fun b hm => (readable b hm).imp fun _ h => h.1) fun slots u hs gathered => ?_
  refine ⟨stable t u hs kept, rfl, rfl, chosen.symm, by rw [chosen], nodup_of_gathered separate gathered, ?_⟩
  rw [hs.mem]
  refine map_of_gathered gathered fun b hm slot held => ?_
  obtain ⟨slot', held', filled⟩ := readable b hm
  obtain rfl := Option.some.inj (held.symm.trans held')
  exact filled

theorem decodeRequest_coherent (books : Books cfg [] s)
    (hc : Coherent cfg ∅ (blocksOf r.seqId (r.seqLen / bs)) live data s)
    (valid : ValidIds (r.seqLen / bs) (cfg.gpuBudget - 1) (select r s.summary (r.seqLen / bs) (min topK (r.seqLen / bs))))
    (hp : 0 < cfg.gpuBudget) (pinned : ∀ k ∈ live, ∃ b ∈ liveBlocks bs r.seqLen, k = (r.seqId, b))
    (liveHere : Readable r.seqId (liveBlocks bs r.seqLen) data s) (plain : protectedKeys cfg s r.seqId = []) :
    wp (decodeRequest cfg topK select r) (fun g t => (Books cfg [] t ∧
      Coherent cfg ∅ (blocksOf r.seqId (r.seqLen / bs)) live data t ∧ Quiet s t ∧
      Readable r.seqId (liveBlocks bs r.seqLen) data t) ∧
      Served topK select (fun b => data (r.seqId, b)) s.summary r g)
      (fun e _ => Exhausted cfg (blocksOf r.seqId (r.seqLen / bs)) e) s := by
  have single : (liveBlocks bs r.seqLen).length ≤ 1 := by
    unfold liveBlocks
    split <;> simp
  have selected : ∀ b ∈ select r s.summary (r.seqLen / bs) (min topK (r.seqLen / bs)),
      (r.seqId, b) ∈ blocksOf r.seqId (r.seqLen / bs) := fun b hi => ⟨rfl, valid.below b hi⟩
  refine wp_decodeRequest rfl (nodup_append_liveBlocks valid) ?_ ?_
  · refine wp_imp (ensureResident_coherent books hc (fun k owned => owned.1) selected (fun k hm => ?_) ?_ plain
      hp) ?_
    · obtain ⟨b, hi, rfl⟩ := pinned k hm
      exact mem_map.mpr ⟨b, mem_append_left _ hi, rfl⟩
    · rw [length_append]
      have := valid.count
      omega
    rintro _ t ⟨books', hc', ensured⟩
    have unmoved : Readable r.seqId (liveBlocks bs r.seqLen) data t := by
      intro b trailing
      obtain ⟨slot, held, filled⟩ := liveHere b trailing
      obtain ⟨held', hs⟩ := ensured.kept b trailing (not_mem_of_live valid trailing) slot held
      exact ⟨slot, held', hs.trans filled⟩
    refine ⟨⟨books', hc', ensured.quiet, unmoved⟩, fun b hm => ?_⟩
    -- A selected block is stored, so its slot holds its content; the live block has not moved.
    rcases mem_append.mp hm with hi | trailing
    · obtain ⟨slot, held⟩ := ensured.here b hi
      exact ⟨slot, held, hc'.resident _ (selected b hi) (Set.notMem_empty _) slot held⟩
    · exact unmoved b trailing
  · rintro t u hs ⟨books', hc', quiet, readable⟩
    exact ⟨hs.books books', hs.coherent hc', quiet.trans hs.quiet, hs.readable readable⟩

theorem Readable.selected {live : List Nat} (valid : ValidIds n k ids)
    (readable : Readable seq (range n ++ live) data s) : Readable seq (ids ++ live) data s := by
  intro b hm
  refine readable b (mem_append.mpr ((mem_append.mp hm).imp_left fun hi => ?_))
  exact mem_range.mpr (valid.below b hi)

theorem decodeRequest_here {k : Nat}
    (valid : ValidIds (r.seqLen / bs) k (select r s.summary (r.seqLen / bs) (min topK (r.seqLen / bs))))
    (readable : Readable r.seqId
      (select r s.summary (r.seqLen / bs) (min topK (r.seqLen / bs)) ++ liveBlocks bs r.seqLen) data s) :
    wp (decodeRequest cfg topK select r)
      (fun g t => Reordered s t ∧ Served topK select (fun b => data (r.seqId, b)) s.summary r g) E s := by
  refine wp_decodeRequest rfl (nodup_append_liveBlocks valid) ?_ (fun _ _ hs kept => kept.trans hs)
  refine wp_imp (ensureResident_here fun b hm => ?_) (fun _ t hs => ⟨hs, hs.readable readable⟩)
  obtain ⟨slot, held, _⟩ := readable b (mem_append_left _ hm)
  exact ⟨slot, held⟩

end

end KVOffload.Quest
