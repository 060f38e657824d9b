import KVOffload.Quest.Calls

/-!
# Slot accounting

On the host side a slot is free, backs a spilled block (`cpuSlots`) or is a durable mirror (`hostSlots`).
-/

namespace KVOffload.Quest

open List OrderedDict LRUSlotMap TierManager

variable {S D M R : Type} {bs : Nat}

/-- Every pool slot is in `extra`, free, or behind exactly one entry. `extra` are the slots a call has
taken out of the books and not yet put back. -/
def Pool (cfg : TierConfig bs R D) (extra : List Nat) (s : TierManager S D M) : Prop :=
  (extra ++ (s.cpuFree ++ s.cpuSlots.values ++ s.hostSlots.values)).Perm (List.range cfg.cpuBlocks)

structure Books (cfg : TierConfig bs R D) (extra : List Nat) (s : TierManager S D M) : Prop where
  arena : s.slotMap.capacity = cfg.gpuBudget
  pool : Pool cfg extra s
  apart : cfg.enableWriteThrough = false → ∀ k ∈ s.slotMap.keys, k ∉ s.cpuSlots
  durable : cfg.enableWriteThrough = true → ∀ k, k ∉ s.cpuSlots
  unmirrored : cfg.enableWriteThrough = false → ∀ k, k ∉ s.hostSlots

variable {cfg : TierConfig bs R D} {extra : List Nat} {s : TierManager S D M}

theorem books_init (cfg : TierConfig bs R D) (mem : M) (summary : Nat → D) :
    Books cfg [] (init cfg mem summary : TierManager S D M) where
  arena := rfl
  pool := by simp [Pool, TierManager.init, values, empty]
  apart := by simp [TierManager.init]
  durable := by simp [TierManager.init]
  unmirrored := by simp [TierManager.init]

variable {m : LRUSlotMap (S × Nat)}

theorem Books.withMap (books : Books cfg extra s) (key : S × Nat)
    (fresh : cfg.enableWriteThrough = false → key ∉ s.cpuSlots) (size : m.capacity = s.slotMap.capacity)
    (sub : ∀ k ∈ m.keys, k = key ∨ k ∈ s.slotMap.keys) : Books cfg extra { s with slotMap := m } where
  arena := size.trans books.arena
  pool := books.pool
  apart mode k present := by
    rcases sub k present with rfl | old
    · exact fresh mode
    · exact books.apart mode k old
  durable := books.durable
  unmirrored := books.unmirrored

theorem Books.reorder (books : Books cfg extra s) (size : m.capacity = s.slotMap.capacity)
    (sub : ∀ k ∈ m.keys, k ∈ s.slotMap.keys) : Books cfg extra { s with slotMap := m } :=
  ⟨size.trans books.arena, books.pool, fun mode k present => books.apart mode k (sub k present), books.durable,
    books.unmirrored⟩

variable {t : TierManager S D M} {n lo b : Nat} {body : Nat → TierM S D M Unit}

theorem Books.congr (books : Books cfg extra s) (map : t.slotMap = s.slotMap)
    (free : t.cpuFree = s.cpuFree) (cpu : t.cpuSlots = s.cpuSlots) (host : t.hostSlots = s.hostSlots) :
    Books cfg extra t where
  arena := by rw [map, books.arena]
  pool := by simpa only [Pool, free, cpu, host] using books.pool
  apart := by simpa only [map, cpu] using books.apart
  durable := by simpa only [cpu] using books.durable
  unmirrored := by simpa only [host] using books.unmirrored

variable (cfg s) in
structure Exact : Prop where
  arena : (s.slotMap.freeSlots ++ s.slotMap.keyToSlot.values).Perm (List.range cfg.gpuBudget)
  pool : (s.cpuFree ++ s.cpuSlots.values ++ s.hostSlots.values).Perm (List.range cfg.cpuBlocks)
  apart : cfg.enableWriteThrough = false → ∀ k ∈ s.slotMap.keys, k ∉ s.cpuSlots

def poolTotal (s : TierManager S D M) : Nat :=
  s.cpuFree.length + s.cpuSlots.values.length + s.hostSlots.values.length

theorem Books.poolTotal_eq (books : Books cfg [] s) : poolTotal s = cfg.cpuBlocks := by
  have total := books.pool.length_eq
  simpa [poolTotal, Nat.add_assoc] using total

/-- A key that is in both tiers once `key` has a slot, or a lost pool slot. -/
structure Stale (cfg : TierConfig bs R D) (keys : List (S × Nat)) (s : TierManager S D M) : Prop where
  bounded : poolTotal s ≤ cfg.cpuBlocks
  wrong : (∃ k ∈ keys, k ∈ s.cpuSlots) ∨ poolTotal s < cfg.cpuBlocks

structure Grows (s t : TierManager S D M) : Prop where
  total : poolTotal t ≤ poolTotal s
  spilled : ∀ k ∈ s.cpuSlots, k ∈ t.cpuSlots
  resident : ∀ k ∈ s.slotMap.keys, k ∈ t.slotMap.keys

theorem Stale.grows (stale : Stale cfg s.slotMap.keys s) (grows : Grows s t) : Stale cfg t.slotMap.keys t where
  bounded := grows.total.trans stale.bounded
  wrong := stale.wrong.imp (fun ⟨k, held, stored⟩ => ⟨k, grows.resident k held, grows.spilled k stored⟩)
    (fun lost => lt_of_le_of_lt grows.total lost)

theorem Books.exact (books : Books cfg [] s) : Exact cfg s where
  arena := books.arena ▸ s.slotMap.partition
  pool := books.pool
  apart := books.apart

theorem Stale.not_exact (mode : cfg.enableWriteThrough = false) (stale : Stale cfg s.slotMap.keys s) : ¬ Exact cfg s := by
  intro sound
  rcases stale.wrong with ⟨k, held, stored⟩ | lost
  · exact sound.apart mode k held stored
  · have total := sound.pool.length_eq
    simp only [length_append, length_range] at total
    exact absurd lost (by simp only [poolTotal]; omega)

/-- The copies a prefill loop makes: no block of it may be spilled already, and none that it spills may be
resident. -/
def PrefillFresh (cfg : TierConfig bs R D) (seq : S) (lo b : Nat) (s : TierManager S D M) : Prop :=
  cfg.enableWriteThrough = false → (seq, b) ∉ s.cpuSlots ∧ (b < lo → (seq, b) ∉ s.slotMap.keys)

theorem prefillLoop_books (seq : S) (lo : Nat)
    (pass : ∀ b t, Books cfg [] t → PrefillFresh cfg seq lo b t →
      wp (body b) (fun _ u => Books cfg [] u ∧
      ∀ b' ≠ b, PrefillFresh cfg seq lo b' t → PrefillFresh cfg seq lo b' u) (fun _ _ => True) t)
    (books : Books cfg [] s) (fresh : ∀ b < n, PrefillFresh cfg seq lo b s) :
    wp (forM (range n) body)
      (fun _ t => Books cfg [] t ∧ ∀ b ≥ n, PrefillFresh cfg seq lo b s → PrefillFresh cfg seq lo b t)
      (fun _ _ => True) s := by
  refine wp_forM_range (I := fun i t => Books cfg [] t ∧
    ∀ b ≥ i, PrefillFresh cfg seq lo b s → PrefillFresh cfg seq lo b t) ?_ ⟨books, fun _ _ h => h⟩
  rintro i hb t ⟨inner, ahead⟩
  refine wp_imp (pass i t inner (ahead i (le_refl i) (fresh i hb))) ?_
  rintro _ u ⟨after, kept⟩
  exact ⟨after, fun b next before => kept b (by omega) (ahead b (by omega) before)⟩

theorem prefillLoop_stale (seq : S) (lo : Nat) (mode : cfg.enableWriteThrough = false)
    (pass : ∀ b t, wp (body b) (fun _ u => Grows t u ∧ (¬ PrefillFresh cfg seq lo b t →
      poolTotal t ≤ cfg.cpuBlocks → Stale cfg u.slotMap.keys u)) (fun _ _ => True) t)
    (bounded : poolTotal s ≤ cfg.cpuBlocks) :
    wp (forM (range n) body)
      (fun _ t => Grows s t ∧ ((∃ b < n, ¬ PrefillFresh cfg seq lo b s) → Stale cfg t.slotMap.keys t))
      (fun _ _ => True) s := by
  refine wp_forM_range (I := fun i t => Grows s t ∧
    ((∃ b < i, ¬ PrefillFresh cfg seq lo b s) → Stale cfg t.slotMap.keys t)) ?_
    ⟨⟨Nat.le_refl _, fun _ h => h, fun _ h => h⟩, fun ⟨_, hb, _⟩ => absurd hb (Nat.not_lt_zero _)⟩
  rintro i _ t ⟨grown, broken⟩
  refine wp_imp (pass i t) ?_
  rintro _ u ⟨grows, breaks⟩
  refine ⟨⟨grows.total.trans grown.total, fun k h => grows.spilled k (grown.spilled k h),
    fun k h => grows.resident k (grown.resident k h)⟩, ?_⟩
  rintro ⟨b, hb, unfresh⟩
  by_cases earlier : b < i
  · exact (broken ⟨b, earlier, unfresh⟩).grows grows
  · obtain rfl : b = i := by omega
    refine breaks (fun fresh => unfresh fun _ => ?_) (grown.total.trans bounded)
    obtain ⟨absent, away⟩ := fresh mode
    exact ⟨fun stored => absent (grown.spilled _ stored), fun low held => away low (grown.resident _ held)⟩

theorem writeBack_of_not_fresh {seq : S} (unfresh : ¬ PrefillFresh cfg seq lo b s) :
    cfg.enableWriteThrough = false := (Classical.not_imp.mp unfresh).1

variable [DecidableEq S]

variable {key : S × Nat} {cpuSlot : Nat} {rest : List Nat}

theorem Pool.spilled (pool : Pool cfg extra s)
    (free : s.cpuFree = cpuSlot :: rest) (absent : key ∉ s.cpuSlots) :
    (extra ++ (rest ++ (s.cpuSlots.insert key cpuSlot).values ++ s.hostSlots.values)).Perm
      (range cfg.cpuBlocks) := by
  refine List.Perm.trans (List.Perm.append_left _ ?_) pool
  rw [values_insert_of_not_mem absent, free, perm_iff_count]
  simp only [count_append, count_cons, count_nil]
  omega

theorem Pool.mirrored (pool : Pool cfg extra s)
    (free : s.cpuFree = cpuSlot :: rest) (absent : key ∉ s.hostSlots) :
    (extra ++ (rest ++ s.cpuSlots.values ++ (s.hostSlots.insert key cpuSlot).values)).Perm
      (range cfg.cpuBlocks) := by
  refine List.Perm.trans (List.Perm.append_left _ ?_) pool
  rw [values_insert_of_not_mem absent, free, perm_iff_count]
  simp only [count_append, count_cons, count_nil]
  omega

theorem Books.takeOut (books : Books cfg [] s) (mode : cfg.enableWriteThrough = false)
    (hf : s.cpuSlots.get? key = some cpuSlot) :
    Books cfg [cpuSlot] { s with cpuSlots := s.cpuSlots.erase key } := by
  refine ⟨books.arena, List.Perm.trans ?_ books.pool, fun _ k present stored => ?_, by simp [mode], books.unmirrored⟩
  · have taken := values_perm_erase hf
    rw [perm_iff_count]
    intro c
    have count := taken.count_eq c
    simp only [count_append, count_cons] at count ⊢
    omega
  · exact books.apart mode k present (mem_erase.mp stored).2

variable {seq : S} {content : KVBlock bs R} {block : Nat} {overflow exhausted : QuestError S} {protect : List (S × Nat)}
  {ids keepIds : List Nat}

abbrev KeepsBooks {α : Type} (cfg : TierConfig bs R D) (x : TierM S D M α) (s : TierManager S D M) : Prop :=
  wp x (fun _ t => Books cfg [] t) (fun _ _ => True) s

theorem mirrorWith_books {copy : Nat → M → M} (books : Books cfg extra s) (mode : cfg.enableWriteThrough = true) :
    wp (mirrorWith cfg key copy) (fun _ t => Books cfg extra t ∧ t.slotMap = s.slotMap ∧ t.cpuSlots = s.cpuSlots)
      (fun _ _ => True) s := by
  refine wp_mirrorWith (fun _ => ⟨books, rfl, rfl⟩) (fun absent cpuSlot rest free => ?_) (fun _ _ => trivial)
  refine ⟨⟨books.arena, ?_, books.apart, books.durable, by simp [mode]⟩, rfl, rfl⟩
  exact books.pool.mirrored free absent

theorem Freed.books (freed : Freed seq s t) (books : Books cfg [] s) : Books cfg [] t := by
  refine ⟨freed.capacity.trans books.arena, ?_, fun mode k present stored => ?_, fun mode k stored => ?_,
    fun mode k stored => ?_⟩
  · exact (List.Perm.append_left _ freed.pool).trans books.pool
  · obtain ⟨slot, held⟩ := mem_keys_iff.mp present
    obtain ⟨c, hf⟩ := mem_iff_get?.mp stored
    rw [freed.slots] at held
    rw [freed.cpuSlots] at hf
    split at held
    · cases held
    · rename_i other
      rw [if_neg other] at hf
      exact books.apart mode k (mem_keys_of_slot? held) (mem_of_get?_eq hf)
  · obtain ⟨c, hf⟩ := mem_iff_get?.mp stored
    rw [freed.cpuSlots] at hf
    split at hf
    · cases hf
    · exact books.durable mode k (mem_of_get?_eq hf)
  · obtain ⟨c, hf⟩ := mem_iff_get?.mp stored
    rw [freed.hostSlots] at hf
    split at hf
    · cases hf
    · exact books.unmirrored mode k (mem_of_get?_eq hf)

theorem freeRequest_books (seq : S) (books : Books cfg [] s) :
    wp (freeRequest seq) (fun _ t => Books cfg [] t ∧ ∀ b, (seq, b) ∉ t.slotMap.keys ∧
      (seq, b) ∉ t.cpuSlots ∧ (seq, b) ∉ t.hostSlots) (fun _ _ => True) s := by
  refine wp_freeRequest fun t freed => ⟨freed.books books, fun b => ⟨?_, ?_, ?_⟩⟩
  · exact slot?_eq_none_iff.mp (by simp [freed.slots])
  · exact get?_eq_none_iff.mp (by simp [freed.cpuSlots])
  · exact get?_eq_none_iff.mp (by simp [freed.hostSlots])

theorem touchResident_books {E : QuestError S → TierManager S D M → Prop} (books : Books cfg [] s) :
    wp (touchResident seq ids keepIds) (fun _ t => Books cfg [] t) E s := by
  refine wp_forM (fun b _ t inner => ?_) books
  rw [wp_modify]
  split
  · exact inner.reorder rfl fun _ => mem_keys_touch.mp
  · exact inner

theorem logicalToSlot_books (books : Books cfg [] s) : KeepsBooks cfg (logicalToSlot seq block) s := by
  unfold logicalToSlot LRUSlotMap.get
  simp only [wp_bind, wp_get]
  cases held : s.slotMap.slot? (seq, block) with
  | none => simp
  | some slot =>
    exact books.reorder rfl fun _ => mem_keys_touch.mp

section

variable [BlockMemory M bs R]

section

variable (books : Books cfg extra s) (fresh : cfg.enableWriteThrough = false → key ∉ s.cpuSlots)

include books fresh

theorem spillHook_books {victim : S × Nat} {slot : Nat} (replaced : s.slotMap.Replaced key victim slot m) :
    wp (spillHook cfg victim slot)
      (fun _ t => Books cfg extra t ∧ t.slotMap = m ∧
      ∀ k, k ∈ t.cpuSlots → k = victim ∨ k ∈ s.cpuSlots) (fun _ _ => True) { s with slotMap := m } := by
  have resident := mem_keys_of_slot? replaced.held
  refine wp_spillHook ?spill ?drop (fun _ _ => trivial) (fun _ _ => trivial) (fun _ _ _ => trivial)
  case spill =>
    intro mode cpuSlot rest free _
    have absent := books.apart mode victim resident
    refine ⟨⟨replaced.capacity.trans books.arena, ?_, ?_, by simp [mode], books.unmirrored⟩, rfl, ?_⟩
    · exact books.pool.spilled free absent
    · intro _ k present stored
      rcases replaced.mem_keys.mp present with rfl | ⟨old, other⟩
      · rcases mem_insert.mp stored with hs | stored
        · exact replaced.ne hs.symm
        · exact fresh mode stored
      · rcases mem_insert.mp stored with hs | stored
        · exact other hs
        · exact books.apart mode k old stored
    · intro k stored
      exact mem_insert.mp stored
  case drop =>
    intro mode _ _
    have inner := books.withMap key fresh replaced.capacity
      (fun k present => (replaced.mem_keys.mp present).imp id And.left)
    exact ⟨inner.congr rfl rfl rfl rfl, rfl, fun k stored => .inr stored⟩

theorem claimSlot_books :
    wp (claimSlot cfg key protect) (fun _ t => Books cfg extra t) (fun _ _ => True) s := by
  refine wp_claimSlot (fun slot m claimed => ?_) (fun victim slot m _ replaced => ?_) (fun _ => trivial)
  · exact books.withMap key fresh claimed.capacity (fun _ => claimed.mem_keys.mp)
  · exact wp_imp (spillHook_books books fresh replaced) (fun _ _ h => h.1)

end

theorem ensureOne_books (books : Books cfg [] s) : KeepsBooks cfg (ensureOne cfg seq block) s := by
  refine wp_ensureOne ?hit (fun _ _ _ => trivial) ?mirror ?back
  case hit =>
    intro _
    exact books.reorder rfl fun _ => mem_keys_touch.mp
  case mirror =>
    intro mode _ cpuSlot _
    refine wp_imp (claimSlot_books books (by simp [mode])) (fun slot t claimed => ?_)
    refine wp_beginLoad (fun _ => ?_) (fun _ => trivial)
    exact claimed.congr rfl rfl rfl rfl
  case back =>
    intro mode _ cpuSlot hf
    have opened := books.takeOut mode hf
    have fresh : (seq, block) ∉ s.cpuSlots.erase (seq, block) := fun stored => (mem_erase.mp stored).1 rfl
    refine wp_imp (claimSlot_books opened (fun _ => fresh)) (fun slot t claimed => ?_)
    refine wp_beginLoad (fun _ => ?_) (fun _ => trivial)
    refine ⟨claimed.arena, List.Perm.trans ?_ claimed.pool, claimed.apart, claimed.durable, claimed.unmirrored⟩
    simp

theorem keepOrSpill_books
    (books : Books cfg [] s) (fresh : PrefillFresh cfg seq lo b s) :
    wp (keepOrSpill cfg seq lo overflow exhausted b content)
      (fun _ t => Books cfg [] t ∧ ∀ b' ≠ b, PrefillFresh cfg seq lo b' s → PrefillFresh cfg seq lo b' t)
      (fun _ _ => True) s := by
  refine wp_keepOrSpill ?kept (fun _ _ _ _ => trivial) ?mirrored ?spilled (fun _ _ _ => trivial) (fun _ _ => trivial)
  case kept =>
    intro keep slot m claimed
    have sub : ∀ k ∈ m.keys, k = (seq, b) ∨ k ∈ s.slotMap.keys := fun _ => claimed.mem_keys.mp
    have inner := (books.withMap (seq, b) (fun mode => (fresh mode).1) claimed.capacity sub).congr
      (t := { s with
        slotMap := m
        mem := BlockMemory.fillSlot slot content s.mem
        residency := Function.update s.residency b .onGpu }) rfl rfl rfl rfl
    have later : ∀ b' ≠ b, PrefillFresh cfg seq lo b' s → PrefillFresh cfg seq lo b'
        { s with slotMap := m } := by
      intro b' other before mode
      refine ⟨(before mode).1, fun hb present => ?_⟩
      rcases sub _ present with hs | old
      · exact other (Prod.mk.inj hs).2
      · exact (before mode).2 hb old
    cases mode : cfg.enableWriteThrough with
    | true =>
      refine wp_imp (mirrorWith_books inner mode) (fun _ t stored => ?_)
      exact ⟨stored.1, fun b' _ _ off => by simp [mode] at off⟩
    | false =>
      exact ⟨inner, later⟩
  case mirrored =>
    intro _ mode
    refine wp_imp (mirrorWith_books books mode) (fun _ t stored => ?_)
    refine wp_evictRow (fun _ => ?_) (fun _ => trivial)
    exact ⟨stored.1.congr rfl rfl rfl rfl, fun b' _ _ off => by simp [mode] at off⟩
  case spilled =>
    intro hb mode cpuSlot rest free
    refine wp_evictRow (fun _ => ?_) (fun _ => trivial)
    obtain ⟨absent, away⟩ := fresh mode
    refine ⟨⟨books.arena, ?_, fun _ k present stored => ?_, by simp [mode], books.unmirrored⟩, fun b' other before _ => ?_⟩
    · exact books.pool.spilled free absent
    · rcases mem_insert.mp stored with rfl | stored
      · exact away hb present
      · exact books.apart mode k present stored
    · refine ⟨fun stored => ?_, (before mode).2⟩
      rcases mem_insert.mp stored with hs | stored
      · exact other (Prod.mk.inj hs).2
      · exact (before mode).1 stored

end

/-! ### The calls -/

variable [ReadableMemory M bs R] {engine : Nat → KVBlock bs R} {calls : List (Call S R bs)} {row : Nat → Nat}
  {len : Option Nat}

variable (cfg s) in
/-- A call leaves no stale copy behind in write-back mode: it brings no block into the arena whose spilled copy is still in
`cpuSlots`, and a prefill spills no block that has a slot or a spilled copy. -/
def Fresh : Call S R bs → Prop
  | .onBlockFilled seq block _ | .writeLiveBlock seq block _ =>
    cfg.enableWriteThrough = false → (seq, block) ∉ s.cpuSlots
  | .appendDecodeTokenKvshare seq len _ _ => cfg.enableWriteThrough = false → (seq, len / bs) ∉ s.cpuSlots
  | .trimToWorkingSet seq n _ _ =>
    seq ∉ s.trimmed → ∀ b < n, PrefillFresh cfg seq (keepLo s.slotMap.capacity n) b s
  | .prefillIngestKvshare seq n _ _ len =>
    seq ∉ s.trimmed → (∀ b < n, PrefillFresh cfg seq (keepLo s.slotMap.capacity n) b s) ∧
      (n * bs < len.getD 0 → PrefillFresh cfg seq (keepLo s.slotMap.capacity n) n s)
  | _ => True

instance (cfg : TierConfig bs R D) (seq : S) (lo b : Nat) (s : TierManager S D M) :
    Decidable (PrefillFresh cfg seq lo b s) :=
  inferInstanceAs (Decidable (_ → _ ∧ (_ → _)))

instance (cfg : TierConfig bs R D) (s : TierManager S D M) : (call : Call S R bs) → Decidable (Fresh cfg s call)
  | .onBlockFilled _ _ _ | .writeLiveBlock _ _ _ | .appendDecodeTokenKvshare _ _ _ _ =>
    inferInstanceAs (Decidable (_ → _ ∉ _))
  | .trimToWorkingSet _ _ _ _ => inferInstanceAs (Decidable (_ → ∀ _ < _, _))
  | .prefillIngestKvshare _ _ _ _ _ => inferInstanceAs (Decidable (_ → (∀ _ < _, _) ∧ (_ → _)))
  | .registerPrefillSummary _ _ _ | .ensureResident _ _ _ | .logicalToSlot _ _ | .setPrevSelected _ _
  | .prefetchTopIds _ _ | .freeRequest _ => isTrue trivial

section

variable (books : Books cfg [] s)

include books

variable (fresh : cfg.enableWriteThrough = false → (seq, block) ∉ s.cpuSlots)

include fresh in
theorem onBlockFilled_books :
    KeepsBooks cfg (onBlockFilled cfg seq block content) s := by
  unfold onBlockFilled
  simp only [wp_bind, wp_modify, markOnGpu]
  have start := books.congr (t := s.setSummary block (cfg.digest content.k)) rfl rfl rfl rfl
  refine wp_imp (claimSlot_books start fresh) (fun slot t claimed => ?_)
  have filled := claimed.congr
    (t := ((t.setMem (BlockMemory.fillSlot slot content)).setResidency block .onGpu)) rfl rfl rfl rfl
  cases mode : cfg.enableWriteThrough with
  | true =>
    simp only [↓reduceIte, wp_bind]
    exact wp_imp (mirrorWith_books filled mode) (fun _ _ h => h.1)
  | false => simpa using filled

include fresh in
theorem writeLiveBlock_books :
    KeepsBooks cfg (writeLiveBlock cfg seq block content) s := by
  unfold writeLiveBlock
  simp only [wp_bind]
  refine wp_imp (claimSlot_books books fresh) (fun slot t claimed => ?_)
  exact claimed.congr rfl rfl rfl rfl

theorem appendDecodeTokenKvshare_books {len : Nat} {kTok vTok : R}
    (fresh : cfg.enableWriteThrough = false → (seq, len / bs) ∉ s.cpuSlots) :
    KeepsBooks cfg (appendDecodeTokenKvshare cfg seq len kTok vTok) s := by
  unfold appendDecodeTokenKvshare
  simp only [wp_bind, markOnGpu]
  refine wp_imp (claimSlot_books books fresh) (fun slot t claimed => ?_)
  by_cases full : len % bs + 1 = bs
  · simp only [full, ↓reduceIte, wp_bind, wp_get, wp_modify]
    cases mode : cfg.enableWriteThrough with
    | true =>
      refine wp_imp (mirrorWith_books ?_ mode) (fun _ _ h => h.1)
      exact claimed.congr rfl rfl rfl rfl
    | false =>
      exact claimed.congr rfl rfl rfl rfl
  · simp only [full]
    exact claimed.congr rfl rfl rfl rfl

theorem trimToWorkingSet_books
    (fresh : Fresh cfg s (.trimToWorkingSet seq n engine row)) :
    KeepsBooks cfg (trimToWorkingSet cfg seq n engine row) s := by
  unfold trimToWorkingSet
  by_cases done : seq ∈ s.trimmed
  · simpa [done] using books
  · simp only [done, ↓reduceIte, wp_bind, wp_modify, wp_get]
    refine wp_imp (prefillLoop_books _ _ (fun b t inner ready => keepOrSpill_books inner ready) ?_ (fresh done))
      (fun _ _ h => h.1)
    exact books.congr rfl rfl rfl rfl

theorem prefillIngestKvshare_books {key value : Nat → R}
    (fresh : Fresh cfg s (.prefillIngestKvshare seq n key value len)) :
    KeepsBooks cfg (prefillIngestKvshare cfg seq n key value len) s := by
  unfold prefillIngestKvshare
  by_cases done : seq ∈ s.trimmed
  · simpa [done] using books
  obtain ⟨blocks, tail⟩ := fresh done
  simp only [done, ↓reduceIte, wp_bind, wp_modify, wp_get]
  refine wp_imp (prefillLoop_books seq (keepLo s.slotMap.capacity n) ?_ ?_ blocks) ?_
  · intro b t inner ready
    exact keepOrSpill_books (inner.congr rfl rfl rfl rfl) ready
  · exact books.congr rfl rfl rfl rfl
  rintro _ t ⟨after, kept⟩
  cases len with
  | none => simpa using after
  | some len =>
    by_cases rows : 0 < len - n * bs
    · have live := kept n (le_refl n) (tail (by simpa using (by omega)))
      simp only [rows, ↓reduceIte, wp_bind]
      refine wp_imp (claimSlot_books after fun mode => (live mode).1) (fun slot u claimed => ?_)
      split
      · simp
      · exact claimed.congr rfl rfl rfl rfl
    · simpa [rows] using after

theorem ensureResident_books : KeepsBooks cfg (ensureResident cfg seq ids keepIds) s := by
  unfold ensureResident
  simp only [wp_bind]
  refine wp_imp (touchResident_books books) (fun _ t touched => ?_)
  refine wp_imp (wp_forM (fun b _ u inner => ensureOne_books inner) touched) (fun _ u loaded => ?_)
  split
  · exact loaded.congr rfl rfl rfl rfl
  · exact loaded

theorem prefetchTopIds_books : KeepsBooks cfg (prefetchTopIds cfg seq ids) s := by
  unfold prefetchTopIds
  split
  · refine wp_forM (fun b _ t inner => ?_) books
    rw [wp_bind]
    refine wp_imp (ensureOne_books inner) (fun _ u loaded => ?_)
    split
    · rw [wp_modify]
      split
      · exact loaded.reorder rfl fun _ => mem_keys_demote.mp
      · exact loaded
    · exact loaded
  · exact books

end

theorem runCall_books (call : Call S R bs) (fresh : Fresh cfg s call) (books : Books cfg [] s) :
    KeepsBooks cfg (runCall cfg call) s := by
  cases call <;> simp [runCall]
  case registerPrefillSummary seq block kBlock => exact books.congr rfl rfl rfl rfl
  case onBlockFilled => exact onBlockFilled_books books fresh
  case trimToWorkingSet => exact trimToWorkingSet_books books fresh
  case writeLiveBlock => exact writeLiveBlock_books books fresh
  case prefillIngestKvshare => exact prefillIngestKvshare_books books fresh
  case appendDecodeTokenKvshare => exact appendDecodeTokenKvshare_books books fresh
  case ensureResident => exact ensureResident_books books
  case logicalToSlot => exact logicalToSlot_books books
  case setPrevSelected =>
    unfold setPrevSelected
    split
    · exact books.congr rfl rfl rfl rfl
    · exact books
  case prefetchTopIds => exact prefetchTopIds_books books
  case freeRequest => exact wp_imp (freeRequest_books _ books) (fun _ _ h => h.1)

/-! ### What a stale copy does

A call that is not fresh leaves a key in both tiers, or overwrites the entry of a pool slot and loses the
slot. -/

theorem poolTotal_spill
    (free : s.cpuFree = cpuSlot :: rest) (left : t.cpuFree = rest) (host : t.hostSlots = s.hostSlots)
    (spilled : t.cpuSlots = s.cpuSlots.insert key cpuSlot) :
    poolTotal t + (if key ∈ s.cpuSlots then 1 else 0) = poolTotal s := by
  unfold poolTotal
  rw [left, host, spilled, free, length_values_insert, length_cons]
  split <;> omega

theorem claimSlot_stale (mode : cfg.enableWriteThrough = false)
    (stale : Stale cfg (key :: s.slotMap.keys) s) :
    wp (claimSlot cfg key protect) (fun _ t => Stale cfg t.slotMap.keys t) (fun _ _ => True) s := by
  refine wp_claimSlot (fun slot m claimed => ?_) (fun victim slot m _ replaced => ?_) (fun _ => trivial)
  · refine ⟨stale.bounded, stale.wrong.imp_left ?_⟩
    rintro ⟨k, hm, stored⟩
    exact ⟨k, claimed.mem_keys.mpr (mem_cons.mp hm), stored⟩
  refine wp_spillHook ?_ (by simp [mode]) (fun _ _ => trivial) (fun _ _ => trivial) (fun _ _ _ => trivial)
  intro _ cpuSlot rest free _
  set t : TierManager S D M := { s with
    slotMap := m
    cpuFree := rest
    mem := BlockMemory.spillSlot cpuSlot slot s.mem
    residency := Function.update s.residency victim.2 .onCpu
    cpuSlots := s.cpuSlots.insert victim cpuSlot }
  have total : poolTotal t + (if victim ∈ s.cpuSlots then 1 else 0) = poolTotal s :=
    poolTotal_spill free rfl rfl rfl
  have bounded := stale.bounded
  refine ⟨by omega, ?_⟩
  rcases stale.wrong with ⟨k, hm, stored⟩ | lost
  · by_cases hs : k = victim
    · rw [if_pos (hs ▸ stored)] at total
      exact .inr (by omega)
    · have held := replaced.mem_keys.mpr ((mem_cons.mp hm).imp_right (⟨·, hs⟩))
      exact .inl ⟨k, held, mem_insert.mpr (.inr stored)⟩
  · exact .inr (by omega)

theorem keepOrSpill_stale (mode : cfg.enableWriteThrough = false) :
    wp (keepOrSpill cfg seq lo overflow exhausted b content)
      (fun _ t => Grows s t ∧ (¬ PrefillFresh cfg seq lo b s → poolTotal s ≤ cfg.cpuBlocks →
      Stale cfg t.slotMap.keys t)) (fun _ _ => True) s := by
  refine wp_keepOrSpill ?kept (fun _ _ _ _ => trivial) (by simp [mode]) ?spilled (fun _ _ _ => trivial)
    (fun _ _ => trivial)
  case kept =>
    intro keep slot m claimed
    simp only [mode]
    refine ⟨⟨le_refl _, fun _ h => h, fun k held => claimed.mem_keys.mpr (.inr held)⟩, fun unfresh bounded =>
      ⟨bounded, .inl ⟨(seq, b), claimed.mem_keys.mpr (.inl rfl), ?_⟩⟩⟩
    by_contra absent
    exact unfresh fun _ => ⟨absent, fun hb => absurd keep (by omega)⟩
  case spilled =>
    intro hb _ cpuSlot rest free
    refine wp_evictRow (fun _ => ?_) (fun _ => trivial)
    set t : TierManager S D M := { s with
      cpuFree := rest
      mem := BlockMemory.storeBlock cpuSlot content s.mem
      cpuSlots := s.cpuSlots.insert (seq, b) cpuSlot
      residency := Function.update s.residency b .onCpu }
    have total : poolTotal t + (if (seq, b) ∈ s.cpuSlots then 1 else 0) = poolTotal s :=
      poolTotal_spill free rfl rfl rfl
    refine ⟨⟨by omega, fun k stored => mem_insert.mpr (.inr stored), fun _ h => h⟩, fun unfresh bounded =>
      ⟨by omega, ?_⟩⟩
    by_cases stored : (seq, b) ∈ s.cpuSlots
    · rw [if_pos stored] at total
      exact .inr (by omega)
    · refine .inl ⟨(seq, b), ?_, mem_insert.mpr (.inl rfl)⟩
      by_contra absent
      exact unfresh fun _ => ⟨stored, fun _ => absent⟩

theorem trimToWorkingSet_stale (books : Books cfg [] s)
    (unfresh : ¬ Fresh cfg s (.trimToWorkingSet seq n engine row)) :
    wp (trimToWorkingSet cfg seq n engine row) (fun _ t => Stale cfg t.slotMap.keys t) (fun _ _ => True) s := by
  unfold Fresh at unfresh
  push Not at unfresh
  obtain ⟨first, b, hb, unready⟩ := unfresh
  unfold trimToWorkingSet
  simp only [wp_bind, wp_get, first, ↓reduceIte, wp_modify]
  refine wp_imp (prefillLoop_stale seq _ (writeBack_of_not_fresh unready)
    (fun b t => keepOrSpill_stale (writeBack_of_not_fresh unready)) books.poolTotal_eq.le)
    (fun _ t looped => ?_)
  exact looped.2 ⟨b, hb, unready⟩

theorem prefillIngestKvshare_stale {key value : Nat → R} (books : Books cfg [] s)
    (unfresh : ¬ Fresh cfg s (.prefillIngestKvshare seq n key value len)) :
    wp (prefillIngestKvshare cfg seq n key value len) (fun _ t => Stale cfg t.slotMap.keys t)
      (fun _ _ => True) s := by
  obtain ⟨first, broken⟩ := Classical.not_imp.mp unfresh
  have mode : cfg.enableWriteThrough = false := by
    by_contra through
    exact broken ⟨fun b _ mode => absurd mode through, fun _ mode => absurd mode through⟩
  unfold prefillIngestKvshare
  simp only [wp_bind, wp_get, first, ↓reduceIte, wp_modify]
  refine wp_imp (prefillLoop_stale seq (keepLo s.slotMap.capacity n) mode ?_ books.poolTotal_eq.le) ?_
  · intro b t
    refine wp_imp (keepOrSpill_stale mode) (fun _ u passed => ?_)
    exact ⟨⟨passed.1.total, passed.1.spilled, passed.1.resident⟩, passed.2⟩
  rintro _ t ⟨grown, blocks⟩
  -- The live block is claimed last: its own copy may be the stale one.
  have live : n * bs < len.getD 0 → Stale cfg ((seq, n) :: t.slotMap.keys) t := by
    intro rows
    refine ⟨grown.total.trans books.poolTotal_eq.le, ?_⟩
    by_cases all : ∀ b < n, PrefillFresh cfg seq (keepLo s.slotMap.capacity n) b s
    · have unready : ¬ PrefillFresh cfg seq (keepLo s.slotMap.capacity n) n s := fun h => broken ⟨all, fun _ => h⟩
      refine .inl ⟨(seq, n), .head _, grown.spilled _ ?_⟩
      by_contra absent
      refine unready fun _ => ⟨absent, fun low => absurd low ?_⟩
      unfold keepLo
      omega
    · push Not at all
      exact (blocks all).wrong.imp_left (Exists.imp fun _ => And.imp_left (.tail _))
  have whole : ¬ n * bs < len.getD 0 → Stale cfg t.slotMap.keys t := by
    intro none
    refine blocks ?_
    by_contra all
    push Not at all
    exact broken ⟨all, fun rows => absurd rows none⟩
  cases len with
  | none => simpa using whole (by simp)
  | some len =>
    by_cases rows : 0 < len - n * bs
    · simp only [rows, ↓reduceIte, wp_bind]
      refine wp_imp (claimSlot_stale mode (live (by simpa using (by omega))))
        (fun slot u stale => ?_)
      split
      · simp
      · exact ⟨stale.bounded, stale.wrong⟩
    · have stale := whole (by simpa using (by omega))
      simpa [rows] using stale

theorem runCall_stale (call : Call S R bs) (books : Books cfg [] s) (unfresh : ¬ Fresh cfg s call) :
    wp (runCall cfg call) (fun _ t => Stale cfg t.slotMap.keys t) (fun _ _ => True) s := by
  have claims : ∀ key, ¬ (cfg.enableWriteThrough = false → key ∉ s.cpuSlots) → cfg.enableWriteThrough = false ∧
      Stale cfg (key :: s.slotMap.keys) s := by
    intro key broken
    rw [Classical.not_imp, not_not] at broken
    exact ⟨broken.1, books.poolTotal_eq.le, .inl ⟨key, .head _, broken.2⟩⟩
  cases call <;> simp [runCall]
  case onBlockFilled seq block content =>
    obtain ⟨mode, stale⟩ := claims _ unfresh
    simp only [onBlockFilled, wp_bind, wp_modify, mode]
    refine wp_imp (claimSlot_stale mode ⟨stale.bounded, stale.wrong⟩) (fun slot t after => ?_)
    exact ⟨after.bounded, after.wrong⟩
  case writeLiveBlock seq block content =>
    obtain ⟨mode, stale⟩ := claims _ unfresh
    simp only [writeLiveBlock, wp_bind]
    refine wp_imp (claimSlot_stale mode stale) (fun slot t after => ?_)
    exact ⟨after.bounded, after.wrong⟩
  case appendDecodeTokenKvshare seq len kTok vTok =>
    obtain ⟨mode, stale⟩ := claims _ unfresh
    simp only [appendDecodeTokenKvshare, wp_bind]
    refine wp_imp (claimSlot_stale mode stale) (fun slot t after => ?_)
    split
    · simp only [wp_bind, wp_get, mode]
      exact ⟨after.bounded, after.wrong⟩
    · exact ⟨after.bounded, after.wrong⟩
  case trimToWorkingSet => exact trimToWorkingSet_stale books unfresh
  case prefillIngestKvshare => exact prefillIngestKvshare_stale books unfresh
  all_goals exact absurd trivial unfresh

/-! ### Whole runs -/

def Forgotten (seq : S) (s : TierManager S D M) : Prop :=
  ∀ b, (seq, b) ∉ s.slotMap.keys ∧ (seq, b) ∉ s.cpuSlots ∧ (seq, b) ∉ s.hostSlots

theorem runCalls_books
    (fresh : StepsMeet cfg (Fresh cfg) calls s) (books : Books cfg [] s) (run : runCalls cfg calls s = .ok () t) :
    Books cfg [] t := by
  have kept := wp_runCalls (fun call _ fresh books => runCall_books call fresh books) fresh books
  have after := wp_ok kept run
  exact after

theorem stepsMeet_of_exact {final : TierManager S D M} (books : Books cfg [] s)
    (run : runCalls cfg calls s = .ok () final)
    (sound : ∀ done rest t, calls = done ++ rest → runCalls cfg done s = .ok () t → Exact cfg t) :
    StepsMeet cfg (Fresh cfg) calls s := by
  induction calls generalizing s with
  | nil => trivial
  | cons call rest ih =>
    obtain ⟨result, t, step, tail⟩ := runCalls_cons_ok.mp run
    have first := sound [call] rest t rfl (runCalls_cons_ok.mpr ⟨result, t, step, rfl⟩)
    have fresh : Fresh cfg s call := by
      by_contra unfresh
      have stale := wp_ok (runCall_stale call books unfresh) step
      refine Stale.not_exact ?_ stale first
      by_contra through
      cases call <;> simp [Fresh, PrefillFresh, through] at unfresh
    refine ⟨fresh, fun result' t' step' => ?_⟩
    obtain ⟨rfl, rfl⟩ := EStateM.Result.ok.inj (step.symm.trans step')
    have kept := wp_ok (runCall_books call fresh books) step
    refine ih kept tail (fun done after u split made => ?_)
    exact sound (call :: done) after u (by rw [split, cons_append]) (runCalls_cons_ok.mpr ⟨result, t, step, made⟩)

/-- In a run without exceptions every state is exact, and a released sequence is forgotten, exactly when every
call is fresh. -/
theorem accounting_exact_iff_fresh (cfg : TierConfig bs R D) (mem : M) (summary : Nat → D)
    (calls : List (Call S R bs)) (final : TierManager S D M)
    (run : runCalls cfg calls (TierManager.init cfg mem summary) = .ok () final) :
    (∀ done rest t, calls = done ++ rest → runCalls cfg done (TierManager.init cfg mem summary) = .ok () t →
      Exact cfg t ∧ ∀ before seq, done = before ++ [.freeRequest seq] → Forgotten seq t) ↔
    StepsMeet cfg (Fresh cfg) calls (TierManager.init cfg mem summary) := by
  have start : Books cfg [] (init cfg mem summary : TierManager S D M) := books_init cfg mem summary
  constructor
  · intro sound
    exact stepsMeet_of_exact start run (fun done rest t split made => (sound done rest t split made).1)
  rintro fresh done rest t rfl made
  refine ⟨(runCalls_books fresh.before start made).exact, ?_⟩
  rintro before seq rfl
  obtain ⟨u, earlier, last⟩ := runCalls_append_ok.mp made
  obtain ⟨_, v, step, rest⟩ := runCalls_cons_ok.mp last
  obtain ⟨-, rfl⟩ := EStateM.Result.ok.inj rest
  have released := freeRequest_books seq (runCalls_books fresh.before.before start earlier)
  obtain ⟨_, w, freed, done⟩ := bind_ok_iff.mp step
  obtain ⟨_, rfl⟩ := EStateM.Result.ok.inj done
  exact (wp_ok released freed).2

def tinyConfig : TierConfig 1 Nat Nat where
  layerIdx := 0
  gpuBudget := 1
  cpuBlocks := 2
  digest k := k 0

def tinyBlock (x : Nat) : KVBlock 1 Nat := ⟨fun _ => x, fun _ => x⟩

def tinyInit : TierManager Nat Nat (Memory 1 Nat) := .init tinyConfig ⟨fun _ => tinyBlock 0, fun _ => tinyBlock 0⟩ fun _ => 0

def tinyCalls : List (Call Nat Nat 1) :=
  [.onBlockFilled 7 0 (tinyBlock 1), .onBlockFilled 7 1 (tinyBlock 2), .ensureResident 7 [0] [], .freeRequest 7]

theorem accounting_exact_fill_reload_free :
    ∃ t, runCalls tinyConfig tinyCalls tinyInit = .ok () t ∧ Exact tinyConfig t ∧ Forgotten 7 t := by
  obtain ⟨_, t, run⟩ := (returns_iff (x := runCalls tinyConfig tinyCalls) (s := tinyInit)).mp (by decide +kernel)
  have sound := (accounting_exact_iff_fresh tinyConfig _ _ tinyCalls t run).mpr (by decide +kernel)
  obtain ⟨all, last⟩ := sound tinyCalls [] t (List.append_nil _).symm run
  exact ⟨t, run, all, last (tinyCalls.take 3) 7 rfl⟩

/-- Filling block 0 again after block 1 took its slot: the spilled copy of block 0 stays on the host. -/
theorem refill_keeps_stale_copy : ∃ t, runCalls tinyConfig
    [.onBlockFilled 7 0 (tinyBlock 1), .onBlockFilled 7 1 (tinyBlock 2), .onBlockFilled 7 0 (tinyBlock 3)] tinyInit =
      .ok () t ∧ ¬ Exact tinyConfig t :=
  ⟨_, rfl, fun sound => sound.apart rfl (7, 0) (by decide) (by decide)⟩

end KVOffload.Quest
