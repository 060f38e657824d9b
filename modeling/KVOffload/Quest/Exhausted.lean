import KVOffload.Lib.Purge
import KVOffload.Quest.Accounting

/-!
# When the CPU pool runs out

A call of `TierManager` that finds the free list of its layer empty raises, and what it changed before stays changed.
-/

namespace KVOffload.Quest

open List OrderedDict LRUSlotMap

variable {S D M R : Type} {bs : Nat} [DecidableEq S]

/-- The K/V of a block, from its arena slot or else from its slot in the CPU pool. -/
def recoverable (s : TierManager S D (Memory bs R)) (key : S × Nat) : Option (KVBlock bs R) :=
  match s.slotMap.slot? key with
  | some slot => some (s.mem.arena slot)
  | none => (s.cpuSlots.get? key).map s.mem.host

structure Lossless (s t : TierManager S D (Memory bs R)) : Prop where
  blocks : ∀ key x, recoverable s key = some x → recoverable t key = some x
  slots : ∀ c, c ∈ s.cpuFree ∨ c ∈ s.cpuSlots.values → c ∈ t.cpuFree ∨ c ∈ t.cpuSlots.values

def Call.mayExhaust : Call S R bs → Bool
  | .onBlockFilled _ _ _ | .writeLiveBlock _ _ _ | .ensureResident _ _ _ | .trimToWorkingSet _ _ _ _ => true
  | _ => false

/-- A trim that overwrites no entry before it has used up the pool. -/
def TrimsApart (s : TierManager S D M) : Call S R bs → Prop
  | .trimToWorkingSet seq _ _ _ => ∀ b < s.cpuFree.length, (seq, b) ∉ s.cpuSlots
  | _ => False

structure Stranded (s t : TierManager S D M) : Prop where
  victim : ∃ k ∈ s.slotMap.keys, k ∉ t.slotMap.keys
  cpuFree : t.cpuFree = s.cpuFree
  cpuSlots : t.cpuSlots = s.cpuSlots
  hostSlots : t.hostSlots = s.hostSlots

section

variable [BlockMemory M bs R] {cfg : TierConfig bs R D} {s : TierManager S D M} {key : S × Nat}

theorem claimSlot_stranded {protect : List (S × Nat)} :
    wp (claimSlot cfg key protect) (fun _ _ => True) (fun e t => e.PoolExhausted → Stranded s t) s := by
  refine wp_claimSlot (fun _ _ _ => trivial) (fun victim slot m _ replaced => ?_) (fun _ => False.elim)
  refine wp_spillHook (fun _ _ _ _ _ => trivial) (fun _ _ _ => trivial) (fun _ _ _ => ?_) (fun _ _ => False.elim)
    (fun _ _ _ => False.elim)
  refine ⟨⟨victim, mem_keys_of_slot? replaced.held, fun present => ?_⟩, rfl, rfl, rfl⟩
  rcases replaced.mem_keys.mp present with hs | ⟨_, other⟩
  · exact replaced.ne hs
  · exact other rfl

theorem ensureOne_exhausted {seq : S} {b : Nat} (mode : cfg.enableWriteThrough = false) (books : Books cfg [] s) :
    wp (ensureOne cfg seq b) (fun _ t => Books cfg [] t) (fun e t => e.PoolExhausted → poolTotal t < cfg.cpuBlocks) s := by
  have raises : wp (ensureOne cfg seq b) (fun _ _ => True) (fun e t => e.PoolExhausted → poolTotal t < cfg.cpuBlocks) s := by
    refine wp_ensureOne (fun _ => trivial) (fun _ _ _ => False.elim) (by simp [mode]) (fun _ _ cpuSlot hf => ?_)
    refine wp_mono claimSlot_stranded (fun _ _ _ => wp_beginLoad (fun _ => trivial) (fun _ => False.elim)) ?_
    intro e t lost exhausted
    have stranded := lost exhausted
    -- the slot that was taken out is on no list any more
    have total := (books.takeOut mode hf).pool.length_eq
    rw [poolTotal, stranded.cpuFree, stranded.cpuSlots, stranded.hostSlots]
    simp only [length_append, length_cons, length_range] at total ⊢
    omega
  exact wp_mono (wp_and (ensureOne_books books) raises) (fun _ _ h => h.1) (fun _ _ h => h.2)

end

variable {cfg : TierConfig bs R D} {s t : TierManager S D (Memory bs R)}

section

variable (mode : cfg.enableWriteThrough = false) (books : Books cfg [] s)

include mode books

theorem Stranded.lossy (stranded : Stranded s t) : ¬ Lossless s t := by
  intro lossless
  obtain ⟨k, held, gone⟩ := stranded.victim
  obtain ⟨slot, hs⟩ := mem_keys_iff.mp held
  have still := lossless.blocks k (s.mem.arena slot) (by simp only [recoverable, hs])
  have absent := get?_eq_none_iff.mpr (books.apart mode k held)
  simp only [recoverable, slot?_eq_none_iff.mpr gone, stranded.cpuSlots, absent] at still
  cases still

theorem lossy_of_poolTotal (less : poolTotal t < cfg.cpuBlocks) : ¬ Lossless s t := by
  intro lossless
  have covered : List.range cfg.cpuBlocks ⊆ t.cpuFree ++ t.cpuSlots.values := by
    intro c hm
    have listed := books.pool.symm.subset hm
    simp only [nil_append, mem_append] at listed ⊢
    rcases listed with pool | mirrored
    · exact lossless.slots c pool
    · obtain ⟨k, hf⟩ := mem_values_iff.mp mirrored
      exact absurd (mem_of_get?_eq hf) (books.unmirrored mode k)
  have enough := (subperm_of_subset nodup_range covered).length_le
  simp only [length_range, length_append] at enough
  unfold poolTotal at less
  omega

end

structure Spills (seq : S) (i : Nat) (taken : List Nat) (s t : TierManager S D (Memory bs R)) : Prop where
  free : s.cpuFree = taken ++ t.cpuFree
  count : taken.length = i
  map : t.slotMap = s.slotMap
  arena : t.mem.arena = s.mem.arena
  host : ∀ c ∉ taken, t.mem.host c = s.mem.host c
  new : ∀ b < i, t.cpuSlots.get? (seq, b) = taken[b]?
  old : ∀ k, (∀ b < i, k ≠ (seq, b)) → t.cpuSlots.get? k = s.cpuSlots.get? k

variable {seq : S} {i : Nat} {taken : List Nat}

theorem Spills.next (spills : Spills seq i taken s t) {c : Nat} {rest : List Nat} (free : t.cpuFree = c :: rest)
    (x : KVBlock bs R) (residency : Nat → ResidencyState) :
    Spills seq (i + 1) (taken ++ [c]) s { t with
      cpuFree := rest
      mem := BlockMemory.storeBlock c x t.mem
      cpuSlots := t.cpuSlots.insert (seq, i) c
      residency := residency } where
  free := by rw [spills.free, free, append_assoc]; rfl
  count := by rw [length_append, spills.count]; rfl
  map := spills.map
  arena := spills.arena
  host c' new := by
    rw [mem_append, mem_singleton, not_or] at new
    exact (Function.update_of_ne new.2 _ _).trans (spills.host c' new.1)
  new b hb := by
    rw [get?_insert]
    split
    · rename_i hs
      cases hs
      rw [getElem?_append_right spills.count.le, spills.count, Nat.sub_self]
      rfl
    · rename_i other
      have before : b < i := Nat.lt_of_le_of_ne (Nat.le_of_lt_succ hb) fun hs => other (hs ▸ rfl)
      rw [spills.new b before, getElem?_append_left (spills.count.symm ▸ before)]
  old k other := by
    rw [get?_insert, if_neg (other i (Nat.lt_succ_self i))]
    exact spills.old k fun b hb => other b (Nat.lt_succ_of_lt hb)

theorem trim_exhausted {n : Nat} {engine : Nat → KVBlock bs R} {row : Nat → Nat} (mode : cfg.enableWriteThrough = false) :
    wp (trimToWorkingSet cfg seq n engine row) (fun _ _ => True)
      (fun e t => e.PoolExhausted → Spills seq s.cpuFree.length s.cpuFree s t) s := by
  unfold trimToWorkingSet
  by_cases done : seq ∈ s.trimmed
  · simp [done]
  simp only [done, ↓reduceIte, wp_bind, wp_modify, wp_get]
  set lo := keepLo s.slotMap.capacity n
  refine wp_imp (wp_forM_range (I := fun i t => i ≤ lo → ∃ taken, Spills seq i taken s t) ?_ ?_) (fun _ _ _ => trivial)
  · intro i _ t before
    refine wp_keepOrSpill (fun keep slot m _ => ?_) (fun _ _ _ _ => False.elim) (by simp [mode])
      (fun below _ c rest free => ?_) (fun below _ none _ => ?_) (fun _ _ => False.elim)
    · simp only [mode, Bool.false_eq_true, ↓reduceIte, wp_pure]
      omega
    · obtain ⟨taken, spills⟩ := before below.le
      exact wp_evictRow (fun _ _ => ⟨_, spills.next free _ _⟩) (fun _ => False.elim)
    · obtain ⟨taken, spills⟩ := before below.le
      obtain rfl : s.cpuFree = taken := by rw [spills.free, none, append_nil]
      exact spills.count ▸ spills
  · exact fun _ => ⟨[], rfl, rfl, rfl, rfl, fun _ _ => rfl, fun b hb => absurd hb (Nat.not_lt_zero b), fun _ _ => rfl⟩

theorem Spills.lossless_iff (books : Books cfg [] s) (spills : Spills seq s.cpuFree.length s.cpuFree s t) :
    Lossless s t ↔ ∀ b < s.cpuFree.length, (seq, b) ∉ s.cpuSlots := by
  have pool := ((nodup_append.mp (books.pool.nodup_iff.mpr nodup_range)).2.1).of_append_left
  obtain ⟨_, distinct, apart⟩ := nodup_append.mp pool
  have fresh : ∀ {k c}, s.cpuSlots.get? k = some c → c ∉ s.cpuFree := fun hf free =>
    apart _ free _ (mem_values_iff.mpr ⟨_, hf⟩) rfl
  have none : t.cpuFree = [] := by simpa using spills.free
  constructor
  · intro lossless b hb stored
    obtain ⟨c, hf⟩ := mem_iff_get?.mp stored
    -- the slot of the overwritten entry is on no list any more
    rcases lossless.slots c (.inr (mem_values_iff.mpr ⟨_, hf⟩)) with free | listed
    · rw [none] at free
      cases free
    · obtain ⟨k, hk⟩ := mem_values_iff.mp listed
      by_cases mine : ∃ b' < s.cpuFree.length, k = (seq, b')
      · obtain ⟨b', hb', rfl⟩ := mine
        rw [spills.new b' hb'] at hk
        exact fresh hf (mem_of_getElem? hk)
      · push Not at mine
        rw [spills.old k mine] at hk
        exact mine b hb (key_unique distinct hk hf)
  intro bare
  have kept : ∀ {k c}, s.cpuSlots.get? k = some c → t.cpuSlots.get? k = some c := fun hf =>
    (spills.old _ fun b hb hs => bare b hb (hs ▸ mem_of_get?_eq hf)).trans hf
  refine ⟨fun key x hx => ?_, fun c listed => .inr (mem_values_iff.mpr ?_)⟩
  · unfold recoverable at hx ⊢
    rw [spills.map, spills.arena]
    split at hx
    · exact hx
    · obtain ⟨c, hf, rfl⟩ := Option.map_eq_some_iff.mp hx
      rw [kept hf, Option.map_some, spills.host c (fresh hf)]
  · rcases listed with free | stored
    · obtain ⟨b, hs⟩ := getElem?_of_mem free
      exact ⟨(seq, b), (spills.new b (List.getElem?_eq_some_iff.mp hs).1).trans hs⟩
    · obtain ⟨k, hf⟩ := mem_values_iff.mp stored
      exact ⟨k, kept hf⟩

theorem runCall_exhausted (mode : cfg.enableWriteThrough = false) (books : Books cfg [] s) {call : Call S R bs}
    (kind : call.mayExhaust) :
    wp (runCall cfg call) (fun _ _ => True) (fun e t => e.PoolExhausted → (Lossless s t ↔ TrimsApart s call)) s := by
  have lost : ∀ {t}, ¬ Lossless s t → (Lossless s t ↔ False) := fun lossy => iff_false_intro lossy
  cases call <;> simp only [Call.mayExhaust, Bool.false_eq_true] at kind <;>
    simp [runCall]
  case onBlockFilled seq block content =>
    simp only [onBlockFilled, wp_bind, wp_modify, mode, Bool.false_eq_true, ↓reduceIte]
    refine wp_mono claimSlot_stranded (fun _ _ _ => trivial) (fun e t raises exhausted => lost ?_)
    obtain ⟨victim, free, cpu, host⟩ := raises exhausted
    exact Stranded.lossy mode books ⟨victim, free, cpu, host⟩
  case writeLiveBlock seq block content =>
    simp only [writeLiveBlock, wp_bind, wp_pure]
    exact wp_mono claimSlot_stranded (fun _ _ _ => trivial)
      (fun e t raises exhausted => lost ((raises exhausted).lossy mode books))
  case ensureResident seq ids keepIds =>
    simp only [ensureResident, wp_bind]
    have raised : ∀ (e : QuestError S) t, (e.PoolExhausted → poolTotal t < cfg.cpuBlocks) → e.PoolExhausted → (Lossless s t ↔ False) :=
      fun e t raises exhausted => lost (lossy_of_poolTotal mode books (raises exhausted))
    refine wp_mono (touchResident_books books) (fun _ u touched => ?_) raised
    refine wp_mono (wp_forM (fun b _ u inner => ensureOne_exhausted mode inner) touched) (fun _ u _ => ?_) raised
    split <;> trivial
  case trimToWorkingSet seq n engine row =>
    exact wp_mono (trim_exhausted mode) (fun _ _ _ => trivial) (fun e t raises exhausted => (raises exhausted).lossless_iff books)

/-- After calls that returned and left no stale copy, a call that finds the pool empty loses nothing exactly if it is a trim that
overwrites no entry. -/
theorem exhausted_lossless_iff (cfg : TierConfig bs R D) (mode : cfg.enableWriteThrough = false) (mem : Memory bs R)
    (summary : Nat → D) (calls : List (Call S R bs)) (fresh : StepsMeet cfg (Fresh cfg) calls (.init cfg mem summary))
    (run : runCalls cfg calls (.init cfg mem summary) = .ok () s) (call : Call S R bs) (kind : call.mayExhaust)
    {e : QuestError S} (raises : runCall cfg call s = .error e t) (exhausted : e.PoolExhausted) :
    Lossless s t ↔ TrimsApart s call := by
  have books := runCalls_books fresh (books_init cfg mem summary) run
  exact wp_error (runCall_exhausted mode books kind) raises exhausted

def fullCalls : List (Call Nat Nat 1) := tinyCalls.take 2 ++ [.onBlockFilled 7 2 (tinyBlock 3)]

/-- Blocks 0 and 1 are spilled and block 2 is resident. -/
def fullState : TierManager Nat Nat (Memory 1 Nat) := finalState (runCalls tinyConfig fullCalls) tinyInit

theorem exhausted_trim_lossless :
    Lossless fullState (finalState (runCall tinyConfig (.trimToWorkingSet 8 1 tinyBlock id)) fullState) := by
  refine (exhausted_lossless_iff tinyConfig rfl _ _ fullCalls (by decide) rfl (.trimToWorkingSet 8 1 tinyBlock id) rfl
    (e := .trimExhausted 1 8 0) rfl trivial).mpr ?_
  exact fun b few => absurd few (Nat.not_lt_zero b)

/-- The load of block 0 loses block 2 and one of the two slots. -/
theorem exhausted_load_loses : let t := finalState (runCall tinyConfig (.ensureResident 7 [0] [])) fullState
    raised (runCall tinyConfig (.ensureResident 7 [0] [])) fullState = some (.cpuPoolFull 0 2) ∧
      (recoverable fullState (7, 2)).isSome ∧ recoverable t (7, 2) = none ∧ t.cpuFree ++ t.cpuSlots.values = [1] := by
  decide

end KVOffload.Quest
