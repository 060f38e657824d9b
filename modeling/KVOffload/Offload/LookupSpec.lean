import KVOffload.Offload.Connector

/-!
# What the search for offloaded blocks finds

The search returns an end that all groups accept, and if no lookup is put off it returns the greatest one.
-/

namespace KVOffload.Offload

open KVOffload.Core List LookupState GroupOffloadConfig

variable {σ : Type} {ask : OffloadKey → EStateM ConnectorError σ (Option Bool)} {I : σ → Prop}
  {answer : OffloadKey → Option Bool} {keys : List OffloadKey} {s : σ} {result : Option Nat} {b n : Nat} {size : Nat}

/-! ### Rounding up -/

theorem cdiv_le_iff {a k : Nat} (hp : 0 < b) : cdiv a b ≤ k ↔ a ≤ b * k := by
  unfold cdiv
  rw [Nat.div_le_iff_le_mul_add_pred hp]
  omega

theorem le_mul_cdiv (hp : 0 < b) (a : Nat) : a ≤ b * cdiv a b := (cdiv_le_iff hp).mp (le_refl _)

theorem cdiv_mul_right (hp : 0 < b) (k : Nat) : cdiv (b * k) b = k := by
  apply le_antisymm ((cdiv_le_iff hp).mpr (le_refl _))
  exact Nat.le_of_mul_le_mul_left (le_mul_cdiv hp (b * k)) hp

theorem mul_cdiv_lt (hp : 0 < b) (a : Nat) : b * cdiv a b < a + b := by
  unfold cdiv
  have := Nat.mul_div_le (a + b - 1) b
  omega

theorem cdiv_le_cdiv {a a' : Nat} (hb : a ≤ a') (b : Nat) : cdiv a b ≤ cdiv a' b := Nat.div_le_div_right (by omega)

/-! ### The two searches -/

def Answers (I : σ → Prop) (ask : OffloadKey → EStateM ConnectorError σ (Option Bool)) (answer : OffloadKey → Option Bool) :
    Prop := ∀ key s, I s → wp (ask key) (fun a s' => I s' ∧ a = answer key) (fun _ _ => False) s

variable (answer keys) in
def FindsUnlessDeferred (deferLookup : Bool) (n : Nat)
    (result : Option Nat) : Prop :=
  (result = some n ∧ deferLookup = false) ∨ (result = none ∧ (deferLookup = true ∨ ∃ key ∈ keys, answer key = none))

theorem findsUnlessDeferred_unlessDeferred (keys : List OffloadKey) (deferLookup : Bool) (n : Nat) :
    FindsUnlessDeferred answer keys deferLookup n (unlessDeferred deferLookup n) := by
  cases deferLookup
  · exact .inl ⟨rfl, rfl⟩
  · exact .inr ⟨rfl, .inl rfl⟩

theorem FindsUnlessDeferred.cons {deferLookup : Bool}
    (finds : FindsUnlessDeferred answer keys deferLookup n result) (key : OffloadKey) :
    FindsUnlessDeferred answer (key :: keys) deferLookup n result :=
  finds.imp id (And.imp id (Or.imp id fun ⟨key', hm, deferred⟩ => ⟨key', .tail _ hm, deferred⟩))

theorem FindsUnlessDeferred.deferred
    (finds : FindsUnlessDeferred answer keys true n result) {key : OffloadKey} (none : answer key = none) (deferLookup : Bool)
    (n' : Nat) : FindsUnlessDeferred answer (key :: keys) deferLookup n' result := by
  rcases finds with ⟨_, impossible⟩ | ⟨off, _⟩
  · cases impossible
  · exact .inr ⟨off, .inr ⟨key, .head _, none⟩⟩

variable (answer) in
def ready (key : OffloadKey) : Bool := answer key = some true

theorem wp_maximalPrefixLookup (answers : Answers I ask answer) (keys : List OffloadKey) (hitCount : Nat) (deferLookup : Bool)
    (start : I s) :
    wp (maximalPrefixLookup ask hitCount deferLookup keys)
      (fun result s' => I s' ∧
      FindsUnlessDeferred answer keys deferLookup (hitCount + (keys.takeWhile (ready answer)).length) result)
      (fun _ _ => False) s := by
  induction keys generalizing hitCount deferLookup s with
  | nil => exact ⟨start, findsUnlessDeferred_unlessDeferred ..⟩
  | cons key rest ih =>
    rw [maximalPrefixLookup, wp_bind]
    refine wp_imp (answers key s start) ?_
    rintro a s' ⟨kept, rfl⟩
    split
    · rename_i put_off
      refine wp_imp (ih (hitCount + 1) true kept) ?_
      rintro result s'' ⟨kept, finds⟩
      exact ⟨kept, finds.deferred put_off _ _⟩
    · rename_i hit
      refine wp_imp (ih (hitCount + 1) deferLookup kept) ?_
      rintro result s'' ⟨kept, finds⟩
      have count : hitCount + ((key :: rest).takeWhile (ready answer)).length =
          hitCount + 1 + (rest.takeWhile (ready answer)).length := by
        simp [ready, hit]
        omega
      rw [count]
      exact ⟨kept, finds.cons key⟩
    · rename_i miss
      have count : ((key :: rest).takeWhile (ready answer)).length = 0 := by simp [ready, miss]
      rw [count]
      exact ⟨kept, findsUnlessDeferred_unlessDeferred ..⟩

def windowEnd (hit : OffloadKey → Bool) (size consecutiveHits : Nat) : List OffloadKey → Nat
  | [] => consecutiveHits
  | key :: rest =>
    if hit key then
      if consecutiveHits + 1 = size then rest.length + size else windowEnd hit size (consecutiveHits + 1) rest
    else windowEnd hit size 0 rest

theorem wp_slidingWindowLookup (answers : Answers I ask answer) (size : Nat) (keys : List OffloadKey) (consecutiveHits : Nat)
    (deferLookup : Bool) (start : I s) :
    wp (slidingWindowLookup ask size consecutiveHits deferLookup keys)
      (fun result s' => I s' ∧
      FindsUnlessDeferred answer keys deferLookup (windowEnd (ready answer) size consecutiveHits keys) result)
      (fun _ _ => False) s := by
  induction keys generalizing consecutiveHits deferLookup s with
  | nil => exact ⟨start, findsUnlessDeferred_unlessDeferred ..⟩
  | cons key rest ih =>
    rw [slidingWindowLookup, wp_bind, windowEnd]
    refine wp_imp (answers key s start) ?_
    rintro a s' ⟨kept, rfl⟩
    split
    · rename_i put_off
      refine wp_imp (ih 0 true kept) ?_
      rintro result s'' ⟨kept, finds⟩
      exact ⟨kept, finds.deferred put_off _ _⟩
    · rename_i miss
      have not : ¬ ready answer key = true := by simp [ready, miss]
      rw [if_neg not]
      refine wp_imp (ih 0 deferLookup kept) ?_
      rintro result s'' ⟨kept, finds⟩
      exact ⟨kept, finds.cons key⟩
    rename_i hit
    have now : ready answer key = true := by simp [ready, hit]
    rw [if_pos now]
    by_cases full : consecutiveHits + 1 = size
    · rw [if_pos full, if_pos full]
      exact ⟨kept, findsUnlessDeferred_unlessDeferred ..⟩
    · rw [if_neg full, if_neg full]
      refine wp_imp (ih (consecutiveHits + 1) deferLookup kept) ?_
      rintro result s'' ⟨kept, finds⟩
      exact ⟨kept, finds.cons key⟩

/-- The last `size` keys before the end, or all if there are fewer, are hits. -/
def EndsRun (hit : OffloadKey → Bool) (size : Nat) (keys : List OffloadKey) (n : Nat) : Prop :=
  ∀ j, n - size ≤ j → j < n → ∃ key, keys[j]? = some key ∧ hit key = true

theorem windowEnd_spec (hit : OffloadKey → Bool) (i consecutiveHits : Nat)
    (bound : i ≤ keys.length) (fewer : consecutiveHits < size)
    (run : ∀ j, i ≤ j → j < i + consecutiveHits → ∃ key, keys[j]? = some key ∧ hit key = true) :
    EndsRun hit size keys (windowEnd hit size consecutiveHits (keys.take i).reverse) ∧
      ∀ n, n ≤ i + consecutiveHits → EndsRun hit size keys n →
      n ≤ windowEnd hit size consecutiveHits (keys.take i).reverse := by
  induction i generalizing consecutiveHits with
  | zero =>
    simp only [take_zero, reverse_nil, windowEnd]
    refine ⟨fun j _ hb => run j (Nat.zero_le j) (by omega), fun n hb _ => by omega⟩
  | succ i ih =>
    have hi := bound
    have front : (keys.take (i + 1)).reverse = keys[i] :: (keys.take i).reverse := by
      rw [take_succ_eq_append_getElem, reverse_append]
      rfl
    have length : (keys.take i).reverse.length = i := by simp; omega
    rw [front, windowEnd]
    by_cases hf : hit keys[i] = true
    · rw [if_pos hf]
      have longer : ∀ j, i ≤ j → j < i + (consecutiveHits + 1) → ∃ key, keys[j]? = some key ∧ hit key = true := by
        intro j from_ upto
        rcases eq_or_lt_of_le from_ with rfl | later
        · exact ⟨keys[i], getElem?_eq_getElem hi, hf⟩
        · exact run j later (by omega)
      split
      · refine ⟨fun j from_ upto => longer j (by omega) (by omega), fun n hb _ => by omega⟩
      · obtain ⟨ends, greatest⟩ := ih (consecutiveHits + 1) (le_of_lt hi) (by omega) longer
        exact ⟨ends, fun n hb runs => greatest n (by omega) runs⟩
    · rw [if_neg hf]
      obtain ⟨ends, greatest⟩ := ih 0 (le_of_lt hi) (by omega) (fun j _ _ => by omega)
      refine ⟨ends, fun n hb runs => greatest n ?_ runs⟩
      -- A run that ends behind the miss would contain it.
      by_contra behind
      obtain ⟨key, there, hit'⟩ := runs i (by omega) (by omega)
      rw [getElem?_eq_getElem hi] at there
      obtain rfl := Option.some.inj there
      exact hf hit'

theorem windowEnd_le {hit : OffloadKey → Bool} (hp : 0 < size) :
    windowEnd hit size 0 keys.reverse ≤ keys.length := by
  have spec := windowEnd_spec hit keys.length 0 (le_refl _) hp (fun j _ _ => by omega)
  rw [take_length] at spec
  by_contra beyond
  obtain ⟨key, there, _⟩ := spec.1 (windowEnd hit size 0 keys.reverse - 1) (by omega) (by omega)
  rw [getElem?_eq_none (by omega)] at there
  cases there

/-! ### A group of a pass -/

section

variable {keysOf : Nat → List OffloadKey} {c numTokens : Nat} {windows all : List GroupOffloadConfig}
  {group : GroupOffloadConfig} {st st' : LookupState} {α : Type}

def GroupOffloadConfig.firstBlock (group : GroupOffloadConfig) (c e : Nat) : Nat :=
  match group.slidingWindowSizeInBlocks with
  | none => c / group.offloadedBlockSize
  | some window => max (c / group.offloadedBlockSize) (cdiv e group.offloadedBlockSize - window)

variable (answer keysOf c) in
def Accepts (group : GroupOffloadConfig) (e : Nat) : Prop :=
  ∀ j, group.firstBlock c e ≤ j → j < cdiv e group.offloadedBlockSize →
    ∃ key, (keysOf group.groupIdx)[j]? = some key ∧ answer key = some true

structure GroupOffloadConfig.Proper (group : GroupOffloadConfig) : Prop where
  positive : 0 < group.offloadedBlockSize
  window : ∀ window ∈ group.slidingWindowSizeInBlocks, 0 < window

theorem takeWhile_getElem? (p : α → Bool) (l : List α) {i : Nat} (hb : i < (l.takeWhile p).length) :
    ∃ a, l[i]? = some a ∧ p a = true :=
  ⟨_, prefix_iff_getElem?.mp ( takeWhile_prefix p) i hb, all_eq_true.mp all_takeWhile _ (getElem_mem hb)⟩

theorem le_takeWhile_length (p : α → Bool) (l : List α) (all : ∀ i < n, ∃ a, l[i]? = some a ∧ p a = true) :
    n ≤ (l.takeWhile p).length := by
  induction l generalizing n with
  | nil =>
    cases n with
    | zero => exact Nat.zero_le _
    | succ n => simpa using all 0 (Nat.succ_pos n)
  | cons a rest ih =>
    cases n with
    | zero => exact Nat.zero_le _
    | succ n =>
      obtain ⟨b, first, holds⟩ := all 0 (Nat.succ_pos n)
      obtain rfl : a = b := by simpa using first
      have others := ih (n := n) fun i hb => all (i + 1) (by omega)
      simpa [holds] using others

variable (answer keys) in
def hitsAmong : Option Nat → Nat
  | none => (keys.takeWhile (ready answer)).length
  | some size => windowEnd (ready answer) size 0 keys.reverse

theorem wp_findHits (answers : Answers I ask answer) (keys : List OffloadKey) (window : Option Nat) (start : I s) :
    wp (findHits ask keys window) (fun result s' => I s' ∧ FindsUnlessDeferred answer keys false (hitsAmong answer keys window) result)
      (fun _ _ => False) s := by
  cases window with
  | none =>
    refine wp_imp (wp_maximalPrefixLookup answers keys 0 false start) ?_
    rintro result s' ⟨kept, finds⟩
    rw [zero_add] at finds
    exact ⟨kept, finds⟩
  | some size =>
    refine wp_imp (wp_slidingWindowLookup answers size keys.reverse 0 false start) ?_
    rintro result s' ⟨kept, finds⟩
    refine ⟨kept, finds.imp id (And.imp id (Or.imp id ?_))⟩
    rintro ⟨key, hm, none⟩
    exact ⟨key, mem_reverse.mp hm, none⟩

theorem hitsAmong_spec (answer : OffloadKey → Option Bool) {window : Option Nat} (positive : ∀ size ∈ window, 0 < size)
    (keys : List OffloadKey) :
    hitsAmong answer keys window ≤ keys.length ∧
      (∀ j, window.elim 0 (hitsAmong answer keys window - ·) ≤ j → j < hitsAmong answer keys window →
      ∃ key, keys[j]? = some key ∧ answer key = some true) ∧
      ∀ n, n ≤ keys.length →
      (∀ j, window.elim 0 (n - ·) ≤ j → j < n → ∃ key, keys[j]? = some key ∧ answer key = some true) →
      n ≤ hitsAmong answer keys window := by
  have isHit : ready answer = fun key => decide (answer key = some true) := rfl
  cases window with
  | none =>
    refine ⟨(List.takeWhile_prefix _).length_le, fun j _ hb => ?_, fun n _ run => ?_⟩
    · simpa [isHit] using takeWhile_getElem? _ _ hb
    · refine le_takeWhile_length _ _ fun i hb => ?_
      simpa [isHit] using run i (Nat.zero_le i) hb
  | some size =>
    have hp : 0 < size := positive size rfl
    have spec := windowEnd_spec (ready answer) keys.length 0 (le_refl _) hp (fun j _ _ => by omega)
    simp only [EndsRun, isHit, take_length, decide_eq_true_eq] at spec
    exact ⟨windowEnd_le hp, spec.1, fun n bound run => spec.2 n bound run⟩

variable (keysOf c) in
def searched (group : GroupOffloadConfig) (maxHit : Nat) : List OffloadKey :=
  keysBetween (keysOf group.groupIdx) (c / group.offloadedBlockSize)
    (min (cdiv maxHit group.offloadedBlockSize) (keysOf group.groupIdx).length)

variable (answer keysOf c) in
def narrowed (group : GroupOffloadConfig) (maxHit : Nat) : Nat :=
  min maxHit (group.offloadedBlockSize * (c / group.offloadedBlockSize +
    hitsAmong answer (searched keysOf c group maxHit) group.slidingWindowSizeInBlocks))

variable {maxHit e : Nat}

section

variable (proper : group.Proper) (capped : maxHit ≤ (keysOf group.groupIdx).length * group.offloadedBlockSize)

include proper capped

theorem cdiv_le_keys : cdiv maxHit group.offloadedBlockSize ≤ (keysOf group.groupIdx).length := by
  rw [cdiv_le_iff proper.positive, mul_comm]
  exact capped

theorem length_searched :
    (searched keysOf c group maxHit).length = cdiv maxHit group.offloadedBlockSize - c / group.offloadedBlockSize := by
  have hw := cdiv_le_keys proper capped
  simp only [searched, keysBetween, length_drop, length_take]
  omega

theorem getElem?_searched {j : Nat} (from_ : c / group.offloadedBlockSize ≤ j) (hb : j < cdiv maxHit group.offloadedBlockSize) :
    (searched keysOf c group maxHit)[j - c / group.offloadedBlockSize]? = (keysOf group.groupIdx)[j]? := by
  have hw := cdiv_le_keys proper capped
  rw [searched, keysBetween, getElem?_drop, getElem?_take_of_lt (by omega)]
  congr 1
  omega

theorem cdiv_narrowed (answer : OffloadKey → Option Bool)
    (reaches : c / group.offloadedBlockSize ≤ cdiv maxHit group.offloadedBlockSize) :
    cdiv (narrowed answer keysOf c group maxHit) group.offloadedBlockSize = c / group.offloadedBlockSize +
      hitsAmong answer (searched keysOf c group maxHit) group.slidingWindowSizeInBlocks := by
  have few := (hitsAmong_spec answer proper.window (searched keysOf c group maxHit)).1
  rw [length_searched proper capped] at few
  unfold narrowed
  generalize hits : hitsAmong answer (searched keysOf c group maxHit) group.slidingWindowSizeInBlocks = n at few ⊢
  rcases le_total maxHit (group.offloadedBlockSize * (c / group.offloadedBlockSize + n)) with low | high
  · rw [min_eq_left low]
    have := (cdiv_le_iff proper.positive).mpr low
    omega
  · rw [min_eq_right high, cdiv_mul_right proper.positive]

theorem accepts_narrowed (reaches : c / group.offloadedBlockSize ≤ cdiv maxHit group.offloadedBlockSize) :
    Accepts answer keysOf c group (narrowed answer keysOf c group maxHit) := by
  obtain ⟨few, hf, _⟩ := hitsAmong_spec answer proper.window (searched keysOf c group maxHit)
  have end_ := cdiv_narrowed proper capped answer reaches
  rw [length_searched proper capped] at few
  intro j from_ hb
  unfold firstBlock at from_
  rw [end_] at from_ hb
  have start : c / group.offloadedBlockSize ≤ j := by
    cases kind : group.slidingWindowSizeInBlocks <;> simp only [kind] at from_ <;> omega
  rw [← getElem?_searched proper capped start (by omega)]
  apply hf _ ?_ (by omega)
  cases kind : group.slidingWindowSizeInBlocks <;> simp only [kind, Option.elim] at from_ ⊢ <;> omega

theorem le_narrowed (hb : e ≤ maxHit) (ha : Accepts answer keysOf c group e) : e ≤ narrowed answer keysOf c group maxHit := by
  obtain ⟨_, _, greatest⟩ := hitsAmong_spec answer proper.window (searched keysOf c group maxHit)
  have hi := cdiv_le_cdiv hb group.offloadedBlockSize
  have enough : cdiv e group.offloadedBlockSize - c / group.offloadedBlockSize ≤
      hitsAmong answer (searched keysOf c group maxHit) group.slidingWindowSizeInBlocks := by
    apply greatest
    · rw [length_searched proper capped]
      omega
    · intro j from_ upto
      have here := ha (c / group.offloadedBlockSize + j) ?_ (by omega)
      · rw [← getElem?_searched proper capped (Nat.le_add_right _ _) (by omega), Nat.add_sub_cancel_left] at here
        exact here
      · unfold firstBlock
        generalize c / group.offloadedBlockSize = start at from_ ⊢
        cases kind : group.slidingWindowSizeInBlocks <;> simp only [kind, Option.elim] at from_ ⊢ <;> omega
  refine Nat.le_min.mpr ⟨hb, ?_⟩
  rw [← cdiv_le_iff proper.positive]
  omega

end

variable (answer keysOf c windows all group) in
/-- One group of a pass that goes on. If the search was not put off, the group accepts the new bound. -/
structure GroupStep (deferred : Bool) (st st' : LookupState) : Prop where
  below : st'.maxHitSizeTokens ≤ st.maxHitSizeTokens
  capped : st'.maxHitSizeTokens ≤ (keysOf group.groupIdx).length * group.offloadedBlockSize
  reaches : c + group.offloadedBlockSize ≤ st'.maxHitSizeTokens
  hits : st'.numHitTokens = st'.maxHitSizeTokens - c
  aligned : st'.maxHitSizeTokens = st.maxHitSizeTokens ∨ group.offloadedBlockSize ∣ st'.maxHitSizeTokens
  accepts : deferred = false → Accepts answer keysOf c group st'.maxHitSizeTokens
  looked : st'.lookedUpSlidingWindow = true ↔ st.lookedUpSlidingWindow = true ∨ group.slidingWindowSizeInBlocks.isSome = true
  defers : st'.deferLookup = true ↔ (st.deferLookup = true ∨ deferred = true) ∧ ¬ st'.numHitTokens < st.numHitTokens
  next : st'.lookupGroups =
    if st'.numHitTokens < st.numHitTokens ∧ (st.deferLookup = true ∨ deferred = true) then all
    else if st'.numHitTokens < st.numHitTokens ∧ st.lookedUpSlidingWindow = true ∧ st.lookupGroups = [] then windows
    else st.lookupGroups

theorem Accepts.le_cap (proper : group.Proper) (ha : Accepts answer keysOf c group e)
    (reaches : c + group.offloadedBlockSize ≤ e) : e ≤ (keysOf group.groupIdx).length * group.offloadedBlockSize := by
  have hp := proper.positive
  have behind : c / group.offloadedBlockSize + 1 ≤ cdiv e group.offloadedBlockSize := by
    have := Nat.div_mul_le_self c group.offloadedBlockSize
    have up := le_mul_cdiv hp e
    by_contra few
    have := Nat.mul_le_mul_left group.offloadedBlockSize (show cdiv e group.offloadedBlockSize ≤ c / group.offloadedBlockSize by omega)
    rw [mul_comm _ (c / group.offloadedBlockSize)] at this
    omega
  have first : group.firstBlock c e ≤ cdiv e group.offloadedBlockSize - 1 := by
    unfold firstBlock
    cases kind : group.slidingWindowSizeInBlocks with
    | none =>
      simp only
      omega
    | some window =>
      have := proper.window window (by rw [kind]; rfl)
      simp only
      omega
  obtain ⟨key, there, _⟩ := ha _ first (Nat.sub_lt (Nat.lt_of_lt_of_le (Nat.succ_pos _) behind) Nat.one_pos)
  have bound := (List.getElem?_eq_some_iff.mp there).1
  rw [mul_comm, ← cdiv_le_iff hp]
  omega

theorem groupStep_narrow (windows all : List GroupOffloadConfig) (st : LookupState) (deferred : Bool) {newMax : Nat}
    (below : newMax ≤ st.maxHitSizeTokens) (capped : newMax ≤ (keysOf group.groupIdx).length * group.offloadedBlockSize)
    (reaches : c + group.offloadedBlockSize ≤ newMax)
    (aligned : newMax = st.maxHitSizeTokens ∨ group.offloadedBlockSize ∣ newMax)
    (accepts : deferred = false → Accepts answer keysOf c group newMax) :
    GroupStep answer keysOf c windows all group deferred st
      (narrow windows all { st with maxHitSizeTokens := newMax, deferLookup := st.deferLookup ∨ deferred = true }
        group.slidingWindowSizeInBlocks.isSome (newMax - c)) where
  below := below
  capped := capped
  reaches := reaches
  hits := rfl
  aligned := aligned
  accepts := accepts
  looked := by simp [narrow]
  defers := by simp [narrow]
  next := by simp [narrow]

variable (answer keysOf c windows all group) in
/-- What `lookupGroup` has to return: steps that keep the ends that all groups accept. -/
def GoodResult (st : LookupState) (result : Option LookupState) : Prop :=
  (∀ st', result = some st' → ∃ deferred, GroupStep answer keysOf c windows all group deferred st st') ∧
    ((∀ key, answer key ≠ none) → ∀ e, e ≤ st.maxHitSizeTokens → c + group.offloadedBlockSize ≤ e →
      Accepts answer keysOf c group e → ∃ st', result = some st' ∧ e ≤ st'.maxHitSizeTokens ∧
        (st.deferLookup = false → st'.deferLookup = false))

section

variable (proper : group.Proper)
  (bound : min st.maxHitSizeTokens ((keysOf group.groupIdx).length * group.offloadedBlockSize) = maxHit)

include bound in
theorem aligned_cap : maxHit = st.maxHitSizeTokens ∨ group.offloadedBlockSize ∣ maxHit := by
  rcases le_total st.maxHitSizeTokens ((keysOf group.groupIdx).length * group.offloadedBlockSize) with low | high
  · exact .inl (by omega)
  · exact .inr ⟨(keysOf group.groupIdx).length, by rw [← bound, min_eq_right high, mul_comm]⟩

include proper bound in
theorem Accepts.le_bound (ha : Accepts answer keysOf c group e) (hb : e ≤ st.maxHitSizeTokens)
    (reaches : c + group.offloadedBlockSize ≤ e) : e ≤ maxHit := by
  have := ha.le_cap proper reaches
  omega

include proper bound in
theorem goodResult_short (short : maxHit < c + group.offloadedBlockSize) :
    GoodResult answer keysOf c windows all group st none := by
  refine ⟨by simp, fun _ e hb reaches ha => ?_⟩
  have := ha.le_bound proper bound hb reaches
  omega

include proper bound in
theorem goodResult_found (far : ¬ maxHit < c + group.offloadedBlockSize) :
    GoodResult answer keysOf c windows all group st
      (if narrowed answer keysOf c group maxHit < c + group.offloadedBlockSize then none
      else some (narrow windows all
      { st with maxHitSizeTokens := narrowed answer keysOf c group maxHit, deferLookup := st.deferLookup ∨ false = true }
          group.slidingWindowSizeInBlocks.isSome (narrowed answer keysOf c group maxHit - c))) := by
  have capped : maxHit ≤ (keysOf group.groupIdx).length * group.offloadedBlockSize := by omega
  have reaches : c / group.offloadedBlockSize ≤ cdiv maxHit group.offloadedBlockSize := by
    apply Nat.div_le_div_right
    have := proper.positive
    omega
  have not_cut : ∀ e, e ≤ st.maxHitSizeTokens → c + group.offloadedBlockSize ≤ e → Accepts answer keysOf c group e →
      e ≤ narrowed answer keysOf c group maxHit :=
    fun e hb reaches ha => le_narrowed proper capped (ha.le_bound proper bound hb reaches) ha
  have hb : narrowed answer keysOf c group maxHit ≤ maxHit := min_le_left _ _
  have aligned : narrowed answer keysOf c group maxHit = st.maxHitSizeTokens ∨
      group.offloadedBlockSize ∣ narrowed answer keysOf c group maxHit := by
    rcases le_total maxHit (group.offloadedBlockSize * (c / group.offloadedBlockSize +
      hitsAmong answer (searched keysOf c group maxHit) group.slidingWindowSizeInBlocks)) with low | high
    · rw [narrowed, min_eq_left low]
      exact aligned_cap bound
    · exact .inr ⟨_, min_eq_right high⟩
  split
  · refine ⟨by simp, fun _ e hb reaches ha => ?_⟩
    have := not_cut e hb reaches ha
    omega
  · rename_i long
    have step := groupStep_narrow windows all st false (by omega)
      (hb.trans capped) (Nat.le_of_not_lt long) aligned fun _ => accepts_narrowed proper capped reaches
    refine ⟨fun st' hs => ⟨false, Option.some.inj hs ▸ step⟩, fun _ e hb reaches ha => ⟨_, rfl, ?_, ?_⟩⟩
    · exact not_cut e hb reaches ha
    · intro here
      simp [narrow, here]

include bound in
theorem goodResult_deferred (far : ¬ maxHit < c + group.offloadedBlockSize) (partial_ : ∃ key, answer key = none) :
    GoodResult answer keysOf c windows all group st (some (narrow windows all
      { st with maxHitSizeTokens := maxHit, deferLookup := st.deferLookup ∨ true = true }
      group.slidingWindowSizeInBlocks.isSome (maxHit - c))) := by
  refine ⟨?_, fun total => ?_⟩
  · intro st' hs
    refine ⟨true, Option.some.inj hs ▸ ?_⟩
    exact groupStep_narrow windows all st true (by omega) (by omega) (Nat.le_of_not_lt far) (aligned_cap bound)
      (fun impossible => nomatch impossible)
  · obtain ⟨key, none⟩ := partial_
    exact absurd none (total key)

end

theorem wp_lookupGroup (answers : Answers I ask answer) (proper : group.Proper)
    (hashed : numTokens / group.offloadedBlockSize ≤ (keysOf group.groupIdx).length) (start : I s) :
    wp (lookupGroup ask windows all numTokens c keysOf group st)
      (fun result s' => I s' ∧ GoodResult answer keysOf c windows all group st result) (fun _ _ => False) s := by
  have hp := proper.positive
  unfold lookupGroup
  simp only [wp_bind, wp_ensure]
  refine ⟨fun _ => ?_, fun few => few hashed⟩
  generalize bound : min st.maxHitSizeTokens ((keysOf group.groupIdx).length * group.offloadedBlockSize) = maxHit
  by_cases far : maxHit < c + group.offloadedBlockSize
  · rw [if_pos far]
    exact ⟨start, goodResult_short proper bound far⟩
  rw [if_neg far, wp_bind]
  refine wp_imp (wp_findHits answers (searched keysOf c group maxHit) group.slidingWindowSizeInBlocks start) ?_
  rintro result s' ⟨kept, finds⟩
  rcases finds with ⟨rfl, _⟩ | ⟨rfl, deferred⟩
  · have good : GoodResult answer keysOf c windows all group st _ := goodResult_found proper bound far
    by_cases nothing : hitsAmong answer (searched keysOf c group maxHit) group.slidingWindowSizeInBlocks = 0
    · have short : narrowed answer keysOf c group maxHit < c + group.offloadedBlockSize := by
        unfold narrowed
        rw [nothing, add_zero]
        have := Nat.mul_div_le c group.offloadedBlockSize
        omega
      rw [if_pos short] at good
      rw [if_pos (congrArg some nothing)]
      exact ⟨kept, good⟩
    rw [if_neg fun hs => nothing (Option.some.inj hs)]
    change wp (if narrowed answer keysOf c group maxHit < c + group.offloadedBlockSize then pure none else pure _) _ _ s'
    by_cases short : narrowed answer keysOf c group maxHit < c + group.offloadedBlockSize
    · rw [if_pos short] at good
      rw [if_pos short]
      exact ⟨kept, good⟩
    · rw [if_neg short] at good
      rw [if_neg short]
      exact ⟨kept, by simpa [narrowed] using good⟩
  · obtain ⟨key, _, none⟩ := deferred.resolve_left (by simp)
    have good : GoodResult answer keysOf c windows all group st _ := goodResult_deferred bound far ⟨key, none⟩
    rw [if_neg far]
    exact ⟨kept, by simpa using good⟩

theorem Accepts.of_le (full : group.slidingWindowSizeInBlocks = none) {e' : Nat} (ha : Accepts answer keysOf c group e)
    (hb : e' ≤ e) : Accepts answer keysOf c group e' := by
  intro j from_ upto
  have first : group.firstBlock c e = group.firstBlock c e' := by simp [firstBlock, full]
  exact ha j (first ▸ from_) (lt_of_lt_of_le upto (cdiv_le_cdiv hb _))

end

/-! ### Passes -/

section

variable {keysOf : Nat → List OffloadKey} {c numTokens : Nat} {fulls windows : List GroupOffloadConfig}
  {group : GroupOffloadConfig} {st st' : LookupState}

variable (answer keysOf c fulls windows) in
/-- A state of a pass that began at the bound `top`, where the full-attention groups in `seenFull` and the windows in
`seenWindow` were searched. Unless lookups were put off or another pass is due, they accept the bound. -/
structure PassInv (initial top : Nat) (seenFull seenWindow : List GroupOffloadConfig) (st : LookupState) : Prop where
  below : st.maxHitSizeTokens ≤ top ∧ top ≤ initial
  hits : st.numHitTokens ≤ st.maxHitSizeTokens - c
  last : seenFull ++ seenWindow ≠ [] → st.numHitTokens = st.maxHitSizeTokens - c
  looked : seenWindow ≠ [] → st.lookedUpSlidingWindow = true
  aligned : st.maxHitSizeTokens = initial ∨ ∃ group ∈ fulls ++ windows, group.offloadedBlockSize ∣ st.maxHitSizeTokens
  capped : ∀ group ∈ seenFull ++ seenWindow, st.maxHitSizeTokens ≤ (keysOf group.groupIdx).length * group.offloadedBlockSize
  full : st.deferLookup = true ∨ st.lookupGroups = fulls ++ windows ∨
    ∀ group ∈ seenFull, Accepts answer keysOf c group st.maxHitSizeTokens
  window : st.deferLookup = true ∨ st.lookupGroups ≠ [] ∨
    ∀ group ∈ seenWindow, Accepts answer keysOf c group st.maxHitSizeTokens
  next : st.lookupGroups = [] ∨ st.lookupGroups = windows ∨ st.lookupGroups = fulls ++ windows
  shrunk : st.lookupGroups ≠ [] → st.maxHitSizeTokens < top

namespace PassInv

variable {initial top : Nat} {seenFull seenWindow : List GroupOffloadConfig} {deferred : Bool}

section

variable (inv : PassInv answer keysOf c fulls windows initial top seenFull seenWindow st)
  (step : GroupStep answer keysOf c windows (fulls ++ windows) group deferred st st') (hm : group ∈ fulls ++ windows)

include inv step hm

theorem step_full_of (attention : ∀ group ∈ seenFull, group.slidingWindowSizeInBlocks = none) :
    (st.deferLookup = false ∧ deferred = false ∧ st.lookupGroups ≠ fulls ++ windows ∧
      ∀ group ∈ seenFull, Accepts answer keysOf c group st'.maxHitSizeTokens) ∨
      st'.deferLookup = true ∨ st'.lookupGroups = fulls ++ windows := by
  have some := ne_nil_of_mem hm
  by_cases spoiled : st.deferLookup = true ∨ deferred = true
  · right
    by_cases less : st'.numHitTokens < st.numHitTokens
    · right
      rw [step.next, if_pos ⟨less, spoiled⟩]
    · exact .inl (step.defers.mpr ⟨spoiled, less⟩)
  · obtain ⟨notDeferred, notNow⟩ := not_or.mp spoiled
    by_cases due : st.lookupGroups = fulls ++ windows
    · right
      right
      rw [step.next, if_neg fun both => spoiled both.2, if_neg fun both => some (due ▸ both.2.2), due]
    · have ha := (inv.full.resolve_left notDeferred).resolve_left due
      exact .inl ⟨by simpa using notDeferred, by simpa using notNow, due,
        fun group hm => (ha group hm).of_le (attention group hm) step.below⟩

theorem step_base :
    (st'.maxHitSizeTokens = initial ∨ ∃ group ∈ fulls ++ windows, group.offloadedBlockSize ∣ st'.maxHitSizeTokens) ∧
      (st'.lookupGroups = [] ∨ st'.lookupGroups = windows ∨ st'.lookupGroups = fulls ++ windows) ∧
      (st'.lookupGroups ≠ [] → st'.maxHitSizeTokens < top) := by
  have hb := step.below
  have hits := step.hits
  have before := inv.hits
  obtain ⟨hw, _⟩ := inv.below
  refine ⟨?_, ?_, ?_⟩
  · rcases step.aligned with hs | divides
    · rw [hs]
      exact inv.aligned
    · exact .inr ⟨group, hm, divides⟩
  · rw [step.next]
    split
    · exact .inr (.inr rfl)
    · split
      · exact .inr (.inl rfl)
      · exact inv.next
  · intro due
    by_cases less : st'.numHitTokens < st.numHitTokens
    · omega
    · rw [step.next, if_neg fun both => less both.1, if_neg fun both => less both.1] at due
      have := inv.shrunk due
      omega

end

theorem step_full (inv : PassInv answer keysOf c fulls windows initial top seenFull [] st)
    (step : GroupStep answer keysOf c windows (fulls ++ windows) group deferred st st') (hm : group ∈ fulls)
    (attention : ∀ group ∈ fulls, group.slidingWindowSizeInBlocks = none) (seen : seenFull ⊆ fulls) :
    PassInv answer keysOf c fulls windows initial top (seenFull ++ [group]) [] st' := by
  obtain ⟨aligned, next, shrunk⟩ := inv.step_base step (mem_append_left _ hm)
  refine ⟨⟨step.below.trans inv.below.1, inv.below.2⟩, le_of_eq step.hits, fun _ => step.hits,
    fun none => absurd rfl none, aligned, ?_, ?_,
    .inr (.inr fun _ none => (nomatch none)), next, shrunk⟩
  · intro other here
    simp only [append_nil, mem_append, mem_singleton] at here
    rcases here with old | rfl
    · exact step.below.trans (inv.capped other (by simpa using old))
    · exact step.capped
  rcases inv.step_full_of step (mem_append_left _ hm) fun group old => attention group (seen old) with
    ⟨_, now, _, ha⟩ | spoiled | due
  · refine .inr (.inr fun other here => ?_)
    rcases mem_append.mp here with old | new
    · exact ha other old
    · rw [mem_singleton.mp new]
      exact step.accepts now
  · exact .inl spoiled
  · exact .inr (.inl due)

theorem step_window (inv : PassInv answer keysOf c fulls windows initial top seenFull seenWindow st)
    (step : GroupStep answer keysOf c windows (fulls ++ windows) group deferred st st') (hm : group ∈ windows)
    (attention : ∀ group ∈ seenFull, group.slidingWindowSizeInBlocks = none)
    (isWindow : group.slidingWindowSizeInBlocks.isSome = true) :
    PassInv answer keysOf c fulls windows initial top seenFull (seenWindow ++ [group]) st' := by
  have some := ne_nil_of_mem hm
  obtain ⟨aligned, next, shrunk⟩ := inv.step_base step (mem_append_right _ hm)
  refine ⟨⟨step.below.trans inv.below.1, inv.below.2⟩, le_of_eq step.hits,
    fun _ => step.hits, fun _ => step.looked.mpr (.inr isWindow), aligned, ?_, ?_, ?_, next, shrunk⟩
  · intro other here
    rw [← append_assoc] at here
    rcases mem_append.mp here with old | new
    · exact step.below.trans (inv.capped other old)
    · rw [mem_singleton.mp new]
      exact step.capped
  · rcases inv.step_full_of step (mem_append_right _ hm) attention with ⟨_, _, _, ha⟩ | spoiled | due
    · exact .inr (.inr ha)
    · exact .inl spoiled
    · exact .inr (.inl due)
  rcases inv.step_full_of step (mem_append_right _ hm) attention with ⟨notDeferred, now, _, _⟩ | spoiled | due
  · by_cases due : st'.lookupGroups = []
    · refine .inr (.inr fun other here => ?_)
      rcases mem_append.mp here with old | new
      · -- A window was searched before, so that a smaller bound would ask for another pass.
        have looked := inv.looked (ne_nil_of_mem old)
        have hits := inv.last (append_ne_nil_of_right_ne_nil _ (ne_nil_of_mem old))
        have before : st.lookupGroups = [] := by
          by_contra due'
          rw [step.next, if_neg (by simp [notDeferred, now]), if_neg (by simp [due'])] at due
          exact due' due
        have hs : ¬ st'.numHitTokens < st.numHitTokens := by
          intro less
          rw [step.next, if_neg (by simp [notDeferred, now]), if_pos ⟨less, looked, before⟩] at due
          exact some due
        have equal : st'.maxHitSizeTokens = st.maxHitSizeTokens := by
          have := step.hits
          have := step.reaches
          have := step.below
          omega
        rcases inv.window with impossible | due' | ha
        · rw [notDeferred] at impossible
          cases impossible
        · exact absurd before due'
        · rw [equal]
          exact ha other old
      · rw [mem_singleton.mp new]
        exact step.accepts now
    · exact .inr (.inl due)
  · exact .inl spoiled
  · exact .inr (.inl (by rw [due]; exact append_ne_nil_of_right_ne_nil _ some))

end PassInv

variable (fulls windows) in
structure SearchSetup (numTokens : Nat) (keysOf : Nat → List OffloadKey) : Prop where
  proper : ∀ group ∈ fulls ++ windows, group.Proper
  hashed : ∀ group ∈ fulls ++ windows, numTokens / group.offloadedBlockSize ≤ (keysOf group.groupIdx).length
  attention : ∀ group ∈ fulls, group.slidingWindowSizeInBlocks = none
  isWindow : ∀ group ∈ windows, group.slidingWindowSizeInBlocks.isSome = true

variable (answer keysOf c) in
/-- Unless lookups are put off, the search does not pass over an end that all groups accept. -/
def Keeps (groups : List GroupOffloadConfig) (st : LookupState) (result : Option LookupState) : Prop :=
  (∀ key, answer key ≠ none) → st.deferLookup = false → ∀ e ≤ st.maxHitSizeTokens,
    (∀ group ∈ groups, c + group.offloadedBlockSize ≤ e ∧ Accepts answer keysOf c group e) →
      ∃ st', result = some st' ∧ e ≤ st'.maxHitSizeTokens ∧ st'.deferLookup = false

variable (answer keysOf c fulls windows) in
def Searching (initial top : Nat) (rest : List GroupOffloadConfig) (st : LookupState) : Prop :=
  (∃ seen left, rest = left ++ windows ∧ fulls = seen ++ left ∧ PassInv answer keysOf c fulls windows initial top seen [] st) ∨
    ∃ seen, windows = seen ++ rest ∧ PassInv answer keysOf c fulls windows initial top fulls seen st

theorem Searching.done {initial top : Nat} (searching : Searching answer keysOf c fulls windows initial top [] st) :
    PassInv answer keysOf c fulls windows initial top fulls windows st := by
  rcases searching with ⟨seen, left, none, rfl, inv⟩ | ⟨seen, rfl, inv⟩
  · obtain ⟨rfl, rfl⟩ := append_eq_nil_iff.mp none.symm
    simpa using inv
  · simpa using inv

section

variable (setup : SearchSetup fulls windows numTokens keysOf) {initial top : Nat} {rest : List GroupOffloadConfig}

include setup

theorem Searching.step {deferred : Bool} (searching : Searching answer keysOf c fulls windows initial top (group :: rest) st)
    (step : GroupStep answer keysOf c windows (fulls ++ windows) group deferred st st') :
    Searching answer keysOf c fulls windows initial top rest st' := by
  have window : ∀ seen, windows = seen ++ group :: rest → PassInv answer keysOf c fulls windows initial top fulls seen st →
      Searching answer keysOf c fulls windows initial top rest st' := by
    intro seen whole inv
    have here : group ∈ windows := by simp [whole]
    exact .inr ⟨seen ++ [group], by simp [whole], inv.step_window step here setup.attention (setup.isWindow group here)⟩
  rcases searching with ⟨seen, left, split, whole, inv⟩ | ⟨seen, whole, inv⟩
  · cases left with
    | nil =>
      rw [append_nil] at whole
      exact window [] split.symm (whole ▸ inv)
    | cons first left =>
      obtain ⟨rfl, rfl⟩ := cons_eq_cons.mp split
      refine .inl ⟨seen ++ [group], left, rfl, by simp [whole], inv.step_full step (by simp [whole]) setup.attention ?_⟩
      simp [whole]
  · exact window seen whole inv

theorem wp_lookupPass (answers : Answers I ask answer) (part : rest ⊆ fulls ++ windows)
    (searching : Searching answer keysOf c fulls windows initial top rest st) (start : I s) :
    wp (lookupPass ask windows (fulls ++ windows) numTokens c keysOf rest st)
      (fun result s' => I s' ∧ (∀ st', result = some st' → PassInv answer keysOf c fulls windows initial top fulls windows st') ∧
      Keeps answer keysOf c (fulls ++ windows) st result) (fun _ _ => False) s := by
  induction rest generalizing st s with
  | nil =>
    refine ⟨start, ?_, fun _ now e hb _ => ⟨st, rfl, hb, now⟩⟩
    rintro st' ⟨⟩
    exact searching.done
  | cons group rest ih =>
    obtain ⟨hm, others⟩ := cons_subset.mp part
    rw [lookupPass, wp_bind]
    refine wp_imp (wp_lookupGroup answers (setup.proper group hm) (setup.hashed group hm) start) ?_
    rintro result s' ⟨kept, good⟩
    cases result with
    | none =>
      refine ⟨kept, by simp, fun total now e hb ha => ?_⟩
      obtain ⟨_, ⟨⟩, _⟩ := good.2 total e hb (ha group hm).1 (ha group hm).2
    | some st' =>
      obtain ⟨deferred, step⟩ := good.1 st' rfl
      refine wp_imp (ih others (searching.step setup step) kept) ?_
      rintro result s'' ⟨kept, after, keeps⟩
      refine ⟨kept, after, fun total now e hb ha => ?_⟩
      obtain ⟨_, ⟨⟩, hb', now'⟩ := good.2 total e hb (ha group hm).1 (ha group hm).2
      exact keeps total (now' now) e hb' ha

end

variable (answer keysOf c fulls windows) in
structure LoopInv (initial : Nat) (st : LookupState) : Prop where
  below : st.maxHitSizeTokens ≤ initial
  hits : st.numHitTokens ≤ st.maxHitSizeTokens - c
  aligned : st.maxHitSizeTokens = initial ∨ ∃ group ∈ fulls ++ windows, group.offloadedBlockSize ∣ st.maxHitSizeTokens
  passes : st.lookupGroups = fulls ++ windows ∨ ∃ top, PassInv answer keysOf c fulls windows initial top fulls windows st

section

variable (setup : SearchSetup fulls windows numTokens keysOf) (answers : Answers I ask answer) {initial : Nat}

include setup answers

theorem wp_lookupPass_next (inv : LoopInv answer keysOf c fulls windows initial st) (more : st.lookupGroups ≠ [])
    (start : I s) :
    wp (lookupPass ask windows (fulls ++ windows) numTokens c keysOf st.lookupGroups
      { st with lookedUpSlidingWindow := false, lookupGroups := [] })
      (fun result s' => I s' ∧ (∀ st', result = some st' →
        PassInv answer keysOf c fulls windows initial st.maxHitSizeTokens fulls windows st') ∧
        Keeps answer keysOf c (fulls ++ windows) st result) (fun _ _ => False) s := by
  by_cases everything : st.lookupGroups = fulls ++ windows
  · refine wp_lookupPass setup answers (everything ▸ Subset.refl _) (.inl ⟨[], fulls, everything, rfl, ?_⟩) start
    exact ⟨⟨le_refl _, inv.below⟩, inv.hits, fun none => absurd rfl none, fun none => absurd rfl none, inv.aligned,
      fun _ none => (nomatch none), .inr (.inr fun _ none => (nomatch none)), .inr (.inr fun _ none => (nomatch none)), .inl rfl,
      fun none => absurd rfl none⟩
  obtain ⟨top, pass⟩ := inv.passes.resolve_left everything
  have only := (pass.next.resolve_left more).resolve_right everything
  refine wp_lookupPass setup answers (only ▸ subset_append_right _ _) (.inr ⟨[], only.symm, ?_⟩) start
  refine ⟨⟨le_refl _, inv.below⟩, inv.hits, fun _ => ?_, fun none => absurd rfl none, inv.aligned, ?_, ?_,
    .inr (.inr fun _ none => (nomatch none)), .inl rfl, fun none => absurd rfl none⟩
  · exact pass.last (append_ne_nil_of_right_ne_nil _ (only ▸ more))
  · intro group hm
    exact pass.capped group (mem_append_left _ (by simpa using hm))
  · rcases pass.full with deferred | due | ha
    · exact .inl deferred
    · exact absurd due everything
    · exact .inr (.inr ha)

theorem wp_lookupLoop {fuel : Nat} (inv : LoopInv answer keysOf c fulls windows initial st)
    (enough : st.maxHitSizeTokens + 1 < fuel ∨ (0 < fuel ∧ st.lookupGroups = [])) (start : I s) :
    wp (lookupLoop ask windows (fulls ++ windows) numTokens c keysOf fuel st)
      (fun result s' => I s' ∧ (∀ st', result = some st' →
      LoopInv answer keysOf c fulls windows initial st' ∧ st'.lookupGroups = []) ∧
      Keeps answer keysOf c (fulls ++ windows) st result) (fun _ _ => False) s := by
  induction fuel generalizing st s with
  | zero => omega
  | succ fuel ih =>
    unfold lookupLoop
    split
    · rename_i done
      refine ⟨start, ?_, fun _ now e hb _ => ⟨st, rfl, hb, now⟩⟩
      rintro st' ⟨⟩
      exact ⟨inv, done⟩
    rename_i more
    rw [wp_bind]
    refine wp_imp (wp_lookupPass_next setup answers inv more start) ?_
    rintro result s' ⟨kept, after, keeps⟩
    cases result with
    | none => exact ⟨kept, by simp, keeps⟩
    | some st' =>
      have pass := after st' rfl
      have enough' : st'.maxHitSizeTokens + 1 < fuel ∨ (0 < fuel ∧ st'.lookupGroups = []) := by
        have enough := enough.resolve_right fun both => more both.2
        by_cases done : st'.lookupGroups = []
        · exact .inr ⟨by omega, done⟩
        · have := pass.shrunk done
          exact .inl (by omega)
      refine wp_imp (ih ⟨pass.below.1.trans pass.below.2, pass.hits, pass.aligned, .inr ⟨_, pass⟩⟩ enough' kept) ?_
      rintro result s'' ⟨kept, after, keeps'⟩
      refine ⟨kept, after, fun total now e hb ha => ?_⟩
      obtain ⟨_, ⟨⟩, hb', now'⟩ := keeps total now e hb ha
      exact keeps' total now' e hb' ha

end

end

end KVOffload.Offload
