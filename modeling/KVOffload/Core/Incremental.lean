import KVOffload.Core.HashItems

/-!
# Incremental hashing against hashing from scratch

The call that hashes the first block scans the whole feature list; later calls resume at the last feature.
-/

namespace KVOffload.Core

open List Request

def Overlaps (startTokenIdx endTokenIdx : Nat) (feature : MultiModalFeature) : Prop :=
  feature.offset < endTokenIdx ∧ startTokenIdx < feature.stop

instance (startTokenIdx endTokenIdx : Nat) (feature : MultiModalFeature) :
    Decidable (Overlaps startTokenIdx endTokenIdx feature) :=
  inferInstanceAs (Decidable (_ ∧ _))

/-- No feature that overlaps the block stands behind one that runs past the block's end, and none overlaps it
when the last feature has ended before. Features that occupy separate positions are laid out like this. -/
def LaidOut (startTokenIdx endTokenIdx : Nat) (features : List MultiModalFeature) : Prop :=
  features.Pairwise (fun f g => f.offset < endTokenIdx ∧ endTokenIdx < f.stop → ¬ Overlaps startTokenIdx endTokenIdx g) ∧
    ∀ f ∈ features, Overlaps startTokenIdx endTokenIdx f → ∀ last ∈ features.getLast?, startTokenIdx < last.stop

instance (startTokenIdx endTokenIdx : Nat) (features : List MultiModalFeature) :
    Decidable (LaidOut startTokenIdx endTokenIdx features) :=
  inferInstanceAs (Decidable (_ ∧ _))

section

variable {s e : Nat} {features : List MultiModalFeature}

theorem seen_eq_filter_iff (before : s < e)
    (sorted : features.Pairwise (fun f g => f.offset ≤ g.offset)) :
    seen s e features = features.filter (Overlaps s e ·) ↔
      features.Pairwise (fun f g => f.offset < e ∧ e < f.stop → ¬ Overlaps s e g) := by
  induction features with
  | nil => simp [seen]
  | cons f rest ih =>
    obtain ⟨first, later⟩ := pairwise_cons.mp sorted
    rw [pairwise_cons, ← ih later, seen]
    by_cases reached : e > f.offset
    · rw [if_pos reached]
      by_cases passed : s ≥ f.stop
      · have ho : ¬ Overlaps s e f := fun hi => absurd hi.2 (by omega)
        rw [if_pos passed, filter_cons_of_neg (by simpa using ho)]
        constructor
        · intro hs
          exact ⟨fun g _ runs => absurd runs.2 (by omega), hs⟩
        · exact fun both => both.2
      have hi : Overlaps s e f := ⟨reached, by omega⟩
      rw [if_neg passed, filter_cons_of_pos (by simpa using hi)]
      by_cases ends : e ≥ f.stop
      · rw [if_pos ends]
        constructor
        · intro hs
          exact ⟨fun g _ runs => absurd runs.2 (by omega), (cons.inj hs).2⟩
        · intro both
          rw [both.2]
      rw [if_neg ends]
      constructor
      · intro hs
        have nothing := (cons.inj hs).2.symm
        have others : ∀ g ∈ rest, ¬ Overlaps s e g := by simpa using filter_eq_nil_iff.mp nothing
        refine ⟨fun g hm _ => others g hm, (ih later).mpr ?_⟩
        exact pairwise_of_forall_mem_list fun f _ g hm _ => others g hm
      · intro both
        have nothing : rest.filter (Overlaps s e ·) = [] := by
          apply filter_eq_nil_iff.mpr
          intro g hm
          simpa using both.1 g hm ⟨reached, by omega⟩
        rw [nothing]
    · have unreached : ∀ g ∈ f :: rest, ¬ Overlaps s e g := by
        intro g hm hi
        rcases mem_cons.mp hm with rfl | hm
        · exact reached hi.1
        · have := first g hm
          exact absurd hi.1 (by omega)
      have nothing : (f :: rest).filter (Overlaps s e ·) = [] := by
        apply filter_eq_nil_iff.mpr
        intro g hm
        simpa using unreached g hm
      rw [if_neg reached, nothing]
      simp only [true_iff]
      refine ⟨fun g _ runs => absurd runs.1 reached, (ih later).mpr ?_⟩
      exact pairwise_of_forall_mem_list fun f' _ g hm _ => unreached g (.tail _ hm)

theorem scanned_eq_filter_iff (before : s < e)
    (sorted : features.Pairwise (fun f g => f.offset ≤ g.offset)) :
    scanned s e features = features.filter (Overlaps s e ·) ↔ LaidOut s e features := by
  unfold scanned LaidOut
  cases hf : features.getLast? with
  | none =>
    rw [getLast?_eq_none_iff.mp hf]
    simp
  | some last =>
    by_cases ended : last.stop ≤ s
    · simp only [if_pos ended]
      constructor
      · intro nothing
        have ho : ∀ f ∈ features, ¬ Overlaps s e f := by simpa using filter_eq_nil_iff.mp nothing.symm
        exact ⟨pairwise_of_forall_mem_list fun f _ g hm _ => ho g hm, fun f hm hi => absurd hi (ho f hm)⟩
      intro laid
      symm
      apply filter_eq_nil_iff.mpr
      intro f hm
      have closed : ¬ Overlaps s e f := by
        intro hi
        have := laid.2 f hm hi last rfl
        omega
      simpa using closed
    · simp only [if_neg ended]
      rw [seen_eq_filter_iff before sorted]
      constructor
      · intro laid
        refine ⟨laid, fun f _ _ final hs => ?_⟩
        cases hs
        omega
      · exact fun laid => laid.1

theorem scanned_sublist (features : List MultiModalFeature) :
    (scanned s e features).Sublist (features.filter (Overlaps s e ·)) := by
  have inner : (seen s e features).Sublist (features.filter (Overlaps s e ·)) := by
    induction features with
    | nil => simp [seen]
    | cons f rest ih =>
      rw [seen]
      split
      · rename_i reached
        split
        · have ho : ¬ Overlaps s e f := fun hi => absurd hi.2 (by omega)
          rwa [filter_cons_of_neg (by simpa using ho)]
        · have hi : Overlaps s e f := ⟨reached, by omega⟩
          rw [filter_cons_of_pos (by simpa using hi)]
          split
          · exact ih.cons_cons f
          · exact singleton_sublist.mpr (.head _)
      · exact nil_sublist _
  unfold scanned
  split
  · exact nil_sublist _
  · split
    · exact nil_sublist _
    · exact inner

theorem scanned_last_eq_filter_iff (before : s < e) (features : List MultiModalFeature) :
    scanned s e (features.drop (features.length - 1)) = features.filter (Overlaps s e ·) ↔
      ∀ f ∈ features.dropLast, ¬ Overlaps s e f := by
  cases features using reverseRecOn with
  | nil => simp [scanned]
  | append_singleton front last _ =>
    have single : (front ++ [last]).drop ((front ++ [last]).length - 1) = [last] := by simp
    have alone : scanned s e [last] = [last].filter (Overlaps s e ·) := by
      apply (scanned_eq_filter_iff before (pairwise_singleton _ _)).mpr
      refine ⟨pairwise_singleton _ _, fun f hm hi final hs => ?_⟩
      rw [mem_singleton.mp hm] at hi
      cases hs
      exact hi.2
    rw [single, alone, filter_append]
    constructor
    · intro hs
      have nothing : front.filter (Overlaps s e ·) = [] := by
        have lengths := congrArg length hs
        rw [length_append] at lengths
        exact length_eq_zero_iff.mp (by omega)
      simpa using filter_eq_nil_iff.mp nothing
    · intro ho
      have nothing : front.filter (Overlaps s e ·) = [] := by
        simpa using ho
      rw [nothing, nil_append]

end

section

variable (scheme : HashScheme) (bs : Nat)

/-- The end of `Request.__init__`: no hashes, then those of the full blocks of the prompt. -/
def Request.construct (req : Request) : Request :=
  updateBlockHashes scheme bs { req with blockHashes := [] }

/-- How many blocks the call that hashes the first block fills, when the request starts with `total` tokens. -/
def blocksOfFirstCall : Nat → List (List Token) → Nat
  | total, [] => total / bs
  | total, tokenIds :: rest =>
    if 0 < total / bs then total / bs else blocksOfFirstCall (total + tokenIds.length) rest

def runItem (req : Request) (first i : Nat) : BlockItem :=
  scannedItem scheme bs req (scanList req (if i < first then 0 else 1)) i

def Request.exactHashes (req : Request) : List Bytes :=
  chain (hashStep scheme) none ((List.range (req.numTokens / bs)).map fun i =>
    blockItem scheme bs req
      (req.mmFeatures.filter (Overlaps (i * bs) (i * bs + bs) ·)) i)

variable {scheme bs}

variable {req : Request} {first : Nat}

theorem updateBlockHashes_eq_chain (hp : 0 < bs) {items : List BlockItem}
    (hashes : req.blockHashes = chain (hashStep scheme) none items) :
    (req.updateBlockHashes scheme bs).blockHashes = chain (hashStep scheme) none (items ++
      (range' items.length (req.numTokens / bs - items.length)).map
      (scannedItem scheme bs req (scanList req items.length))) := by
  have count : req.blockHashes.length = items.length := by rw [hashes, length_chain]
  rw [chain_append, ← hashes, Option.or_none, updateBlockHashes, requestBlockHasher_eq_chain scheme hp, count]

def HashedWith (scheme : HashScheme) (bs first : Nat) (req : Request) : Prop :=
  req.blockHashes = chain (hashStep scheme) none
    ((List.range (req.numTokens / bs)).map (runItem scheme bs req first))

theorem hashedWith_construct (scheme : HashScheme) (hp : 0 < bs) (req : Request) :
    HashedWith scheme bs (req.numTokens / bs) (req.construct scheme bs) := by
  have start : { req with blockHashes := [] }.blockHashes = chain (hashStep scheme) none [] := rfl
  unfold HashedWith construct
  rw [updateBlockHashes_eq_chain hp start]
  simp only [nil_append, length_nil, ← range_eq_range']
  congr 1
  apply map_congr_left
  intro i hm
  have full : i < req.numTokens / bs := mem_range.mp hm
  rw [runItem, if_pos full]
  rfl

theorem numTokens_append (req : Request) (tokenIds : List Token) :
    (req.appendOutputTokenIds scheme bs tokenIds).numTokens = req.numTokens + tokenIds.length := by
  simp [numTokens, appendOutputTokenIds, updateBlockHashes]

theorem hashedWith_append (hp : 0 < bs) (hashed : HashedWith scheme bs first req) (tokenIds : List Token)
    (call : req.numTokens / bs = 0 ∧ (req.numTokens + tokenIds.length) / bs ≤ first ∨
      0 < req.numTokens / bs ∧ first ≤ req.numTokens / bs) :
    HashedWith scheme bs first (req.appendOutputTokenIds scheme bs tokenIds) := by
  have grown : req.numTokens / bs ≤ (req.numTokens + tokenIds.length) / bs :=
    Nat.div_le_div_right (Nat.le_add_right _ _)
  have start : { req with
      outputTokenIds := req.outputTokenIds ++ tokenIds
      allTokenIds := req.allTokenIds ++ tokenIds }.blockHashes =
      chain (hashStep scheme) none ((range (req.numTokens / bs)).map (runItem scheme bs req first)) := hashed
  have total : { req with
      outputTokenIds := req.outputTokenIds ++ tokenIds
      allTokenIds := req.allTokenIds ++ tokenIds }.numTokens = req.numTokens + tokenIds.length := by
    simp [numTokens]
  unfold HashedWith
  rw [numTokens_append, appendOutputTokenIds, updateBlockHashes_eq_chain hp start, total]
  congr 1
  rw [length_map, length_range]
  obtain ⟨added, sum⟩ := Nat.exists_eq_add_of_le grown
  rw [sum, Nat.add_sub_cancel_left, range_eq_range', range_eq_range', ← range'_append_1, map_append, Nat.zero_add]
  congr 1
  · apply map_congr_left
    intro i hm
    have full : i < req.numTokens / bs := by simpa using hm
    have hi := (Nat.le_div_iff_mul_le hp).mp full
    rw [Nat.succ_mul] at hi
    unfold runItem scannedItem blockItem slice updateBlockHashes
    rw [take_append_of_le_length (by simpa [numTokens] using hi)]
    rfl
  apply map_congr_left
  intro i hm
  obtain ⟨low, high⟩ := mem_range'_1.mp hm
  rw [runItem]
  rcases call with ⟨fresh, hw⟩ | ⟨resumed, hw⟩
  · rw [if_pos (by omega), fresh]
    rfl
  · rw [if_neg (by omega), scanList, if_neg (by omega)]
    rfl

theorem blocksOfFirstCall_eq {total : Nat} (filled : 0 < total / bs) (groups : List (List Token)) :
    blocksOfFirstCall bs total groups = total / bs := by
  cases groups with
  | nil => rfl
  | cons tokenIds rest => rw [blocksOfFirstCall, if_pos filled]

theorem le_blocksOfFirstCall (bs total : Nat) (groups : List (List Token)) :
    total / bs ≤ blocksOfFirstCall bs total groups := by
  rcases Nat.eq_zero_or_pos (total / bs) with none_yet | filled
  · omega
  · exact (blocksOfFirstCall_eq filled groups).ge

theorem hashedWith_appendGroups (hp : 0 < bs)
    (hashed : HashedWith scheme bs first req) (groups : List (List Token))
    (call : req.numTokens / bs = 0 ∧ first = blocksOfFirstCall bs req.numTokens groups ∨
      0 < req.numTokens / bs ∧ first ≤ req.numTokens / bs) :
    HashedWith scheme bs first (req.appendGroups scheme bs groups) := by
  induction groups generalizing req with
  | nil => exact hashed
  | cons tokenIds rest ih =>
    have grown : req.numTokens / bs ≤ (req.numTokens + tokenIds.length) / bs :=
      Nat.div_le_div_right (Nat.le_add_right _ _)
    rcases call with ⟨fresh, chosen⟩ | ⟨resumed, hw⟩
    · rw [blocksOfFirstCall, if_neg (by omega)] at chosen
      have covers := le_blocksOfFirstCall bs (req.numTokens + tokenIds.length) rest
      apply ih (hashedWith_append hp hashed tokenIds (.inl ⟨fresh, by omega⟩))
      rw [numTokens_append]
      rcases Nat.eq_zero_or_pos ((req.numTokens + tokenIds.length) / bs) with none_yet | filled
      · exact .inl ⟨none_yet, chosen⟩
      · rw [blocksOfFirstCall_eq filled] at chosen
        exact .inr ⟨filled, chosen.le⟩
    · apply ih (hashedWith_append hp hashed tokenIds (.inr ⟨resumed, hw⟩))
      rw [numTokens_append]
      exact .inr ⟨by omega, by omega⟩

theorem hashedWith_run (scheme : HashScheme) (hp : 0 < bs) (req : Request) (groups : List (List Token)) :
    HashedWith scheme bs (blocksOfFirstCall bs req.numTokens groups)
      ((req.construct scheme bs).appendGroups scheme bs groups) := by
  have total : (req.construct scheme bs).numTokens = req.numTokens := rfl
  have created := hashedWith_construct scheme hp req
  rcases Nat.eq_zero_or_pos (req.numTokens / bs) with none_yet | filled
  · have empty : HashedWith scheme bs (blocksOfFirstCall bs req.numTokens groups)
        (req.construct scheme bs) := by
      unfold HashedWith at created ⊢
      rw [total, none_yet] at created ⊢
      exact created
    exact hashedWith_appendGroups hp empty groups (.inl ⟨none_yet, rfl⟩)
  · rw [← blocksOfFirstCall_eq filled] at created
    exact hashedWith_appendGroups hp created groups
      (.inr ⟨filled, (blocksOfFirstCall_eq filled groups).le⟩)

theorem scratchHashes_eq (hp : 0 < bs) (req : Request) :
    req.scratchHashes scheme bs = chain (hashStep scheme) none
      ((range (req.numTokens / bs)).map (scannedItem scheme bs req req.mmFeatures)) := by
  rw [scratchHashes, requestBlockHasher_eq_chain scheme hp, range_eq_range']
  rfl

theorem blockItem_eq_iff {i : Nat} {hf all : List MultiModalFeature} (part : hf.Sublist all) :
    blockItem scheme bs req hf i = blockItem scheme bs req all i ↔ hf = all := by
  constructor
  · intro hs
    have keys := packed_inj (congrArg BlockItem.extraKeys hs)
    have lengths := congrArg length (append_cancel_left (append_cancel_right (append_cancel_right keys)))
    rw [length_map, length_map] at lengths
    exact part.eq_of_length lengths
  · intro hs
    rw [hs]

theorem mmFeatures_appendGroups (scheme : HashScheme) (bs : Nat) (req : Request) (groups : List (List Token)) :
    ((req.construct scheme bs).appendGroups scheme bs groups).mmFeatures = req.mmFeatures := by
  suffices general : ∀ r : Request, (r.appendGroups scheme bs groups).mmFeatures = r.mmFeatures from general _
  induction groups with
  | nil => exact fun _ => rfl
  | cons tokenIds rest ih => exact fun r => ih _

theorem numTokens_appendGroups (scheme : HashScheme) (bs : Nat) (req : Request) (groups : List (List Token)) :
    ((req.construct scheme bs).appendGroups scheme bs groups).numTokens = req.numTokens + groups.flatten.length := by
  suffices general : ∀ r : Request, (r.appendGroups scheme bs groups).numTokens =
      r.numTokens + groups.flatten.length from general _
  induction groups with
  | nil => exact fun _ => rfl
  | cons tokenIds rest ih =>
    intro r
    show ((r.appendOutputTokenIds scheme bs tokenIds).appendGroups scheme bs rest).numTokens = _
    rw [ih, numTokens_append, flatten_cons, length_append, Nat.add_assoc]

theorem scratch_eq_exact_iff (injective : scheme.Injective) (hp : 0 < bs) (req : Request)
    (sorted : req.mmFeatures.Pairwise (fun f g => f.offset ≤ g.offset)) :
    req.scratchHashes scheme bs = req.exactHashes scheme bs ↔
      ∀ i < req.numTokens / bs, LaidOut (i * bs) (i * bs + bs) req.mmFeatures := by
  rw [scratchHashes_eq hp]
  constructor
  · intro hs i full
    have item := map_inj_left.mp (chain_inj injective.levelBinding hs) i (mem_range.mpr full)
    exact (scanned_eq_filter_iff (by omega) sorted).mp ((blockItem_eq_iff (scanned_sublist _)).mp item)
  · intro laid
    congr 1
    apply map_congr_left
    intro i hm
    have hf := (scanned_eq_filter_iff (by omega) sorted).mpr (laid i (mem_range.mp hm))
    exact (blockItem_eq_iff (scanned_sublist _)).mpr hf

theorem hashed_eq_exact_iff (injective : scheme.Injective) (hp : 0 < bs)
    (sorted : req.mmFeatures.Pairwise (fun f g => f.offset ≤ g.offset)) (hashed : HashedWith scheme bs first req) :
    req.blockHashes = req.exactHashes scheme bs ↔
      ∀ i < req.numTokens / bs, if i < first
      then LaidOut (i * bs) (i * bs + bs) req.mmFeatures
      else ∀ f ∈ req.mmFeatures.dropLast, ¬ Overlaps (i * bs) (i * bs + bs) f := by
  have part i : (scanned (i * bs) (i * bs + bs)
      (scanList req (if i < first then 0 else 1))).Sublist
      (req.mmFeatures.filter (Overlaps (i * bs) (i * bs + bs) ·)) := by
    apply (scanned_sublist _).trans
    apply List.Sublist.filter
    split
    · exact List.Sublist.refl _
    · exact drop_sublist _ _
  have hf i : scanned (i * bs) (i * bs + bs) (scanList req (if i < first then 0 else 1)) =
      req.mmFeatures.filter (Overlaps (i * bs) (i * bs + bs) ·) ↔ if i < first
        then LaidOut (i * bs) (i * bs + bs) req.mmFeatures
        else ∀ f ∈ req.mmFeatures.dropLast, ¬ Overlaps (i * bs) (i * bs + bs) f := by
    by_cases early : i < first
    · simp only [if_pos early]
      exact scanned_eq_filter_iff (by omega) sorted
    · simp only [if_neg early]
      exact scanned_last_eq_filter_iff (by omega) _
  rw [hashed]
  constructor
  · intro hs i full
    have item := map_inj_left.mp (chain_inj injective.levelBinding hs) i (mem_range.mpr full)
    exact (hf i).mp ((blockItem_eq_iff (part i)).mp item)
  · intro complete
    congr 1
    apply map_congr_left
    intro i hm
    exact (blockItem_eq_iff (part i)).mpr ((hf i).mpr (complete i (mem_range.mp hm)))

/-- Appending tokens group by group leaves the exact hashes if and only if the features of every block are laid out and no
block filled after the first hashing call is overlapped by a feature other than the last. -/
theorem incremental_hashes_exact_iff (injective : scheme.Injective) (positive : 0 < bs) (req : Request)
    (sorted : req.mmFeatures.Pairwise (fun f g => f.offset ≤ g.offset)) (groups : List (List Token)) :
    (((req.construct scheme bs).appendGroups scheme bs groups).blockHashes =
        ((req.construct scheme bs).appendGroups scheme bs groups).scratchHashes scheme bs ∧
      ((req.construct scheme bs).appendGroups scheme bs groups).blockHashes =
        ((req.construct scheme bs).appendGroups scheme bs groups).exactHashes scheme bs) ↔
      (∀ i < (req.numTokens + groups.flatten.length) / bs,
          LaidOut (i * bs) (i * bs + bs) req.mmFeatures) ∧
        ∀ i < (req.numTokens + groups.flatten.length) / bs,
          blocksOfFirstCall bs req.numTokens groups ≤ i →
            ∀ f ∈ req.mmFeatures.dropLast, ¬ Overlaps (i * bs) (i * bs + bs) f := by
  have hashed := hashedWith_run scheme positive req groups
  have features := mmFeatures_appendGroups scheme bs req groups
  have tokens := numTokens_appendGroups scheme bs req groups
  generalize (req.construct scheme bs).appendGroups scheme bs groups = final at *
  rw [← features] at sorted
  have run := hashed_eq_exact_iff injective positive sorted hashed
  have scratch := scratch_eq_exact_iff injective positive final sorted
  rw [features, tokens] at run scratch
  constructor
  · intro both
    have laid := scratch.mp (both.1.symm.trans both.2)
    refine ⟨laid, fun i full late => ?_⟩
    have only := run.mp both.2 i full
    rwa [if_neg (by omega)] at only
  · intro both
    have exact_ : final.blockHashes = final.exactHashes scheme bs := by
      apply run.mpr
      intro i full
      split
      · exact both.1 i full
      · exact both.2 i full (by omega)
    exact ⟨exact_.trans (scratch.mpr both.1).symm, exact_⟩

end

def promptWith (features : List MultiModalFeature) : Request where
  requestId := 0
  samplingParams := { maxTokens := 16 }
  maxTokens := 16
  promptTokenIds := some [1, 2, 3, 4, 5, 6, 7]
  numPromptTokens := 7
  allTokenIds := [1, 2, 3, 4, 5, 6, 7]
  mmFeatures := features

noncomputable def generatedWith (features : List MultiModalFeature) (groups : List (List Token)) : Request :=
  ((promptWith features).construct unaryScheme 4).appendGroups unaryScheme 4 groups

theorem incremental_hashes_exact_one_feature :
    (generatedWith [⟨"a", ⟨4, 2⟩⟩] [[8], [9, 10]]).blockHashes =
        (generatedWith [⟨"a", ⟨4, 2⟩⟩] [[8], [9, 10]]).scratchHashes unaryScheme 4 ∧
      (generatedWith [⟨"a", ⟨4, 2⟩⟩] [[8], [9, 10]]).blockHashes =
        (generatedWith [⟨"a", ⟨4, 2⟩⟩] [[8], [9, 10]]).exactHashes unaryScheme 4 :=
  (incremental_hashes_exact_iff unaryScheme_injective (by decide) (promptWith [⟨"a", ⟨4, 2⟩⟩]) (by decide)
    [[8], [9, 10]]).mpr (by decide)

/-- Two features in the unfilled block of the prompt: the hash of that block misses the first one. -/
theorem resumed_hash_misses_feature :
    (generatedWith [⟨"a", ⟨4, 1⟩⟩, ⟨"b", ⟨5, 1⟩⟩] [[8]]).blockHashes ≠
      (generatedWith [⟨"a", ⟨4, 1⟩⟩, ⟨"b", ⟨5, 1⟩⟩] [[8]]).scratchHashes unaryScheme 4 := by
  intro same
  have positive : 0 < 4 := by decide
  have sorted : (generatedWith [⟨"a", ⟨4, 1⟩⟩, ⟨"b", ⟨5, 1⟩⟩] [[8]]).mmFeatures.Pairwise
      (fun f g => f.offset ≤ g.offset) := by decide
  have hashed := hashedWith_run unaryScheme positive (promptWith [⟨"a", ⟨4, 1⟩⟩, ⟨"b", ⟨5, 1⟩⟩]) [[8]]
  have scratch := (scratch_eq_exact_iff unaryScheme_injective positive _ sorted).mpr (by decide)
  have missing := (hashed_eq_exact_iff unaryScheme_injective positive sorted hashed).mp (same.trans scratch) 1 (by decide)
  revert missing
  decide

end KVOffload.Core
