import KVOffload.Core.BlockHash

/-!
# What goes into the block hashes

What `requestBlockHasher` hashes, said without its cursor: every block gets the keys of the features found by scanning a fixed
list, which is the whole feature list or the last feature alone.
-/

namespace KVOffload.Core

open List

/-- What a block hash takes in besides the hash of the block before. -/
structure BlockItem where
  tokens : List Token
  extraKeys : Option (List ExtraKey)
deriving DecidableEq

def hashStep (scheme : HashScheme) (parent : Option Bytes) (item : BlockItem) : Bytes :=
  hashBlockTokens scheme parent item.tokens item.extraKeys

/-- Different argument tuples have different hashes, and none of them is empty. -/
structure HashScheme.Injective (scheme : HashScheme) : Prop where
  hash : Function.Injective scheme.hashFunction
  nonempty : ∀ input, scheme.hashFunction input ≠ []

variable {scheme : HashScheme} {s t : Bytes}

theorem hashStep_some (injective : scheme.Injective) {parent : Bytes}
    (rooted : Rooted (hashStep scheme) (some parent)) (item : BlockItem) :
    hashStep scheme (some parent) item = scheme.hashFunction ⟨parent, item.tokens, item.extraKeys⟩ := by
  obtain ⟨q, x, made⟩ := rooted parent rfl
  have full : parent ≠ [] := by
    rw [made]
    exact injective.nonempty _
  simp [hashStep, hashBlockTokens, full]

theorem BlockItem.eq_of_input {p q : Bytes} {x y : BlockItem}
    (hs : (⟨p, x.tokens, x.extraKeys⟩ : HashInput) = ⟨q, y.tokens, y.extraKeys⟩) : p = q ∧ x = y := by
  obtain ⟨parents, tokens, keys⟩ := HashInput.mk.inj hs
  cases x
  simp_all

theorem HashScheme.Injective.levelBinding (injective : scheme.Injective) : LevelBinding (hashStep scheme) where
  first x y hs := by
    exact (BlockItem.eq_of_input (injective.hash hs)).2
  later b c x y hb hc hs := by
    rw [hashStep_some injective hb, hashStep_some injective hc] at hs
    exact BlockItem.eq_of_input (injective.hash hs)

theorem HashScheme.Injective.binding (injective : scheme.Injective)
    (fresh : ∀ input, scheme.hashFunction input ≠ scheme.noneHash) : Binding (hashStep scheme) := by
  have apart b x y (hb : Rooted (hashStep scheme) (some b)) :
      hashStep scheme none x ≠ hashStep scheme (some b) y := by
    intro hs
    rw [hashStep_some injective hb] at hs
    obtain ⟨q, z, made⟩ := hb b rfl
    have root := (BlockItem.eq_of_input (injective.hash hs)).1
    exact fresh _ (made.symm.trans root.symm)
  intro p q x y hp hq hs
  cases p with
  | none =>
    cases q with
    | none => exact ⟨rfl, injective.levelBinding.first x y hs⟩
    | some c => exact absurd hs (apart c x y hq)
  | some b =>
    cases q with
    | none => exact absurd hs.symm (apart b y x hp)
    | some c =>
      obtain ⟨rfl, items⟩ := injective.levelBinding.later b c x y hp hq hs
      exact ⟨rfl, items⟩

/-- What is assumed of the hashes: they tell inputs apart, no hash begins another, and no block has that of the root. -/
structure HashScheme.Ideal (scheme : HashScheme) : Prop where
  injective : scheme.Injective
  delimited : SelfDelimiting fun hash => ∃ input, hash = scheme.hashFunction input
  fresh : ∀ input, scheme.hashFunction input ≠ scheme.noneHash

def Request.Hashed (scheme : HashScheme) (req : Request) : Prop :=
  ∃ items, req.blockHashes = chain (hashStep scheme) none items

theorem nodup_hashesAt_of_made (ideal : scheme.Ideal) {hashes : List Bytes}
    (made : ∀ hash ∈ hashes, ∃ input, hash = scheme.hashFunction input) (nodup : hashes.Nodup) {hashBlockSize bs : Nat}
    (hp : 0 < bs) (smaller : 0 < hashBlockSize) (multiple : bs % hashBlockSize = 0) :
    (hashesAt hashBlockSize hashes bs).Nodup := by
  unfold hashesAt
  split
  · exact nodup
  have scaled := Nat.div_pos (Nat.le_of_dvd hp (Nat.dvd_of_mod_eq_zero multiple)) smaller
  unfold blockHashListWithBlockSize
  generalize bs / hashBlockSize = scale at scaled
  rw [nodup_map_iff_inj_on nodup_range]
  intro i hi j hi' hs
  have room : ∀ {k}, k ∈ range (hashes.length / scale) → k * scale + scale ≤ hashes.length := by
    intro k hm
    have hb := mem_range.mp hm
    have := (Nat.le_div_iff_mul_le scaled).mp (Nat.succ_le_of_lt hb)
    rwa [Nat.succ_mul] at this
  have slices : slice hashes (i * scale) (i * scale + scale) = slice hashes (j * scale) (j * scale + scale) :=
    flatten_inj ideal.delimited
      (fun hash hm => made hash ((take_sublist _ _).subset ((drop_sublist _ _).subset hm)))
      (fun hash hm => made hash ((take_sublist _ _).subset ((drop_sublist _ _).subset hm)))
      ((length_slice (room hi)).trans (length_slice (room hi')).symm) hs
  -- The first hashes of the slices agree, and no hash occurs twice.
  have firsts := congrArg (fun hashes => hashes[0]?) slices
  simp only [slice_get? _ scaled] at firsts
  have here : i * scale < hashes.length := by have := room hi; omega
  have equal := nodup.getElem_inj_iff.mp (Option.some.inj
    ((getElem?_eq_getElem here).symm.trans (firsts.trans
      (getElem?_eq_getElem (show j * scale + 0 < _ by have := room hi'; omega)))))
  exact Nat.eq_of_mul_eq_mul_right scaled (by omega)

namespace Request.Hashed

variable {req : Request} (hashed : req.Hashed scheme)

include hashed

theorem made {hash : Bytes} (hm : hash ∈ req.blockHashes) : ∃ input, hash = scheme.hashFunction input := by
  obtain ⟨items, chained⟩ := hashed
  rw [chained] at hm
  obtain ⟨j, hf⟩ := mem_iff_getElem?.mp hm
  obtain ⟨item, rfl⟩ := chain_get?_eq_step hf
  exact ⟨_, rfl⟩

theorem nodup (ideal : scheme.Ideal) : req.blockHashes.Nodup := by
  obtain ⟨items, chained⟩ := hashed
  rw [chained]
  exact nodup_chain (ideal.injective.binding ideal.fresh) items

end Request.Hashed

/-- The features the loop takes in: those reached and not passed yet, up to one that runs past the block. -/
def seen (startTokenIdx endTokenIdx : Nat) : List MultiModalFeature → List MultiModalFeature
  | [] => []
  | feature :: rest =>
    if endTokenIdx > feature.offset then
      if startTokenIdx ≥ feature.stop then seen startTokenIdx endTokenIdx rest
      else if endTokenIdx ≥ feature.stop then feature :: seen startTokenIdx endTokenIdx rest
      else [feature]
    else []

def scanned (startTokenIdx endTokenIdx : Nat) (features : List MultiModalFeature) : List MultiModalFeature :=
  match features.getLast? with
  | none => []
  | some last => if last.stop ≤ startTokenIdx then [] else seen startTokenIdx endTokenIdx features

theorem mmKeyLoop_keys (s e : Nat) (features : List MultiModalFeature) (curr : Nat) :
    (mmKeyLoop s e features curr).1 = (seen s e features).map (·.key s) := by
  induction features generalizing curr with
  | nil => rfl
  | cons feature rest ih =>
    simp only [mmKeyLoop, seen]
    split
    · split
      · exact ih _
      · split
        · simp [ih]
        · rfl
    · rfl

theorem mmKeyLoop_cursor (s e : Nat) (before : s ≤ e) (features : List MultiModalFeature) (curr : Nat) :
    ∃ k, (mmKeyLoop s e features curr).2 = curr + k ∧ ∀ f ∈ features.take k, f.stop ≤ e := by
  induction features generalizing curr with
  | nil => exact ⟨0, rfl, by simp⟩
  | cons feature rest ih =>
    obtain ⟨k, next, passed⟩ := ih (curr + 1)
    simp only [mmKeyLoop]
    split
    · split
      · refine ⟨k + 1, by rw [next]; omega, ?_⟩
        intro f hm
        rcases mem_cons.mp (take_succ_cons ▸ hm) with rfl | later
        · omega
        · exact passed f later
      · split
        · rename_i _ _ hw
          refine ⟨k + 1, by simp only [next]; omega, ?_⟩
          intro f hm
          rcases mem_cons.mp (take_succ_cons ▸ hm) with rfl | later
          · exact hw
          · exact passed f later
        · exact ⟨0, rfl, by simp⟩
    · exact ⟨0, rfl, by simp⟩

theorem seen_drop {s e : Nat} (before : s < e) (features : List MultiModalFeature) {k : Nat}
    (passed : ∀ f ∈ features.take k, f.stop ≤ s) : seen s e (features.drop k) = seen s e features := by
  induction k generalizing features with
  | zero => rfl
  | succ k ih =>
    cases features with
    | nil => rfl
    | cons feature rest =>
      have ended := passed feature (by simp)
      have reached : e > feature.offset := by
        have : feature.offset ≤ feature.stop := Nat.le_add_right _ _
        omega
      have skip : seen s e (feature :: rest) = seen s e rest := by
        simp only [seen]
        rw [if_pos reached, if_pos ended]
      rw [skip]
      exact ih rest (fun f hm => passed f (by simp [hm]))

section

variable (scheme) (bs : Nat) (req : Request) {left right : List ExtraKey}

def packed (keys : List ExtraKey) : Option (List ExtraKey) := if keys = [] then none else some keys

theorem packed_inj (hs : packed left = packed right) : left = right := by
  unfold packed at hs
  split at hs <;> split at hs <;> simp_all

theorem packed_eq_iff : packed left = packed right ↔ left = right :=
  ⟨packed_inj, congrArg packed⟩

def blockKeys (features : List MultiModalFeature) (i : Nat) : List ExtraKey :=
  genLoraExtraHashKeys req ++ features.map (·.key (i * bs)) ++ cacheSaltKeys req (i * bs) ++
    genPromptEmbedsExtraHashKeys scheme req (i * bs) (i * bs + bs)

def blockItem (features : List MultiModalFeature) (i : Nat) : BlockItem :=
  ⟨slice req.allTokenIds (i * bs) (i * bs + bs), packed (blockKeys scheme bs req features i)⟩

def scannedItem (features : List MultiModalFeature) (i : Nat) : BlockItem :=
  blockItem scheme bs req (scanned (i * bs) (i * bs + bs) features) i

/-- The list a call scans: a call that finds hashes already there looks at the last feature only. -/
def scanList (hashed : Nat) : List MultiModalFeature :=
  if hashed = 0 then req.mmFeatures else req.mmFeatures.drop (req.mmFeatures.length - 1)

variable {scheme bs req}

/-- The cursor stands in `features` behind features that ended before the position. -/
def CursorAt (all features : List MultiModalFeature) (position : Nat) (cursor : Int) : Prop :=
  ∃ k, all.drop (if cursor < 0 then (all.length + cursor).toNat else cursor.toNat) = features.drop k ∧
    (∀ f ∈ features.take k, f.stop ≤ position) ∧ features.getLast? = all.getLast?

variable {features : List MultiModalFeature} {cursor : Int}

theorem genMm_scanned {s e : Nat} (before : s < e) (at_ : CursorAt req.mmFeatures features s cursor) :
    (genMmExtraHashKeys req s e cursor).1 = (scanned s e features).map (·.key s) ∧
      CursorAt req.mmFeatures features e (genMmExtraHashKeys req s e cursor).2 := by
  obtain ⟨k, position, passed, last⟩ := at_
  have later : ∀ f ∈ features.take k, f.stop ≤ e := fun f hm => by
    have := passed f hm
    omega
  unfold genMmExtraHashKeys scanned
  rw [last]
  cases hf : req.mmFeatures.getLast? with
  | none => exact ⟨rfl, k, position, later, last⟩
  | some final =>
    by_cases ended : final.stop ≤ s
    · simp only [if_pos ended]
      exact ⟨rfl, k, position, later, last⟩
    simp only [if_neg ended]
    rw [position]
    refine ⟨by rw [mmKeyLoop_keys, seen_drop before features passed], ?_⟩
    obtain ⟨j, next, gone⟩ := mmKeyLoop_cursor s e before.le (features.drop k)
      (if cursor < 0 then (req.mmFeatures.length + cursor).toNat else cursor.toNat)
    refine ⟨k + j, ?_, ?_, last⟩
    · rw [next, if_neg (by omega), Int.toNat_natCast, ← drop_drop, position, drop_drop]
    · intro f hm
      rw [take_add] at hm
      rcases mem_append.mp hm with first | second
      · exact later f first
      · exact gone f second

theorem generate_scanned (scheme : HashScheme) {i : Nat} (hp : 0 < bs)
    (at_ : CursorAt req.mmFeatures features (i * bs) cursor) :
    (generateBlockHashExtraKeys scheme req (i * bs) (i * bs + bs) cursor).1 =
      (scannedItem scheme bs req features i).extraKeys ∧
      CursorAt req.mmFeatures features (i * bs + bs)
      (generateBlockHashExtraKeys scheme req (i * bs) (i * bs + bs) cursor).2 := by
  obtain ⟨keys, next⟩ := genMm_scanned (e := i * bs + bs) (by omega) at_
  unfold generateBlockHashExtraKeys
  simp only [keys]
  constructor
  · rw [apply_ite Prod.fst]
    rfl
  · rw [apply_ite Prod.snd, ite_self]
    exact next

theorem hashLoop_eq_chain (hp : 0 < bs) {fuel i : Nat}
    (enough : req.numTokens / bs ≤ i + fuel) {parent : Option Bytes}
    (at_ : CursorAt req.mmFeatures features (i * bs) cursor) :
    hashLoop scheme bs req fuel (i * bs) parent cursor =
      chain (hashStep scheme) parent ((range' i (req.numTokens / bs - i)).map (scannedItem scheme bs req features)) := by
  induction fuel generalizing i parent cursor with
  | zero =>
    rw [show req.numTokens / bs - i = 0 by omega]
    rfl
  | succ fuel ih =>
    unfold hashLoop
    by_cases beyond : i * bs + bs > req.numTokens
    · have none_left : req.numTokens / bs ≤ i := by
        rw [← Nat.succ_mul] at beyond
        exact Nat.lt_succ_iff.mp ((Nat.div_lt_iff_lt_mul hp).mpr beyond)
      rw [if_pos beyond, show req.numTokens / bs - i = 0 by omega]
      rfl
    have one_left : i + 1 ≤ req.numTokens / bs := by
      rw [← Nat.succ_mul] at beyond
      exact (Nat.le_div_iff_mul_le hp).mpr (Nat.le_of_not_lt beyond)
    obtain ⟨keys, next⟩ := generate_scanned scheme hp at_
    rw [← Nat.succ_mul] at next
    rw [if_neg beyond, show req.numTokens / bs - i = (req.numTokens / bs - (i + 1)) + 1 by omega,
      range'_succ, map_cons, chain]
    simp only [keys]
    apply congrArg₂ cons rfl
    show hashLoop scheme bs req fuel (i * bs + bs)
      (some (hashStep scheme parent (scannedItem scheme bs req features i))) _ = _
    rw [← Nat.succ_mul]
    exact ih (by omega) next

theorem scanList_cursor (hp : 0 < bs) (hashed position : Nat) :
    CursorAt req.mmFeatures (scanList req hashed) position (if hashed * bs > 0 then -1 else 0) := by
  by_cases fresh : hashed = 0
  · subst fresh
    rw [Nat.zero_mul]
    exact ⟨0, rfl, by simp, rfl⟩
  rw [if_pos (Nat.mul_pos (Nat.pos_of_ne_zero fresh) hp), scanList, if_neg fresh]
  refine ⟨0, ?_, by simp, ?_⟩
  · rw [show (req.mmFeatures.length + (-1 : Int)).toNat = req.mmFeatures.length - 1 by omega]
    rfl
  · rw [getLast?_drop]
    split
    · rw [length_eq_zero_iff.mp (by omega : req.mmFeatures.length = 0)]
      rfl
    · rfl

theorem requestBlockHasher_eq_chain (scheme : HashScheme) (hp : 0 < bs) (req : Request) :
    requestBlockHasher scheme bs req = chain (hashStep scheme) req.blockHashes.getLast?
      ((range' req.blockHashes.length (req.numTokens / bs - req.blockHashes.length)).map
      (scannedItem scheme bs req (scanList req req.blockHashes.length))) := by
  unfold requestBlockHasher
  by_cases beyond : req.blockHashes.length * bs + bs > req.numTokens
  · have none_left : req.numTokens / bs ≤ req.blockHashes.length := by
      rw [← Nat.succ_mul] at beyond
      exact Nat.lt_succ_iff.mp ((Nat.div_lt_iff_lt_mul hp).mpr beyond)
    rw [if_pos beyond, Nat.sub_eq_zero_of_le none_left]
    rfl
  · rw [if_neg beyond]
    have enough : req.numTokens / bs ≤ req.blockHashes.length + req.numTokens :=
      (Nat.div_le_self _ _).trans (Nat.le_add_left _ _)
    exact hashLoop_eq_chain hp enough (scanList_cursor hp _ _)

end

instance instCountableChar : Countable Char := Function.Injective.countable (f := Char.toNat) fun _ _ same => Char.toNat_inj.mp same

instance instCountableString : Countable String := Function.Injective.countable (f := String.toList) fun _ _ same => String.toList_inj.mp same

theorem ExtraKey.code_injective : Function.Injective (fun key : ExtraKey => match key with
    | .text value => (Sum.inl value : String ⊕ (String × Int) ⊕ Bytes)
    | .item identifier offset => .inr (.inl (identifier, offset))
    | .digest value => .inr (.inr value)) := by
  intro a b hs
  cases a <;> cases b <;> simp_all

instance : Countable ExtraKey := ExtraKey.code_injective.countable

theorem HashInput.code_injective : Function.Injective
    (fun input : HashInput => (input.parentBlockHash, input.currBlockTokenIds, input.extraKeys)) := by
  intro a b hs
  cases a
  simp_all

instance : Countable HashInput := HashInput.code_injective.countable

def unary (n : Nat) : Bytes := List.replicate n 1 ++ [0]

theorem unary_append_inj {m n : Nat} (hs : unary m ++ s = unary n ++ t) : m = n := by
  induction m generalizing n with
  | zero =>
    cases n with
    | zero => rfl
    | succ n => simp [unary, replicate_succ] at hs
  | succ m ih =>
    cases n with
    | zero => simp [unary, replicate_succ] at hs
    | succ n =>
      have tails : unary m ++ s = unary n ++ t := by
        simpa [unary, replicate_succ] using hs
      rw [ih tails]

/-- Hashes that are numbers written in unary: no two inputs share one, and none begins another. -/
noncomputable def unaryScheme : HashScheme where
  hashFunction input := unary (Classical.choose (exists_injective_nat HashInput) input)
  noneHash := [2]
  sha256 data := unary (Classical.choose (exists_injective_nat Bytes) data)

theorem unaryScheme_delimits {x y : HashInput}
    (hs : unaryScheme.hashFunction x ++ s = unaryScheme.hashFunction y ++ t) : x = y :=
  Classical.choose_spec (exists_injective_nat HashInput) (unary_append_inj hs)

theorem unaryScheme_injective : unaryScheme.Injective where
  hash x y hs := unaryScheme_delimits (t := []) (by rw [hs])
  nonempty input := by simp [unaryScheme, unary]

theorem unaryScheme_selfDelimiting : SelfDelimiting fun hash => ∃ input, hash = unaryScheme.hashFunction input := by
  rintro _ _ s t ⟨x, rfl⟩ ⟨y, rfl⟩ hs
  rw [unaryScheme_delimits hs]

theorem unaryScheme_sha_injective : Function.Injective unaryScheme.sha256 := by
  intro x y hs
  apply Classical.choose_spec (exists_injective_nat Bytes)
  exact unary_append_inj (s := []) (t := []) (by simpa [unaryScheme] using hs)

theorem unaryScheme_fresh_root (input : HashInput) : unaryScheme.hashFunction input ≠ unaryScheme.noneHash := by
  show unary _ ≠ [2]
  intro hs
  have last := congrArg getLast? hs
  simp [unary] at last

theorem unaryScheme_ideal : unaryScheme.Ideal := ⟨unaryScheme_injective, unaryScheme_selfDelimiting, unaryScheme_fresh_root⟩

end KVOffload.Core
