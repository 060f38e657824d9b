import KVOffload.Core.Session

/-!
# Prefix-cache isolation

Which requests share a block hash. In the flat tuple of extra keys a LoRA name and a cache salt look the same.
-/

namespace KVOffload.Core

open List

section

def flatKeys (lora : Option String) (items : List (String × Int)) (salt : Option String) (embeds : Option Bytes) :
    List ExtraKey :=
  lora.toList.map .text ++ items.map (fun item => .item item.1 item.2) ++ salt.toList.map .text ++ embeds.toList.map .digest

/-- One side has a LoRA adapter and no salt, the other a salt of the same name and no adapter. -/
def Swapped (lora salt lora' salt' : Option String) : Prop :=
  (lora.isSome ∧ lora = salt' ∧ salt = none ∧ lora' = none) ∨ (lora'.isSome ∧ lora' = salt ∧ salt' = none ∧ lora = none)

instance (lora salt lora' salt' : Option String) : Decidable (Swapped lora salt lora' salt') :=
  inferInstanceAs (Decidable (_ ∨ _))

theorem filterMap_flatKeys {α : Type} (f : ExtraKey → Option α) (noText : ∀ text, f (.text text) = none)
    (lora : Option String) (items : List (String × Int)) (salt : Option String) (embeds : Option Bytes) :
    (flatKeys lora items salt embeds).filterMap f =
      items.filterMap (fun item => f (.item item.1 item.2)) ++ embeds.toList.filterMap fun value => f (.digest value) := by
  have none_left (o : Option String) : (o.toList.map ExtraKey.text).filterMap f = [] := by cases o <;> simp [noText]
  simp [flatKeys, none_left]

section

variable (lora : Option String) (items : List (String × Int)) (salt : Option String) (embeds : Option Bytes)

include lora items salt embeds

theorem flatKeys_items :
    (flatKeys lora items salt embeds).filterMap (fun key => match key with
      | .item identifier offset => some (identifier, offset)
      | _ => none) = items := by
  simp [filterMap_flatKeys]

theorem flatKeys_embeds :
    (flatKeys lora items salt embeds).filterMap (fun key => match key with
      | .digest value => some value
      | _ => none) = embeds.toList := by
  simp [filterMap_flatKeys]

end

theorem flatKeys_eq_iff {lora lora' : Option String} {items items' : List (String × Int)} {salt salt' : Option String}
    {embeds embeds' : Option Bytes} :
    flatKeys lora items salt embeds = flatKeys lora' items' salt' embeds' ↔
      items = items' ∧ embeds = embeds' ∧ (lora = lora' ∧ salt = salt' ∨ items = [] ∧ Swapped lora salt lora' salt') := by
  constructor
  · intro hs
    have middle : items = items' := by
      rw [← flatKeys_items lora items, hs, flatKeys_items]
    have ends : embeds = embeds' := by
      have lists : embeds.toList = embeds'.toList := by
        rw [← flatKeys_embeds, hs, flatKeys_embeds]
      cases embeds <;> cases embeds' <;> simp_all
    subst middle ends
    refine ⟨rfl, rfl, ?_⟩
    have texts := append_cancel_right hs
    cases items with
    | nil =>
      cases lora <;> cases salt <;> cases lora' <;> cases salt' <;> simp_all [Swapped]
    | cons item rest =>
      cases lora with
      | none =>
        cases lora' with
        | none => cases salt <;> cases salt' <;> simp_all
        | some name => simp at texts
      | some name =>
        cases lora' with
        | none => simp at texts
        | some name' => cases salt <;> cases salt' <;> simp_all
  · rintro ⟨rfl, rfl, ⟨rfl, rfl⟩ | ⟨rfl, swapped⟩⟩
    · rfl
    · rcases swapped with ⟨_, rfl, rfl, rfl⟩ | ⟨_, rfl, rfl, rfl⟩ <;> simp [flatKeys]

end

section

variable (bs : Nat)

namespace Request

def loraName (request : Request) : Option String := request.loraRequest.map (·.loraName)

def shownSalt (request : Request) : Option String := request.cacheSalt.filter (· ≠ "")

def embedsOf (request : Request) (j : Nat) : Option Bytes :=
  request.promptEmbeds.map fun rows => (slice rows (j * bs) (j * bs + bs)).flatten

def itemsOf (request : Request) (j : Nat) : List (String × Nat) :=
  (request.mmFeatures.filter (Overlaps (j * bs) (j * bs + bs) ·)).map
    fun feature => (feature.identifier, feature.offset)

end Request

def HashedBlock.shown (block : HashedBlock) : List Token × List (String × Nat) :=
  (block.tokens, block.features.map fun feature => (feature.identifier, feature.offset))

structure SameContext (left right : Request) (blocks : Nat) : Prop where
  tokens : left.allTokenIds.take (blocks * bs) = right.allTokenIds.take (blocks * bs)
  lora : left.loraName = right.loraName
  salt : left.cacheSalt = right.cacheSalt
  items : ∀ j < blocks, left.itemsOf bs j = right.itemsOf bs j
  embeds : ∀ j < blocks, left.embedsOf bs j = right.embedsOf bs j

/-- The hashes show the same first blocks, and still the requests differ: one's LoRA name is the other's salt, or they differ
in a salt that is not shown, in tokens replaced after they were hashed or in items the hasher missed. -/
def Confusable (left right : Request) (view view' : List HashedBlock) (blocks : Nat) : Prop :=
  (blocks ≤ view.length ∧ blocks ≤ view'.length) ∧
    (∀ j < blocks, view[j]?.map HashedBlock.shown = view'[j]?.map HashedBlock.shown) ∧
    (∀ j < blocks, left.embedsOf bs j = right.embedsOf bs j) ∧
    (blocks = 1 ∧ (∀ block ∈ view[0]?, block.features = []) ∧
        Swapped left.loraName left.shownSalt right.loraName right.shownSalt ∨
      left.loraName = right.loraName ∧ left.shownSalt = right.shownSalt ∧
        (left.cacheSalt ≠ right.cacheSalt ∨
          left.allTokenIds.take (blocks * bs) ≠ right.allTokenIds.take (blocks * bs) ∨
          ∃ j < blocks, left.itemsOf bs j ≠ right.itemsOf bs j))

set_option synthInstance.maxSize 256 in
instance (left right : Request) (view view' : List HashedBlock) (blocks : Nat) :
    Decidable (Confusable bs left right view view' blocks) :=
  inferInstanceAs (Decidable (_ ∧ _))

variable {bs}

theorem blockKeys_eq_flat (scheme : HashScheme) (hp : 0 < bs) (request : Request)
    (features : List MultiModalFeature) (j : Nat) :
    blockKeys scheme bs request features j =
      flatKeys request.loraName (features.map fun f => (f.identifier, (f.offset : Int) - (j * bs : Nat)))
      (if j = 0 then request.shownSalt else none) ((request.embedsOf bs j).map scheme.sha256) := by
  have lora : genLoraExtraHashKeys request = request.loraName.toList.map .text := by
    unfold genLoraExtraHashKeys Request.loraName
    cases request.loraRequest <;> rfl
  have salt : cacheSaltKeys request (j * bs) = (if j = 0 then request.shownSalt else none).toList.map .text := by
    unfold cacheSaltKeys Request.shownSalt
    by_cases first : j = 0
    · subst first
      cases request.cacheSalt with
      | none => rfl
      | some salt => by_cases empty : salt = "" <;> simp [empty, Option.filter]
    · have later : j * bs ≠ 0 := Nat.mul_ne_zero first (by omega)
      cases request.cacheSalt <;> simp [first, later]
  have embeds : genPromptEmbedsExtraHashKeys scheme request (j * bs) (j * bs + bs) =
      ((request.embedsOf bs j).map scheme.sha256).toList.map .digest := by
    unfold genPromptEmbedsExtraHashKeys Request.embedsOf
    cases request.promptEmbeds <;> rfl
  rw [blockKeys, lora, salt, embeds, flatKeys, map_map]
  rfl

theorem relative_eq_iff {left right : List MultiModalFeature} (s : Nat) :
    left.map (fun f => (f.identifier, (f.offset : Int) - s)) = right.map (fun f => (f.identifier, (f.offset : Int) - s)) ↔
      left.map (fun f => (f.identifier, f.offset)) = right.map (fun f => (f.identifier, f.offset)) := by
  have shift (features : List MultiModalFeature) : features.map (fun f => (f.identifier, (f.offset : Int) - s)) =
      (features.map fun f => (f.identifier, f.offset)).map fun item => (item.1, (item.2 : Int) - s) := by
    rw [map_map]
    rfl
  rw [shift, shift]
  apply List.map_inj_right
  rintro ⟨name, offset⟩ ⟨name', offset'⟩ hs
  obtain ⟨names, shifted⟩ := Prod.mk.inj hs
  exact Prod.ext names (by simp only at shifted ⊢; omega)

variable {scheme : HashScheme} {left right : Request}

variable (sha : Function.Injective scheme.sha256) (hp : 0 < bs)

include sha hp in
theorem viewItem_eq_iff
    {j : Nat} {block block' : HashedBlock} :
    left.viewItem scheme bs j block = right.viewItem scheme bs j block' ↔
      block.shown = block'.shown ∧ left.embedsOf bs j = right.embedsOf bs j ∧
      (left.loraName = right.loraName ∧ (j = 0 → left.shownSalt = right.shownSalt) ∨
      j = 0 ∧ block.features = [] ∧ Swapped left.loraName left.shownSalt right.loraName right.shownSalt) := by
  have digests : (left.embedsOf bs j).map scheme.sha256 = (right.embedsOf bs j).map scheme.sha256 ↔
      left.embedsOf bs j = right.embedsOf bs j := (Option.map_injective sha).eq_iff
  unfold Request.viewItem HashedBlock.shown
  rw [BlockItem.mk.injEq, packed_eq_iff, blockKeys_eq_flat scheme hp, blockKeys_eq_flat scheme hp, flatKeys_eq_iff,
    relative_eq_iff, digests, Prod.mk.injEq]
  by_cases front : j = 0
  · subst front
    simp only [if_true, map_eq_nil_iff]
    tauto
  · simp only [front, if_false, false_and, or_false, false_implies]
    constructor
    · rintro ⟨tokens, items, embeds, hs | ⟨_, swapped⟩⟩
      · exact ⟨⟨tokens, items⟩, embeds, hs⟩
      · rcases swapped with ⟨some_, none_, _⟩ | ⟨some_, none_, _⟩ <;> simp [none_] at some_
    · rintro ⟨⟨tokens, items⟩, embeds, hs⟩
      exact ⟨tokens, items, embeds, .inl hs⟩

def HashedAlike (scheme : HashScheme) (bs : Nat) (left right : Request) (view view' : List HashedBlock)
    (blocks : Nat) : Prop :=
  (blocks ≤ view.length ∧ blocks ≤ view'.length) ∧
    (view.mapIdx (left.viewItem scheme bs)).take blocks = (view'.mapIdx (right.viewItem scheme bs)).take blocks

variable {view' view : List HashedBlock}

variable {blocks : Nat}

theorem hashedAlike_iff_blocks :
    HashedAlike scheme bs left right view view' blocks ↔
      (blocks ≤ view.length ∧ blocks ≤ view'.length) ∧ ∀ j < blocks, ∀ block ∈ view[j]?, ∀ block' ∈ view'[j]?,
      left.viewItem scheme bs j block = right.viewItem scheme bs j block' := by
  apply and_congr_right
  rintro ⟨hi, hi'⟩
  constructor
  · intro hs j hw block hf block' hf'
    have item := congrArg (fun items => items[j]?) hs
    simp only [getElem?_take_of_lt hw, getElem?_mapIdx, Option.mem_def.mp hf, Option.mem_def.mp hf',
      Option.map_some, Option.some.injEq] at item
    exact item
  intro each
  apply ext_getElem?
  intro j
  by_cases hw : j < blocks
  · have hf := getElem?_eq_getElem (show j < view.length by omega)
    have hf' := getElem?_eq_getElem (show j < view'.length by omega)
    rw [getElem?_take_of_lt hw, getElem?_take_of_lt hw, getElem?_mapIdx, getElem?_mapIdx,
      hf, hf', Option.map_some, Option.map_some, each j hw _ hf _ hf']
  · simp [getElem?_take_eq_none (Nat.le_of_not_lt hw)]

include sha hp in
theorem hashedAlike_iff
    (some_block : 0 < blocks) :
    HashedAlike scheme bs left right view view' blocks ↔
      (blocks ≤ view.length ∧ blocks ≤ view'.length) ∧
      (∀ j < blocks, view[j]?.map HashedBlock.shown = view'[j]?.map HashedBlock.shown) ∧
      (∀ j < blocks, left.embedsOf bs j = right.embedsOf bs j) ∧
      (blocks = 1 ∧ (∀ block ∈ view[0]?, block.features = []) ∧
      Swapped left.loraName left.shownSalt right.loraName right.shownSalt ∨
      left.loraName = right.loraName ∧ left.shownSalt = right.shownSalt) := by
  rw [hashedAlike_iff_blocks]
  apply and_congr_right
  rintro ⟨hi, hi'⟩
  have hf {j : Nat} (hw : j < blocks) := getElem?_eq_getElem (show j < view.length by omega)
  have hf' {j : Nat} (hw : j < blocks) := getElem?_eq_getElem (show j < view'.length by omega)
  constructor
  · intro hs
    have each := fun j hw => (viewItem_eq_iff sha hp).mp (hs j hw _ (hf hw) _ (hf' hw))
    refine ⟨fun j hw => ?_, fun j hw => (each j hw).2.1, ?_⟩
    · rw [hf hw, hf' hw, Option.map_some, Option.map_some, (each j hw).1]
    rcases (each 0 some_block).2.2 with ⟨lora, salt⟩ | ⟨_, bare, swapped⟩
    · exact .inr ⟨lora, salt rfl⟩
    rcases lt_or_ge 1 blocks with second | single
    · -- The second block shows the LoRA name and no salt.
      rcases (each 1 second).2.2 with ⟨lora, _⟩ | ⟨impossible, _⟩
      · rcases swapped with ⟨some_, _, _, none_⟩ | ⟨some_, _, _, none_⟩
        · rw [lora, none_] at some_
          simp at some_
        · rw [← lora, none_] at some_
          simp at some_
      · simp at impossible
    · refine .inl ⟨by omega, fun block first => ?_, swapped⟩
      rw [hf some_block] at first
      cases first
      exact bare
  · rintro ⟨shown, embeds, texts⟩ j hw block at_ block' at'
    have hs := shown j hw
    rw [at_, at', Option.map_some, Option.map_some, Option.some.injEq] at hs
    refine (viewItem_eq_iff sha hp).mpr ⟨hs, embeds j hw, ?_⟩
    rcases texts with ⟨rfl, bare, swapped⟩ | ⟨lora, salt⟩
    · obtain rfl : j = 0 := by omega
      exact .inr ⟨rfl, bare block at_, swapped⟩
    · exact .inl ⟨lora, fun _ => salt⟩

include sha hp in
theorem confusable_iff
    (some_block : 0 < blocks) :
    Confusable bs left right view view' blocks ↔
      HashedAlike scheme bs left right view view' blocks ∧ ¬ SameContext bs left right blocks := by
  rw [hashedAlike_iff sha hp some_block]
  constructor
  · rintro ⟨hi, shown, embeds, swapped | ⟨lora, salt, differ⟩⟩
    · refine ⟨⟨hi, shown, embeds, .inl swapped⟩, fun hs => ?_⟩
      obtain ⟨_, _, ⟨some_, _, _, none_⟩ | ⟨some_, _, _, none_⟩⟩ := swapped
      · rw [hs.lora, none_] at some_
        simp at some_
      · rw [← hs.lora, none_] at some_
        simp at some_
    · refine ⟨⟨hi, shown, embeds, .inr ⟨lora, salt⟩⟩, fun hs => ?_⟩
      rcases differ with salts | tokens | ⟨j, hw, other⟩
      · exact salts hs.salt
      · exact tokens hs.tokens
      · exact other (hs.items j hw)
  · rintro ⟨⟨hi, shown, embeds, swapped | ⟨lora, salt⟩⟩, differ⟩
    · exact ⟨hi, shown, embeds, .inl swapped⟩
    · refine ⟨hi, shown, embeds, .inr ⟨lora, salt, ?_⟩⟩
      by_contra alike
      simp only [not_or, not_not, not_exists, not_and] at alike
      exact differ ⟨alike.2.1, lora, alike.1, alike.2.2, embeds⟩

end

section

variable {scheme : HashScheme} {bs : Nat} {left right : Request} {view view' : List HashedBlock} {scale : Nat}

theorem Request.Viewed.length (viewed : left.Viewed scheme bs view) : left.blockHashes.length = view.length := by
  rw [viewed, length_chain, length_mapIdx]

theorem HashedAlike.take_eq (viewed : left.Viewed scheme bs view)
    (viewed' : right.Viewed scheme bs view') (alike : HashedAlike scheme bs left right view view' blocks) :
    left.blockHashes.take blocks = right.blockHashes.take blocks := by
  rw [viewed, viewed', take_chain, take_chain, alike.2]

theorem hashes_meet_iff (injective : scheme.Injective) (viewed : left.Viewed scheme bs view)
    (viewed' : right.Viewed scheme bs view') (i : Nat) :
    (∃ hash, left.blockHashes[i]? = some hash ∧ right.blockHashes[i]? = some hash) ↔
      HashedAlike scheme bs left right view view' (i + 1) := by
  constructor
  · rintro ⟨hash, hf, hf'⟩
    have full := viewed.length ▸ (List.getElem?_eq_some_iff.mp hf).1
    have full' := viewed'.length ▸ (List.getElem?_eq_some_iff.mp hf').1
    rw [viewed] at hf
    rw [viewed'] at hf'
    exact ⟨⟨full, full'⟩, take_eq_of_chain_get? injective.levelBinding hf hf'⟩
  · intro alike
    have hi := viewed.length ▸ alike.1.1
    have heads := congrArg (fun hashes => hashes[i]?) (alike.take_eq viewed viewed')
    simp only [getElem?_take_of_lt (Nat.lt_succ_self i)] at heads
    have hf := getElem?_eq_getElem hi
    exact ⟨_, hf, heads.symm.trans hf⟩

variable (bs) in
def cacheKey (request : Request) (scale group i : Nat) : Option Bytes :=
  (blockHashListWithBlockSize request.blockHashes bs (scale * bs))[i]?.map
    (makeBlockHashWithGroupId · group)

theorem cacheKey_eq_some_iff (hp : 0 < bs) {request : Request} (scaled : 0 < scale)
    {group i : Nat} {key : Bytes} :
    cacheKey bs request scale group i = some key ↔ i * scale + scale ≤ request.blockHashes.length ∧
      getValueAt request.blockHashes scale i ++ groupIdBytes group = key := by
  have hi : i < request.blockHashes.length / scale ↔ i * scale + scale ≤ request.blockHashes.length := by
    rw [← Nat.succ_mul]
    exact Nat.le_div_iff_mul_le scaled
  unfold cacheKey blockHashListWithBlockSize
  rw [Nat.mul_div_cancel _ hp, ← hi]
  by_cases full : i < request.blockHashes.length / scale
  · simp [full, makeBlockHashWithGroupId]
  · simp [full]

theorem keys_meet_iff (injective : scheme.Injective)
    (delimited : SelfDelimiting fun hash => ∃ input, hash = scheme.hashFunction input) (hp : 0 < bs)
    (viewed : left.Viewed scheme bs view) (viewed' : right.Viewed scheme bs view')
    (scaled : 0 < scale) (group i : Nat) :
    (∃ key, cacheKey bs left scale group i = some key ∧ cacheKey bs right scale group i = some key) ↔
      HashedAlike scheme bs left right view view' (i * scale + scale) := by
  simp only [cacheKey_eq_some_iff hp scaled]
  constructor
  · rintro ⟨key, ⟨full, made⟩, ⟨full', made'⟩⟩
    have joined := append_cancel_right (made.trans made'.symm)
    have slices : slice left.blockHashes (i * scale) (i * scale + scale) =
        slice right.blockHashes (i * scale) (i * scale + scale) := flatten_inj delimited
      (fun hash hm => viewed.hashed.made ((take_sublist _ _).subset ((drop_sublist _ _).subset hm)))
      (fun hash hm => viewed'.hashed.made ((take_sublist _ _).subset ((drop_sublist _ _).subset hm)))
      ((length_slice full).trans (length_slice full').symm) joined
    -- The last hash of the slice stands for all blocks up to the end of the slice.
    have last := congrArg (fun hashes => hashes[scale - 1]?) slices
    simp only [slice_get? _ (Nat.sub_lt scaled one_pos)] at last
    have hf := getElem?_eq_getElem (show i * scale + (scale - 1) < left.blockHashes.length by omega)
    have alike := (hashes_meet_iff injective viewed viewed' _).mp ⟨_, hf, last.symm.trans hf⟩
    rwa [show i * scale + (scale - 1) + 1 = i * scale + scale by omega] at alike
  · intro alike
    have values : getValueAt left.blockHashes scale i = getValueAt right.blockHashes scale i := by
      unfold getValueAt
      rw [← slice_take left.blockHashes le_rfl, ← slice_take right.blockHashes le_rfl, alike.take_eq viewed viewed']
    exact ⟨_, ⟨viewed.length ▸ alike.1.1, rfl⟩, ⟨viewed'.length ▸ alike.1.2, by rw [values]⟩⟩

end

def promptUnder (lora salt : Option String) : Request where
  requestId := 0
  samplingParams := { maxTokens := 16 }
  maxTokens := 16
  promptTokenIds := some [1, 2, 3, 4, 5]
  numPromptTokens := 5
  allTokenIds := [1, 2, 3, 4, 5]
  loraRequest := lora.map (⟨·, 1⟩)
  cacheSalt := salt

end KVOffload.Core
