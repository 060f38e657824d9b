import KVOffload.Core.Incremental

/-!
# Streaming sessions

An update drops the tokens that are not computed, appends the next chunk and hashes the blocks that became full; it never takes
a hash back. The runs keep a record of what the hasher saw, which no code reads.
-/

namespace KVOffload.Core

open List

section

variable (scheme : HashScheme) (bs : Nat)

def MultiModalFeature.shift (base : Nat) (feature : MultiModalFeature) : MultiModalFeature :=
  { feature with mmPosition := { feature.mmPosition with offset := feature.mmPosition.offset + base } }

def Request.takeOver (session : Request) (promptTokenIds : List Token) (update : StreamingUpdate) : Request :=
  let numComputedTokens := session.numComputedTokens
  let keptOutputTokens := slice session.allTokenIds session.numPromptTokens numComputedTokens
  let allTokenIds := session.allTokenIds.take numComputedTokens
  let newTokenIds := update.promptTokenIds.getD []
  { session with
    allTokenIds := allTokenIds ++ newTokenIds
    outputTokenIds := []
    promptTokenIds := some (promptTokenIds ++ keptOutputTokens ++ newTokenIds)
    mmFeatures := session.mmFeatures ++ update.mmFeatures.map (MultiModalFeature.shift allTokenIds.length) }

/-- `Scheduler._update_request_as_session`, what it does to the session. `none` is the failed assertion that the
prompt has token ids. -/
def updateRequestAsSession (session : Request) (update : StreamingUpdate) : Option Request := do
  let promptTokenIds ← session.promptTokenIds
  let session := (session.takeOver promptTokenIds update).updateBlockHashes scheme bs
  pure { session with
    numPromptTokens := (session.promptTokenIds.getD []).length
    arrivalTime := update.arrivalTime
    samplingParams := update.samplingParams
    status := .waiting }

/-- What happens to the tokens of a request: generated tokens are appended, and a session takes over an update at a
time when `numComputedTokens` of its tokens are computed. -/
inductive RequestEvent where
  | append (tokenIds : List Token)
  | update (numComputedTokens : Nat) (update : StreamingUpdate)
deriving DecidableEq

namespace Request

def play (req : Request) : RequestEvent → Option Request
  | .append tokenIds => some (req.appendOutputTokenIds scheme bs tokenIds)
  | .update numComputedTokens update =>
    updateRequestAsSession scheme bs { req with numComputedTokens } update

def run (req : Request) (events : List RequestEvent) : Option Request :=
  events.foldlM (play scheme bs) req

end Request

end

structure HashedBlock where
  tokens : List Token
  features : List MultiModalFeature
deriving DecidableEq

variable {req next : Request} {view : List HashedBlock} {event : RequestEvent} {events : List RequestEvent}

section

variable (scheme : HashScheme) (bs : Nat)

namespace Request

def hashedBlock (req : Request) (hashed i : Nat) : HashedBlock :=
  ⟨slice req.allTokenIds (i * bs) (i * bs + bs), scanned (i * bs) (i * bs + bs) (scanList req hashed)⟩

def extendView (req : Request) (view : List HashedBlock) : List HashedBlock :=
  view ++ (List.range' view.length (req.numTokens / bs - view.length)).map
    (req.hashedBlock bs view.length)

def viewOf (req : Request) (view : List HashedBlock) : List RequestEvent → List HashedBlock
  | [] => view
  | event :: rest =>
    match req.play scheme bs event with
    | none => view
    | some next => viewOf next (next.extendView bs view) rest

def viewAfter (req : Request) (events : List RequestEvent) : List HashedBlock :=
  (req.construct scheme bs).viewOf scheme bs (req.extendView bs []) events

def viewItem (req : Request) (i : Nat) (block : HashedBlock) : BlockItem :=
  ⟨block.tokens, packed (blockKeys scheme bs req block.features i)⟩

def Viewed (req : Request) (view : List HashedBlock) : Prop :=
  req.blockHashes = chain (hashStep scheme) none (view.mapIdx (req.viewItem scheme bs))

end Request

variable {scheme bs}

open Request

theorem Request.Viewed.hashed (viewed : req.Viewed scheme bs view) : req.Hashed scheme := ⟨_, viewed⟩

theorem mapIdx_range' {α β : Type} (f : Nat → α) (g : Nat → α → β) (start count : Nat) :
    ((range' start count).map f).mapIdx (fun i => g (i + start)) = (range' start count).map (fun i => g i (f i)) := by
  apply ext_getElem?
  intro i
  by_cases hi : i < count
  · simp [hi, Nat.add_comm]
  · simp [hi]

theorem viewed_updateBlockHashes (hp : 0 < bs) (viewed : req.Viewed scheme bs view) :
    (req.updateBlockHashes scheme bs).Viewed scheme bs (req.extendView bs view) := by
  have hashes := updateBlockHashes_eq_chain hp viewed
  rw [length_mapIdx] at hashes
  unfold Viewed extendView
  rw [hashes, mapIdx_append]
  congr 2
  exact (mapIdx_range' (req.hashedBlock bs view.length) (req.viewItem scheme bs) _ _).symm

structure SameOrigin (before after : Request) : Prop where
  lora : after.loraRequest = before.loraRequest
  salt : after.cacheSalt = before.cacheSalt
  embeds : after.promptEmbeds = before.promptEmbeds

theorem SameOrigin.viewItem {before after : Request} (hs : SameOrigin before after) :
    after.viewItem scheme bs = before.viewItem scheme bs := by
  unfold Request.viewItem blockKeys genLoraExtraHashKeys cacheSaltKeys genPromptEmbedsExtraHashKeys
  rw [hs.lora, hs.salt, hs.embeds]

theorem play_eq_some (played : req.play scheme bs event = some next) :
    ∃ request', SameOrigin req request' ∧ request'.blockHashes = req.blockHashes ∧
      next.blockHashes = (request'.updateBlockHashes scheme bs).blockHashes ∧ SameOrigin request' next ∧
      next.allTokenIds = request'.allTokenIds ∧ next.mmFeatures = request'.mmFeatures := by
  cases event with
  | append tokenIds =>
    cases played
    exact ⟨{ req with
      outputTokenIds := req.outputTokenIds ++ tokenIds
      allTokenIds := req.allTokenIds ++ tokenIds }, ⟨rfl, rfl, rfl⟩, rfl, rfl, ⟨rfl, rfl, rfl⟩, rfl, rfl⟩
  | update numComputedTokens update =>
    obtain ⟨prompt, hf, set⟩ := Option.bind_eq_some_iff.mp played
    cases set
    exact ⟨Request.takeOver { req with numComputedTokens } prompt update, ⟨rfl, rfl, rfl⟩, rfl, rfl, ⟨rfl, rfl, rfl⟩, rfl, rfl⟩

theorem viewed_play (hp : 0 < bs)
    (viewed : req.Viewed scheme bs view) (played : req.play scheme bs event = some next) :
    next.Viewed scheme bs (next.extendView bs view) := by
  obtain ⟨request', origin, hashes, hashed, origin', tokens, features⟩ := play_eq_some played
  have viewed' : request'.Viewed scheme bs view := by
    unfold Viewed
    rw [hashes, origin.viewItem]
    exact viewed
  have extended : next.extendView bs view = request'.extendView bs view := by
    unfold extendView hashedBlock scanList numTokens
    rw [tokens, features]
  have after := viewed_updateBlockHashes hp viewed'
  unfold Viewed at after ⊢
  rw [hashed, after, extended, origin'.viewItem]
  rfl

theorem viewed_run (hp : 0 < bs) {final : Request}
    (viewed : req.Viewed scheme bs view) (ran : req.run scheme bs events = some final) :
    final.Viewed scheme bs (req.viewOf scheme bs view events) := by
  induction events generalizing req view with
  | nil =>
    cases ran
    exact viewed
  | cons event rest ih =>
    obtain ⟨next, played, later⟩ := Option.bind_eq_some_iff.mp ran
    rw [viewOf, played]
    exact ih (viewed_play hp viewed played) later

theorem viewed_construct (scheme : HashScheme) (hp : 0 < bs) (req : Request) :
    (req.construct scheme bs).Viewed scheme bs (req.extendView bs []) := by
  have cleared : { req with blockHashes := [] }.Viewed scheme bs [] := rfl
  exact viewed_updateBlockHashes hp cleared

end

section

variable {scheme : HashScheme} {bs : Nat}

open Request

def tokenBlocks (bs : Nat) (tokens : List Token) : List (List Token) :=
  (List.range (tokens.length / bs)).map fun i => slice tokens (i * bs) (i * bs + bs)

@[simp] theorem length_tokenBlocks (tokens : List Token) : (tokenBlocks bs tokens).length = tokens.length / bs := by
  simp [tokenBlocks]

theorem tokenBlocks_isPrefix_iff (hp : 0 < bs) {old new : List Token} :
    tokenBlocks bs old <+: tokenBlocks bs new ↔ old.take (old.length / bs * bs) <+: new := by
  have whole : old.length / bs * bs ≤ old.length := Nat.div_mul_le_self _ _
  have start : (old.take (old.length / bs * bs)).length = old.length / bs * bs := by
    rw [length_take, min_eq_left whole]
  rw [prefix_iff_eq_take, prefix_iff_eq_take, start, length_tokenBlocks, take_eq_iff_slices]
  unfold tokenBlocks
  rw [← map_take, take_range]
  constructor
  · intro hs
    have fewer : old.length / bs ≤ new.length / bs := by
      have := congrArg length hs
      simp only [length_map, length_range] at this
      omega
    rw [min_eq_left fewer] at hs
    exact fun j hi => map_inj_left.mp hs j (mem_range.mpr hi)
  · intro slices
    have fewer : old.length / bs ≤ new.length / bs := by
      have tokens := take_eq_iff_slices.mpr slices
      have := congrArg length tokens
      rw [start, length_take] at this
      exact (Nat.le_div_iff_mul_le hp).mpr (by omega)
    rw [min_eq_left fewer]
    exact map_congr_left fun j hm => slices j (mem_range.mp hm)

def Tracks (bs : Nat) (req : Request) (view : List HashedBlock) : Prop :=
  view.map (·.tokens) = tokenBlocks bs req.allTokenIds

instance (req : Request) (view : List HashedBlock) : Decidable (Tracks bs req view) :=
  inferInstanceAs (Decidable (_ = _))

theorem extendView_tokens (req : Request) (view : List HashedBlock) :
    (req.extendView bs view).map (·.tokens) = view.map (·.tokens) ++ (tokenBlocks bs req.allTokenIds).drop view.length := by
  unfold extendView tokenBlocks
  rw [map_append, map_map, ← map_drop, range_eq_range', drop_range', Nat.zero_add, Nat.mul_one]
  rfl

theorem tracks_extendView_iff :
    Tracks bs req (req.extendView bs view) ↔ view.map (·.tokens) <+: tokenBlocks bs req.allTokenIds := by
  unfold Tracks
  rw [extendView_tokens]
  constructor
  · intro hs
    exact ⟨_, hs⟩
  · rintro ⟨rest, hs⟩
    rw [← hs, drop_append_of_le_length (by simp), drop_eq_nil_of_le (by simp)]
    rfl

theorem scratch_iff_tracks (injective : scheme.Injective) (hp : 0 < bs)
    (text : req.mmFeatures = []) (bare : ∀ block ∈ view, block.features = []) (viewed : req.Viewed scheme bs view) :
    req.blockHashes = req.scratchHashes scheme bs ↔ Tracks bs req view := by
  have fresh : { req with blockHashes := [] }.Viewed scheme bs [] := rfl
  have scratch : req.scratchHashes scheme bs = chain (hashStep scheme) none
      ((req.extendView bs []).mapIdx (req.viewItem scheme bs)) := by
    have made := viewed_updateBlockHashes hp fresh
    rwa [Request.updateBlockHashes] at made
  have bare' : ∀ block ∈ req.extendView bs [], block.features = [] := by
    intro block hm
    obtain ⟨i, _, rfl⟩ := mem_map.mp (show block ∈ map _ _ from hm)
    simp [hashedBlock, scanList, text, scanned]
  have blocks (xs : List HashedBlock) (none_ : ∀ block ∈ xs, block.features = []) :
      xs = (xs.map (·.tokens)).map fun tokens => ⟨tokens, []⟩ := by
    rw [map_map]
    conv_lhs => rw [← map_id xs]
    apply map_congr_left
    intro block hm
    show block = ⟨block.tokens, []⟩
    rw [← none_ block hm]
  have tokens : (req.extendView bs []).map (·.tokens) = tokenBlocks bs req.allTokenIds :=
    extendView_tokens req []
  rw [scratch, viewed]
  constructor
  · intro hs
    have items := congrArg (map BlockItem.tokens) (chain_inj injective.levelBinding hs)
    have shown (xs : List HashedBlock) : (xs.mapIdx (req.viewItem scheme bs)).map BlockItem.tokens =
        xs.map (·.tokens) := by
      apply ext_getElem?
      intro i
      rw [getElem?_map, getElem?_mapIdx, getElem?_map, Option.map_map]
      rfl
    rw [shown, shown, tokens] at items
    exact items
  · intro tracks
    rw [blocks view bare, tracks, ← tokens, ← blocks _ bare']

namespace RequestEvent

def tokensAfter (tokens : List Token) : RequestEvent → List Token
  | .append tokenIds => tokens ++ tokenIds
  | .update numComputedTokens chunk => tokens.take numComputedTokens ++ chunk.promptTokenIds.getD []

def IsText : RequestEvent → Prop
  | .append _ => True
  | .update _ chunk => chunk.mmFeatures = []

end RequestEvent

/-- The tokens of the blocks that are full before an update are the first tokens after it. -/
def Realigned (bs : Nat) (tokens : List Token) (numComputedTokens : Nat) (update : StreamingUpdate) : Prop :=
  tokens.take (tokens.length / bs * bs) <+: tokens.take numComputedTokens ++ update.promptTokenIds.getD []

instance (tokens : List Token) (numComputedTokens : Nat) (update : StreamingUpdate) :
    Decidable (Realigned bs tokens numComputedTokens update) :=
  inferInstanceAs (Decidable (_ <+: _))

/-- In a synchronous scheduler at most the last token is not computed when a session takes over an update. It is part
of a full block only if the tokens fill all their blocks. -/
theorem realigned_iff_of_last {tokens : List Token} {last : Token} {numComputedTokens : Nat}
    (computed : tokens.length ≤ numComputedTokens) (update : StreamingUpdate) :
    Realigned bs (tokens ++ [last]) numComputedTokens update ↔ (tokens.length + 1) % bs ≠ 0 ∨
      tokens.length < numComputedTokens ∨ (update.promptTokenIds.getD []).head? = some last := by
  unfold Realigned
  generalize update.promptTokenIds.getD [] = chunk
  have length : (tokens ++ [last]).length = tokens.length + 1 := length_append
  have blocks := Nat.div_add_mod (tokens.length + 1) bs
  rw [Nat.mul_comm] at blocks
  rw [length]
  rcases Nat.eq_zero_or_pos ((tokens.length + 1) % bs) with full | rest
  · rw [show (tokens.length + 1) / bs * bs = tokens.length + 1 by omega, take_of_length_le length.le]
    rcases Nat.lt_or_eq_of_le computed with all | exact_
    · rw [take_of_length_le (by omega)]
      simp [all]
    · subst exact_
      rw [take_left' rfl, prefix_append_right_inj]
      simp only [full, ne_eq, Nat.lt_irrefl, false_or]
      cases chunk <;> simp [eq_comm]
  · have hw : (tokens.length + 1) / bs * bs ≤ tokens.length := by omega
    have kept : tokens <+: (tokens ++ [last]).take numComputedTokens :=
      prefix_take_iff.mpr ⟨prefix_append _ _, computed⟩
    rw [take_append_of_le_length hw]
    simp only [ne_eq, Nat.pos_iff_ne_zero.mp rest, not_false_eq_true, true_or, iff_true]
    exact (List.take_prefix _ _).trans (kept.trans (prefix_append _ _))

structure TextSession (scheme : HashScheme) (bs : Nat) (req : Request) (view : List HashedBlock) : Prop where
  viewed : req.Viewed scheme bs view
  text : req.mmFeatures = []
  bare : ∀ block ∈ view, block.features = []
  prompt : req.promptTokenIds.isSome

theorem TextSession.extendView_bare (text : req.mmFeatures = [])
    (bare : ∀ block ∈ view, block.features = []) : ∀ block ∈ req.extendView bs view, block.features = [] := by
  intro block hm
  rcases mem_append.mp hm with old | new
  · exact bare block old
  · obtain ⟨i, _, rfl⟩ := mem_map.mp new
    simp [hashedBlock, scanList, text, scanned]

theorem TextSession.play (session : TextSession scheme bs req view) (hp : 0 < bs) (text : event.IsText) :
    ∃ next, req.play scheme bs event = some next ∧
      TextSession scheme bs next (next.extendView bs view) ∧
      next.allTokenIds = event.tokensAfter req.allTokenIds := by
  obtain ⟨next, played, texts, prompt, tokens⟩ : ∃ next, req.play scheme bs event = some next ∧
      next.mmFeatures = [] ∧ next.promptTokenIds.isSome ∧ next.allTokenIds = event.tokensAfter req.allTokenIds := by
    cases event with
    | append tokenIds => exact ⟨_, rfl, session.text, session.prompt, rfl⟩
    | update numComputedTokens update =>
      obtain ⟨prompt, hf⟩ := Option.isSome_iff_exists.mp session.prompt
      refine ⟨_, Option.bind_eq_some_iff.mpr ⟨prompt, hf, rfl⟩, ?_, rfl, rfl⟩
      show req.mmFeatures ++ update.mmFeatures.map _ = []
      rw [session.text, show update.mmFeatures = [] from text]
      rfl
  exact ⟨next, played, ⟨viewed_play hp session.viewed played, texts,
    TextSession.extendView_bare texts session.bare, prompt⟩, tokens⟩

theorem TextSession.tracks_iff (hp : 0 < bs) (tracks : Tracks bs req view)
    (tokens : next.allTokenIds = event.tokensAfter req.allTokenIds) :
    Tracks bs next (next.extendView bs view) ↔
      ∀ numComputedTokens update, event = .update numComputedTokens update →
      Realigned bs req.allTokenIds numComputedTokens update := by
  rw [tracks_extendView_iff, tracks, tokens, tokenBlocks_isPrefix_iff hp]
  cases event with
  | append tokenIds =>
    simp only [reduceCtorEq, false_implies, implies_true, iff_true]
    exact (List.take_prefix _ _).trans (prefix_append _ _)
  | update numComputedTokens update =>
    constructor
    · rintro keeps _ _ ⟨⟩
      exact keeps
    · exact fun keeps => keeps _ _ rfl

theorem TextSession.run_iff (injective : scheme.Injective) (hp : 0 < bs)
    (session : TextSession scheme bs req view) (tracks : Tracks bs req view)
    (texts : ∀ event ∈ events, event.IsText) :
    (∀ first r, first <+: events → req.run scheme bs first = some r →
      r.blockHashes = r.scratchHashes scheme bs) ↔
      ∀ first r numComputedTokens update, first ++ [.update numComputedTokens update] <+: events →
      req.run scheme bs first = some r → Realigned bs r.allTokenIds numComputedTokens update := by
  induction events generalizing req view with
  | nil =>
    constructor
    · intro _ first r numComputedTokens update hi _
      simp at hi
    · intro _ first r hi ran
      rw [prefix_nil.mp hi] at ran
      cases ran
      exact (scratch_iff_tracks injective hp session.text session.bare session.viewed).mpr tracks
  | cons event rest ih =>
    obtain ⟨next, played, later, tokens⟩ := session.play hp (texts event (.head _))
    have ran_cons first : req.run scheme bs (event :: first) = next.run scheme bs first := by
      show (req.play scheme bs event).bind _ = _
      rw [played]
      rfl
    have step := TextSession.tracks_iff hp tracks tokens
    have hc := scratch_iff_tracks injective hp later.text later.bare later.viewed
    have texts' : ∀ event ∈ rest, event.IsText := fun e hm => texts e (.tail _ hm)
    constructor
    · intro always
      have tracks' := hc.mp (always [event] next (prefix_cons_inj event |>.mpr (List.nil_prefix)) (ran_cons []))
      intro first r numComputedTokens update hi ran
      cases first with
      | nil =>
        cases ran
        obtain ⟨rfl, _⟩ := cons_prefix_cons.mp hi
        exact step.mp tracks' _ _ rfl
      | cons e first =>
        obtain ⟨rfl, hi'⟩ := cons_prefix_cons.mp hi
        rw [ran_cons] at ran
        refine (ih later tracks' texts').mp (fun first r hw ran => ?_) first r _ _ hi' ran
        exact always (e :: first) r (cons_prefix_cons.mpr ⟨rfl, hw⟩) ((ran_cons first).trans ran)
    intro realigned
    have tracks' : Tracks bs next (next.extendView bs view) := by
      apply step.mpr
      rintro numComputedTokens update rfl
      exact realigned [] req _ _ (prefix_cons_inj _ |>.mpr List.nil_prefix) rfl
    intro first r hi ran
    cases first with
    | nil =>
      cases ran
      exact (scratch_iff_tracks injective hp session.text session.bare session.viewed).mpr tracks
    | cons e first =>
      obtain ⟨rfl, hi'⟩ := cons_prefix_cons.mp hi
      rw [ran_cons] at ran
      refine (ih later tracks' texts').mpr (fun first r numComputedTokens update hw ran => ?_) first r hi' ran
      exact realigned (e :: first) r _ _ (cons_prefix_cons.mpr ⟨rfl, hw⟩) ((ran_cons first).trans ran)

/-- The hashes of a text session are always those of hashing its tokens from scratch, if and only if every update realigns
with the blocks that were full before it. -/
theorem session_hashes_consistent_iff (injective : scheme.Injective) (positive : 0 < bs) (req : Request)
    (text : req.mmFeatures = []) (prompt : req.promptTokenIds.isSome) (events : List RequestEvent)
    (texts : ∀ event ∈ events, event.IsText) :
    (∀ first r, first <+: events → (req.construct scheme bs).run scheme bs first = some r →
        r.blockHashes = r.scratchHashes scheme bs) ↔
      ∀ first r numComputedTokens update, first ++ [.update numComputedTokens update] <+: events →
        (req.construct scheme bs).run scheme bs first = some r →
        Realigned bs r.allTokenIds numComputedTokens update := by
  have session : TextSession scheme bs (req.construct scheme bs) (req.extendView bs []) :=
    ⟨viewed_construct scheme positive req, text, TextSession.extendView_bare text (by simp), prompt⟩
  exact session.run_iff injective positive (extendView_tokens req []) texts

end

def nextChunk : StreamingUpdate := { promptTokenIds := some [21, 22], maxTokens := 16, samplingParams := { maxTokens := 16 } }

theorem session_hashes_consistent_unfilled : (promptWith []).mmFeatures = [] ∧
    ∀ first r, first <+: [RequestEvent.update 6 nextChunk, .append [8]] →
      ((promptWith []).construct unaryScheme 4).run unaryScheme 4 first = some r →
      r.blockHashes = r.scratchHashes unaryScheme 4 := by
  refine ⟨rfl, ?_⟩
  apply (session_hashes_consistent_iff unaryScheme_injective (by decide) (promptWith []) rfl rfl _
    (by simp [RequestEvent.IsText, nextChunk])).mpr
  rintro first r numComputedTokens update ⟨rest, inside⟩ ran
  cases first with
  | nil =>
    cases ran
    cases inside
    decide
  | cons event first => cases first <;> simp at inside

/-- An update that drops the last token of a full block: the hash of the block stays. -/
theorem session_hash_goes_stale :
    ∃ r, ((promptWith []).construct unaryScheme 4).run unaryScheme 4 [.append [8], .update 7 nextChunk] = some r ∧
      r.blockHashes ≠ r.scratchHashes unaryScheme 4 := by
  have positive : 0 < 4 := by decide
  refine ⟨_, rfl, fun same => ?_⟩
  have viewed := viewed_run positive (viewed_construct unaryScheme positive (promptWith []))
    (show ((promptWith []).construct unaryScheme 4).run unaryScheme 4 [.append [8], .update 7 nextChunk] = some _ from rfl)
  have tracks := (scratch_iff_tracks unaryScheme_injective positive rfl (by decide) viewed).mp same
  revert tracks
  decide

end KVOffload.Core
