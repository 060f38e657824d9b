import KVOffload.Worker.InputBatch

/-!
# Rows follow their request

`Owns` says that every field of a row is the one of the request, `Tracks` that this holds for all requests of the batch.
`Action.Clean` is the condition under which the entry of an earlier owner does no harm.
-/

namespace KVOffload.Worker

open KVOffload.Core List OrderedDict Function Batch

section

variable {α : Type} {array : Nat → α} {wanted : Nat → Option α} {n : Nat}

variable (array wanted) in
def Shows : Prop := ∀ p a, wanted p = some a → array p = a

def joined (n : Nat) (first second : List α) (p : Nat) : Option α := if p < n then first[p]? else second[p - n]?

theorem shows_overlay (values : List α) : Shows (overlay 0 values array) (values[·]?) := by
  intro p a hf
  simp [overlay, hf]

variable {p : Nat}

theorem joined_within {first second : List α} {a : α} (hf : joined n first second p = some a) :
    p < n + second.length := by
  unfold joined at hf
  split at hf
  · omega
  · have := (List.getElem?_eq_some_iff.mp hf).1
    omega

theorem shows_joined (first second : List α) : Shows (overlay n second (overlay 0 first array)) (joined n first second) := by
  intro p a hf
  unfold joined at hf
  split at hf <;> rename_i before <;> simp [overlay, before, hf]

theorem Shows.overlay (shows : Shows array wanted) (hw : ∀ p a, wanted p = some a → p < n) (values : List α) :
    Shows (overlay n values array) wanted := by
  intro p a hf
  rw [Worker.overlay, if_pos (hw p a hf)]
  exact shows p a hf

end

namespace CachedRequestState

/-- The token ids of a request; the positions of a prompt given by embeddings alone have none. -/
def tokenAt (r : CachedRequestState) : Nat → Option Token := joined r.numPromptTokens (r.promptTokenIds.getD []) r.outputTokenIds

def flagAt (r : CachedRequestState) : Nat → Option Bool :=
  joined r.numPromptTokens r.promptFlags (List.replicate r.outputTokenIds.length true)

theorem tokenAt_within (r : CachedRequestState) {t : Token} (hf : r.tokenAt p = some t) : p < r.numTokens :=
  joined_within hf

theorem flagAt_within (r : CachedRequestState) {v : Bool} (hf : r.flagAt p = some v) : p < r.numTokens := by
  simpa [numTokens] using joined_within hf

end CachedRequestState

def RequestParams.needsTokenIds : RequestParams → Bool
  | .sampling _ => false
  | .pooling requiresTokenIds => requiresTokenIds

structure Samples (cfg : BatchConfig) (r : CachedRequestState) (p : SamplingParams) (row : Row) : Prop where
  sampling : row.sampling = p.row cfg
  generator : row.generator = r.generator
  badWords : row.badWords = if p.badWordsTokenIds = [] then none else some p.badWordsTokenIds
  mask : ∀ t, row.allowedMask t = (p.allowedTokenIds ≠ [] && t ∉ p.allowedTokenIds)

structure Owns (cfg : BatchConfig) (r : CachedRequestState) (row : Row) : Prop where
  kind : r.params.isPooling = cfg.isPoolingModel
  outputs : row.outputTokenIds = some r.outputTokenIds
  tokens : Shows row.tokenIds r.tokenAt
  flags : Shows row.isTokenIds r.flagAt
  embeds : row.promptEmbeds = r.promptEmbeds
  counts : row.counts = r.counts
  tableLength : ∀ group, (row.blockTable group).numBlocks = (r.kernelBlocks cfg group).length
  table : ∀ group, Shows (row.blockTable group).blocks ((r.kernelBlocks cfg group)[·]?)
  lora : row.loraId = r.loraId
  needs : row.needsTokenIds = r.params.needsTokenIds
  samples : ∀ p, r.params = .sampling p → Samples cfg r p row

/-- What the operations leave of a row without a request. Its prompt embeddings and its mask may be those of an earlier one. -/
structure Vacant (cfg : BatchConfig) (row : Row) : Prop where
  generator : cfg.isPoolingModel = false → row.generator = none
  badWords : cfg.isPoolingModel = false → row.badWords = none
  needs : cfg.isPoolingModel = false → row.needsTokenIds = false

variable {cfg : BatchConfig} {r : CachedRequestState} {row source target other : Row} {reqId : RequestId} {α : Type}

theorem Owns.sampling (owns : Owns cfg r row) (plain : cfg.isPoolingModel = false) :
    ∃ p, r.params = .sampling p ∧ Samples cfg r p row := by
  cases params : r.params with
  | pooling requiresTokenIds =>
    have kind := owns.kind
    simp [params, RequestParams.isPooling, plain] at kind
  | sampling p => exact ⟨p, rfl, owns.samples p params⟩

theorem Owns.needs_plain (owns : Owns cfg r row) (plain : cfg.isPoolingModel = false) : row.needsTokenIds = false := by
  obtain ⟨p, params, -⟩ := owns.sampling plain
  rw [owns.needs, params, RequestParams.needsTokenIds]

theorem Owns.active (owns : Owns cfg r row) : r.numTokens ≤ row.activeTokenCount := by
  have counts := congrArg TokenCounts.noSpec owns.counts
  simp only [CachedRequestState.counts] at counts
  unfold Row.activeTokenCount
  omega

theorem or_eq_left {a b : Option α} (clean : a = none → b = none) : a.or b = a := by
  cases a with
  | none => simp [clean]
  | some value => rfl

variable (r row) in
def CleanFill : Prop :=
  (r.promptEmbeds = none → row.promptEmbeds = none) ∧
    ∀ p, r.params = .sampling p → p.allowedTokenIds = [] → ∀ t, row.allowedMask t = false

theorem Vacant.fill (vacant : Vacant cfg row) (kind : r.params.isPooling = cfg.isPoolingModel) (clean : CleanFill r row) :
    Owns cfg r (row.fill cfg r) := by
  refine ⟨kind, rfl, shows_joined _ _, shows_joined _ _, or_eq_left clean.1, rfl, fun _ => rfl, fun _ => shows_overlay _, rfl, ?_, ?_⟩
  · cases params : r.params with
    | sampling p => simpa [Row.fill, params, RequestParams.needsTokenIds] using vacant.needs (by rw [← kind, params]; rfl)
    | pooling requiresTokenIds => simp [Row.fill, params, RequestParams.needsTokenIds]
  · intro p params
    have plain : cfg.isPoolingModel = false := by rw [← kind, params]; rfl
    refine ⟨by simp [Row.fill, params], by simp [Row.fill, params, vacant.generator plain],
      by simp [Row.fill, params, vacant.badWords plain], fun t => ?_⟩
    by_cases free : p.allowedTokenIds = []
    · simp [Row.fill, params, free, clean.2]
    · simp [Row.fill, params, free]

theorem Owns.vacate (owns : Owns cfg r row) : Vacant cfg (row.vacate cfg) := by
  unfold Row.vacate
  refine ⟨fun plain => by simp [plain], fun plain => by simp [plain], fun plain => ?_⟩
  simpa [plain] using owns.needs_plain plain

/-- The hole has no embeddings left, unless the request brings its own; a pooling model has the same flag in both rows. -/
def CleanMove (cfg : BatchConfig) (source target : Row) : Prop :=
  (source.promptEmbeds = none → target.promptEmbeds = none) ∧
    (cfg.isPoolingModel = true → target.needsTokenIds = source.needsTokenIds)

theorem Owns.copied {made : Row} (owns : Owns cfg r source) (outputs : made.outputTokenIds = source.outputTokenIds)
    (tokens : ∀ p < source.activeTokenCount, made.tokenIds p = source.tokenIds p)
    (flags : ∀ p < source.activeTokenCount, made.isTokenIds p = source.isTokenIds p)
    (embeds : made.promptEmbeds = source.promptEmbeds) (counts : made.counts = source.counts)
    (tableLength : ∀ group, (made.blockTable group).numBlocks = (source.blockTable group).numBlocks)
    (table : ∀ group, ∀ k < (source.blockTable group).numBlocks,
      (made.blockTable group).blocks k = (source.blockTable group).blocks k)
    (lora : made.loraId = source.loraId) (needs : made.needsTokenIds = source.needsTokenIds)
    (sampling : cfg.isPoolingModel = false → made.sampling = source.sampling ∧ made.generator = source.generator ∧
      made.badWords = source.badWords ∧ ∀ t, made.allowedMask t = source.allowedMask t) : Owns cfg r made := by
  refine ⟨owns.kind, outputs.trans owns.outputs, fun p t hf => ?_, fun p v hf => ?_, embeds.trans owns.embeds,
    counts.trans owns.counts, fun group => (tableLength group).trans (owns.tableLength group), fun group k block hf => ?_,
    lora.trans owns.lora, needs.trans owns.needs, fun p params => ?_⟩
  · exact (tokens p (lt_of_lt_of_le (r.tokenAt_within hf) owns.active)).trans (owns.tokens p t hf)
  · exact (flags p (lt_of_lt_of_le (r.flagAt_within hf) owns.active)).trans (owns.flags p v hf)
  · have hi := owns.tableLength group ▸ (List.getElem?_eq_some_iff.mp hf).1
    exact (table group k hi).trans (owns.table group k block hf)
  · have plain : cfg.isPoolingModel = false := by rw [← owns.kind, params]; rfl
    have samples := owns.samples p params
    obtain ⟨row, generator, badWords, mask⟩ := sampling plain
    exact ⟨row.trans samples.sampling, generator.trans samples.generator, badWords.trans samples.badWords,
      fun t => (mask t).trans (samples.mask t)⟩

theorem Owns.moved (owns : Owns cfg r source) (vacant : Vacant cfg target) (clean : CleanMove cfg source target) :
    Owns cfg r (source.moved cfg target) := by
  unfold Row.moved
  cases pooling : cfg.isPoolingModel with
  | true =>
    exact owns.copied rfl (fun _ hb => if_pos hb) (fun _ hb => if_pos hb) (or_eq_left clean.1) rfl (fun _ => rfl)
      (fun _ _ hb => if_pos hb) rfl (clean.2 pooling) (by simp [pooling])
  | false =>
    refine owns.copied rfl (fun _ hb => if_pos hb) (fun _ hb => if_pos hb) (or_eq_left clean.1) rfl (fun _ => rfl)
      (fun _ _ hb => if_pos hb) rfl ((vacant.needs pooling).trans (owns.needs_plain pooling).symm) fun _ => ?_
    simp [vacant.generator pooling, vacant.badWords pooling]

theorem Owns.left (owns : Owns cfg r row) : Vacant cfg (row.left cfg) := by
  unfold Row.left
  refine ⟨fun plain => by simp [plain], fun plain => by simp [plain], fun plain => ?_⟩
  simpa [plain] using owns.needs_plain plain

theorem Owns.swapped {active : Nat} {mask : Token → Bool} (owns : Owns cfg r other) (hw : other.activeTokenCount ≤ active)
    (needs : row.needsTokenIds = other.needsTokenIds) (masks : cfg.isPoolingModel = false → ∀ t, mask t = other.allowedMask t) :
    Owns cfg r (row.swapped cfg active mask other) := by
  have first : ∀ {α : Type} {a b : Nat → α}, ∀ p < other.activeTokenCount, copyFirst active a b p = a p :=
    fun p hb => if_pos (lt_of_lt_of_le hb hw)
  unfold Row.swapped
  cases pooling : cfg.isPoolingModel with
  | true =>
    exact owns.copied rfl first first rfl rfl (fun _ => rfl) (fun _ _ _ => rfl) rfl needs (by simp [pooling])
  | false =>
    exact owns.copied rfl first first rfl rfl (fun _ => rfl) (fun _ _ _ => rfl) rfl needs fun plain => ⟨rfl, rfl, rfl, masks plain⟩

section

variable {find : RequestId → Option Nat} {ids : Nat → Option RequestId} {id₁ id₂ : RequestId} {i j : Nat}

variable (find ids) in
def Inverse : Prop :=
  ∀ reqId row, find reqId = some row ↔ ids row = some reqId

variable (inverse : Inverse find ids)

include inverse

theorem Inverse.remove (held : ids i = some reqId) :
    Inverse (fun k => if k = reqId then none else find k) (fun j => if i = j then none else ids j) := by
  intro k j
  have here := inverse k j
  have own := inverse reqId i
  grind

theorem Inverse.add (free : ids i = none) (fresh : find reqId = none) :
    Inverse (fun k => if k = reqId then some i else find k) (fun j => if i = j then some reqId else ids j) := by
  intro k j
  have here := inverse k j
  grind

theorem Inverse.move (held : ids i = some reqId) (free : ids j = none) :
    Inverse (fun k => if k = reqId then some j else find k)
      (fun p => if i = p then none else if j = p then some reqId else ids p) := by
  intro k p
  have here := inverse k p
  have own := inverse reqId i
  grind

theorem Inverse.swap (first : ids i = some id₁) (second : ids j = some id₂) :
    Inverse (fun k => if k = id₂ then some i else if k = id₁ then some j else find k)
      (fun p => if j = p then some id₁ else if i = p then some id₂ else ids p) := by
  intro k p
  have here := inverse k p
  have own := inverse id₁ i
  have other := inverse id₂ j
  grind

end

def Batch.idAt (b : Batch) (row : Nat) : Option RequestId := b.reqIds[row]?.join

def RowFits (cfg : BatchConfig) (requests : RequestId → Option CachedRequestState) (row : Row) : Option RequestId → Prop
  | some reqId => ∃ r, requests reqId = some r ∧ Owns cfg r row
  | none => Vacant cfg row

/-- The rows of the requests of the batch are theirs, and the index finds them. -/
structure Tracks (cfg : BatchConfig) (b : Batch) : Prop where
  index : Inverse b.reqIdToIndex.get? b.idAt
  rows : ∀ row, RowFits cfg b.requests (b.rows row) (b.idAt row)
  known : ∀ reqId, b.requests reqId ≠ none → b.reqIdToIndex.get? reqId ≠ none
  room : b.reqIds.length ≤ cfg.maxNumReqs

structure Holes (b : Batch) : Prop where
  nodup : b.removed.Nodup
  mem : ∀ row, row ∈ b.removed ↔ row < b.reqIds.length ∧ b.idAt row = none
  sorted : b.isRemovedSorted = true → b.removed.Pairwise (· ≤ ·)

section

variable {ids : List (Option RequestId)} {x : Option RequestId} {i j n : Nat}

theorem join_set (hi : i < ids.length) : (ids.set i x)[j]?.join = if i = j then x else ids[j]?.join := by
  rw [getElem?_set]
  split <;> simp

theorem join_concat : (ids ++ [x])[j]?.join = if ids.length = j then x else ids[j]?.join := by
  split <;> rename_i h
  · simp [← h]
  · by_cases hb : j < ids.length
    · rw [getElem?_append_left hb]
    · rw [getElem?_eq_none (by simp; omega), getElem?_eq_none (by omega)]

theorem lt_of_join (hf : ids[i]?.join = some reqId) : i < ids.length := by
  by_contra beyond
  rw [getElem?_eq_none (by omega)] at hf
  cases hf

end

variable {b : Batch} {removed : List Nat} {ids : List (Option RequestId)} {i j : Nat}
  {actions : List Action} {I : Batch → Prop} {read : Bool}

theorem RowFits.forget {requests : RequestId → Option CachedRequestState} {holder : Option RequestId}
    (fits : RowFits cfg requests row holder) {record : Option CachedRequestState} (other : holder ≠ some reqId) :
    RowFits cfg (update requests reqId record) row holder := by
  cases holder with
  | none => exact fits
  | some reqId' =>
    obtain ⟨r, recorded, owns⟩ := fits
    have apart : reqId' ≠ reqId := fun hs => other (congrArg some hs)
    exact ⟨r, by rwa [update_of_ne apart], owns⟩

theorem Tracks.owned (tracks : Tracks cfg b) {row : Nat} (held : b.idAt row = some reqId) :
    ∃ r, b.requests reqId = some r ∧ Owns cfg r (b.rows row) := by
  have fits := tracks.rows row
  rwa [held] at fits

theorem Tracks.vacant (tracks : Tracks cfg b) {row : Nat} (free : b.idAt row = none) : Vacant cfg (b.rows row) := by
  have fits := tracks.rows row
  rwa [free] at fits

theorem Tracks.count (tracks : Tracks cfg b) (gone : List Nat) (n : Nat) (nodup : gone.Nodup)
    (mem : ∀ row, row ∈ gone ↔ row < n ∧ b.idAt row = none) (hw : ∀ row reqId, b.idAt row = some reqId → row < n) :
    b.numReqs + gone.length = n := by
  have filled : ∀ row, row ∈ b.reqIdToIndex.values ↔ ∃ reqId, b.idAt row = some reqId := by
    intro row
    rw [mem_values_iff]
    exact exists_congr fun reqId => tracks.index reqId row
  have hd : b.reqIdToIndex.values.Nodup := by
    refine List.Nodup.map_on ?_ (List.Nodup.of_map _ b.reqIdToIndex.nodup)
    intro e hm e' hm' hs
    have first := (tracks.index e.1 e.2).mp (get?_of_mem hm)
    have second := (tracks.index e'.1 e'.2).mp (get?_of_mem hm')
    rw [hs, second] at first
    exact Prod.ext (Option.some.inj first).symm hs
  have perm : (b.reqIdToIndex.values ++ gone).Perm (range n) := by
    refine (perm_ext_iff_of_nodup (nodup_append.mpr ⟨hd, nodup, ?_⟩) nodup_range).mpr ?_
    · intro row hm row' hm' hs
      obtain ⟨reqId, held⟩ := (filled row).mp hm
      rw [hs, ((mem row').mp hm').2] at held
      cases held
    intro row
    rw [mem_append, filled, mem, mem_range]
    constructor
    · rintro (⟨reqId, held⟩ | gone)
      · exact hw row reqId held
      · exact gone.1
    · intro hb
      cases held : b.idAt row with
      | some reqId => exact .inl ⟨reqId, rfl⟩
      | none => exact .inr ⟨hb, rfl⟩
  have lengths := perm.length_eq
  rwa [length_append, length_range, length_values] at lengths

theorem Holes.count (holes : Holes b) (tracks : Tracks cfg b) : b.numReqs + b.removed.length = b.reqIds.length :=
  tracks.count b.removed b.reqIds.length holes.nodup holes.mem fun _ _ held => lt_of_join held

theorem Holes.ensureSorted (holes : Holes b) : ∃ removed, b.ensureRemovedSorted = { b with removed, isRemovedSorted := true } ∧
    removed.Perm b.removed ∧ removed.Pairwise (· < ·) := by
  unfold ensureRemovedSorted
  split <;> rename_i read
  · refine ⟨b.removed, ?_, .refl _, ?_⟩
    · rw [← read]
    · exact (holes.sorted read).imp₂ (fun _ _ le ne => lt_of_le_of_ne le ne) holes.nodup
  · have perm := b.removed.perm_insertionSort (· ≤ ·)
    exact ⟨_, rfl, perm, (pairwise_insertionSort (· ≤ ·) b.removed).imp₂
      (fun _ _ le ne => lt_of_le_of_ne le ne) (perm.nodup_iff.mpr holes.nodup)⟩

theorem Tracks.remove (tracks : Tracks cfg b) {row : Nat} (held : b.idAt row = some reqId) :
    Tracks cfg { b with
      reqIdToIndex := b.reqIdToIndex.erase reqId, removed, reqIds := b.reqIds.set row none
      rows := update b.rows row ((b.rows row).vacate cfg), requests := update b.requests reqId none } := by
  obtain ⟨r, -, owns⟩ := tracks.owned held
  have ids : ∀ j, (b.reqIds.set row none)[j]?.join = if row = j then none else b.idAt j := fun j => join_set (lt_of_join held)
  refine ⟨fun k j => ?_, fun j => ?_, fun k recorded => ?_, by simpa using tracks.room⟩
  · simp only [idAt, ids, get?_erase]
    exact tracks.index.remove held k j
  · simp only [idAt, ids]
    by_cases hs : row = j
    · rw [if_pos hs, hs, update_self]
      exact hs ▸ owns.vacate
    · rw [if_neg hs, update_of_ne (Ne.symm hs)]
      refine (tracks.rows j).forget fun here => hs ?_
      exact Option.some.inj (((tracks.index reqId row).mpr held).symm.trans ((tracks.index reqId j).mpr here))
  · simp only [get?_erase]
    by_cases hs : k = reqId
    · simp [hs] at recorded
    · rw [if_neg hs]
      exact tracks.known k (by simpa [update_of_ne hs] using recorded)

theorem Tracks.add (tracks : Tracks cfg b) {row : Nat}
    (free : b.idAt row = none) (fresh : b.reqIdToIndex.get? r.reqId = none)
    (now : ∀ j, ids[j]?.join = if row = j then some r.reqId else b.idAt j) (room : ids.length ≤ cfg.maxNumReqs)
    (kind : r.params.isPooling = cfg.isPoolingModel) (clean : CleanFill r (b.rows row)) :
    Tracks cfg { b with
      reqIds := ids, reqIdToIndex := b.reqIdToIndex.insert r.reqId row, removed, isRemovedSorted := read
      rows := update b.rows row ((b.rows row).fill cfg r), requests := update b.requests r.reqId (some r) } := by
  refine ⟨fun k j => ?_, fun j => ?_, fun k recorded => ?_, room⟩
  · simp only [idAt, now, get?_insert]
    exact tracks.index.add free fresh k j
  · simp only [idAt, now]
    by_cases hs : row = j
    · rw [if_pos hs, hs, update_self]
      exact ⟨r, update_self .., hs ▸ (tracks.vacant free).fill kind clean⟩
    · rw [if_neg hs, update_of_ne (Ne.symm hs)]
      refine (tracks.rows j).forget fun here => ?_
      rw [(tracks.index _ j).mpr here] at fresh
      cases fresh
  · simp only [get?_insert]
    by_cases hs : k = r.reqId
    · simp [hs]
    · rw [if_neg hs]
      exact tracks.known k (by simpa [update_of_ne hs] using recorded)

theorem wp_removeRequest (tracks : Tracks cfg b) (holes : Holes b) (unread : b.isRemovedSorted = false) (reqId : RequestId) :
    wp (removeRequest cfg reqId) (fun _ t => Tracks cfg t ∧ Holes t ∧ t.isRemovedSorted = false) (fun _ _ => False) b := by
  unfold removeRequest
  simp only [wp_bind, wp_get, wp_modify]
  cases hf : b.reqIdToIndex.get? reqId with
  | none =>
    have unrecorded : b.requests reqId = none := by
      by_contra recorded
      exact tracks.known reqId recorded hf
    rw [← unrecorded, update_eq_self]
    exact ⟨tracks, holes, unread⟩
  | some row =>
    have held := (tracks.index reqId row).mp hf
    have hi := lt_of_join held
    simp only [wp_bind, wp_ensure]
    refine ⟨fun _ => ⟨tracks.remove held, ⟨?_, ?_, ?_⟩, unread⟩, fun wrong => wrong unread⟩
    · refine nodup_append.mpr ⟨holes.nodup, nodup_singleton _, ?_⟩
      intro j hm j' last hs
      rw [mem_singleton.mp last] at hs
      have free := ((holes.mem j).mp hm).2
      rw [hs, held] at free
      cases free
    · intro j
      simp only [mem_append, idAt, holes.mem j]
      grind
    · intro read
      rw [unread] at read
      cases read

theorem wp_addRequest (tracks : Tracks cfg b) (holes : Holes b) (fresh : b.reqIdToIndex.get? r.reqId = none)
    (hb : b.numReqs < cfg.maxNumReqs) (kind : r.params.isPooling = cfg.isPoolingModel)
    (clean : CleanFill r (b.rows b.newReqIndex)) :
    wp (addRequest cfg r) (fun _ t => Tracks cfg t ∧ Holes t) (fun _ _ => False) b := by
  have count := holes.count tracks
  obtain ⟨removed, sorted, perm, ascending⟩ := holes.ensureSorted
  have nodup := perm.nodup_iff.mpr holes.nodup
  have mem : ∀ row, row ∈ removed ↔ row < b.reqIds.length ∧ b.idAt row = none := fun row => perm.mem_iff.trans (holes.mem row)
  have lengths := perm.length_eq
  unfold addRequest
  simp only [wp_bind, wp_get, wp_ensure, wp_modify]
  simp only [newReqIndex, popRemoved, sorted] at clean ⊢
  cases removed with
  | nil =>
    -- no hole: the request is appended
    simp only [Option.getD_none] at clean ⊢
    have last : b.numReqs = b.reqIds.length := by simp at lengths; omega
    have free : b.idAt b.reqIds.length = none := by simp [idAt]
    refine ⟨fun _ => ?_, fun full => full hb⟩
    rw [if_pos last, last]
    refine ⟨tracks.add free fresh (fun j => join_concat) ?_ kind (last ▸ clean), ⟨holes.nodup, fun row => ?_, holes.sorted⟩⟩
    · simp only [length_append, length_singleton]
      omega
    · have empty := (holes.mem row).symm
      simp only [idAt] at empty ⊢
      grind
  | cons row rest =>
    simp only [Option.getD_some] at clean ⊢
    obtain ⟨hi, free⟩ := (mem row).mp (.head _)
    have ids : ∀ j, (b.reqIds.set row (some r.reqId))[j]?.join = if row = j then some r.reqId else b.idAt j :=
      fun j => join_set hi
    refine ⟨fun _ => ?_, fun full => full (lt_of_lt_of_le hi tracks.room)⟩
    rw [if_neg (ne_of_lt hi)]
    refine ⟨tracks.add free fresh ids (by simpa using tracks.room) kind clean, ⟨(nodup_cons.mp nodup).2, fun j => ?_, fun _ => ?_⟩⟩
    · have hole := mem j
      simp only [idAt] at hole ⊢
      grind
    · exact (pairwise_cons.mp ascending).2.imp le_of_lt

theorem Owns.drafted (owns : Owns cfg r row) (specTokenIds : List Token) : Owns cfg r { row with
    specTokenIds := specTokenIds
    tokenIds := overlay row.counts.noSpec specTokenIds row.tokenIds
    isTokenIds := overlay row.counts.noSpec (replicate specTokenIds.length true) row.isTokenIds } := by
  have noSpec : row.counts.noSpec = r.numTokens := by rw [owns.counts, CachedRequestState.counts]
  refine { owns with tokens := ?_, flags := ?_, samples := fun p params => ?_ }
  · exact owns.tokens.overlay (fun _ _ hf => noSpec ▸ r.tokenAt_within hf) _
  · exact owns.flags.overlay (fun _ _ hf => noSpec ▸ r.flagAt_within hf) _
  · exact { owns.samples p params with }

theorem wp_updateReqSpecTokenIds (tracks : Tracks cfg b) (holes : Holes b)
    (known : b.reqIdToIndex.get? reqId ≠ none) (specTokenIds : List Token) :
    wp (updateReqSpecTokenIds reqId specTokenIds) (fun _ t => Tracks cfg t ∧ Holes t) (fun _ _ => False) b := by
  unfold updateReqSpecTokenIds
  simp only [wp_bind, wp_get]
  cases hf : b.reqIdToIndex.get? reqId with
  | none => exact absurd hf known
  | some i =>
    have held := (tracks.index reqId i).mp hf
    obtain ⟨r, cached, owns⟩ := tracks.owned held
    refine ⟨⟨tracks.index, fun j => ?_, tracks.known, tracks.room⟩, ⟨holes.nodup, holes.mem, holes.sorted⟩⟩
    by_cases hs : j = i
    · subst hs
      change RowFits cfg b.requests (update b.rows j _ j) (b.idAt j)
      rw [held, update_self]
      exact ⟨r, cached, owns.drafted specTokenIds⟩
    · change RowFits cfg b.requests (update b.rows i _ j) (b.idAt j)
      rw [update_of_ne hs]
      exact tracks.rows j

/-! ### `condense` -/

theorem lastFilled_le (holes : List Nat) (last : Nat) : lastFilled holes last ≤ last := by
  induction last with
  | zero => exact le_refl 0
  | succ last ih =>
    unfold lastFilled
    split
    · exact Nat.le_succ_of_le ih
    · exact le_refl _

theorem lastFilled_spec {holes : List Nat} {last : Nat} (low : i ≤ last) (filled : i ∉ holes) :
    lastFilled holes last ∉ holes ∧ ∀ j, lastFilled holes last < j → j ≤ last → j ∈ holes := by
  induction last with
  | zero =>
    rw [Nat.le_zero.mp low] at filled
    exact ⟨filled, fun j above hb => absurd (lt_of_lt_of_le above hb) (lt_irrefl 0)⟩
  | succ last ih =>
    unfold lastFilled
    split <;> rename_i hole
    · have lower := Nat.le_of_lt_succ (Nat.lt_of_le_of_ne low fun hs => filled (hs ▸ hole))
      obtain ⟨free, above⟩ := ih lower
      refine ⟨free, fun j beyond hb => ?_⟩
      rcases lt_or_eq_of_le hb with less | hs
      · exact above j beyond (Nat.le_of_lt_succ less)
      · exact hs ▸ hole
    · exact ⟨hole, fun j above hb => absurd (lt_of_lt_of_le above hb) (lt_irrefl _)⟩

theorem condenseMoves_cons (hole : Nat) (holes : List Nat) (last : Nat) : condenseMoves (hole :: holes) last =
    if lastFilled (hole :: holes) last ≤ hole then []
    else (lastFilled (hole :: holes) last, hole) :: condenseMoves holes (lastFilled (hole :: holes) last - 1) := rfl

theorem mem_condenseMoves {holes : List Nat} {last : Nat} {move : Nat × Nat} (hm : move ∈ condenseMoves holes last) :
    move.2 ∈ holes ∧ move.2 < move.1 ∧ move.1 ≤ last := by
  induction holes generalizing last with
  | nil => cases hm
  | cons hole holes ih =>
    have le := lastFilled_le (hole :: holes) last
    rw [condenseMoves_cons] at hm
    split at hm
    · cases hm
    · rcases mem_cons.mp hm with rfl | later
      · exact ⟨.head _, by omega, le⟩
      · obtain ⟨hit, down, up⟩ := ih later
        exact ⟨.tail _ hit, down, by omega⟩

def Gaps (holes : List Nat) (last : Nat) (b : Batch) : Prop := ∀ row, b.idAt row ≠ none ↔ row ≤ last ∧ row ∉ holes

variable (tracks : Tracks cfg b) (held : b.idAt i = some reqId) (free : b.idAt j = none) (hi : j < b.reqIds.length) (clean : CleanMove cfg (b.rows i) (b.rows j))

include tracks held free hi clean in
theorem Tracks.move : Tracks cfg { b with
      reqIds := (b.reqIds.set j (some reqId)).set i none, reqIdToIndex := b.reqIdToIndex.insert reqId j
      rows := update (update b.rows j ((b.rows i).moved cfg (b.rows j))) i ((b.rows i).left cfg) } := by
  obtain ⟨r, cached, owns⟩ := tracks.owned held
  have ids : ∀ p, ((b.reqIds.set j (some reqId)).set i none)[p]?.join =
      if i = p then none else if j = p then some reqId else b.idAt p := by
    intro p
    rw [join_set (by simpa using lt_of_join held), join_set hi]
    rfl
  refine ⟨fun k p => ?_, fun p => ?_, fun k recorded => ?_, by simpa using tracks.room⟩
  · simp only [idAt, ids, get?_insert]
    exact tracks.index.move held free k p
  · simp only [idAt, ids]
    by_cases atSource : i = p
    · rw [if_pos atSource, atSource, update_self]
      exact atSource ▸ owns.left
    · rw [if_neg atSource, update_of_ne (Ne.symm atSource)]
      by_cases atTarget : j = p
      · rw [if_pos atTarget, ← atTarget, update_self]
        exact ⟨r, cached, owns.moved (tracks.vacant free) clean⟩
      · rw [if_neg atTarget, update_of_ne (Ne.symm atTarget)]
        exact tracks.rows p
  · simp only [get?_insert]
    split
    · simp
    · exact tracks.known k recorded

include tracks held free hi clean in
theorem wp_moveRequest :
    wp (moveRequest cfg i j) (fun _ t => Tracks cfg t ∧ t.numReqs = b.numReqs ∧ t.reqIds.length = b.reqIds.length ∧
      t.removed = b.removed ∧ (∀ p, t.idAt p = if i = p then none else if j = p then some reqId else b.idAt p) ∧
      ∀ p, p ≠ i → p ≠ j → t.rows p = b.rows p) (fun _ _ => False) b := by
  have known := mem_of_get?_eq ((tracks.index reqId i).mpr held)
  unfold moveRequest
  simp only [wp_bind, wp_get, show b.reqIds[i]?.join = some reqId from held, wp_set]
  refine ⟨tracks.move held free hi clean, ?_, by simp, trivial, fun p => ?_, fun p atSource atTarget => ?_⟩
  · simp only [numReqs, ← length_values, length_values_insert, if_pos known, Nat.add_zero]
  · simp only [idAt]
    rw [join_set (by simpa using lt_of_join held), join_set hi]
  · simp only [update_of_ne atSource, update_of_ne atTarget]

theorem wp_moves {holes : List Nat} {last : Nat} (ascending : holes.Pairwise (· < ·)) (tracks : Tracks cfg b)
    (gaps : Gaps holes last b) (filled : ∃ row, b.idAt row ≠ none)
    (clean : ∀ move ∈ condenseMoves holes last, CleanMove cfg (b.rows move.1) (b.rows move.2)) :
    wp (forM (condenseMoves holes last) fun move => moveRequest cfg move.1 move.2) (fun _ t => Tracks cfg t ∧
      t.numReqs = b.numReqs ∧ t.removed = b.removed ∧ ∃ n, ∀ row, t.idAt row ≠ none ↔ row < n) (fun _ _ => False) b := by
  induction holes generalizing last b with
  | nil =>
    refine ⟨tracks, rfl, rfl, last + 1, fun row => (gaps row).trans ?_⟩
    simp [Nat.lt_succ_iff]
  | cons hole holes ih =>
    obtain ⟨row, present⟩ := filled
    obtain ⟨low, apart⟩ := (gaps row).mp present
    obtain ⟨free, above⟩ := lastFilled_spec low apart
    have le := lastFilled_le (hole :: holes) last
    obtain ⟨behind, ascending'⟩ := pairwise_cons.mp ascending
    rw [condenseMoves_cons] at clean ⊢
    generalize lastFilled (hole :: holes) last = source at *
    have live := (gaps source).mpr ⟨le, free⟩
    split <;> rename_i order
    · -- the last request lies below the first hole
      refine ⟨tracks, rfl, rfl, source + 1, fun row => (gaps row).trans ⟨fun h => ?_, fun h => ⟨by omega, fun hm => ?_⟩⟩⟩
      · by_contra beyond
        exact h.2 (above row (by omega) h.1)
      · rcases mem_cons.mp hm with rfl | later
        · exact free (by have := Nat.le_antisymm order (by omega); simp [this])
        · have := behind row later
          omega
    rw [if_neg order] at clean
    obtain ⟨reqId, held⟩ := Option.ne_none_iff_exists'.mp live
    have empty : b.idAt hole = none := by
      by_contra filled
      exact ((gaps hole).mp filled).2 (.head _)
    have hi : hole < b.reqIds.length := by
      have := lt_of_join held
      omega
    rw [forM_cons, wp_bind]
    refine wp_imp (wp_moveRequest tracks held empty hi (clean _ (.head _))) ?_
    rintro - t ⟨tracks', count, length, removed, ids, rows⟩
    refine wp_imp (ih ascending' tracks' ?_ ⟨hole, ?_⟩ ?_) ?_
    · intro row
      have before := gaps row
      grind
    · grind
    · intro move hm
      obtain ⟨hit, down, up⟩ := mem_condenseMoves hm
      have := behind move.2 hit
      rw [rows move.1 (by omega) (by omega), rows move.2 (by omega) (by omega)]
      exact clean move (.tail _ hm)
    · rintro - u ⟨done, hs, gone, packed⟩
      exact ⟨done, hs.trans count, gone.trans removed, packed⟩

def Packed (b : Batch) : Prop := ∀ row < b.reqIds.length, b.idAt row ≠ none

theorem Packed.count (packed : Packed b) (tracks : Tracks cfg b) : b.numReqs = b.reqIds.length := by
  have count := tracks.count [] b.reqIds.length nodup_nil (fun row => ?_) fun _ _ held => lt_of_join held
  · simpa using count
  · simp only [not_mem_nil, false_iff, not_and]
    exact packed row

theorem Tracks.trim (tracks : Tracks cfg b)
    (hs : ∀ j, ids[j]?.join = b.idAt j) (shorter : ids.length ≤ b.reqIds.length) :
    Tracks cfg { b with reqIds := ids, removed, isRemovedSorted := read } := by
  refine ⟨fun k j => ?_, fun j => ?_, tracks.known, shorter.trans tracks.room⟩
  · simp only [idAt, hs]
    exact tracks.index k j
  · simp only [idAt, hs]
    exact tracks.rows j

theorem wp_condense (tracks : Tracks cfg b) (holes : Holes b)
    (clean : ∀ move ∈ b.moves, CleanMove cfg (b.rows move.1) (b.rows move.2)) :
    wp (condense cfg) (fun _ t => Tracks cfg t ∧ Packed t) (fun _ _ => False) b := by
  have count := holes.count tracks
  obtain ⟨removed, sorted, perm, ascending⟩ := holes.ensureSorted
  have mem : ∀ row, row ∈ removed ↔ row < b.reqIds.length ∧ b.idAt row = none := fun row => perm.mem_iff.trans (holes.mem row)
  have sortedTracks : Tracks cfg { b with removed, isRemovedSorted := true } := ⟨tracks.index, tracks.rows, tracks.known, tracks.room⟩
  unfold condense
  simp only [wp_bind, wp_get, wp_set, sorted]
  by_cases whole : b.removed = []
  · rw [if_pos whole]
    refine ⟨sortedTracks, fun row hb free => ?_⟩
    have gone := (holes.mem row).mpr ⟨hb, free⟩
    rw [whole] at gone
    cases gone
  rw [if_neg whole]
  by_cases empty : b.numReqs = 0
  · rw [if_pos empty, wp_bind, wp_modify]
    have none_held : ∀ row, b.idAt row = none := by
      intro row
      by_contra held
      obtain ⟨reqId, held⟩ := Option.ne_none_iff_exists'.mp held
      have known := mem_of_get?_eq ((tracks.index reqId row).mpr held)
      rw [mem_def, eq_nil_of_length_eq_zero empty] at known
      cases known
    exact ⟨tracks.trim (fun j => by simp [none_held]) (Nat.zero_le _), fun row hb => absurd hb (Nat.not_lt_zero _)⟩
  rw [if_neg empty, wp_bind]
  unfold moves at clean ⊢
  rw [sorted] at clean ⊢
  have gaps : Gaps removed (b.numReqs + b.removed.length - 1) { b with removed, isRemovedSorted := true } := by
    intro row
    have hole := mem row
    have hi : b.idAt row ≠ none → row < b.reqIds.length := fun held =>
      lt_of_join (Option.ne_none_iff_exists'.mp held).choose_spec
    constructor
    · intro held
      have := hi held
      exact ⟨by omega, fun hm => held (hole.mp hm).2⟩
    · intro hw free
      exact hw.2 (hole.mpr ⟨by omega, free⟩)
  have filled : ∃ row, b.idAt row ≠ none := by
    by_contra vacant
    simp only [not_exists, not_not] at vacant
    have all : b.removed.length = b.reqIds.length := by
      have := tracks.count (range b.reqIds.length) b.reqIds.length nodup_range
        (fun row => by simp [vacant]) fun _ _ held => lt_of_join held
      simp only [length_range] at this
      omega
    omega
  refine wp_imp (wp_moves ascending sortedTracks gaps filled clean) ?_
  rintro - t ⟨tracks', hs, -, n, packed⟩
  have fill : t.numReqs = n := by
    have := tracks'.count [] n nodup_nil (fun row => ?_) fun row _ held => (packed row).mp (by simp [held])
    · simpa using this
    · simp only [not_mem_nil, false_iff, not_and]
      exact fun hb => (packed row).mpr hb
  have total : b.numReqs = n := hs.symm.trans fill
  have ids : ∀ j, (t.reqIds.take b.numReqs)[j]?.join = t.idAt j := by
    intro j
    rw [getElem?_take]
    split <;> rename_i hb
    · rfl
    · have beyond := packed j
      rw [← total] at beyond
      by_contra held
      exact hb (beyond.mp (Ne.symm held))
  refine ⟨tracks'.trim ids (by simp), fun row hb => ?_⟩
  simp only [idAt, ids]
  refine (packed row).mpr ?_
  simp only [length_take] at hb
  omega

/-! ### `swap_states` -/

def CleanSwap (cfg : BatchConfig) (row₁ row₂ : Row) : Prop :=
  if cfg.isPoolingModel then row₁.needsTokenIds = row₂.needsTokenIds else ∀ t, row₁.allowedMask t = row₂.allowedMask t

theorem wp_swapStates (tracks : Tracks cfg b) (packed : Packed b) (first : i < b.numReqs) (second : j < b.numReqs)
    (clean : CleanSwap cfg (b.rows i) (b.rows j)) :
    wp (swapStates cfg i j) (fun _ t => Tracks cfg t ∧ Packed t) (fun _ _ => False) b := by
  have count := packed.count tracks
  obtain ⟨id₁, held₁⟩ := Option.ne_none_iff_exists'.mp (packed i (by omega))
  obtain ⟨id₂, held₂⟩ := Option.ne_none_iff_exists'.mp (packed j (by omega))
  obtain ⟨r₁, cached₁, owns₁⟩ := tracks.owned held₁
  obtain ⟨r₂, cached₂, owns₂⟩ := tracks.owned held₂
  have inside₁ := lt_of_join held₁
  have inside₂ := lt_of_join held₂
  have ids : ∀ p, ((b.reqIds.set i (some id₂)).set j (some id₁))[p]?.join =
      if j = p then some id₁ else if i = p then some id₂ else b.idAt p := by
    intro p
    rw [join_set (by simpa using inside₂), join_set inside₁]
    rfl
  have needs : (b.rows i).needsTokenIds = (b.rows j).needsTokenIds := by
    cases pooling : cfg.isPoolingModel with
    | true => simpa [CleanSwap, pooling] using clean
    | false => rw [owns₁.needs_plain pooling, owns₂.needs_plain pooling]
  have masks : cfg.isPoolingModel = false → ∀ t, (b.rows j).allowedMask t = (b.rows i).allowedMask t := by
    intro plain t
    simp only [CleanSwap, plain] at clean
    exact (clean t).symm
  unfold swapStates
  simp only [wp_bind, wp_get, show b.reqIds[i]?.join = some id₁ from held₁, show b.reqIds[j]?.join = some id₂ from held₂, (tracks.index id₁ i).mpr held₁, (tracks.index id₂ j).mpr held₂]
  refine ⟨⟨fun k p => ?_, fun p => ?_, fun k recorded => ?_, by simpa using tracks.room⟩, fun row hb => ?_⟩
  · simp only [idAt, ids, get?_insert]
    exact tracks.index.swap held₁ held₂ k p
  · simp only [idAt, ids]
    by_cases atSecond : j = p
    · rw [if_pos atSecond, ← atSecond, update_self, update_self]
      refine ⟨r₁, cached₁, owns₁.swapped (le_max_left ..) needs.symm fun plain t => ?_⟩
      simp only [Row.swapped, plain]
      exact masks plain t
    · rw [if_neg atSecond, update_of_ne (Ne.symm atSecond)]
      by_cases atFirst : i = p
      · rw [if_pos atFirst, ← atFirst, update_self]
        exact ⟨r₂, cached₂, owns₂.swapped (le_max_right ..) needs fun _ _ => rfl⟩
      · rw [if_neg atFirst, update_of_ne (Ne.symm atFirst)]
        exact tracks.rows p
  · have before := tracks.known k recorded
    simp only [get?_insert]
    grind
  · have there := packed row (by simpa using hb)
    simp only [idAt] at there ⊢
    grind

variable (cfg b) in
/-- What the model runner issues: an added request is new and has room, a draft is for a request of the batch, and the rows that
are swapped have a request. -/
def Action.Issued : Action → Prop
  | .add r =>
    b.reqIdToIndex.get? r.reqId = none ∧ b.numReqs < cfg.maxNumReqs ∧ r.params.isPooling = cfg.isPoolingModel
  | .draft reqId _ => b.reqIdToIndex.get? reqId ≠ none
  | .swap i1 i2 => i1 < b.numReqs ∧ i2 < b.numReqs
  | _ => True

variable (cfg b) in
/-- No request gets a row with an entry of another request that the operation does not overwrite. -/
def Action.Clean : Action → Prop
  | .add r => CleanFill r (b.rows b.newReqIndex)
  | .condense => ∀ move ∈ b.moves, CleanMove cfg (b.rows move.1) (b.rows move.2)
  | .swap i1 i2 => CleanSwap cfg (b.rows i1) (b.rows i2)
  | _ => True

instance (cfg : BatchConfig) (b : Batch) (action : Action) : Decidable (action.Issued cfg b) := by
  cases action <;> unfold Action.Issued <;> infer_instance

variable (cfg b) in
def Action.Fine (action : Action) : Prop := action.Issued cfg b ∧ action.Clean cfg b

variable (cfg b) in
/-- Every request of the batch has one row, the index is the inverse of the list of ids, and every field of a row is the one of
its request. -/
structure RowsFollow : Prop where
  one : ∀ reqId r, b.requests reqId = some r → ∃! row, row < b.numReqs ∧ b.reqIds[row]? = some (some reqId)
  inverse : ∀ reqId row, b.reqIdToIndex.get? reqId = some row ↔ b.reqIds[row]? = some (some reqId)
  owned : ∀ row < b.numReqs, ∃ reqId r, b.reqIds[row]? = some (some reqId) ∧ b.requests reqId = some r ∧ Owns cfg r (b.rows row)

theorem RowsFollow.owns (follow : RowsFollow cfg b) (i : Nat) (reqId : RequestId) (r : CachedRequestState) (hb : i < b.numReqs) (here : b.reqIds[i]? = some (some reqId))
    (recorded : b.requests reqId = some r) : Owns cfg r (b.rows i) := by
  obtain ⟨reqId', r', here', recorded', owns⟩ := follow.owned i hb
  have hs := Option.some.inj (Option.some.inj (here'.symm.trans here))
  subst hs
  rwa [Option.some.inj (recorded'.symm.trans recorded)] at owns

variable (cfg b) in
structure Settled : Prop where
  tracks : Tracks cfg b
  packed : Packed b
  removed : b.removed = []
  unread : b.isRemovedSorted = false

theorem Settled.rowsFollow (settled : Settled cfg b) : RowsFollow cfg b := by
  have count := settled.packed.count settled.tracks
  have at_row : ∀ reqId row, b.idAt row = some reqId ↔ b.reqIds[row]? = some (some reqId) := fun _ _ => Option.join_eq_some_iff
  have inverse : ∀ reqId row, b.reqIdToIndex.get? reqId = some row ↔ b.reqIds[row]? = some (some reqId) :=
    fun reqId row => (settled.tracks.index reqId row).trans (at_row reqId row)
  refine ⟨fun reqId r recorded => ?_, inverse, fun row hb => ?_⟩
  · obtain ⟨row, hf⟩ := Option.ne_none_iff_exists'.mp (settled.tracks.known reqId (by simp [recorded]))
    have here := (inverse reqId row).mp hf
    refine ⟨row, ⟨?_, here⟩, fun row' there => ?_⟩
    · rw [count]
      exact (List.getElem?_eq_some_iff.mp here).1
    · exact Option.some.inj (((inverse reqId row').mpr there.2).symm.trans hf)
  · obtain ⟨reqId, held⟩ := Option.ne_none_iff_exists'.mp (settled.packed row (count ▸ hb))
    obtain ⟨r, recorded, owns⟩ := settled.tracks.owned held
    exact ⟨reqId, r, (at_row reqId row).mp held, recorded, owns⟩

theorem Settled.holes (settled : Settled cfg b) : Holes b := by
  refine ⟨by simp [settled.removed], fun row => ?_, by simp [settled.unread]⟩
  simp only [settled.removed, not_mem_nil, false_iff, not_and]
  exact settled.packed row

theorem wp_returns {x : BatchM α} (spec : wp x (fun _ t => I t) (fun _ _ => False) b) :
    I (finalState x b) := finalState_of_wp (wp_mono spec (fun _ _ h => h) fun _ _ h => h.elim)

theorem phase (kind : Action → Prop) (all : ∀ a ∈ actions, kind a)
    (keeps : ∀ a s, kind a → a.Fine cfg s → I s → wp (a.exec cfg) (fun _ t => I t) (fun _ _ => False) s)
    (every : EveryStep (Action.exec cfg) (Action.Fine cfg) actions b) (start : I b) :
    I (runPast (Action.exec cfg) actions b) :=
  (every.and (EveryStep.of_forall all)).runPast (fun a s meets now => wp_returns (keeps a s meets.2 meets.1 now)) start

theorem removePhase {reqIds : List RequestId} (start : Tracks cfg b ∧ Holes b ∧ b.isRemovedSorted = false)
    (every : EveryStep (Action.exec cfg) (Action.Fine cfg) (reqIds.map .remove) b) :
    let t := runPast (Action.exec cfg) (reqIds.map .remove) b
    Tracks cfg t ∧ Holes t ∧ t.isRemovedSorted = false := by
  refine phase (I := fun t => Tracks cfg t ∧ Holes t ∧ t.isRemovedSorted = false) (fun a => ∃ reqId, a = .remove reqId)
    (by simp) ?_ every start
  rintro _ s ⟨reqId, rfl⟩ - ⟨tracks, holes, unread⟩
  exact (wp_discard ..).mpr (wp_removeRequest tracks holes unread reqId)

theorem addPhase (kinds : ∀ a ∈ actions, (∃ r, a = .add r) ∨ ∃ reqId drafts, a = .draft reqId drafts)
    (start : Tracks cfg b ∧ Holes b) (every : EveryStep (Action.exec cfg) (Action.Fine cfg) actions b) :
    let t := runPast (Action.exec cfg) actions b
    Tracks cfg t ∧ Holes t := by
  refine phase (I := fun t => Tracks cfg t ∧ Holes t) _ kinds ?_ every start
  rintro _ s (⟨r, rfl⟩ | ⟨reqId, drafts, rfl⟩) ⟨issued, clean⟩ ⟨tracks, holes⟩
  · exact (wp_discard ..).mpr (wp_addRequest tracks holes issued.1 issued.2.1 issued.2.2 clean)
  · exact wp_updateReqSpecTokenIds tracks holes issued drafts

theorem swapPhase {swaps : List (Nat × Nat)} (start : Tracks cfg b ∧ Packed b)
    (every : EveryStep (Action.exec cfg) (Action.Fine cfg) (swaps.map fun s => .swap s.1 s.2) b) :
    let t := runPast (Action.exec cfg) (swaps.map fun s => .swap s.1 s.2) b
    Tracks cfg t ∧ Packed t := by
  refine phase (I := fun t => Tracks cfg t ∧ Packed t) (fun a => ∃ i j, a = .swap i j) (by simp; grind) ?_ every start
  rintro _ s ⟨i, j, rfl⟩ ⟨issued, clean⟩ ⟨tracks, packed⟩
  exact wp_swapStates tracks packed issued.1 issued.2 clean

theorem Settled.step (settled : Settled cfg b) (step : BatchStep)
    (every : EveryStep (Action.exec cfg) (Action.Fine cfg) step.actions b) :
    Settled cfg (runPast (Action.exec cfg) step.actions b) := by
  unfold BatchStep.actions at every ⊢
  have moved := every.before.before.after
  have reordered := every.before.after
  rw [runPast_append] at moved
  rw [runPast_append, runPast_append] at reordered
  rw [runPast_append, runPast_append, runPast_append, runPast_append]
  have removed := removePhase ⟨settled.tracks, settled.holes, settled.unread⟩ every.before.before.before.before
  have added := addPhase (by simp; grind) ⟨removed.1, removed.2.1⟩ every.before.before.before.after
  have condensed := wp_returns (wp_condense added.1 added.2 moved.1.2)
  have swapped := swapPhase condensed reordered
  exact ⟨⟨swapped.1.index, swapped.1.rows, swapped.1.known, swapped.1.room⟩, swapped.2, rfl, rfl⟩

theorem Settled.run (settled : Settled cfg b) (steps : List BatchStep)
    (every : EveryStep (Action.exec cfg) (Action.Fine cfg) (steps.flatMap BatchStep.actions) b) :
    Settled cfg (runPast (Action.exec cfg) (steps.flatMap BatchStep.actions) b) := by
  induction steps generalizing b with
  | nil => exact settled
  | cons step steps ih =>
    rw [flatMap_cons] at every ⊢
    rw [runPast_append]
    exact ih (settled.step step every.before) every.after

theorem settled_init : Settled cfg .init := by
  refine ⟨⟨fun reqId row => ?_, fun row => ?_, fun reqId recorded => absurd rfl recorded, Nat.zero_le _⟩, ?_, rfl, rfl⟩
  · simp [init, idAt]
  · exact ⟨fun _ => rfl, fun _ => rfl, fun _ => rfl⟩
  · exact fun row hb => absurd hb (Nat.not_lt_zero _)

theorem clean_condense_of_nil (still : b.moves = []) : Action.Clean cfg b .condense := by
  intro move hm
  rw [still] at hm
  cases hm

def batchAfter (cfg : BatchConfig) (steps : List BatchStep) : Batch :=
  runPast (Action.exec cfg) (steps.flatMap BatchStep.actions) .init

theorem rows_follow_requests (cfg : BatchConfig) (steps : List BatchStep)
    (fine : EveryStep (Action.exec cfg) (Action.Fine cfg) (steps.flatMap BatchStep.actions) .init) :
    RowsFollow cfg (batchAfter cfg steps) :=
  (settled_init.run steps fine).rowsFollow

def plainRequest (reqId : RequestId) (allowedTokenIds : List Token) : CachedRequestState where
  reqId := reqId
  promptTokenIds := some [7]
  params := .sampling ⟨1, 1, 0, 0, 0, 1, allowedTokenIds, []⟩
  blockIds := [[reqId]]
  sameLength := by simp
  flagged := by simp

def embedsRequest : CachedRequestState where
  reqId := 1
  promptTokenIds := none
  promptEmbeds := some [[1], [2]]
  params := .sampling ⟨1, 1, 0, 0, 0, 1, [], []⟩
  blockIds := [[1]]
  sameLength := by simp
  flagged := by simp

def poolingRequest (reqId : RequestId) (requiresTokenIds : Bool) : CachedRequestState where
  reqId := reqId
  promptTokenIds := some [7]
  params := .pooling requiresTokenIds
  blockIds := [[reqId]]
  sameLength := by simp
  flagged := by simp

def twoRows (isPoolingModel : Bool) : BatchConfig := ⟨isPoolingModel, 2, 100, fun _ => 1⟩

def maskReused : List BatchStep :=
  [{ added := [(plainRequest 1 [7], [])] }, { removed := [1], added := [(plainRequest 2 [], [8])] }]

theorem rows_follow_requests_maskReused : RowsFollow (twoRows false) (batchAfter (twoRows false) maskReused) := by
  apply rows_follow_requests
  refine ⟨⟨by decide, fun _ => rfl, fun _ _ _ _ => rfl⟩, ⟨by decide, trivial⟩, ⟨trivial, clean_condense_of_nil (by decide)⟩,
    ⟨trivial, trivial⟩, ⟨trivial, trivial⟩, ⟨by decide, fun _ => rfl, fun _ _ _ _ => rfl⟩, ⟨by decide, trivial⟩,
    ⟨trivial, clean_condense_of_nil (by decide)⟩, ⟨trivial, trivial⟩, trivial⟩

def embedsReused : List BatchStep := [{ added := [(embedsRequest, [])] }, { removed := [1], added := [(plainRequest 2 [], [])] }]

def maskSwapped : List BatchStep := [{ added := [(plainRequest 1 [7], []), (plainRequest 2 [], [])], swaps := [(0, 1)] }]

def flagMoved : List BatchStep :=
  [{ added := [(poolingRequest 1 false, []), (poolingRequest 2 true, [])] }, { removed := [1] }]

/-- The second request has the embeddings of the first; the first request lost its mask in the swap; the second pooling request
lost its flag in the move. -/
theorem rows_keep_stale_entries :
    (EveryStep (Action.exec (twoRows false)) (Action.Issued (twoRows false)) (embedsReused.flatMap BatchStep.actions) .init ∧
      ¬ RowsFollow (twoRows false) (batchAfter (twoRows false) embedsReused)) ∧
    (EveryStep (Action.exec (twoRows false)) (Action.Issued (twoRows false)) (maskSwapped.flatMap BatchStep.actions) .init ∧
      ¬ RowsFollow (twoRows false) (batchAfter (twoRows false) maskSwapped)) ∧
    EveryStep (Action.exec (twoRows true)) (Action.Issued (twoRows true)) (flagMoved.flatMap BatchStep.actions) .init ∧
      ¬ RowsFollow (twoRows true) (batchAfter (twoRows true) flagMoved) := by
  refine ⟨⟨by decide, fun follow => ?_⟩, ⟨by decide, fun follow => ?_⟩, by decide, fun follow => ?_⟩
  · have owns := follow.owns 0 2 (plainRequest 2 []) (by decide) (by decide) rfl
    exact absurd owns.embeds (by decide)
  · have owns := follow.owns 1 1 (plainRequest 1 [7]) (by decide) (by decide) rfl
    exact absurd ((owns.samples _ rfl).mask 8) (by decide)
  · have owns := follow.owns 0 2 (poolingRequest 2 true) (by decide) (by decide) rfl
    exact absurd owns.needs (by decide)

end KVOffload.Worker
