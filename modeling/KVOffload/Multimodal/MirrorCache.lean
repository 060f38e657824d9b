import KVOffload.Lib.Purge

/-!
# The multi-modal caches of the two processes

`MultiModalProcessorSenderCache` and `MultiModalReceiverCache` (`multimodal/cache.py`) over `LRUCache` (`utils/cache.py`). An
entry is the hash of its item, which determines its size; `touch` also puts keys into `order` that have no entry.
-/

namespace KVOffload.Multimodal

open List

variable {Key : Type} [DecidableEq Key]

structure LRUCache (Key : Type) where
  data : List Key := []
  order : List Key := []
deriving DecidableEq

inductive CacheError (Key : Type) where
  /-- `ValueError` of `cachetools` -/
  | valueTooLarge
  /-- `RuntimeError` of `popitem` -/
  | allPinned
  /-- `popitem` returns a key without an entry and changes nothing: the loop around it does not end -/
  | endless
  | expectedCachedItem (key : Key)
deriving DecidableEq

abbrev CacheM (Key : Type) := EStateM (CacheError Key) (LRUCache Key)

namespace LRUCache

def touch (key : Key) (c : LRUCache Key) : LRUCache Key := { c with order := c.order.erase key ++ [key] }

def lookup (key : Key) : CacheM Key Bool := do
  if key ∈ (← get).data then do
    modify (touch key)
    return true
  else return false

variable (size : Key → Nat) (cap : Nat)

/-- The loop of `__setitem__`: the oldest keys are popped until there is room. -/
def makeRoom (need : Nat) (data : List Key) : List Key → Except (CacheError Key) (LRUCache Key)
  | [] => if (data.map size).sum + need ≤ cap then .ok ⟨data, []⟩ else .error .allPinned
  | key :: rest =>
    if (data.map size).sum + need ≤ cap then .ok ⟨data, key :: rest⟩
    else if key ∈ data then makeRoom need (data.erase key) rest else .error .endless

def setItem (key : Key) : CacheM Key Unit := do
  ensure (size key ≤ cap) .valueTooLarge
  let c ← get
  match makeRoom size cap (size key) c.data c.order with
  | .ok c' => set (touch key { c' with data := key :: c'.data })
  | .error e => throw e

end LRUCache

open LRUCache

section

variable (size : Key → Nat) (cap : Nat)

/-- `get_and_update_item` of the sender; whether the item goes along to the receiver. -/
def senderGetAndUpdateItem (given : Bool) (key : Key) : CacheM Key Bool := do
  if ← lookup key then return false
  else do
    ensure given (.expectedCachedItem key)
    setItem size cap key
    return true

def receiverGetAndUpdateItem (given : Bool) (key : Key) : CacheM Key Unit := do
  if ← lookup key then return ()
  else do
    ensure given (.expectedCachedItem key)
    setItem size cap key

structure MmItem (Key : Type) where
  hash : Key
  /-- where the placeholder begins in the prompt -/
  offset : Nat

abbrev MmRequest (Key : Type) := List (List (MmItem Key))

def mergeMmKwargs (hashes : List Key) : CacheM Key (List Bool) := do
  let before ← get
  forM hashes fun key => modify (touch key)
  hashes.mapM fun key => senderGetAndUpdateItem size cap (decide (key ∉ before.data)) key

def processInputs (request : MmRequest Key) : CacheM Key (List (Key × Bool)) := do
  let items := request.flatten
  let kwargs ← mergeMmKwargs size cap (items.map (·.hash))
  return ((items.zip kwargs).insertionSort fun a b => a.1.offset ≤ b.1.offset).map fun feature => (feature.1.hash, feature.2)

def getAndUpdateFeatures (features : List (Key × Bool)) : CacheM Key Unit := do
  forM features fun feature => modify (touch feature.1)
  forM features fun feature => receiverGetAndUpdateItem size cap feature.2 feature.1

structure MmCaches (Key : Type) where
  sender : LRUCache Key := {}
  receiver : LRUCache Key := {}
deriving DecidableEq

/-- A request that fails in the first process does not reach the second. -/
def handleRequest (request : MmRequest Key) : EStateM (CacheError Key) (MmCaches Key) Unit := do
  let features ← onPart MmCaches.sender (fun c s => { s with sender := c }) id (processInputs size cap request)
  onPart MmCaches.receiver (fun c s => { s with receiver := c }) id (getAndUpdateFeatures size cap features)

end

/-- In the pass over a request's items its keys stand behind all others in the order, which have entries; an item without an
entry is still to come. -/
structure Pass (keys todo : List Key) (c : LRUCache Key) : Prop where
  split : ∃ old own, c.order = old ++ own ∧ (∀ key ∈ old, key ∈ c.data) ∧ ∀ key, key ∈ own ↔ key ∈ keys
  nodup : c.order.Nodup
  stored : c.data.Nodup
  listed : ∀ key ∈ c.data, key ∈ c.order
  later : ∀ key ∈ keys, key ∉ c.data → key ∈ todo

variable {size : Key → Nat} {cap : Nat} {keys todo data order : List Key} {key : Key} {c c' : LRUCache Key}
  {request : MmRequest Key} {need : Nat}

omit [DecidableEq Key] in
theorem pass_empty : Pass [] [] ({} : LRUCache Key) := by
  refine ⟨⟨[], [], rfl, ?_, fun _ => Iff.rfl⟩, nodup_nil, nodup_nil, ?_, ?_⟩ <;> exact fun k hm => absurd hm not_mem_nil

theorem Pass.touch {keys' todo' : List Key} (pass : Pass keys todo c) (grown : ∀ k, k ∈ keys' ↔ k ∈ keys ∨ k = key)
    (later : ∀ k ∈ keys', k ∉ c.data → k ∈ todo') : Pass keys' todo' (c.touch key) := by
  obtain ⟨old, own, order, older, owned⟩ := pass.split
  have nodup := pass.nodup
  have mem : ∀ k, k ∈ c.order.erase key ++ [key] ↔ k ∈ c.order ∨ k = key := by
    intro k
    rw [mem_append, mem_singleton, nodup.mem_erase_iff]
    tauto
  refine ⟨⟨old.erase key, own.erase key ++ [key], ?_, fun k hm => older k (mem_of_mem_erase hm), fun k => ?_⟩, ?_,
    pass.stored, fun k hm => (mem k).mpr (.inl (pass.listed k hm)), later⟩
  · rw [LRUCache.touch, order, erase_append]
    rw [order] at nodup
    split <;> rename_i place
    · rw [erase_of_not_mem fun also => (nodup_append.mp nodup).2.2 key place key also rfl, append_assoc]
    · rw [erase_of_not_mem place, append_assoc]
  · rw [order] at nodup
    rw [grown, mem_append, mem_singleton, (nodup_append.mp nodup).2.1.mem_erase_iff, owned]
    tauto
  · refine nodup_append.mpr ⟨nodup.erase key, nodup_singleton key, fun a hm b last hs => ?_⟩
    rw [hs, mem_singleton.mp last] at hm
    exact nodup.not_mem_erase hm

theorem makeRoom_of_fits (fits : (data.map size).sum + need ≤ cap) :
    makeRoom size cap need data order = .ok ⟨data, order⟩ := by
  cases order <;> simp [makeRoom, fits]

variable (size cap c) in
def Within : Prop := (c.data.map size).sum ≤ cap

theorem makeRoom_sum
    (room : makeRoom size cap need data order = .ok c') : (c'.data.map size).sum + need ≤ cap := by
  induction order generalizing data with
  | nil =>
    rw [makeRoom] at room
    split at room <;> cases room
    assumption
  | cons oldest order ih =>
    rw [makeRoom] at room
    split at room
    · cases room
      assumption
    · split at room
      · exact ih room
      · cases room

theorem Pass.makeRoom_eq (small : ∑ k ∈ keys.toFinset, size k ≤ cap) (hm : key ∈ keys) {old own : List Key}
    (pass : Pass keys todo ⟨data, old ++ own⟩) (older : ∀ k ∈ old, k ∈ data) (owned : ∀ k, k ∈ own ↔ k ∈ keys)
    (absent : key ∉ data) : ∃ c, makeRoom size cap (size key) data (old ++ own) = .ok c ∧ Pass keys todo c ∧ key ∉ c.data ∧
      ∀ k ∈ keys, k ∈ data → k ∈ c.data := by
  induction old generalizing data with
  | nil =>
    have fits : (data.map size).sum + size key ≤ cap := by
      refine le_trans ?_ small
      have nodup := nodup_cons.mpr ⟨absent, pass.stored⟩
      rw [add_comm, ← sum_cons, ← map_cons, ← sum_toFinset size nodup]
      refine Finset.sum_le_sum_of_subset fun k hi => ?_
      rcases mem_cons.mp (mem_toFinset.mp hi) with rfl | entry
      · exact mem_toFinset.mpr hm
      · exact mem_toFinset.mpr ((owned k).mp (pass.listed k entry))
    exact ⟨_, makeRoom_of_fits fits, pass, absent, fun _ _ entry => entry⟩
  | cons oldest old ih =>
    by_cases fits : (data.map size).sum + size key ≤ cap
    · exact ⟨_, makeRoom_of_fits fits, pass, absent, fun _ _ entry => entry⟩
    have nodup := nodup_cons.mp pass.nodup
    have kept : ∀ k ∈ old ++ own, k ∈ data → k ∈ data.erase oldest := fun k hi entry =>
      pass.stored.mem_erase_iff.mpr ⟨fun hs => nodup.1 (hs ▸ hi), entry⟩
    have later : Pass keys todo ⟨data.erase oldest, old ++ own⟩ := by
      refine ⟨⟨old, own, rfl, fun k hi => ?_, owned⟩, nodup.2, pass.stored.erase oldest, fun k entry => ?_, fun k hi gone => ?_⟩
      · exact kept k (mem_append_left _ hi) (older k (.tail _ hi))
      · obtain ⟨other, entry⟩ := pass.stored.mem_erase_iff.mp entry
        exact (mem_cons.mp (pass.listed k entry)).resolve_left other
      · exact pass.later k hi fun entry => gone (kept k (mem_append_right _ ((owned k).mpr hi)) entry)
    obtain ⟨c, room, done, still, own_kept⟩ := ih later (fun k hi => kept k (mem_append_left _ hi)
      (older k (.tail _ hi))) fun entry => absent (mem_of_mem_erase entry)
    refine ⟨c, ?_, done, still, fun k hi entry => own_kept k hi (kept k (mem_append_right _ ((owned k).mpr hi)) entry)⟩
    rw [cons_append, makeRoom, if_neg fits, if_pos (older oldest (.head _)), room]

theorem lookup_of_mem (entry : key ∈ c.data) : lookup key c = .ok true (c.touch key) := by
  refine bind_ok_iff.mpr ⟨c, c, rfl, ?_⟩
  rw [if_pos entry]
  rfl

theorem lookup_of_not_mem (absent : key ∉ c.data) : lookup key c = .ok false c := by
  refine bind_ok_iff.mpr ⟨c, c, rfl, ?_⟩
  rw [if_neg absent]
  rfl

theorem setItem_eq (small : size key ≤ cap) (room : makeRoom size cap (size key) c.data c.order = .ok c') :
    setItem size cap key c = .ok () (LRUCache.touch key { c' with data := key :: c'.data }) := by
  refine bind_ok_iff.mpr ⟨(), c, ensure_ok small, bind_ok_iff.mpr ⟨c, c, rfl, ?_⟩⟩
  rw [room]
  rfl

theorem Pass.item (pass : Pass keys (key :: todo) c) (hm : key ∈ keys) (small : ∑ k ∈ keys.toFinset, size k ≤ cap)
    {given : Bool} (brought : key ∉ c.data → given = true) : ∃ c', senderGetAndUpdateItem size cap given key c =
      .ok (decide (key ∉ c.data)) c' ∧ receiverGetAndUpdateItem size cap (decide (key ∉ c.data)) key c = .ok () c' ∧
      Pass keys todo c' ∧ (Within size cap c → Within size cap c') ∧ ∀ k ∈ keys, k ∈ c.data ∨ k = key → k ∈ c'.data := by
  have hs : ∀ k, k ∈ keys ↔ k ∈ keys ∨ k = key := fun k => ⟨.inl, (·.elim id (· ▸ hm))⟩
  by_cases entry : key ∈ c.data
  · refine ⟨c.touch key, ?_, ?_, pass.touch hs fun k hi gone => ?_, id, fun _ _ before => before.elim id (· ▸ entry)⟩
    · rw [decide_eq_false (not_not_intro entry)]
      exact bind_ok_iff.mpr ⟨true, _, lookup_of_mem entry, rfl⟩
    · exact bind_ok_iff.mpr ⟨true, _, lookup_of_mem entry, rfl⟩
    · exact (mem_cons.mp (pass.later k hi gone)).resolve_left fun eq => gone (eq ▸ entry)
  obtain ⟨old, own, order, older, owned⟩ := pass.split
  have started : Pass keys (key :: todo) ⟨c.data, old ++ own⟩ := by
    rw [← order]
    exact pass
  obtain ⟨c', room, made, absent, kept⟩ := started.makeRoom_eq small hm older owned entry
  rw [← order] at room
  have stored := setItem_eq (Nat.le_trans (Finset.single_le_sum (fun _ _ => Nat.zero_le _) (mem_toFinset.mpr hm)) small) room
  have added : Pass keys (key :: todo) { c' with data := key :: c'.data } := by
    obtain ⟨old, own, order, older, owned⟩ := made.split
    refine ⟨⟨old, own, order, fun k hi => .tail _ (older k hi), owned⟩, made.nodup,
      nodup_cons.mpr ⟨absent, made.stored⟩, fun k hi => ?_,
      fun k hi gone => made.later k hi fun entry => gone (.tail _ entry)⟩
    rcases mem_cons.mp hi with rfl | entry
    · rw [order]
      exact mem_append_right _ ((owned k).mpr hm)
    · exact made.listed k entry
  refine ⟨_, ?_, ?_, added.touch hs fun k hi gone => ?_, fun _ => ?_,
    fun k hi before => before.elim (fun entry => .tail _ (kept k hi entry)) fun hs => hs ▸ .head _⟩
  · rw [decide_eq_true entry]
    exact bind_ok_iff.mpr ⟨false, c, lookup_of_not_mem entry, bind_ok_iff.mpr ⟨(), c, ensure_ok (brought entry),
      bind_ok_iff.mpr ⟨(), _, stored, rfl⟩⟩⟩
  · exact bind_ok_iff.mpr ⟨false, c, lookup_of_not_mem entry, bind_ok_iff.mpr ⟨(), c, ensure_ok (decide_eq_true entry), stored⟩⟩
  · refine (mem_cons.mp (made.later k hi fun entry => gone (.tail _ entry))).resolve_left ?_
    exact fun eq => gone (eq ▸ (.head _))
  · have sum := makeRoom_sum room
    rw [Within, LRUCache.touch, map_cons, sum_cons]
    omega

/-- Both caches go through the items in the same order, and end in the same state. -/
theorem Pass.items (given : Key → Bool) (small : ∑ k ∈ keys.toFinset, size k ≤ cap) (pass : Pass keys todo c)
    (hi : ∀ k ∈ todo, k ∈ keys) (brought : ∀ k ∈ keys, k ∉ c.data → given k = true) :
    ∃ sent c', todo.mapM (fun k => senderGetAndUpdateItem size cap (given k) k) c = .ok sent c' ∧ sent.length = todo.length ∧
      forM (todo.zip sent) (fun feature => receiverGetAndUpdateItem size cap feature.2 feature.1) c = .ok () c' ∧
      Pass keys [] c' ∧ (Within size cap c → Within size cap c') := by
  induction todo generalizing c with
  | nil => exact ⟨[], c, rfl, rfl, rfl, pass, id⟩
  | cons key todo ih =>
    have hm := hi key (.head _)
    obtain ⟨c₁, sender, receiver, next, first, kept⟩ := pass.item hm small (brought key hm)
    obtain ⟨sent, c₂, senders, length, receivers, done, within⟩ := ih next (fun k later => hi k (.tail _ later))
      fun k hm gone => brought k hm fun entry => gone (kept k hm (.inl entry))
    refine ⟨decide (key ∉ c.data) :: sent, c₂, ?_, congrArg (· + 1) length, ?_, done, within ∘ first⟩
    · rw [mapM_cons]
      exact bind_ok_iff.mpr ⟨_, c₁, sender, bind_ok_iff.mpr ⟨sent, c₂, senders, rfl⟩⟩
    · exact bind_ok_iff.mpr ⟨(), c₁, receiver, receivers⟩

theorem Pass.touches (pass : Pass [] [] c) (keys : List Key) : Pass keys keys (keys.foldl (fun c k => c.touch k) c) ∧
    (keys.foldl (fun c k => c.touch k) c).data = c.data := by
  induction keys using reverseRecOn with
  | nil => exact ⟨pass, rfl⟩
  | append_singleton keys key ih =>
    rw [foldl_append, foldl_cons]
    exact ⟨ih.1.touch (fun k => by simp) fun k hi _ => hi, ih.2⟩

theorem Pass.settled (pass : Pass keys [] c) : Pass [] [] c := by
  obtain ⟨old, own, order, older, owned⟩ := pass.split
  refine ⟨⟨c.order, [], (append_nil _).symm, fun k hi => ?_, fun k => Iff.rfl⟩, pass.nodup, pass.stored, pass.listed,
    fun k hi => absurd hi not_mem_nil⟩
  rw [order, mem_append] at hi
  rcases hi with hi | hi
  · exact older k hi
  · by_contra gone
    exact not_mem_nil (pass.later k ((owned k).mp hi) gone)

theorem forM_touch (keys : List Key) (c : LRUCache Key) :
    forM keys (fun key => (modify (touch key) : CacheM Key Unit)) c = .ok () (keys.foldl (fun c k => c.touch k) c) := by
  induction keys generalizing c with
  | nil => rfl
  | cons key keys ih => exact ih _

variable (size cap request) in
/-- The prompt has the items in the order of `mm_hashes`, and they fit into the cache together. -/
structure MmRequest.Mirrored : Prop where
  ordered : request.flatten.Pairwise fun a b => a.offset ≤ b.offset
  small : ∑ k ∈ (request.flatten.map (·.hash)).toFinset, size k ≤ cap

theorem zip_pairwise {α β : Type} {r : α → α → Prop} {xs : List α} (ordered : xs.Pairwise r) (ys : List β) :
    (xs.zip ys).Pairwise fun a b => r a.1 b.1 := by
  induction ordered generalizing ys with
  | nil => simp
  | cons first _ ih =>
    cases ys with
    | nil => simp
    | cons y ys =>
      exact pairwise_cons.mpr ⟨fun b hi => first _ (of_mem_zip hi).1, ih ys⟩

theorem processInputs_eq (mirrored : request.Mirrored size cap) (pass : Pass [] [] c) :
    ∃ features c', processInputs size cap request c = .ok features c' ∧
      getAndUpdateFeatures size cap features c = .ok () c' ∧ Pass [] [] c' := by
  obtain ⟨touched, data⟩ := pass.touches (request.flatten.map (·.hash))
  obtain ⟨sent, c', senders, length, receivers, done, -⟩ := touched.items (fun k => decide (k ∉ c.data)) mirrored.small
    (fun _ hi => hi) fun k _ gone => decide_eq_true (data ▸ gone)
  refine ⟨(request.flatten.map (·.hash)).zip sent, c', bind_ok_iff.mpr ⟨sent, c', ?_, ?_⟩, bind_ok_iff.mpr ⟨(), _, ?_, receivers⟩,
    done.settled⟩
  · exact bind_ok_iff.mpr ⟨c, c, rfl, bind_ok_iff.mpr ⟨(), _, forM_touch _ c, senders⟩⟩
  · rw [List.Pairwise.insertionSort_eq (zip_pairwise mirrored.ordered sent), zip_map_left]
    rfl
  · have keys := forM_touch (((request.flatten.map (·.hash)).zip sent).map Prod.fst) c
    rw [forM_map] at keys
    rw [map_fst_zip (le_of_eq length.symm)] at keys
    exact keys

theorem handleRequest_eq (mirrored : request.Mirrored size cap) (pass : Pass [] [] c) :
    ∃ c', handleRequest size cap request ⟨c, c⟩ = .ok () ⟨c', c'⟩ ∧ Pass [] [] c' := by
  obtain ⟨features, c', sender, receiver, done⟩ := processInputs_eq mirrored pass
  refine ⟨c', bind_ok_iff.mpr ⟨features, ⟨c', c⟩, ?_, ?_⟩, done⟩
  · rw [onPart, sender]
  · rw [onPart, receiver]

theorem runPast_eq {requests : List (MmRequest Key)} (mirrored : ∀ request ∈ requests, request.Mirrored size cap)
    (pass : Pass [] [] c) : ∃ c', runPast (handleRequest size cap) requests ⟨c, c⟩ = ⟨c', c'⟩ ∧ Pass [] [] c' := by
  induction requests generalizing c with
  | nil => exact ⟨c, rfl, pass⟩
  | cons request rest ih =>
    obtain ⟨c₁, handled, next⟩ := handleRequest_eq (mirrored request (.head _)) pass
    rw [runPast, finalState, handled]
    exact ih (fun request later => mirrored request (.tail _ later)) next

/-- In every run of such requests both caches have the same entries before each request, and none fails. -/
theorem receiver_mirrors_sender (size : Key → Nat) (cap : Nat) (before : List (MmRequest Key)) (request : MmRequest Key)
    (mirrored : ∀ r ∈ before ++ [request], r.Mirrored size cap) :
    let caches := runPast (handleRequest size cap) before {}
    (∀ key, key ∈ caches.sender.data ↔ key ∈ caches.receiver.data) ∧ raised (handleRequest size cap request) caches = none := by
  obtain ⟨c, reached, pass⟩ := runPast_eq (fun r earlier => mirrored r (List.mem_append_left _ earlier)) pass_empty
  obtain ⟨c', handled, _⟩ := handleRequest_eq (mirrored request (List.mem_append_right _ (.head _))) pass
  intro caches
  have now : caches = ⟨c, c⟩ := reached
  rw [now, raised, handled]
  exact ⟨fun _ => Iff.rfl, rfl⟩

theorem receiver_mirrors_repeated_image : let caches := runPast (handleRequest (fun _ => 1) 1) [[[⟨7, 0⟩, ⟨7, 4⟩]]] {}
    (∀ key, key ∈ caches.sender.data ↔ key ∈ caches.receiver.data) ∧
      raised (handleRequest (fun _ => 1) 1 [[⟨3, 0⟩]]) caches = none := by
  refine receiver_mirrors_sender (fun _ => 1) 1 [[[⟨7, 0⟩, ⟨7, 4⟩]]] [[⟨3, 0⟩]] fun r member => ?_
  rcases List.mem_cons.mp member with rfl | member
  · exact ⟨by decide, by decide⟩
  · rw [List.mem_singleton.mp member]
    exact ⟨by decide, by decide⟩

/-- The prompt of the first request has the audio clip 2 before the image 1, `mm_hashes` the image first: image 3 evicts the
image in the first process and the clip in the second. -/
theorem receiver_misses_audio :
    let caches := runPast (handleRequest (fun _ => 1) 2) [[[⟨1, 8⟩], [⟨2, 0⟩]], [[⟨3, 0⟩]]] {}
    caches.sender.data = [3, 2] ∧ caches.receiver.data = [3, 1] ∧
      raised (handleRequest (fun _ => 1) 2 [[], [⟨2, 0⟩]]) caches = some (.expectedCachedItem 2) := by
  decide

/-! ### One cache by itself -/

/-- What a request does to a cache: in the first process, and in the second with the features it was sent. -/
inductive CacheRequest (Key : Type) where
  | merge (hashes : List Key)
  | update (features : List (Key × Bool))

def CacheRequest.cacheKeys : CacheRequest Key → List Key
  | .merge hashes => hashes
  | .update features => features.map Prod.fst

def CacheRequest.run (size : Key → Nat) (cap : Nat) : CacheRequest Key → CacheM Key Unit
  | .merge hashes => discard (mergeMmKwargs size cap hashes)
  | .update features => getAndUpdateFeatures size cap features

/-- An item comes along unless it has an entry or came along before. -/
def Brought (data : List Key) : List (Key × Bool) → Prop
  | [] => True
  | (key, given) :: features => (key ∉ data → given = true) ∧ Brought (key :: data) features

def CacheRequest.Complete (data : List Key) : CacheRequest Key → Prop
  | .merge _ => True
  | .update features => Brought data features

variable (size cap c) in
/-- The request brings what the cache misses, and its items fit into the cache together. -/
def CacheRequest.Fits (request : CacheRequest Key) : Prop :=
  request.Complete c.data ∧ ∑ k ∈ request.cacheKeys.toFinset, size k ≤ cap

omit [DecidableEq Key] in
theorem Brought.mono {data' : List Key} {features : List (Key × Bool)} (brought : Brought data features)
    (grown : ∀ feature ∈ features, feature.1 ∈ data → feature.1 ∈ data') : Brought data' features := by
  induction features generalizing data data' with
  | nil => trivial
  | cons feature features ih =>
    refine ⟨fun gone => brought.1 fun entry => gone (grown feature (.head _) entry), ih brought.2 fun later hm entry => ?_⟩
    rcases mem_cons.mp entry with same | entry
    · exact same ▸ .head _
    · exact .tail _ (grown later (.tail _ hm) entry)

theorem receiver_of_sender {given sent : Bool}
    (done : senderGetAndUpdateItem size cap given key c = .ok sent c') :
    receiverGetAndUpdateItem size cap given key c = .ok () c' := by
  obtain ⟨hit, c₁, looked, done⟩ := bind_ok_iff.mp done
  refine bind_ok_iff.mpr ⟨hit, c₁, looked, ?_⟩
  cases hit with
  | true =>
    cases done
    rfl
  | false =>
    obtain ⟨_, c₂, ensured, done⟩ := bind_ok_iff.mp done
    obtain ⟨_, c₃, stored, done⟩ := bind_ok_iff.mp done
    cases done
    exact bind_ok_iff.mpr ⟨_, c₂, ensured, stored⟩

theorem Pass.features {features : List (Key × Bool)} (small : ∑ k ∈ keys.toFinset, size k ≤ cap)
    (pass : Pass keys (features.map Prod.fst) c) (hi : ∀ feature ∈ features, feature.1 ∈ keys) (brought : Brought c.data features) :
    ∃ c', forM features (fun feature => receiverGetAndUpdateItem size cap feature.2 feature.1) c = .ok () c' ∧
      Pass keys [] c' ∧ (Within size cap c → Within size cap c') := by
  induction features generalizing c with
  | nil => exact ⟨c, rfl, pass, id⟩
  | cons feature features ih =>
    obtain ⟨c₁, sender, -, next, first, kept⟩ := pass.item (hi feature (.head _)) small brought.1
    obtain ⟨c₂, done, rest, within⟩ := ih next (fun later hm => hi later (.tail _ hm)) (brought.2.mono fun later hm entry =>
      kept later.1 (hi later (.tail _ hm)) ((mem_cons.mp entry).symm.imp id id))
    exact ⟨c₂, bind_ok_iff.mpr ⟨(), c₁, receiver_of_sender sender, done⟩, rest, within ∘ first⟩

theorem CacheRequest.run_eq (pass : Pass [] [] c) (within : Within size cap c) {request : CacheRequest Key}
    (fits : request.Fits size cap c) :
    ∃ c', request.run size cap c = .ok () c' ∧ Pass [] [] c' ∧ Within size cap c' := by
  obtain ⟨complete, small⟩ := fits
  obtain ⟨touched, data⟩ := pass.touches request.cacheKeys
  rw [Within, ← data] at within
  cases request with
  | merge hashes =>
    obtain ⟨sent, c', senders, -, -, done, fit⟩ := touched.items (fun k => decide (k ∉ c.data)) small (fun _ hi => hi)
      fun k _ gone => decide_eq_true (data ▸ gone)
    have merged : mergeMmKwargs size cap hashes c = .ok sent c' :=
      bind_ok_iff.mpr ⟨c, c, rfl, bind_ok_iff.mpr ⟨(), _, forM_touch _ c, senders⟩⟩
    exact ⟨c', bind_ok_iff.mpr ⟨sent, c', merged, rfl⟩, done.settled, fit within⟩
  | update features =>
    obtain ⟨c', receivers, done, fit⟩ := touched.features small (fun feature hm => mem_map_of_mem hm) (data ▸ complete)
    have keys := forM_touch (features.map Prod.fst) c
    rw [forM_map] at keys
    exact ⟨c', bind_ok_iff.mpr ⟨(), _, keys, receivers⟩, done.settled, fit within⟩

theorem requests_fit {requests : List (CacheRequest Key)} (pass : Pass [] [] c) (within : Within size cap c)
    (fit : EveryStep (CacheRequest.run size cap) (CacheRequest.Fits size cap) requests c) :
    Pass [] [] (runPast (CacheRequest.run size cap) requests c) ∧
      Within size cap (runPast (CacheRequest.run size cap) requests c) ∧
      ∀ outcome ∈ outcomes (CacheRequest.run size cap) (fun _ => true) requests c, outcome = none := by
  induction requests generalizing c with
  | nil => exact ⟨pass, within, fun _ hm => absurd hm not_mem_nil⟩
  | cons request requests ih =>
    obtain ⟨c', run, next⟩ := CacheRequest.run_eq pass within fit.1
    have reached : finalState (request.run size cap) c = c' := by rw [finalState, run]
    obtain ⟨pass, within, all⟩ := ih (reached ▸ next.1) (reached ▸ next.2) fit.2
    refine ⟨pass, within, fun outcome hm => ?_⟩
    rcases mem_cons.mp hm with rfl | later
    · rw [raised, run]
    · exact all outcome later

/-- In every run of such requests each one returns, the entries fit, and the order lists the keys with an entry. -/
theorem cache_within_capacity (size : Key → Nat) (cap : Nat) (requests : List (CacheRequest Key))
    (fit : EveryStep (CacheRequest.run size cap) (CacheRequest.Fits size cap) requests {}) :
    let c := runPast (CacheRequest.run size cap) requests {}
    (∀ outcome ∈ outcomes (CacheRequest.run size cap) (fun _ => true) requests {}, outcome = none) ∧
      (c.data.map size).sum ≤ cap ∧ c.order.Nodup ∧ ∀ key, key ∈ c.order ↔ key ∈ c.data := by
  obtain ⟨pass, within, all⟩ := requests_fit pass_empty (Nat.zero_le cap) fit
  obtain ⟨old, own, order, older, owned⟩ := pass.split
  refine ⟨all, within, pass.nodup, fun key => ⟨fun listed => ?_, pass.listed key⟩⟩
  rcases List.mem_append.mp (order ▸ listed) with hm | hm
  · exact older key hm
  · exact absurd ((owned key).mp hm) List.not_mem_nil

theorem cache_within_one_item : let c := runPast (CacheRequest.run (fun _ => 1) 1) [.merge [7], .update [(3, true)]] {}
    c.data = [3] ∧ ∀ key, key ∈ c.order ↔ key ∈ c.data :=
  ⟨by decide, (cache_within_capacity (fun _ => 1) 1 [.merge [7], .update [(3, true)]]
    ⟨⟨trivial, by decide⟩, ⟨⟨fun _ => rfl, trivial⟩, by decide⟩, trivial⟩).2.2.2⟩

/-- Two items that fit only one at a time: the loop pops the key of the second one, which has no entry. -/
theorem insertion_endless : raised (CacheRequest.run (fun _ => 1) 1 (.merge [1, 2])) {} = some .endless := by
  decide

end KVOffload.Multimodal
