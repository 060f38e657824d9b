import KVOffload.Lib.HashChain
import KVOffload.Core.Request

/-!
# Block hashes

The hashes of the full blocks of a request, from `vllm/v1/core/kv_cache_utils.py`.
-/

namespace KVOffload.Core

/-- What an extra key can be; a LoRA name and a cache salt are both plain strings. -/
inductive ExtraKey where
  | text (value : String)
  | item (identifier : String) (offset : Int)
  | digest (value : Bytes)
deriving DecidableEq, Repr

structure HashInput where
  parentBlockHash : Bytes
  currBlockTokenIds : List Token
  extraKeys : Option (List ExtraKey)
deriving DecidableEq, Repr

/-- The hash functions the block hasher calls, and the hash that stands for no parent. -/
structure HashScheme where
  hashFunction : HashInput → Bytes
  noneHash : Bytes
  sha256 : Bytes → Bytes

/-- A scheme that can be evaluated: the tokens behind the hash of the block before. -/
def spelledScheme : HashScheme where
  hashFunction input := input.parentBlockHash ++ input.currBlockTokenIds.map fun token => UInt8.ofNat token.toNat
  noneHash := []
  sha256 := id

def slice {α : Type} (xs : List α) (startIdx endIdx : Nat) : List α := (xs.take endIdx).drop startIdx

section

variable {α : Type} {xs ys : List α} {a b m n : Nat}

theorem slice_get? (xs : List α) (hi : m < n) : (slice xs a (a + n))[m]? = xs[a + m]? := by
  rw [slice, List.getElem?_drop, List.getElem?_take_of_lt (by omega)]

theorem slice_take (xs : List α) (hi : b ≤ n) : slice (xs.take n) a b = slice xs a b := by
  rw [slice, slice, List.take_take, Nat.min_eq_left hi]

theorem length_slice (hi : a + n ≤ xs.length) : (slice xs a (a + n)).length = n := by
  rw [slice, List.length_drop, List.length_take, Nat.min_eq_left hi, Nat.add_sub_cancel_left]

theorem take_add_eq_slice (xs : List α) (a n : Nat) : xs.take (a + n) = xs.take a ++ slice xs a (a + n) := by
  rw [slice, List.drop_take, Nat.add_sub_cancel_left, List.take_add]

theorem take_eq_iff_slices {blockSize blocks : Nat} :
    xs.take (blocks * blockSize) = ys.take (blocks * blockSize) ↔
      ∀ j < blocks, slice xs (j * blockSize) (j * blockSize + blockSize) =
      slice ys (j * blockSize) (j * blockSize + blockSize) := by
  constructor
  · intro hs j hi
    have hw : j * blockSize + blockSize ≤ blocks * blockSize := by
      rw [← Nat.succ_mul]
      exact Nat.mul_le_mul_right _ hi
    rw [← slice_take xs hw, hs, slice_take ys hw]
  · intro slices
    induction blocks with
    | zero => simp
    | succ blocks ih =>
      rw [Nat.succ_mul, take_add_eq_slice, take_add_eq_slice, slices blocks (Nat.lt_succ_self _),
        ih fun j hi => slices j (by omega)]

end

namespace MultiModalFeature

def offset (feature : MultiModalFeature) : Nat := feature.mmPosition.offset

def stop (feature : MultiModalFeature) : Nat := feature.mmPosition.offset + feature.mmPosition.length

def key (startTokenIdx : Nat) (feature : MultiModalFeature) : ExtraKey :=
  .item feature.identifier ((feature.offset : Int) - startTokenIdx)

end MultiModalFeature

/-- The loop over the features from the cursor on: their keys and the cursor for the next block. -/
def mmKeyLoop (startTokenIdx endTokenIdx : Nat) : List MultiModalFeature → Nat → List ExtraKey × Nat
  | [], currMmIdx => ([], currMmIdx)
  | feature :: rest, currMmIdx =>
    if endTokenIdx > feature.offset then
      if startTokenIdx ≥ feature.stop then mmKeyLoop startTokenIdx endTokenIdx rest (currMmIdx + 1)
      else if endTokenIdx ≥ feature.stop then
        let (keys, next) := mmKeyLoop startTokenIdx endTokenIdx rest (currMmIdx + 1)
        (feature.key startTokenIdx :: keys, next)
      else ([feature.key startTokenIdx], currMmIdx)
    else ([], currMmIdx)

/-- A negative cursor counts from the end. The hasher passes `0`, `-1` and the cursors it got back, so that
`-start_mm_idx <= len(mm_features)` is never violated. -/
def genMmExtraHashKeys (request : Request) (startTokenIdx endTokenIdx : Nat) (startMmIdx : Int) :
    List ExtraKey × Int :=
  match request.mmFeatures.getLast? with
  | none => ([], startMmIdx)
  | some last =>
    if last.stop ≤ startTokenIdx then ([], startMmIdx)
    else
      let currMmIdx := if startMmIdx < 0 then (request.mmFeatures.length + startMmIdx).toNat else startMmIdx.toNat
      let (keys, next) := mmKeyLoop startTokenIdx endTokenIdx (request.mmFeatures.drop currMmIdx) currMmIdx
      (keys, next)

def genLoraExtraHashKeys (request : Request) : List ExtraKey :=
  match request.loraRequest with
  | none => []
  | some lora => [.text lora.loraName]

/-- The digests are kept per block range on the request, which changes no result: the embeddings never change. -/
def genPromptEmbedsExtraHashKeys (scheme : HashScheme) (request : Request) (startTokenIdx endTokenIdx : Nat) :
    List ExtraKey :=
  match request.promptEmbeds with
  | none => []
  | some rows => [.digest (scheme.sha256 (slice rows startTokenIdx endTokenIdx).flatten)]

def cacheSaltKeys (request : Request) (startTokenIdx : Nat) : List ExtraKey :=
  match request.cacheSalt with
  | none => []
  | some salt => if startTokenIdx = 0 ∧ salt ≠ "" then [.text salt] else []

def generateBlockHashExtraKeys (scheme : HashScheme) (request : Request) (startTokenIdx endTokenIdx : Nat)
    (startMmIdx : Int) : Option (List ExtraKey) × Int :=
  let (mmExtraKeys, newStartMmIdx) := genMmExtraHashKeys request startTokenIdx endTokenIdx startMmIdx
  let extraKeys := genLoraExtraHashKeys request ++ mmExtraKeys ++ cacheSaltKeys request startTokenIdx ++
    genPromptEmbedsExtraHashKeys scheme request startTokenIdx endTokenIdx
  if extraKeys = [] then (none, newStartMmIdx) else (some extraKeys, newStartMmIdx)

def hashBlockTokens (scheme : HashScheme) (parentBlockHash : Option Bytes) (currBlockTokenIds : List Token)
    (extraKeys : Option (List ExtraKey)) : Bytes :=
  let parent := match parentBlockHash with
    | none => scheme.noneHash
    | some hash => if hash = [] then scheme.noneHash else hash
  scheme.hashFunction ⟨parent, currBlockTokenIds, extraKeys⟩

/-- The loop of `request_block_hasher`; a block size above zero makes it end within as many passes as there are tokens. -/
def hashLoop (scheme : HashScheme) (blockSize : Nat) (request : Request) :
    (fuel startTokenIdx : Nat) → Option Bytes → Int → List Bytes
  | 0, _, _, _ => []
  | fuel + 1, startTokenIdx, prevBlockHashValue, currMmIdx =>
    let endTokenIdx := startTokenIdx + blockSize
    -- only full blocks are hashed
    if endTokenIdx > request.numTokens then []
    else
      let (extraKeys, currMmIdx) := generateBlockHashExtraKeys scheme request startTokenIdx endTokenIdx currMmIdx
      let blockHash := hashBlockTokens scheme prevBlockHashValue (slice request.allTokenIds startTokenIdx endTokenIdx)
        extraKeys
      blockHash :: hashLoop scheme blockSize request fuel endTokenIdx (some blockHash) currMmIdx

def requestBlockHasher (scheme : HashScheme) (blockSize : Nat) (request : Request) : List Bytes :=
  let startTokenIdx := request.blockHashes.length * blockSize
  if startTokenIdx + blockSize > request.numTokens then []
  else
    -- A resumed call looks at the last feature only.
    let currMmIdx : Int := if startTokenIdx > 0 then -1 else 0
    hashLoop scheme blockSize request request.numTokens startTokenIdx request.blockHashes.getLast? currMmIdx

namespace Request

def updateBlockHashes (scheme : HashScheme) (blockSize : Nat) (request : Request) : Request :=
  { request with blockHashes := request.blockHashes ++ requestBlockHasher scheme blockSize request }

def appendOutputTokenIds (scheme : HashScheme) (blockSize : Nat) (tokenIds : List Token) (request : Request) : Request :=
  updateBlockHashes scheme blockSize { request with
    outputTokenIds := request.outputTokenIds ++ tokenIds
    allTokenIds := request.allTokenIds ++ tokenIds }

def appendGroups (scheme : HashScheme) (blockSize : Nat) (groups : List (List Token)) (request : Request) : Request :=
  groups.foldl (fun r tokenIds => r.appendOutputTokenIds scheme blockSize tokenIds) request

def scratchHashes (scheme : HashScheme) (blockSize : Nat) (request : Request) : List Bytes :=
  requestBlockHasher scheme blockSize { request with blockHashes := [] }

end Request

def getValueAt (blockHashes : List Bytes) (scaleFactor idx : Nat) : Bytes :=
  (slice blockHashes (idx * scaleFactor) (idx * scaleFactor + scaleFactor)).flatten

/-- The hashes of the blocks of `targetBlockSize` tokens, a multiple of the size they were computed at. -/
def blockHashListWithBlockSize (blockHashes : List Bytes) (hashBlockSize targetBlockSize : Nat) : List Bytes :=
  (List.range (blockHashes.length / (targetBlockSize / hashBlockSize))).map
    (getValueAt blockHashes (targetBlockSize / hashBlockSize))

def hashesAt (hashBlockSize : Nat) (blockHashes : List Bytes) (blockSize : Nat) : List Bytes :=
  if blockSize = hashBlockSize then blockHashes else blockHashListWithBlockSize blockHashes hashBlockSize blockSize

def groupIdBytes (groupId : Nat) : Bytes :=
  [UInt8.ofNat (groupId / 2 ^ 24), UInt8.ofNat (groupId / 2 ^ 16), UInt8.ofNat (groupId / 2 ^ 8), UInt8.ofNat groupId]

def makeBlockHashWithGroupId (blockHash : Bytes) (groupId : Nat) : Bytes := blockHash ++ groupIdBytes groupId

def getBlockHash (key : Bytes) : Bytes := key.take (key.length - 4)

def getGroupId (key : Bytes) : Nat := (key.drop (key.length - 4)).foldl (fun acc byte => acc * 256 + byte.toNat) 0

end KVOffload.Core
