import KVOffload.Lib.OrderedDict

/-!
# Eviction policies of the CPU cache

`vllm/v1/kv_offload/cpu/policies`. Blocks are objects that policy and manager share; here the manager writes the reference count
through `setRefCnt`.
-/

namespace KVOffload.Offload

structure BlockStatus where
  /-- The number of transfers that read the block; `-1` while it is written. -/
  refCnt : Int := -1
  blockId : Nat
deriving DecidableEq, Repr

def BlockStatus.isReady (block : BlockStatus) : Bool := 0 ≤ block.refCnt

theorem BlockStatus.isReady_iff {block : BlockStatus} : block.isReady = true ↔ 0 ≤ block.refCnt := decide_eq_true_iff

/-- The methods of a policy. `remove` fails with a `KeyError`, `evict` returns `None` where it finds too few blocks. -/
class CachePolicy (P : Type) (Key : outParam Type) where
  init : Nat → P
  get : P → Key → Option BlockStatus
  items : P → List (Key × BlockStatus)
  insert : Key → BlockStatus → P → P
  remove : Key → P → Option P
  touch : List Key → P → P
  evict : Nat → List Key → P → Option (List (Key × BlockStatus)) × P
  clear : P → P
  setRefCnt : Key → Int → P → P

section

variable {P Key : Type} [DecidableEq Key] [CachePolicy P Key]

def evictable (protectedKeys : List Key) (e : Key × BlockStatus) : Bool := e.2.refCnt = 0 ∧ e.1 ∉ protectedKeys

def numEvictable (p : P) (protectedKeys : List Key) : Nat := (CachePolicy.items p).countP (evictable protectedKeys)

/-- What `CachePolicy.evict` promises, for a call in the state `p`. -/
structure EvictContract (p : P) (n : Nat) (protectedKeys : List Key) : Prop where
  refused_iff : (CachePolicy.evict n protectedKeys p).1 = none ↔ numEvictable p protectedKeys < n
  unchanged : (CachePolicy.evict n protectedKeys p).1 = none → (CachePolicy.evict n protectedKeys p).2 = p
  length_eq : ∀ evicted, (CachePolicy.evict n protectedKeys p).1 = some evicted → evicted.length = n
  distinct : ∀ evicted, (CachePolicy.evict n protectedKeys p).1 = some evicted → (evicted.map Prod.fst).Nodup
  chosen : ∀ evicted, (CachePolicy.evict n protectedKeys p).1 = some evicted →
    ∀ e ∈ evicted, e ∈ CachePolicy.items p ∧ evictable protectedKeys e = true
  removed : ∀ evicted, (CachePolicy.evict n protectedKeys p).1 = some evicted → ∀ key,
    CachePolicy.get (CachePolicy.evict n protectedKeys p).2 key =
      if key ∈ evicted.map Prod.fst then none else CachePolicy.get p key

variable (Key)

/-- The calls that change a policy, and the writes to the reference counts of its blocks. -/
inductive PolicyCall where
  | insert (key : Key) (block : BlockStatus)
  | touch (keys : List Key)
  | remove (key : Key)
  | evict (n : Nat) (protectedKeys : List Key)
  | clear
  | setRefCnt (key : Key) (refCnt : Int)

variable {Key}

def PolicyCall.exec (p : P) : PolicyCall Key → P
  | .insert key block => CachePolicy.insert key block p
  | .touch keys => CachePolicy.touch keys p
  | .remove key => (CachePolicy.remove key p).getD p
  | .evict n protectedKeys => (CachePolicy.evict n protectedKeys p).2
  | .clear => CachePolicy.clear p
  | .setRefCnt key refCnt => CachePolicy.setRefCnt key refCnt p

end

structure LRUCachePolicy (Key : Type) where
  blocks : OrderedDict Key BlockStatus := .empty

namespace LRUCachePolicy

variable {Key : Type} [DecidableEq Key]

/-- The scan of `evict`, which stops at the `n`-th candidate. -/
def candidates (n : Nat) (protectedKeys : List Key) :
    List (Key × BlockStatus) → List (Key × BlockStatus) → List (Key × BlockStatus)
  | found, [] => found
  | found, e :: rest =>
    if evictable protectedKeys e then
      if (found ++ [e]).length = n then found ++ [e] else candidates n protectedKeys (found ++ [e]) rest
    else candidates n protectedKeys found rest

def evict (n : Nat) (protectedKeys : List Key) (p : LRUCachePolicy Key) :
    Option (List (Key × BlockStatus)) × LRUCachePolicy Key :=
  if n = 0 then (some [], p)
  else
    let found := candidates n protectedKeys [] p.blocks.entries
    if found.length < n then (none, p) else (some found, { p with blocks := p.blocks.eraseAll (found.map Prod.fst) })

def touch (keys : List Key) (p : LRUCachePolicy Key) : LRUCachePolicy Key :=
  keys.reverse.foldl (fun p key => { p with blocks := p.blocks.moveToEnd key }) p

def setRefCnt (key : Key) (refCnt : Int) (p : LRUCachePolicy Key) : LRUCachePolicy Key :=
  match p.blocks.get? key with
  | some block => { p with blocks := p.blocks.insert key { block with refCnt } }
  | none => p

instance : CachePolicy (LRUCachePolicy Key) Key where
  init _ := {}
  get p key := p.blocks.get? key
  items p := p.blocks.entries
  insert key block p := { p with blocks := p.blocks.insert key block }
  remove key p := if key ∈ p.blocks then some { p with blocks := p.blocks.erase key } else none
  touch := touch
  evict := evict
  clear p := { p with blocks := .empty }
  setRefCnt := setRefCnt

end LRUCachePolicy

structure ARCCachePolicy (Key : Type) where
  cacheCapacity : Nat
  /-- A float in the source, and never negative. -/
  targetT1Size : Rat := 0
  t1 : OrderedDict Key BlockStatus := .empty
  t2 : OrderedDict Key BlockStatus := .empty
  b1 : OrderedDict Key Unit := .empty
  b2 : OrderedDict Key Unit := .empty

namespace ARCCachePolicy

variable {Key : Type} [DecidableEq Key]

def get (p : ARCCachePolicy Key) (key : Key) : Option BlockStatus := (p.t1.get? key).or (p.t2.get? key)

def insert (key : Key) (block : BlockStatus) (p : ARCCachePolicy Key) : ARCCachePolicy Key :=
  { p with t1 := p.t1.insert key block, b1 := p.b1.erase key, b2 := p.b2.erase key }

def remove (key : Key) (p : ARCCachePolicy Key) : ARCCachePolicy Key :=
  if key ∈ p.t1 then { p with t1 := p.t1.erase key } else { p with t2 := p.t2.erase key }

def delta (other own : Nat) : Rat := max 1 (other / own)

def touchKey (p : ARCCachePolicy Key) (key : Key) : ARCCachePolicy Key :=
  match p.t1.get? key with
  | some block =>
    -- A block that is still written was not really touched twice.
    if block.isReady then { p with t1 := p.t1.erase key, t2 := p.t2.insert key block }
    else { p with t1 := p.t1.moveToEnd key }
  | none =>
    if key ∈ p.t2 then { p with t2 := p.t2.moveToEnd key }
    else if key ∈ p.b1 then
      { p with
        targetT1Size := min (p.targetT1Size + delta p.b2.keys.length p.b1.keys.length) p.cacheCapacity
        b1 := p.b1.moveToEnd key }
    else if key ∈ p.b2 then
      { p with
        targetT1Size := max (p.targetT1Size - delta p.b1.keys.length p.b2.keys.length) 0
        b2 := p.b2.moveToEnd key }
    else p

def touch (keys : List Key) (p : ARCCachePolicy Key) : ARCCachePolicy Key := keys.reverse.foldl touchKey p

def clear (p : ARCCachePolicy Key) : ARCCachePolicy Key := { cacheCapacity := p.cacheCapacity }

/-- What the loop of `evict` has chosen; the flag says that a block comes from T1. -/
structure Selection (Key : Type) where
  candidates : List (Key × BlockStatus × Bool) := []
  alreadySelected : List Key := []
  virtualT1Size : Int

def Selection.take (s : Selection Key) (e : Key × BlockStatus) (fromT1 : Bool) : Selection Key where
  candidates := s.candidates ++ [(e.1, e.2, fromT1)]
  alreadySelected := s.alreadySelected ++ [e.1]
  virtualT1Size := if fromT1 then s.virtualT1Size - 1 else s.virtualT1Size

def pick (protectedKeys alreadySelected : List Key) (entries : List (Key × BlockStatus)) : Option (Key × BlockStatus) :=
  entries.find? fun e => evictable protectedKeys e ∧ e.1 ∉ alreadySelected

def pickT1 (p : ARCCachePolicy Key) (protectedKeys : List Key) (s : Selection Key) : Option (Key × BlockStatus) :=
  if s.virtualT1Size ≥ p.targetT1Size.floor then pick protectedKeys s.alreadySelected p.t1.entries else none

def selectOne (p : ARCCachePolicy Key) (protectedKeys : List Key) (s : Selection Key) : Option (Selection Key) :=
  match pickT1 p protectedKeys s with
  | some e => some (s.take e true)
  | none => (pick protectedKeys s.alreadySelected p.t2.entries).map (s.take · false)

def select (p : ARCCachePolicy Key) (protectedKeys : List Key) : Nat → Option (Selection Key)
  | 0 => some { virtualT1Size := p.t1.entries.length }
  | n + 1 => (select p protectedKeys n).bind (selectOne p protectedKeys)

def evictOne (p : ARCCachePolicy Key) (e : Key × BlockStatus × Bool) : ARCCachePolicy Key :=
  if e.2.2 then { p with t1 := p.t1.erase e.1, b1 := p.b1.insert e.1 () }
  else { p with t2 := p.t2.erase e.1, b2 := p.b2.insert e.1 () }

def trimGhosts (p : ARCCachePolicy Key) : ARCCachePolicy Key :=
  { p with
    b1 := p.b1.dropOldest (p.b1.keys.length - p.cacheCapacity)
    b2 := p.b2.dropOldest (p.b2.keys.length - p.cacheCapacity) }

def evict (n : Nat) (protectedKeys : List Key) (p : ARCCachePolicy Key) :
    Option (List (Key × BlockStatus)) × ARCCachePolicy Key :=
  if n = 0 then (some [], p)
  else
    match select p protectedKeys n with
    | none => (none, p)
    | some s => (some (s.candidates.map fun e => (e.1, e.2.1)), (s.candidates.foldl evictOne p).trimGhosts)

def setRefCnt (key : Key) (refCnt : Int) (p : ARCCachePolicy Key) : ARCCachePolicy Key :=
  match p.t1.get? key with
  | some block => { p with t1 := p.t1.insert key { block with refCnt } }
  | none =>
    match p.t2.get? key with
    | some block => { p with t2 := p.t2.insert key { block with refCnt } }
    | none => p

instance : CachePolicy (ARCCachePolicy Key) Key where
  init cacheCapacity := { cacheCapacity }
  get := get
  items p := p.t1.entries ++ p.t2.entries
  insert := insert
  remove key p := some (remove key p)
  touch := touch
  evict := evict
  clear := clear
  setRefCnt := setRefCnt

end ARCCachePolicy

end KVOffload.Offload
