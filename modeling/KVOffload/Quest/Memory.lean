import Mathlib

/-!
# Blocks and the memory they are copied in

The tier manager never looks into a block. `BlockMemory` is what it does with them, so that the bookkeeping is written once for
blocking transfers and for CUDA streams.
-/

namespace KVOffload.Quest

-- Instances with a name of their own, so that fixed blocks mean the same term in every module.
scoped instance neZeroOne : NeZero 1 := ⟨one_ne_zero⟩

scoped instance neZeroTwo : NeZero 2 := ⟨two_ne_zero⟩

/-- One block of K and V rows; a row is one token's `[num_kv_heads, head_size]` tensor. -/
@[ext] structure KVBlock (bs : Nat) (R : Type) where
  k : Fin bs → R
  v : Fin bs → R

variable {bs : Nat} {R : Type}

def KVBlock.overwrite (block : KVBlock bs R) (rows : Fin bs → Option (R × R)) :
    KVBlock bs R where
  k i := ((rows i).map Prod.fst).getD (block.k i)
  v i := ((rows i).map Prod.snd).getD (block.v i)

/-- The copies between arena slots, pinned host slots and engine tensors. -/
class BlockMemory (M : Type) (bs : outParam Nat) (R : outParam Type) where
  /-- `gpu_k[slot].copy_(k_block); gpu_v[slot].copy_(v_block)`. -/
  fillSlot (slot : Nat) (block : KVBlock bs R) : M → M
  /-- `gpu_k[slot][i].copy_(..)` for the rows that are given. -/
  writeRows (slot : Nat) (rows : Fin bs → Option (R × R)) : M → M
  /-- `cpu_store.store_block` of an engine block, blocking in every mode. -/
  storeBlock (cpuSlot : Nat) (block : KVBlock bs R) : M → M
  /-- `cpu_store.store_block` of an engine block, on the D2H stream when there is one. -/
  mirrorBlock (cpuSlot : Nat) (block : KVBlock bs R) : M → M
  /-- `cpu_store.store_block` of an arena slot, on the D2H stream when there is one. -/
  spillSlot (cpuSlot slot : Nat) : M → M
  /-- `cpu_store.load_block` into an arena slot, on the H2D stream when there is one. -/
  loadSlot (cpuSlot slot : Nat) : M → M
  /-- `record_h2d_done`, and the wait of the compute stream on the event it returns. -/
  syncH2d : M → M

/-- A memory whose arena the program reads as it goes. -/
class ReadableMemory (M : Type) (bs : outParam Nat) (R : outParam Type) extends BlockMemory M bs R where
  readSlot : M → Nat → KVBlock bs R

/-- The arena `gpu_k`, `gpu_v` and this layer's row of the pinned pool. -/
structure Memory (bs : Nat) (R : Type) where
  arena : Nat → KVBlock bs R
  host : Nat → KVBlock bs R

def Memory.zero [Zero R] : Memory bs R := ⟨fun _ => ⟨0, 0⟩, fun _ => ⟨0, 0⟩⟩

/-- Without a stream pool every copy is done when the call returns. -/
instance {bs : Nat} {R : Type} : ReadableMemory (Memory bs R) bs R where
  fillSlot slot block m := { m with arena := Function.update m.arena slot block }
  writeRows slot rows m := { m with arena := Function.update m.arena slot ((m.arena slot).overwrite rows) }
  storeBlock cpuSlot block m := { m with host := Function.update m.host cpuSlot block }
  mirrorBlock cpuSlot block m := { m with host := Function.update m.host cpuSlot block }
  spillSlot cpuSlot slot m := { m with host := Function.update m.host cpuSlot (m.arena slot) }
  loadSlot cpuSlot slot m := { m with arena := Function.update m.arena slot (m.host cpuSlot) }
  syncH2d m := m
  readSlot m := m.arena

end KVOffload.Quest
