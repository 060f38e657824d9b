import Mathlib

/-!
# The shared CPU region

The workers of an instance map one file. A row of it is a block, and a worker's cell in the row is chosen by the index of its
device.
-/

namespace KVOffload.Offload

open List

inductive ExecutorBackend
  | uni | mp | ray | externalLauncher
  deriving DecidableEq

structure ParallelConfig where
  pipelineParallelSize : Nat := 1
  tensorParallelSize : Nat := 1
  prefillContextParallelSize : Nat := 1
  dataParallelSize : Nat := 1
  dataParallelSizeLocal : Nat := 1
  nnodes : Nat := 1
  distributedExecutorBackend : ExecutorBackend := .mp
  dataParallelBackendRay : Bool := false
  dataParallelRankLocal : Option Nat := none
  dataParallelIndex : Nat := 0

namespace ParallelConfig

variable (p : ParallelConfig)

def worldSize : Nat :=
  let size := p.pipelineParallelSize * p.tensorParallelSize * p.prefillContextParallelSize
  if p.distributedExecutorBackend = .externalLauncher then size * p.dataParallelSize else size

def nnodesWithinDp : Nat :=
  if p.nnodes = 1 then 1 else p.nnodes / (p.dataParallelSize / p.dataParallelSizeLocal)

def localWorldSize : Nat := p.worldSize / p.nnodesWithinDp

/-- What `init_device` adds to the local rank. -/
def rankShift : Nat :=
  if p.distributedExecutorBackend ≠ .ray ∧ p.distributedExecutorBackend ≠ .externalLauncher ∧ ¬ p.dataParallelBackendRay ∧
      p.nnodesWithinDp = 1 then
    p.dataParallelRankLocal.getD p.dataParallelIndex * (p.pipelineParallelSize * p.tensorParallelSize)
  else 0

def deviceIndex (localRank : Nat) : Nat := localRank + p.rankShift

end ParallelConfig

structure SharedOffloadRegion where
  rowStride : Nat
  workerOffset : Nat
  workerAreaEnd : Nat

def SharedOffloadRegion.init (rank numWorkers cpuPageSize : Nat) : SharedOffloadRegion where
  rowStride := cpuPageSize * numWorkers
  workerOffset := rank * cpuPageSize
  workerAreaEnd := (rank + 1) * cpuPageSize

/-- A strided view: `size` bytes of each row. -/
structure View where
  rowStride : Nat
  offset : Nat
  size : Nat

def SharedOffloadRegion.createNextView (tensorPageSize : Nat) (s : SharedOffloadRegion) : Option (View × SharedOffloadRegion) :=
  let newOffset := s.workerOffset + tensorPageSize
  if newOffset ≤ s.workerAreaEnd then
    some (⟨s.rowStride, s.workerOffset, tensorPageSize⟩, { s with workerOffset := newOffset })
  else none

def SharedOffloadRegion.createViews : List Nat → SharedOffloadRegion → Option (List View)
  | [], _ => some []
  | size :: rest, s => do
    let (view, s) ← s.createNextView size
    return view :: (← s.createViews rest)

/-- The views of a worker on its node, for canonical tensors with these page sizes on the CPU. -/
def createHandlers (p : ParallelConfig) (pages : List Nat) (localRank : Nat) : Option (List View) :=
  (SharedOffloadRegion.init (p.deviceIndex localRank) p.worldSize pages.sum).createViews pages

/-- Byte `x` of the file belongs to row `b` of the view. -/
def View.Addresses (view : View) (b x : Nat) : Prop :=
  b * view.rowStride + view.offset ≤ x ∧ x < b * view.rowStride + view.offset + view.size

/-- The ranges of the workers on the node are inside its file and apart, and fill the rows of `create_kv_memoryview`. -/
structure Partitioned (p : ParallelConfig) (pages : List Nat) (numBlocks : Nat) (views : Nat → List View) : Prop where
  created : ∀ w < p.localWorldSize, createHandlers p pages w = some (views w)
  inside : ∀ w < p.localWorldSize, ∀ view ∈ views w, ∀ b < numBlocks, ∀ x, view.Addresses b x →
    x < pages.sum * p.worldSize * numBlocks
  apart : ∀ w < p.localWorldSize, ∀ w' < p.localWorldSize, ∀ (i i' : Nat) (view view' : View), (views w)[i]? = some view →
    (views w')[i']? = some view' → ∀ b < numBlocks, ∀ b' < numBlocks, ∀ x, view.Addresses b x → view'.Addresses b' x →
    w = w' ∧ i = i' ∧ b = b'
  row : ∀ b < numBlocks, ∀ x, (b * (pages.sum * p.worldSize) ≤ x ∧ x < (b + 1) * (pages.sum * p.worldSize)) ↔
    ∃ w < p.localWorldSize, ∃ view ∈ views w, view.Addresses b x

/-- The views of a worker whose cell starts at `offset`. -/
def layout (stride : Nat) : Nat → List Nat → List View
  | _, [] => []
  | offset, size :: rest => ⟨stride, offset, size⟩ :: layout stride (offset + size) rest

theorem createViews_eq {pages : List Nat} {s : SharedOffloadRegion} (fits : s.workerOffset + pages.sum ≤ s.workerAreaEnd) :
    s.createViews pages = some (layout s.rowStride s.workerOffset pages) := by
  induction pages generalizing s with
  | nil => rfl
  | cons size rest ih =>
    rw [sum_cons] at fits
    unfold SharedOffloadRegion.createViews SharedOffloadRegion.createNextView
    rw [if_pos (by omega)]
    simp [ih (s := { s with workerOffset := s.workerOffset + size }) (by simp only; omega), layout]

theorem createHandlers_eq (p : ParallelConfig) (pages : List Nat) (w : Nat) :
    createHandlers p pages w = some (layout (pages.sum * p.worldSize) (p.deviceIndex w * pages.sum) pages) :=
  createViews_eq (Nat.succ_mul _ _).ge

variable {stride offset b x : Nat} {pages : List Nat}

theorem mem_layout : (∃ view ∈ layout stride offset pages, view.Addresses b x) ↔
    b * stride + offset ≤ x ∧ x < b * stride + offset + pages.sum := by
  induction pages generalizing offset with
  | nil => simp [layout]
  | cons size rest ih =>
    rw [layout, exists_mem_cons_iff, ih, View.Addresses, sum_cons]
    dsimp only
    omega

theorem layout_unique {i i' : Nat} {view view' : View} (at_ : (layout stride offset pages)[i]? = some view)
    (at_' : (layout stride offset pages)[i']? = some view') (h : view.Addresses b x) (h' : view'.Addresses b x) : i = i' := by
  induction pages generalizing offset i i' with
  | nil => simp [layout] at at_
  | cons size rest ih =>
    have later : ∀ {j : Nat} {view : View}, (layout stride (offset + size) rest)[j]? = some view → view.Addresses b x →
        b * stride + (offset + size) ≤ x := fun at_ h => (mem_layout.mp ⟨_, mem_of_getElem? at_, h⟩).1
    cases i with
    | zero =>
      cases i' with
      | zero => rfl
      | succ j =>
        obtain rfl := Option.some.inj at_
        have := later at_' h'
        have := h.2
        simp only at this
        omega
    | succ j =>
      cases i' with
      | zero =>
        obtain rfl := Option.some.inj at_'
        have := later at_ h
        have := h'.2
        simp only at this
        omega
      | succ j' => rw [ih at_ at_']

end KVOffload.Offload
