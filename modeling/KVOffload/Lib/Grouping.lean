import Mathlib

/-!
# Lists split into parts

The buckets of a list by a key, in the order in which the keys occur first, and the slices `xs[i::n]`. The
parts of either kind together are the list again.
-/

namespace KVOffload

open List

variable {α κ β : Type} {rows : List (List α)} {n : Nat} {xs ys : List α}

def firstOccurrences [DecidableEq κ] : List κ → List κ
  | [] => []
  | x :: xs => x :: (firstOccurrences xs).filter (· ≠ x)

@[simp] theorem mem_firstOccurrences [DecidableEq κ] {xs : List κ} {x : κ} : x ∈ firstOccurrences xs ↔ x ∈ xs := by
  induction xs with
  | nil => simp [firstOccurrences]
  | cons y ys ih =>
    by_cases hs : x = y
    · simp [firstOccurrences, hs]
    · simp [firstOccurrences, hs, ih]

theorem nodup_firstOccurrences [DecidableEq κ] (xs : List κ) : (firstOccurrences xs).Nodup := by
  induction xs with
  | nil => exact nodup_nil
  | cons x xs ih => exact nodup_cons.mpr ⟨by simp, ih.filter _⟩

theorem perm_flatMap_filter [DecidableEq κ] {keys : List κ} (key : α → κ) (xs : List α) (hd : keys.Nodup)
    (listed : ∀ x ∈ xs, key x ∈ keys) : (keys.flatMap fun k => xs.filter fun x => key x = k).Perm xs := by
  induction keys generalizing xs with
  | nil =>
    have empty : xs = [] := eq_nil_iff_forall_not_mem.mpr fun x hm => by simpa using listed x hm
    simp [empty]
  | cons k keys ih =>
    obtain ⟨new, hd'⟩ := nodup_cons.mp hd
    -- The other parts do not change when the first one is taken out of the list.
    have rest := ih (xs.filter fun x => ¬ key x = k) hd' (by
      intro x hm
      obtain ⟨hi, other⟩ := mem_filter.mp hm
      exact (mem_cons.mp (listed x hi)).resolve_left (by simpa using other))
    have hs : (keys.flatMap fun j => (xs.filter fun x => ¬ key x = k).filter fun x => key x = j) =
        keys.flatMap fun j => xs.filter fun x => key x = j := by
      apply flatMap_congr
      intro j hm
      have apart : j ≠ k := fun equal => new (equal ▸ hm)
      rw [filter_filter]
      apply filter_congr
      intro x _
      by_cases here : key x = j
      · simp [here, apart]
      · simp [here]
    rw [hs] at rest
    exact (rest.append_left _).trans (by simpa using filter_append_perm (fun x => decide (key x = k)) xs)

theorem subperm_map (part : xs.Subperm ys) (f : α → β) : (xs.map f).Subperm (ys.map f) := by
  obtain ⟨zs, hs, hi⟩ := part
  exact ⟨zs.map f, hs.map f, hi.map f⟩

theorem subperm_flatMap (part : xs.Subperm ys) (f : α → List β) :
    (xs.flatMap f).Subperm (ys.flatMap f) := by
  obtain ⟨zs, hs, hi⟩ := part
  exact ⟨zs.flatMap f, hs.flatMap_right f, hi.flatMap f⟩

theorem subperm_flatMap_left {f g : α → List β} (parts : ∀ x ∈ xs, (f x).Subperm (g x)) :
    (xs.flatMap f).Subperm (xs.flatMap g) := by
  induction xs with
  | nil => simp
  | cons x xs ih =>
    obtain ⟨first, later⟩ := forall_mem_cons.mp parts
    exact List.Subperm.append first (ih later)

section

variable [DecidableEq κ] (key : α → κ)

def bucket (k : κ) (xs : List α) : List α := xs.filter fun x => key x = k

def buckets (xs : List α) : List (κ × List α) := (firstOccurrences (xs.map key)).map fun k => (k, bucket key k xs)

theorem perm_buckets (xs : List α) : ((buckets key xs).flatMap Prod.snd).Perm xs := by
  have parts := perm_flatMap_filter key xs (nodup_firstOccurrences (xs.map key))
    (fun x hm => mem_firstOccurrences.mpr (mem_map_of_mem hm))
  simpa [buckets, flatMap_map, bucket] using parts

end

def strided (n i : Nat) (xs : List α) : List α := (xs.zipIdx.filter fun entry => entry.2 % n = i).map Prod.fst

theorem perm_strided (hp : 0 < n) (xs : List α) : ((range n).flatMap fun i => strided n i xs).Perm xs := by
  have parts := perm_flatMap_filter (fun entry => entry.2 % n) xs.zipIdx nodup_range
    (fun entry _ => mem_range.mpr (Nat.mod_lt _ hp))
  simpa [strided, map_flatMap] using parts.map Prod.fst

theorem subperm_strided (n : Nat) (xs : List α) : ((range n).flatMap fun i => strided n i xs).Subperm xs := by
  rcases Nat.eq_zero_or_pos n with rfl | hp
  · simp
  · exact (perm_strided hp xs).subperm

def entriesAt (rows : List (List α)) (i : Nat) : List α := rows.filterMap (·[i]?)

theorem mem_entriesAt {i : Nat} {x : α} : x ∈ entriesAt rows i ↔ ∃ row ∈ rows, row[i]? = some x :=
  mem_filterMap

theorem flatMap_getElem? {row : List α} (short : row.length ≤ n) :
    ((range n).flatMap fun i => row[i]?.toList) = row := by
  induction row generalizing n with
  | nil => simp
  | cons x row ih =>
    cases n with
    | zero => simp at short
    | succ n =>
      rw [range_succ_eq_map, flatMap_cons, flatMap_map]
      simpa using ih (by simpa using short)

theorem perm_entriesAt (short : ∀ row ∈ rows, row.length ≤ n) :
    ((range n).flatMap (entriesAt rows)).Perm rows.flatten := by
  induction rows with
  | nil => simp [entriesAt]
  | cons row rows ih =>
    obtain ⟨first, later⟩ := forall_mem_cons.mp short
    have split : (fun i => entriesAt (row :: rows) i) = fun i => row[i]?.toList ++ entriesAt rows i := by
      funext i
      cases hf : row[i]? with
      | none => simp [entriesAt, hf]
      | some x => simp [entriesAt, hf]
    have apart := flatMap_append_perm (range n) (fun i => row[i]?.toList) (entriesAt rows)
    rw [flatMap_getElem? first] at apart
    exact (List.Perm.of_eq (by rw [← split])).trans (apart.symm.trans ((ih later).append_left row))

theorem flatMap_comm_perm {γ : Type} (xs : List α) (ys : List β) (f : α → β → List γ) :
    (xs.flatMap fun x => ys.flatMap (f x)).Perm (ys.flatMap fun y => xs.flatMap fun x => f x y) := by
  induction xs with
  | nil => simp
  | cons x xs ih =>
    exact (ih.append_left _).trans (flatMap_append_perm ys (f x) fun y => xs.flatMap fun x => f x y)

section

variable [DecidableEq α]

end

end KVOffload
