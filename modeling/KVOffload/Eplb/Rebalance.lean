import Mathlib

/-!
# Moving expert weights

`move_to_buffer` and `move_from_buffer` (`distributed/eplb/rebalance_execute.py`) on all ranks. Slots are numbered over all
ranks, `none` stands for `-1`, and a row of weights is one value.
-/

namespace KVOffload.Eplb

open List Function

structure Rebalance where
  numRanks : Nat
  numLocalExperts : Nat
  oldIndices : Nat → Option Nat
  newIndices : Nat → Option Nat

structure Post where
  peer : Nat
  expert : Nat
  row : Nat

/-- `np.unique` -/
def unique (experts : List Nat) : List Nat := experts.dedup.insertionSort (· ≤ ·)

def recvRanks (ranksToSend ranksToRecv : List Nat) (rank : Nat) : List Nat :=
  let numDstPerSender := ranksToRecv.length / ranksToSend.length
  let senderPos := ranksToSend.idxOf rank
  let remainderStart := ranksToSend.length * numDstPerSender
  (ranksToRecv.drop (senderPos * numDstPerSender)).take numDstPerSender ++ (ranksToRecv[remainderStart + senderPos]?).toList

def srcRank (ranksToSend ranksToRecv : List Nat) (rank : Nat) : Option Nat :=
  let numDstPerSender := ranksToRecv.length / ranksToSend.length
  let recverPos := ranksToRecv.idxOf rank
  let remainderStart := ranksToSend.length * numDstPerSender
  if recverPos < remainderStart then ranksToSend[recverPos / numDstPerSender]? else ranksToSend[recverPos - remainderStart]?

namespace Rebalance

variable (plan : Rebalance)

/-- The ranks with the expert, in the order of their first slots. -/
def ranksWith (indices : Nat → Option Nat) (expert : Nat) : List Nat :=
  (((List.range (plan.numRanks * plan.numLocalExperts)).filter (indices · = some expert)).map (· / plan.numLocalExperts)).eraseDups

def ranksToSend (expert : Nat) : List Nat := plan.ranksWith plan.oldIndices expert

def ranksToRecv (expert : Nat) : List Nat :=
  (plan.ranksWith plan.newIndices expert).filter (· ∉ plan.ranksToSend expert)

section

variable (rank : Nat)

def rows : List Nat := List.range plan.numLocalExperts

def oldLocal (row : Nat) : Option Nat := plan.oldIndices (rank * plan.numLocalExperts + row)

def newLocal (row : Nat) : Option Nat := plan.newIndices (rank * plan.numLocalExperts + row)

def isUnchanged (row : Nat) : Bool := plan.oldLocal rank row = plan.newLocal rank row

def isReceivedLocally (row : Nat) : Bool :=
  plan.isUnchanged rank row || (plan.newLocal rank row).isSome && plan.rows.any (plan.oldLocal rank · = plan.newLocal rank row)

def sendExperts : List Nat := unique (plan.rows.filterMap (plan.oldLocal rank))

def sendSrcRow (expert : Nat) : Option Nat := plan.rows.find? (plan.oldLocal rank · = some expert)

def recvRows : List Nat := plan.rows.filter fun row => !plan.isReceivedLocally rank row && (plan.newLocal rank row).isSome

def recvExperts : List Nat := unique ((plan.recvRows rank).filterMap (plan.newLocal rank))

def recvDstRow (expert : Nat) : Option Nat := (plan.recvRows rank).find? (plan.newLocal rank · = some expert)

def sends : List Post := (plan.sendExperts rank).flatMap fun expert =>
  (recvRanks (plan.ranksToSend expert) (plan.ranksToRecv expert) rank).map (⟨·, expert, (plan.sendSrcRow rank expert).getD 0⟩)

def recvs : List Post := (plan.recvExperts rank).filterMap fun expert =>
  (srcRank (plan.ranksToSend expert) (plan.ranksToRecv expert) rank).map (⟨·, expert, (plan.recvDstRow rank expert).getD 0⟩)

end

variable {W : Type} (weights buffers : Nat → Nat → W) (rank : Nat)

def arrivals (src : Nat) : List (Nat × W) :=
  (((plan.recvs rank).filter (·.peer = src)).zip ((plan.sends src).filter (·.peer = rank))).map fun (recv, send) =>
    (recv.row, weights src send.row)

def moveToBuffer : Nat → W :=
  let localMoves := fun row =>
    if !plan.isUnchanged rank row && plan.isReceivedLocally rank row then
      (((plan.newLocal rank row).bind (plan.sendSrcRow rank)).map (weights rank)).getD (buffers rank row)
    else buffers rank row
  ((List.range plan.numRanks).flatMap (plan.arrivals weights rank)).foldl (fun b x => update b x.1 x.2) localMoves

def moveFromBuffer : Nat → W :=
  let isPrimary := fun row => (plan.newLocal rank row).bind (plan.recvDstRow rank) = some row
  let copied := fun row =>
    if !plan.isUnchanged rank row && (plan.isReceivedLocally rank row || isPrimary row) then
      plan.moveToBuffer weights buffers rank row
    else weights rank row
  ((plan.recvRows rank).filter (!isPrimary ·)).foldl (fun w dst =>
    match (plan.newLocal rank dst).bind (plan.recvDstRow rank) with
    | some src => update w dst (w src)
    | none => w) copied

end Rebalance

theorem nodup_eraseDups (l : List Nat) : l.eraseDups.Nodup := by
  induction h : l.length using Nat.strong_induction_on generalizing l with
  | _ n ih =>
    cases l with
    | nil => simp
    | cons a l =>
      rw [eraseDups_cons, nodup_cons]
      refine ⟨by simp, ih _ ?_ _ rfl⟩
      exact h ▸ Nat.lt_succ_of_le (length_filter_le _ _)

theorem mem_unique {experts : List Nat} {e : Nat} : e ∈ unique experts ↔ e ∈ experts := by
  rw [unique, mem_insertionSort, mem_dedup]

theorem unique_sorted (experts : List Nat) : (unique experts).Pairwise (· < ·) := by
  have sorted := pairwise_insertionSort (· ≤ ·) experts.dedup
  have nodup : (unique experts).Nodup := (perm_insertionSort _ _).nodup_iff.mpr experts.nodup_dedup
  exact (sorted.and nodup).imp fun both => lt_of_le_of_ne both.1 both.2

section

variable {ranksToSend ranksToRecv : List Nat} {i j : Nat} {l : List Nat}

theorem mem_drop_take (nodup : l.Nodup) (hm : j ∈ l) (a n : Nat) :
    j ∈ (l.drop a).take n ↔ a ≤ l.idxOf j ∧ l.idxOf j < a + n := by
  have hi := idxOf_lt_length_iff.mpr hm
  rw [mem_take_iff_getElem]
  constructor
  · rintro ⟨k, hb, rfl⟩
    rw [getElem_drop, nodup.idxOf_getElem]
    omega
  · rintro ⟨low, high⟩
    refine ⟨l.idxOf j - a, by rw [length_drop]; omega, ?_⟩
    simp only [getElem_drop, Nat.add_sub_cancel' low]
    exact getElem_idxOf hi

theorem getElem?_eq_some_iff_idxOf (nodup : l.Nodup) (hm : j ∈ l) (k : Nat) : l[k]? = some j ↔ k = l.idxOf j := by
  have hi := idxOf_lt_length_iff.mpr hm
  constructor
  · intro at_
    obtain ⟨hb, rfl⟩ := List.getElem?_eq_some_iff.mp at_
    rw [nodup.idxOf_getElem]
  · rintro rfl
    rw [getElem?_eq_getElem hi, getElem_idxOf]

theorem mem_recvRanks_iff (once : ranksToSend.Nodup) (once' : ranksToRecv.Nodup) (sender : i ∈ ranksToSend)
    (receiver : j ∈ ranksToRecv) : j ∈ recvRanks ranksToSend ranksToRecv i ↔ srcRank ranksToSend ranksToRecv j = some i := by
  have hi := idxOf_lt_length_iff.mpr sender
  unfold recvRanks srcRank
  dsimp only
  rw [mem_append, Option.mem_toList, mem_drop_take once' receiver, getElem?_eq_some_iff_idxOf once' receiver]
  generalize ranksToRecv.length / ranksToSend.length = n
  have last := Nat.mul_le_mul_right n (Nat.succ_le_of_lt hi)
  rw [Nat.succ_mul] at last
  split <;> rename_i part <;> rw [getElem?_eq_some_iff_idxOf once sender]
  · have hp : 0 < n := Nat.pos_of_ne_zero fun zero => by simp [zero] at part
    rw [Nat.div_eq_iff hp]
    omega
  · omega

theorem recvRanks_subset (hm : j ∈ recvRanks ranksToSend ranksToRecv i) : j ∈ ranksToRecv := by
  rcases mem_append.mp hm with shared | rest
  · exact mem_of_mem_drop (mem_of_mem_take shared)
  · exact mem_of_getElem? (Option.mem_toList.mp rest)

theorem nodup_recvRanks (once : ranksToRecv.Nodup) (sender : i ∈ ranksToSend) : (recvRanks ranksToSend ranksToRecv i).Nodup := by
  have hi := idxOf_lt_length_iff.mpr sender
  refine nodup_append'.mpr ⟨(once.sublist (drop_sublist _ _)).sublist (take_sublist _ _), ?_, fun j shared rest => ?_⟩
  · unfold Option.toList
    split <;> simp
  · have receiver := mem_of_getElem? (Option.mem_toList.mp rest)
    have last := Nat.mul_le_mul_right (ranksToRecv.length / ranksToSend.length) (Nat.succ_le_of_lt hi)
    rw [Nat.succ_mul] at last
    rw [mem_drop_take once receiver] at shared
    rw [Option.mem_toList, getElem?_eq_some_iff_idxOf once receiver] at rest
    omega

theorem srcRank_mem (hf : srcRank ranksToSend ranksToRecv j = some i) : i ∈ ranksToSend := by
  unfold srcRank at hf
  dsimp only at hf
  split at hf <;> exact mem_of_getElem? hf

theorem exists_srcRank (some_ : ranksToSend ≠ []) (receiver : j ∈ ranksToRecv) :
    ∃ i, srcRank ranksToSend ranksToRecv j = some i := by
  have hi := idxOf_lt_length_iff.mpr receiver
  have hp := length_pos_of_ne_nil some_
  have whole := Nat.div_add_mod ranksToRecv.length ranksToSend.length
  have rest := Nat.mod_lt ranksToRecv.length hp
  unfold srcRank
  dsimp only
  split <;> rename_i part
  · exact ⟨_, getElem?_eq_getElem (Nat.div_lt_of_lt_mul (by rwa [Nat.mul_comm]))⟩
  · exact ⟨_, getElem?_eq_getElem (by omega)⟩

end

namespace Rebalance

variable {plan : Rebalance} {rank row e i j : Nat} {indices : Nat → Option Nat}

theorem mem_ranksWith : rank ∈ plan.ranksWith indices e ↔
    rank < plan.numRanks ∧ ∃ row < plan.numLocalExperts, indices (rank * plan.numLocalExperts + row) = some e := by
  simp only [ranksWith, mem_eraseDups, mem_map, mem_filter, mem_range, decide_eq_true_eq]
  constructor
  · rintro ⟨slot, ⟨hb, hf⟩, rfl⟩
    have hp := Nat.pos_of_mul_pos_left (Nat.zero_lt_of_lt hb)
    exact ⟨Nat.div_lt_of_lt_mul (by rwa [Nat.mul_comm]), _, Nat.mod_lt slot hp, by rwa [Nat.div_add_mod']⟩
  · rintro ⟨known, row, hb, hf⟩
    refine ⟨_, ⟨?_, hf⟩, ?_⟩
    · have := Nat.mul_le_mul_right plan.numLocalExperts (Nat.succ_le_of_lt known)
      rw [Nat.succ_mul] at this
      omega
    · rw [Nat.mul_comm, Nat.mul_add_div (Nat.zero_lt_of_lt hb), Nat.div_eq_of_lt hb, Nat.add_zero]

theorem mem_ranksToRecv : rank ∈ plan.ranksToRecv e ↔ rank ∈ plan.ranksWith plan.newIndices e ∧ rank ∉ plan.ranksToSend e := by
  simp [ranksToRecv]

theorem nodup_ranksToRecv : (plan.ranksToRecv e).Nodup := (nodup_eraseDups _).filter _

section

variable (known : rank < plan.numRanks)

include known

theorem mem_sendExperts : e ∈ plan.sendExperts rank ↔ rank ∈ plan.ranksToSend e := by
  simp [sendExperts, mem_unique, ranksToSend, mem_ranksWith, known, rows, oldLocal]

theorem isReceivedLocally_iff (hb : row < plan.numLocalExperts)
    (here : plan.newLocal rank row = some e) : plan.isReceivedLocally rank row = true ↔ rank ∈ plan.ranksToSend e := by
  simp only [isReceivedLocally, isUnchanged, here, ranksToSend, mem_ranksWith, known, rows, Bool.or_eq_true, Bool.and_eq_true, Option.isSome_some, any_eq_true, mem_range, decide_eq_true_eq, true_and]
  exact ⟨fun hf => hf.elim (fun hs => ⟨row, hb, hs⟩) id, .inr⟩

theorem mem_recvRows (here : plan.newLocal rank row = some e) :
    row ∈ plan.recvRows rank ↔ row < plan.numLocalExperts ∧ rank ∉ plan.ranksToSend e := by
  rw [recvRows, rows, mem_filter, mem_range]
  refine and_congr_right fun hb => ?_
  rw [← isReceivedLocally_iff known hb here, here]
  simp

theorem mem_recvExperts : e ∈ plan.recvExperts rank ↔ rank ∈ plan.ranksToRecv e := by
  rw [recvExperts, mem_unique, mem_filterMap, mem_ranksToRecv, mem_ranksWith]
  constructor
  · rintro ⟨row, hm, here⟩
    have := (mem_recvRows known here).mp hm
    exact ⟨⟨known, row, this.1, here⟩, this.2⟩
  · rintro ⟨⟨_, row, hb, here⟩, absent⟩
    exact ⟨row, (mem_recvRows known here).mpr ⟨hb, absent⟩, here⟩

end

theorem expert_sends (known : i < plan.numRanks) (j : Nat) : ((plan.sends i).filter (·.peer = j)).map (·.expert) =
    (plan.sendExperts i).filter fun e => j ∈ recvRanks (plan.ranksToSend e) (plan.ranksToRecv e) i := by
  have each : ∀ e ∈ plan.sendExperts i, (recvRanks (plan.ranksToSend e) (plan.ranksToRecv e) i).Nodup :=
    fun e hm => nodup_recvRanks nodup_ranksToRecv ((mem_sendExperts known).mp hm)
  unfold sends
  generalize plan.sendExperts i = experts at each
  induction experts with
  | nil => rfl
  | cons e experts ih =>
    rw [flatMap_cons, filter_append, map_append, filter_map, map_map, filter_cons]
    have count := (each e (.head _)).count (a := j)
    rw [show ((fun p : Post => decide (p.peer = j)) ∘ fun peer => (⟨peer, e, (plan.sendSrcRow i e).getD 0⟩)) = (· == j) from
      funext fun peer => (beq_eq_decide peer j).symm, filter_beq, count]
    split <;> simp_all

theorem expert_recvs (i j : Nat) : ((plan.recvs j).filter (·.peer = i)).map (·.expert) =
    (plan.recvExperts j).filter fun e => srcRank (plan.ranksToSend e) (plan.ranksToRecv e) j = some i := by
  unfold recvs
  induction plan.recvExperts j with
  | nil => rfl
  | cons e experts ih =>
    cases source : srcRank (plan.ranksToSend e) (plan.ranksToRecv e) j with
    | none => simpa [source] using ih
    | some src => by_cases hs : src = i <;> simpa [source, hs] using ih

theorem channel_eq (known : i < plan.numRanks) (known' : j < plan.numRanks) :
    ((plan.sends i).filter (·.peer = j)).map (·.expert) = ((plan.recvs j).filter (·.peer = i)).map (·.expert) := by
  rw [expert_sends known, expert_recvs]
  have sorted := (unique_sorted (plan.rows.filterMap (plan.oldLocal i))).filter
    fun e => j ∈ recvRanks (plan.ranksToSend e) (plan.ranksToRecv e) i
  have sorted' := (unique_sorted ((plan.recvRows j).filterMap (plan.newLocal j))).filter
    fun e => srcRank (plan.ranksToSend e) (plan.ranksToRecv e) j = some i
  refine List.Perm.eq_of_pairwise (fun a b _ _ less more => absurd less (lt_asymm more)) sorted sorted'
    ((perm_ext_iff_of_nodup (sorted.imp ne_of_lt) (sorted'.imp ne_of_lt)).mpr fun e => ?_)
  change e ∈ (plan.sendExperts i).filter _ ↔ e ∈ (plan.recvExperts j).filter _
  rw [mem_filter, mem_filter, mem_sendExperts known, mem_recvExperts known', decide_eq_true_iff, decide_eq_true_iff]
  constructor
  · rintro ⟨sender, target⟩
    have receiver := recvRanks_subset target
    exact ⟨receiver, (mem_recvRanks_iff (nodup_eraseDups _) nodup_ranksToRecv sender receiver).mp target⟩
  · rintro ⟨receiver, source⟩
    have sender := srcRank_mem source
    exact ⟨sender, (mem_recvRanks_iff (nodup_eraseDups _) nodup_ranksToRecv sender receiver).mpr source⟩

theorem sendSrcRow_eq (hm : rank ∈ plan.ranksToSend e) :
    ∃ row < plan.numLocalExperts, plan.sendSrcRow rank e = some row ∧ plan.oldLocal rank row = some e := by
  obtain ⟨_, row, hb, hf⟩ := mem_ranksWith.mp hm
  have some_ : (plan.sendSrcRow rank e).isSome := find?_isSome.mpr ⟨row, mem_range.mpr hb, decide_eq_true hf⟩
  obtain ⟨src, first⟩ := Option.isSome_iff_exists.mp some_
  exact ⟨src, mem_range.mp (mem_of_find?_eq_some first), first, by simpa using find?_some first⟩

theorem recvDstRow_eq (known : rank < plan.numRanks) (hm : rank ∈ plan.ranksToRecv e) :
    ∃ row ∈ plan.recvRows rank, plan.recvDstRow rank e = some row ∧ plan.newLocal rank row = some e := by
  obtain ⟨row, hi, hf⟩ := mem_filterMap.mp (mem_unique.mp ((mem_recvExperts known).mpr hm))
  have some_ : (plan.recvDstRow rank e).isSome := find?_isSome.mpr ⟨row, hi, decide_eq_true hf⟩
  obtain ⟨dst, first⟩ := Option.isSome_iff_exists.mp some_
  exact ⟨dst, mem_of_find?_eq_some first, first, by simpa using find?_some first⟩

variable {W : Type} {weights buffers : Nat → Nat → W} {value : Nat → W}

theorem zip_of_map_eq {α β : Type} {f : α → Nat} {g : β → Nat} {xs : List α} {ys : List β} (hs : ys.map g = xs.map f) :
    (∀ pair ∈ xs.zip ys, f pair.1 = g pair.2) ∧ (xs.zip ys).map Prod.fst = xs := by
  induction xs generalizing ys with
  | nil => simp
  | cons x xs ih =>
    cases ys with
    | nil => simp at hs
    | cons y ys =>
      obtain ⟨head, tail⟩ := cons.inj hs
      obtain ⟨pairs, firsts⟩ := ih tail
      exact ⟨by simpa [head] using fun a b => pairs (a, b), congrArg (x :: ·) firsts⟩

theorem foldl_update_eq {xs : List (Nat × W)} {b : Nat → W} {v : W} (all : ∀ x ∈ xs, x.1 = row → x.2 = v)
    (some_ : (∃ x ∈ xs, x.1 = row) ∨ b row = v) : xs.foldl (fun b x => update b x.1 x.2) b row = v := by
  induction xs generalizing b with
  | nil => simpa using some_
  | cons x xs ih =>
    refine ih (fun x later => all x (.tail _ later)) ?_
    change _ ∨ update b x.1 x.2 row = v
    by_cases here : x.1 = row
    · exact .inr (by rw [← here, update_self]; exact all x (.head _) here)
    · rw [update_of_ne (Ne.symm here)]
      refine some_.imp_left ?_
      rintro ⟨x', hm, there⟩
      rcases mem_cons.mp hm with rfl | later
      · exact absurd there here
      · exact ⟨x', later, there⟩

theorem foldl_copy_eq {dsts : List Nat} {f : Nat → Option Nat} (apart : ∀ d ∈ dsts, ∀ s, f d = some s → s ∉ dsts) (w : Nat → W) :
    dsts.foldl (fun w dst => match f dst with | some s => update w dst (w s) | none => w) w row =
      w (if row ∈ dsts then (f row).getD row else row) := by
  induction dsts generalizing w with
  | nil => simp
  | cons d dsts ih =>
    rw [foldl_cons, ih fun d later s hf hi => apart d (.tail _ later) s hf (.tail _ hi)]
    have other : ∀ s, f row = some s → row ∈ d :: dsts → s ≠ d := fun s hf hm hs =>
      apart row hm s hf (hs ▸ mem_cons_self)
    by_cases here : row = d
    · subst here
      cases source : f row with
      | none => simp
      | some s =>
        have ne := other s source (.head _)
        by_cases later : row ∈ dsts <;> simp [later, ne]
    · by_cases later : row ∈ dsts
      · cases source : f row with
        | none => cases f d <;> simp [here]
        | some s =>
          have ne := other s source (.tail _ later)
          cases f d <;> simp [later, ne]
      · cases f d <;> simp [later, here]

section

variable (held : ∀ rank < plan.numRanks, ∀ row < plan.numLocalExperts, ∀ e, plan.oldLocal rank row = some e →
  weights rank row = value e)

include held

theorem mem_arrivals (known : i < plan.numRanks) (known' : j < plan.numRanks) {x : Nat × W} (arrived : x ∈ plan.arrivals weights j i) :
    ∃ e, plan.newLocal j x.1 = some e ∧ plan.recvDstRow j e = some x.1 ∧ j ∈ plan.ranksToRecv e ∧ x.2 = value e := by
  obtain ⟨⟨recv, send⟩, hm, rfl⟩ := mem_map.mp arrived
  have hs := (zip_of_map_eq (channel_eq known known')).1 _ hm
  obtain ⟨received, sent⟩ := of_mem_zip hm
  obtain ⟨e, expert, source⟩ := mem_filterMap.mp (mem_of_mem_filter received)
  obtain ⟨src, _, rfl⟩ := Option.map_eq_some_iff.mp source
  obtain ⟨e', expert', target⟩ := mem_flatMap.mp (mem_of_mem_filter sent)
  obtain ⟨dst, _, rfl⟩ := mem_map.mp target
  obtain rfl : e = e' := hs
  have receiver := (mem_recvExperts known').mp expert
  obtain ⟨row, _, first, here⟩ := recvDstRow_eq known' receiver
  obtain ⟨srcRow, hb, first', there⟩ := sendSrcRow_eq ((mem_sendExperts known).mp expert')
  refine ⟨e, ?_, ?_, receiver, ?_⟩ <;> simp [first, first']
  · exact here
  · exact held i known srcRow hb e there

theorem moveToBuffer_eq (known : rank < plan.numRanks) (here : plan.newLocal rank row = some e) (experts : plan.ranksToSend e ≠ [])
    (moved : plan.isUnchanged rank row = false) (filled : rank ∈ plan.ranksToSend e ∨ plan.recvDstRow rank e = some row)
    (hb : row < plan.numLocalExperts) : plan.moveToBuffer weights buffers rank row = value e := by
  refine foldl_update_eq (fun x hm at_ => ?_) ?_
  · obtain ⟨src, hi, arrived⟩ := mem_flatMap.mp hm
    obtain ⟨e', here', _, _, content⟩ := mem_arrivals held (mem_range.mp hi) known arrived
    rw [at_, here] at here'
    rw [content, Option.some.inj here']
  by_cases sender : rank ∈ plan.ranksToSend e
  · right
    obtain ⟨src, small, first, there⟩ := sendSrcRow_eq sender
    simp only [moved, (isReceivedLocally_iff known hb here).mpr sender, Bool.not_false, Bool.and_self, if_true, here, Option.bind_some, first]
    exact held rank known src small e there
  left
  have receiver := mem_ranksToRecv.mpr ⟨mem_ranksWith.mpr ⟨known, row, hb, here⟩, sender⟩
  obtain ⟨src, source⟩ := exists_srcRank experts receiver
  have known' := (mem_ranksWith.mp (srcRank_mem source)).1
  have posted : (⟨src, e, row⟩) ∈ (plan.recvs rank).filter (·.peer = src) := by
    refine mem_filter.mpr ⟨mem_filterMap.mpr ⟨e, (mem_recvExperts known).mpr receiver, ?_⟩, by simp⟩
    rw [source, filled.resolve_left sender]
    rfl
  rw [← (zip_of_map_eq (channel_eq known' known)).2] at posted
  obtain ⟨pair, hm, hs⟩ := mem_map.mp posted
  exact ⟨_, mem_flatMap.mpr ⟨src, mem_range.mpr known', mem_map.mpr ⟨pair, hm, rfl⟩⟩, congrArg Post.row hs⟩

theorem moveFromBuffer_eq (known : rank < plan.numRanks) (hb : row < plan.numLocalExperts)
    (here : plan.newLocal rank row = some e) (experts : plan.ranksToSend e ≠ []) :
    plan.moveFromBuffer weights buffers rank row = value e := by
  have settled : ∀ row < plan.numLocalExperts, plan.newLocal rank row = some e →
      rank ∈ plan.ranksToSend e ∨ plan.recvDstRow rank e = some row →
      (if !plan.isUnchanged rank row && (plan.isReceivedLocally rank row ||
          decide ((plan.newLocal rank row).bind (plan.recvDstRow rank) = some row)) then
        plan.moveToBuffer weights buffers rank row else weights rank row) = value e := by
    intro row hb here filled
    cases moved : plan.isUnchanged rank row with
    | true => exact held rank known row hb e ((of_decide_eq_true moved).trans here)
    | false =>
      rw [if_pos]
      · exact moveToBuffer_eq held known here experts moved filled hb
      · rcases filled with sender | primary
        · simp [(isReceivedLocally_iff known hb here).mpr sender]
        · simp [here, primary]
  unfold moveFromBuffer
  rw [foldl_copy_eq]
  · by_cases sender : rank ∈ plan.ranksToSend e
    · rw [if_neg fun hm => ((mem_recvRows known here).mp (mem_of_mem_filter hm)).2 sender]
      exact settled row hb here (.inl sender)
    have receiver := mem_ranksToRecv.mpr ⟨mem_ranksWith.mpr ⟨known, row, hb, here⟩, sender⟩
    obtain ⟨dst, hi, first, there⟩ := recvDstRow_eq known receiver
    split <;> rename_i hm
    · simp only [here, Option.bind_some, first]
      exact settled dst ((mem_recvRows known there).mp hi).1 there (.inr first)
    · refine settled row hb here (.inr ?_)
      simpa [(mem_recvRows known here).mpr ⟨hb, sender⟩, here] using hm
  · -- a row that is copied from is the first of its expert
    intro d _ s hf hm
    obtain ⟨e', _, first⟩ := Option.bind_eq_some_iff.mp hf
    have there : plan.newLocal rank s = some e' := by simpa using find?_some first
    simp [there, first] at hm

end

/-- Whatever the two maps are, the channels match, and every slot gets the weights of its new expert. -/
theorem experts_in_place (plan : Rebalance) (weights buffers : Nat → Nat → W) (value : Nat → W)
    (known : ∀ rank < plan.numRanks, ∀ row < plan.numLocalExperts, ∀ e, plan.newLocal rank row = some e →
      ∃ rank' < plan.numRanks, ∃ row' < plan.numLocalExperts, plan.oldLocal rank' row' = some e)
    (held : ∀ rank < plan.numRanks, ∀ row < plan.numLocalExperts, ∀ e, plan.oldLocal rank row = some e →
      weights rank row = value e) :
    (∀ i < plan.numRanks, ∀ j < plan.numRanks,
      ((plan.sends i).filter (·.peer = j)).map (·.expert) = ((plan.recvs j).filter (·.peer = i)).map (·.expert)) ∧
    ∀ rank < plan.numRanks, ∀ row < plan.numLocalExperts, ∀ e, plan.newLocal rank row = some e →
      plan.moveFromBuffer weights buffers rank row = value e := by
  refine ⟨fun i below j below' => channel_eq below below', fun rank below row small e here => ?_⟩
  obtain ⟨rank', below', row', small', found⟩ := known rank below row small e here
  exact moveFromBuffer_eq held below small here (List.ne_nil_of_mem (mem_ranksWith.mpr ⟨below', row', small', found⟩))

/-- Rank 0 keeps expert 0 and copies it; rank 1 gets expert 1 twice, over its own copy of expert 0. -/
def duplicated : Rebalance := ⟨2, 2, ([some 0, some 1, some 0, none][·]?.join), ([some 0, some 0, some 1, some 1][·]?.join)⟩

theorem experts_in_place_duplicated :
    duplicated.moveFromBuffer (fun rank row => (duplicated.oldLocal rank row).getD 9) (fun _ _ => 9) 1 1 = 1 := by
  refine (experts_in_place duplicated _ _ id ?_ ?_).2 1 (by decide) 1 (by decide) 1 rfl
  · decide
  · intro rank _ row _ e held
    simp [held]

end Rebalance

end KVOffload.Eplb
