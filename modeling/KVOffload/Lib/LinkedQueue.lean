import KVOffload.Lib.Exec

/-!
# Doubly linked queues with sentinels

The operations change links one assignment at a time. `LinkedQueue.Represents` relates the links to the list of elements.
-/

namespace KVOffload

open List hiding get set modify

inductive Node (ι : Type) where
  | head
  | tail
  | item (i : ι)
deriving DecidableEq

/-- `count` is kept by the operations next to the links. -/
structure LinkedQueue (ι : Type) where
  prev : Node ι → Option (Node ι)
  next : Node ι → Option (Node ι)
  count : Int

inductive QueueError where
  | empty
  | outOfSync
  | notLinked
deriving DecidableEq, Repr

namespace LinkedQueue

variable {ι : Type} [DecidableEq ι]

abbrev QueueM (ι : Type) := EStateM QueueError (LinkedQueue ι)

def setPrev (node : Node ι) (value : Option (Node ι)) (q : LinkedQueue ι) : LinkedQueue ι :=
  { q with prev := Function.update q.prev node value }

def setNext (node : Node ι) (value : Option (Node ι)) (q : LinkedQueue ι) : LinkedQueue ι :=
  { q with next := Function.update q.next node value }

def setCount (n : Int) (q : LinkedQueue ι) : LinkedQueue ι := { q with count := n }

def init (items : List ι) : LinkedQueue ι :=
  let nodes := .head :: items.map .item ++ [.tail]
  (nodes.zip nodes.tail).foldl (fun q pair => (q.setNext pair.1 (some pair.2)).setPrev pair.2 (some pair.1))
    ⟨fun _ => none, fun _ => none, items.length⟩

def popleft : QueueM ι ι := do
  let q ← get
  match q.next .head with
  | some (.item first) =>
    match q.next (.item first) with
    | none => throw .notLinked
    | some second =>
      modify fun q => (q.setNext .head (some second)).setPrev second (some .head)
      modify fun q => (q.setPrev (.item first) none).setNext (.item first) none
      modify fun q => q.setCount (q.count - 1)
      return first
  | _ => if q.count = 0 then throw .empty else throw .outOfSync

def unlink : Nat → Option (Node ι) → QueueM ι (List ι × Option (Node ι))
  | 0, curr => return ([], curr)
  | n + 1, some (.item i) => do
    let after := (← get).next (.item i)
    modify fun q => (q.setPrev (.item i) none).setNext (.item i) none
    let (rest, curr) ← unlink n after
    return (i :: rest, curr)
  | _ + 1, _ => throw .outOfSync

def popleftN (n : Int) : QueueM ι (List ι) := do
  if n = 0 then
    return []
  if (← get).count < n then
    throw .outOfSync
  modify fun q => q.setCount (q.count - n)
  let (ret, curr) ← unlink n.toNat ((← get).next .head)
  match curr with
  | none => return ret
  | some node =>
    modify fun q => (q.setNext .head (some node)).setPrev node (some .head)
    return ret

def remove (i : ι) : QueueM ι Unit := do
  let q ← get
  match q.prev (.item i), q.next (.item i) with
  | some before, some after =>
    modify fun q => (q.setNext before (some after)).setPrev after (some before)
    modify fun q => (q.setPrev (.item i) none).setNext (.item i) none
    modify fun q => q.setCount (q.count - 1)
  | _, _ => throw .notLinked

def linkAll (last : Node ι) (q : LinkedQueue ι) : List ι → LinkedQueue ι × Node ι
  | [] => (q, last)
  | i :: rest => linkAll (.item i) ((q.setPrev (.item i) (some last)).setNext last (some (.item i))) rest

def appendN (items : List ι) : QueueM ι Unit := do
  if items = [] then
    return
  match (← get).prev .tail with
  | none => throw .outOfSync
  | some last =>
    modify fun q =>
      let (q, last) := linkAll last q items
      ((q.setNext last (some .tail)).setPrev .tail (some last)).setCount (q.count + items.length)

def Linked (q : LinkedQueue ι) (a b : Node ι) : Prop := q.next a = some b ∧ q.prev b = some a

section

variable {q : LinkedQueue ι} {nodes : List (Node ι)} {node : Node ι} {value : Option (Node ι)}

section

variable (chain : nodes.IsChain q.Linked)

include chain

omit [DecidableEq ι] in
theorem isChain_of_agree {q' : LinkedQueue ι}
    (next : ∀ a ∈ nodes.dropLast, q'.next a = q.next a) (prev : ∀ b ∈ nodes.tail, q'.prev b = q.prev b) :
    nodes.IsChain q'.Linked := by
  rw [isChain_iff_forall_rel_of_append_cons_cons] at chain ⊢
  intro a b front rest split
  have linked := chain split
  have first : a ∈ nodes.dropLast := by
    rw [split]
    simp
  have second : b ∈ nodes.tail := by
    rw [split]
    cases front <;> simp
  exact ⟨(next a first).trans linked.1, (prev b second).trans linked.2⟩

theorem isChain_setNext (ho : node ∉ nodes.dropLast) : nodes.IsChain (q.setNext node value).Linked := by
  apply isChain_of_agree chain
  · intro a hm
    exact Function.update_of_ne (fun hs : _ = node => ho (hs ▸ hm)) _ _
  · exact fun _ _ => rfl

theorem isChain_setPrev (ho : node ∉ nodes.tail) : nodes.IsChain (q.setPrev node value).Linked := by
  apply isChain_of_agree chain
  · exact fun _ _ => rfl
  · intro b hm
    exact Function.update_of_ne (fun hs : _ = node => ho (hs ▸ hm)) _ _

theorem isChain_reset (ho : node ∉ nodes) : nodes.IsChain ((q.setPrev node none).setNext node none).Linked :=
  isChain_setNext (isChain_setPrev chain fun hm => ho (mem_of_mem_tail hm))
    fun hm => ho ((dropLast_subset _) hm)

end

theorem isChain_join {front rest : List (Node ι)} {a b : Node ι} (left : (front ++ [a]).IsChain q.Linked)
    (right : (b :: rest).IsChain q.Linked) (nodup : (front ++ a :: b :: rest).Nodup) :
    (front ++ a :: b :: rest).IsChain ((q.setNext a (some b)).setPrev b (some a)).Linked := by
  have apart := nodup_append.mp nodup
  have ends := nodup_cons.mp apart.2.1
  have later := nodup_cons.mp ends.2
  rw [isChain_append_cons_cons]
  refine ⟨?_, by simp [Linked, setNext, setPrev], ?_⟩
  · apply isChain_setPrev
    · apply isChain_setNext left
      rw [dropLast_concat]
      exact fun hm => apart.2.2 a hm a (.head _) rfl
    · intro hm
      rcases mem_append.mp (mem_of_mem_tail hm) with hi | hs
      · exact apart.2.2 b hi b (by simp) rfl
      · exact ends.1 (by simp [mem_singleton.mp hs])
  · apply isChain_setPrev
    · apply isChain_setNext right
      exact fun hm => ends.1 ((dropLast_subset _) hm)
    · exact later.1

end

structure Represents (q : LinkedQueue ι) (items : List ι) : Prop where
  chain : (Node.head :: items.map Node.item ++ [Node.tail]).IsChain q.Linked
  nodup : items.Nodup
  count : q.count = items.length

section

variable {q : LinkedQueue ι} {items : List ι} {i : ι}

omit [DecidableEq ι] in
theorem nodup_nodes (nodup : items.Nodup) : (Node.head :: items.map Node.item ++ [Node.tail]).Nodup := by
  have inj : Function.Injective (Node.item (ι := ι)) := fun _ _ hs => Node.item.inj hs
  have middle := nodup.map inj
  rw [cons_append, nodup_cons, nodup_append]
  refine ⟨by simp, middle, by simp, ?_⟩
  rintro a hm b last rfl
  simp only [mem_singleton] at last
  simp [last] at hm

omit [DecidableEq ι] in
theorem Represents.unique {items' : List ι} (rep : q.Represents items) (rep' : q.Represents items') : items = items' := by
  have follow : ∀ a (xs ys : List ι), (a :: xs.map Node.item ++ [Node.tail]).IsChain q.Linked →
      (a :: ys.map Node.item ++ [Node.tail]).IsChain q.Linked → xs = ys := by
    intro a xs
    induction xs generalizing a with
    | nil =>
      intro ys chain chain'
      cases ys with
      | nil => rfl
      | cons y ys =>
        have next := (isChain_cons_cons.mp chain).1.1
        rw [(isChain_cons_cons.mp chain').1.1] at next
        cases next
    | cons x xs ih =>
      intro ys chain chain'
      obtain ⟨first, rest⟩ := isChain_cons_cons.mp chain
      cases ys with
      | nil =>
        have next := (isChain_cons_cons.mp chain').1.1
        rw [first.1] at next
        cases next
      | cons y ys =>
        obtain ⟨first', rest'⟩ := isChain_cons_cons.mp chain'
        have next := first'.1
        rw [first.1] at next
        cases next
        rw [ih _ ys rest rest']
  exact follow .head items items' rep.chain rep'.chain

theorem represents_init (items : List ι) (nodup : items.Nodup) : (init items).Represents items := by
  have counted (pairs : List (Node ι × Node ι)) (q : LinkedQueue ι) :
      (pairs.foldl (fun q pair => (q.setNext pair.1 (some pair.2)).setPrev pair.2 (some pair.1)) q).count = q.count := by
    induction pairs generalizing q with
    | nil => rfl
    | cons pair rest ih => exact ih _
  have linked front (a : Node ι) rest (q : LinkedQueue ι)
      (chain : (front ++ [a]).IsChain q.Linked) (nodup : (front ++ a :: rest).Nodup) :
      (front ++ a :: rest).IsChain (((a :: rest).zip rest).foldl
        (fun q pair => (q.setNext pair.1 (some pair.2)).setPrev pair.2 (some pair.1)) q).Linked := by
    induction rest generalizing front a q with
    | nil => exact chain
    | cons b rest ih =>
      have shorter := nodup.sublist (List.Sublist.append_left ((nil_sublist rest).cons_cons b |>.cons_cons a) front)
      have joined := isChain_join chain (isChain_singleton b) shorter
      have result := ih (front ++ [a]) b _ (by simpa using joined) (by simpa using nodup)
      simpa using result
  refine ⟨?_, nodup, ?_⟩
  · have nodes := nodup_nodes nodup
    have chain := linked [] .head (items.map Node.item ++ [Node.tail]) ⟨fun _ => none, fun _ => none, items.length⟩
      (isChain_singleton _) (by simpa using nodes)
    exact chain
  · exact counted _ _

theorem unlink_eq (taken : List ι) (node : Node ι) (rest : List (Node ι)) (q : LinkedQueue ι)
    (chain : (taken.map Node.item ++ node :: rest).IsChain q.Linked) (nodup : (taken.map Node.item ++ node :: rest).Nodup) :
    ∃ q', unlink taken.length (taken.map Node.item ++ node :: rest).head? q = .ok (taken, some node) q' ∧
      (node :: rest).IsChain q'.Linked ∧ q'.count = q.count := by
  induction taken generalizing q with
  | nil => exact ⟨q, rfl, chain, rfl⟩
  | cons i taken ih =>
    obtain ⟨ho, later⟩ := nodup_cons.mp nodup
    obtain ⟨link, chain'⟩ := isChain_cons.mp chain
    have after : q.next (.item i) = (taken.map Node.item ++ node :: rest).head? := by
      cases taken with
      | nil => exact (link node rfl).1
      | cons j taken => exact (link (.item j) rfl).1
    obtain ⟨q', run, kept, count⟩ := ih _ (isChain_reset chain' ho) later
    refine ⟨q', ?_, kept, count⟩
    show (unlink taken.length (q.next (.item i)) >>= fun p => pure (i :: p.1, p.2)) _ = _
    rw [after]
    simp only [bind, EStateM.bind, run]
    rfl

theorem popleftN_eq (rep : q.Represents items) {n : Nat} (enough : n ≤ items.length) :
    ∃ q', popleftN n q = .ok (items.take n) q' ∧ q'.Represents (items.drop n) := by
  cases n with
  | zero => exact ⟨q, rfl, rep⟩
  | succ n =>
    obtain ⟨chain, nodup, count⟩ := rep
    have nodes := nodup_nodes nodup
    -- the node behind the elements taken
    obtain ⟨node, rest, behind⟩ : ∃ node rest, (items.drop (n + 1)).map Node.item ++ [Node.tail] = node :: rest :=
      exists_cons_of_ne_nil (by simp)
    have split : Node.head :: items.map Node.item ++ [Node.tail] =
        Node.head :: ((items.take (n + 1)).map Node.item ++ node :: rest) := by
      rw [← behind, ← append_assoc, ← map_append, take_append_drop, cons_append]
    have length : (items.take (n + 1)).length = n + 1 := by rw [length_take, min_eq_left enough]
    rw [split] at chain nodes
    obtain ⟨link, chain'⟩ := isChain_cons.mp chain
    have first : q.next .head = ((items.take (n + 1)).map Node.item ++ node :: rest).head? := by
      cases taken : items.take (n + 1) with
      | nil => simp [taken] at length
      | cons i more => exact (link (.item i) (by simp [taken])).1
    have reduced : ((items.take (n + 1)).map Node.item ++ node :: rest).IsChain
        (q.setCount (q.count - ((n + 1)))).Linked := chain'
    obtain ⟨q', run, kept, counted⟩ := unlink_eq (items.take (n + 1)) node rest _ reduced (nodup_cons.mp nodes).2
    rw [length] at run
    refine ⟨(q'.setNext .head (some node)).setPrev node (some .head), ?_, ?_, nodup.sublist (drop_sublist _ _), ?_⟩
    · have some_ : ¬ ((n + 1 : Nat) : Int) = 0 := by omega
      have more : ¬ q.count < ((n + 1 : Nat) : Int) := by omega
      unfold popleftN
      simp only [some_, if_false, bind, EStateM.bind, get, getThe, MonadStateOf.get, EStateM.get, more, modify, modifyGet, MonadStateOf.modifyGet, EStateM.modifyGet, Int.toNat_natCast]
      have run' : unlink (n + 1) ((q.setCount (q.count - ((n + 1 : Nat) : Int))).next .head)
          (q.setCount (q.count - ((n + 1 : Nat) : Int))) = .ok (items.take (n + 1), some node) q' := by
        rw [show (q.setCount (q.count - ((n + 1 : Nat) : Int))).next .head = q.next .head from rfl, first]
        exact run
      rw [run']
      rfl
    · have ends : (Node.head :: node :: rest).Nodup := by
        refine nodes.sublist ?_
        exact (sublist_append_right _ _).cons_cons _
      have alone : ([] ++ [Node.head]).IsChain q'.Linked := isChain_singleton Node.head
      have joined := isChain_join alone kept ends
      rw [cons_append, behind]
      exact joined
    · show q'.count = _
      rw [counted, length_drop]
      show q.count - ((n + 1 : Nat) : Int) = _
      omega

theorem popleft_eq (rep : q.Represents (i :: items)) : ∃ q', popleft q = .ok i q' ∧ q'.Represents items := by
  obtain ⟨chain, nodup, count⟩ := rep
  have nodes := nodup_nodes nodup
  obtain ⟨node, rest, behind⟩ : ∃ node rest, items.map Node.item ++ [Node.tail] = node :: rest :=
    exists_cons_of_ne_nil (by simp)
  have split : Node.head :: (i :: items).map Node.item ++ [Node.tail] = Node.head :: Node.item i :: node :: rest := by
    simp [behind]
  rw [split] at chain nodes
  obtain ⟨first, chain₁⟩ := isChain_cons_cons.mp chain
  obtain ⟨second, chain₂⟩ := isChain_cons_cons.mp chain₁
  have ends := nodes.sublist (((List.Sublist.refl _).cons _).cons_cons _)
  have ho : Node.item i ∉ Node.head :: node :: rest := by
    have gone := (nodup_cons.mp (nodup_cons.mp nodes).2).1
    simpa using gone
  have alone : ([] ++ [Node.head]).IsChain q.Linked := isChain_singleton Node.head
  have joined := isChain_join alone chain₂ ends
  refine ⟨((((q.setNext .head (some node)).setPrev node (some .head)).setPrev (.item i) none).setNext (.item i)
    none).setCount (q.count - 1), ?_, ?_, (nodup_cons.mp nodup).2, ?_⟩
  · unfold popleft
    simp only [bind, EStateM.bind, get, getThe, MonadStateOf.get, EStateM.get, first.1, second.1]
    rfl
  · rw [cons_append, behind]
    exact isChain_reset joined ho
  · show q.count - 1 = _
    simp [count]

theorem remove_eq (rep : q.Represents items) (hm : i ∈ items) :
    ∃ q', remove i q = .ok () q' ∧ q'.Represents (items.erase i) := by
  obtain ⟨chain, nodup, count⟩ := rep
  have nodes := nodup_nodes nodup
  obtain ⟨before, after, split⟩ := append_of_mem hm
  -- the nodes on both sides of the element
  obtain ⟨front, a, left⟩ : ∃ front a, Node.head :: before.map Node.item = front ++ [a] :=
    ⟨_, _, (dropLast_append_getLast (by simp)).symm⟩
  obtain ⟨b, rest, right⟩ : ∃ b rest, after.map Node.item ++ [Node.tail] = b :: rest :=
    exists_cons_of_ne_nil (by simp)
  have whole : Node.head :: items.map Node.item ++ [Node.tail] = front ++ a :: Node.item i :: b :: rest := by
    rw [split, map_append, ← cons_append, left]
    simp [right]
  have gone : items.erase i = before ++ after := by
    rw [split] at nodup ⊢
    have fresh : i ∉ before := fun hi => (nodup_append.mp nodup).2.2 i hi i (.head _) rfl
    rw [erase_append_right _ fresh, erase_cons_head]
  have remaining : Node.head :: (items.erase i).map Node.item ++ [Node.tail] = front ++ a :: b :: rest := by
    rw [gone, map_append, ← cons_append, left]
    simp [right]
  rw [whole] at chain nodes
  obtain ⟨chain₁, link₁, chain₂⟩ := isChain_append_cons_cons.mp chain
  obtain ⟨link₂, chain₃⟩ := isChain_cons_cons.mp chain₂
  have ends := nodes.sublist (List.Sublist.append_left (((List.Sublist.refl _).cons _).cons_cons _) _)
  have ho : Node.item i ∉ front ++ a :: b :: rest := by
    have moved : (Node.item i :: (front ++ a :: b :: rest)).Nodup := by
      refine (List.Perm.nodup_iff ?_).mp nodes
      have swap : (front ++ a :: Node.item i :: b :: rest).Perm (Node.item i :: (front ++ [a] ++ b :: rest)) := by
        rw [show front ++ a :: Node.item i :: b :: rest = (front ++ [a]) ++ Node.item i :: (b :: rest) by simp]
        exact perm_middle
      simpa using swap
    exact (nodup_cons.mp moved).1
  refine ⟨((((q.setNext a (some b)).setPrev b (some a)).setPrev (.item i) none).setNext (.item i) none).setCount
    (q.count - 1), ?_, ?_, nodup.sublist erase_sublist, ?_⟩
  · unfold remove
    simp only [bind, EStateM.bind, get, getThe, MonadStateOf.get, EStateM.get, link₁.2, link₂.1]
    rfl
  · rw [remaining]
    exact isChain_reset (isChain_join chain₁ chain₃ ends) ho
  · show q.count - 1 = _
    rw [length_erase_of_mem hm]
    have := length_pos_of_mem hm
    omega

theorem linkAll_chain (front : List (Node ι)) (last : Node ι) (more : List ι) (q : LinkedQueue ι)
    (chain : (front ++ [last]).IsChain q.Linked) (nodup : (front ++ last :: more.map Node.item).Nodup) :
    (front ++ last :: more.map Node.item).IsChain (linkAll last q more).1.Linked ∧
      (linkAll last q more).2 = (last :: more.map Node.item).getLast (by simp) ∧ (linkAll last q more).1.count = q.count := by
  induction more generalizing front last q with
  | nil => exact ⟨chain, rfl, rfl⟩
  | cons i more ih =>
    have shorter := nodup.sublist (List.Sublist.append_left ((nil_sublist _).cons_cons _ |>.cons_cons _) front)
    have joined := isChain_join chain (isChain_singleton (Node.item i)) shorter
    have commuted : (q.setPrev (.item i) (some last)).setNext last (some (.item i)) =
        (q.setNext last (some (.item i))).setPrev (.item i) (some last) := rfl
    rw [← commuted] at joined
    obtain ⟨linked, at_, count⟩ := ih (front ++ [last]) (.item i) _ (by simpa using joined) (by simpa using nodup)
    refine ⟨by simpa [linkAll] using linked, ?_, count⟩
    rw [linkAll, at_]
    simp

theorem appendN_eq (rep : q.Represents items) {more : List ι} (nodup : (items ++ more).Nodup) :
    ∃ q', appendN more q = .ok () q' ∧ q'.Represents (items ++ more) := by
  obtain ⟨chain, hd, count⟩ := rep
  by_cases none_ : more = []
  · subst none_
    refine ⟨q, rfl, ?_⟩
    rw [append_nil]
    exact ⟨chain, hd, count⟩
  obtain ⟨front, last, left⟩ : ∃ front last, Node.head :: items.map Node.item = front ++ [last] :=
    ⟨_, _, (dropLast_append_getLast (by simp)).symm⟩
  have nodes := nodup_nodes nodup
  have whole : Node.head :: (items ++ more).map Node.item ++ [Node.tail] =
      (front ++ last :: more.map Node.item) ++ [Node.tail] := by
    rw [map_append, ← cons_append, left]
    simp
  rw [whole] at nodes
  rw [left] at chain
  have open_ := chain.left_of_append
  have link :=
    (isChain_append_cons_cons.mp (show (front ++ last :: Node.tail :: []).IsChain q.Linked by simpa using chain)).2.1.2
  obtain ⟨linked, at_, counted⟩ := linkAll_chain front last more q open_ (nodup_append.mp nodes).1
  refine ⟨(((linkAll last q more).1.setNext (linkAll last q more).2 (some .tail)).setPrev .tail
    (some (linkAll last q more).2)).setCount ((linkAll last q more).1.count + more.length), ?_, ?_, nodup, ?_⟩
  · unfold appendN
    simp only [none_, if_false, bind, EStateM.bind, get, getThe, MonadStateOf.get, EStateM.get, link]
    rfl
  · obtain ⟨front', last', last_⟩ : ∃ front' last', front ++ last :: more.map Node.item = front' ++ [last'] :=
      ⟨_, _, (dropLast_append_getLast (by simp)).symm⟩
    have hs : (linkAll last q more).2 = last' := by
      rw [at_]
      have := congrArg getLast? last_
      rw [getLast?_eq_some_getLast (by simp)] at this
      simpa using this
    rw [whole, last_, hs]
    rw [last_] at linked nodes
    rw [append_assoc] at nodes ⊢
    exact isChain_join linked (isChain_singleton Node.tail) nodes
  · rw [counted, count, length_append]
    rfl

end

theorem wp_unlink_count (n : Nat) (node : Option (Node ι)) (q : LinkedQueue ι) :
    wp (unlink n node) (fun out q' => out.1.length = n ∧ q'.count = q.count) (fun _ _ => True) q := by
  fun_induction unlink n node generalizing q with
  | case1 curr => simp
  | case2 n i ih =>
    simp only [wp_bind, wp_get, wp_modify]
    refine wp_imp (ih _ _) ?_
    rintro ⟨rest, curr⟩ q' ⟨length, count⟩
    exact ⟨by simpa using length, count⟩
  | case3 => simp

theorem wp_popleftN_count (n : Int) (q : LinkedQueue ι) :
    wp (popleftN n) (fun out q' => out.length = n.toNat ∧ q'.count = q.count - n) (fun _ _ => True) q := by
  unfold popleftN
  split
  · rename_i zero
    simp [zero]
  simp only [wp_bind, wp_get]
  split
  · simp
  · simp only [wp_bind, wp_get, wp_modify]
    refine wp_imp (wp_unlink_count ..) ?_
    rintro ⟨ret, curr⟩ q' ⟨length, count⟩
    cases curr with
    | none => exact ⟨length, count⟩
    | some node =>
      exact ⟨length, count⟩

theorem wp_remove_count (i : ι) (q : LinkedQueue ι) :
    wp (remove i) (fun _ q' => q'.count = q.count - 1) (fun _ _ => True) q := by
  unfold remove
  simp only [wp_bind, wp_get]
  split
  · simp [setCount, setPrev, setNext]
  · simp

end LinkedQueue

end KVOffload
