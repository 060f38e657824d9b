import KVOffload.Quest.DecodeRun
import KVOffload.Quest.Prefill

/-!
# Runs of forward passes

Prefills, mixed batches and decode steps in any order, on one layer with an engine cache. A dense pass takes no note of the
blocks that a decode token completes.
-/

namespace KVOffload.Quest

open List Request

variable {S D R : Type} {bs : Nat} [DecidableEq S]

structure Past (S : Type) (bs : Nat) (R : Type) where
  seen : S → Option (Nat × (Nat → KVBlock bs R))
  owner : Option S
  served : List S

def Past.start : Past S bs R := ⟨fun _ => none, none, []⟩

def Past.after (past : Past S bs R) (pass : Pass S D bs R) : Past S bs R where
  seen x := ((pass.batch.find? (·.seqId = x)).map fun r => (r.seqLen, fun b => pass.engine (r.blockTable b))).or (past.seen x)
  owner := ((pass.batch.find? (bs ≤ ·.seqLen)).map seqId).or past.owner
  served := if TakesDense bs pass.batch then past.served else activeIds pass.batch

def Meets (P : Past S bs R → Pass S D bs R → Prop) : List (Pass S D bs R) → Past S bs R → Prop
  | [], _ => True
  | pass :: rest, past => P past pass ∧ Meets P rest (past.after pass)

/-- What the engine does: a request starts with no token or goes on where it was, with its full blocks as they were, and
the keys of the step are in the cache when the pass runs. -/
structure Computes (past : Past S bs R) (pass : Pass S D bs R) : Prop where
  distinct : (pass.batch.map seqId).Nodup
  counted : ∀ r ∈ pass.batch, 0 < r.queryLen ∧ r.queryLen ≤ r.seqLen
  kept : ∀ r ∈ pass.batch, 0 < r.computed → ∃ blocks, past.seen r.seqId = some (r.computed, blocks) ∧
    ∀ b < r.computed / bs, pass.engine (r.blockTable b) = blocks b
  written : ∀ r ∈ pass.batch, ∀ b (i : Fin bs), r.computed ≤ b * bs + i → b * bs + i < r.seqLen →
    (pass.engine (r.blockTable b)).k i = pass.key (r.queryStart + (b * bs + i - r.computed))

structure Undisturbed (past : Past S bs R) (pass : Pass S D bs R) : Prop where
  /-- One request of the batch at most has a full block. -/
  single : ∀ r ∈ pass.batch, ∀ r' ∈ pass.batch, bs ≤ r.seqLen → bs ≤ r'.seqLen → r.seqId = r'.seqId
  /-- If it had one before, no other request has had one since. -/
  owned : ∀ r ∈ pass.batch, bs ≤ r.computed → past.owner = some r.seqId
  /-- On the dense path a block is completed in the first step of its request only. -/
  whole : TakesDense bs pass.batch → ∀ r ∈ pass.batch, r.computed / bs < r.seqLen / bs → r.computed = 0
  /-- A request that starts again was released before. -/
  restarted : ∀ r ∈ pass.batch, r.computed = 0 → r.seqId ∉ past.served

instance (past : Past S bs R) (pass : Pass S D bs R) : Decidable (Undisturbed past pass) :=
  decidable_of_iff ((∀ r ∈ pass.batch, ∀ r' ∈ pass.batch, bs ≤ r.seqLen → bs ≤ r'.seqLen → r.seqId = r'.seqId) ∧
      (∀ r ∈ pass.batch, bs ≤ r.computed → past.owner = some r.seqId) ∧
      (TakesDense bs pass.batch → ∀ r ∈ pass.batch, r.computed / bs < r.seqLen / bs → r.computed = 0) ∧
      ∀ r ∈ pass.batch, r.computed = 0 → r.seqId ∉ past.served)
    ⟨fun h => ⟨h.1, h.2.1, h.2.2.1, h.2.2.2⟩, fun h => ⟨h.single, h.owned, h.whole, h.restarted⟩⟩

instance Meets.decidable (P : Past S bs R → Pass S D bs R → Prop) [∀ past pass, Decidable (P past pass)] :
    ∀ passes past, Decidable (Meets P passes past)
  | [], _ => isTrue trivial
  | _ :: rest, _ => let _ := Meets.decidable P rest; inferInstanceAs (Decidable (_ ∧ _))

/-- A pass on the sparse path scores every candidate by the digest of its keys and gathers blocks as the engine has
them. -/
def Current (cfg : TierConfig bs R D) (topK : Nat) (pass : Pass S D bs R) (out : List (Gathered S D bs R)) : Prop :=
  ¬ TakesDense bs pass.batch → ∃ summary,
    (∀ r ∈ pass.batch, ∀ b < r.seqLen / bs, summary b = cfg.digest (pass.engine (r.blockTable b)).k) ∧
    List.Forall₂ (fun r g => Served topK pass.select (fun b => pass.engine (r.blockTable b)) summary r g) pass.batch out

structure Tracks (cfg : TierConfig bs R D) (past : Past S bs R) (s : TierManager S D (Memory bs R)) : Prop where
  serving : ∃ lens content, Serving cfg lens content s ∧ (∀ x, lens x ≠ none → x ∈ past.served) ∧
    ∀ x n, lens x = some n → ∃ m blocks, past.seen x = some (m, blocks) ∧ n / bs = m / bs ∧
      ∀ b < n / bs, content (x, b) = blocks b
  summaries : ∀ x, past.owner = some x → ∃ m blocks, past.seen x = some (m, blocks) ∧
    ∀ b < m / bs, s.summary b = cfg.digest (blocks b).k

variable {cfg : TierConfig bs R D} {past : Past S bs R} {pass : Pass S D bs R} {s : TierManager S D (Memory bs R)}
  {topK : Nat}

theorem tracks_start (cfg : TierConfig bs R D) (mem : Memory bs R) (summary : Nat → D) :
    Tracks cfg (Past.start : Past S bs R) (TierManager.init cfg mem summary) where
  serving := ⟨fun _ => none, fun _ => mem.host 0, serving_init cfg mem summary _, fun _ hf => absurd rfl hf,
    fun _ _ hf => by cases hf⟩
  summaries _ hf := by cases hf

variable {r : Request S} {batch : Batch S}

theorem seen_after_of_mem (computes : Computes past pass) (hm : r ∈ pass.batch) :
    (past.after pass).seen r.seqId = some (r.seqLen, fun b => pass.engine (r.blockTable b)) := by
  simp [Past.after, find?_seqId computes.distinct hm]

theorem seen_after_of_not_mem {x : S} (absent : ∀ r ∈ pass.batch, r.seqId ≠ x) : (past.after pass).seen x = past.seen x := by
  have none : pass.batch.find? (·.seqId = x) = none := find?_eq_none.mpr fun r hm => by simpa using absent r hm
  simp [Past.after, none]

theorem owner_after_of_mem (quiet : Undisturbed past pass) (hm : r ∈ pass.batch)
    (long : bs ≤ r.seqLen) : (past.after pass).owner = some r.seqId := by
  cases first : pass.batch.find? (bs ≤ ·.seqLen) with
  | none =>
    have := find?_eq_none.mp first r hm
    simp [long] at this
  | some r' =>
    have long' := find?_some first
    have hs := quiet.single r' (mem_of_find?_eq_some first) r hm (by simpa using long') long
    simp [Past.after, first, hs]

theorem owner_after_of_short (short : ∀ r ∈ pass.batch, r.seqLen < bs) : (past.after pass).owner = past.owner := by
  have none : pass.batch.find? (bs ≤ ·.seqLen) = none :=
    find?_eq_none.mpr fun r hm => by simpa using short r hm
  simp [Past.after, none]

omit [DecidableEq S] in
theorem foldl_prefillSummary_of_short (key : Nat → R) (short : ∀ r ∈ batch, r.queryLen < bs)
    (summary : Nat → D) : batch.foldl (prefillSummary cfg key) summary = summary := by
  induction batch with
  | nil => rfl
  | cons r rest ih =>
    rw [foldl_cons, prefillSummary_of_lt cfg key summary (short r (.head _))]
    exact ih fun r' hm => short r' (.tail _ hm)

omit [DecidableEq S] in
theorem foldl_prefillSummary_of_single (key : Nat → R) (hm : r ∈ batch)
    (short : ∀ r' ∈ batch, r' = r ∨ r'.queryLen < bs) (hd : (batch.map seqId).Nodup) (summary : Nat → D) :
    batch.foldl (prefillSummary cfg key) summary = prefillSummary cfg key summary r := by
  obtain ⟨before, after, rfl⟩ := append_of_mem hm
  rw [map_append, map_cons, nodup_append', nodup_cons] at hd
  have others : ∀ r' ∈ before ++ after, r'.queryLen < bs := by
    intro r' hi
    refine (short r' ?_).resolve_left ?_
    · simp only [mem_append] at hi ⊢
      tauto
    · rintro rfl
      rcases mem_append.mp hi with earlier | later
      · exact hd.2.2 (mem_map_of_mem earlier) (.head _)
      · exact hd.2.1.1 (mem_map_of_mem later)
  rw [foldl_append, foldl_cons,
    foldl_prefillSummary_of_short key (fun r' hi => others r' (mem_append_left _ hi)),
    foldl_prefillSummary_of_short key (fun r' hi => others r' (mem_append_right _ hi))]

omit [DecidableEq S] in
theorem Computes.seen (computes : Computes past pass) (hm : r ∈ pass.batch) (later : r.computed ≠ 0)
    {m : Nat} {blocks : Nat → KVBlock bs R} (hf : past.seen r.seqId = some (m, blocks)) :
    m = r.computed ∧ ∀ b < r.computed / bs, pass.engine (r.blockTable b) = blocks b := by
  obtain ⟨blocks', hf', kept⟩ := computes.kept r hm (pos_of_ne_zero later)
  rw [hf, Option.some.injEq, Prod.mk.injEq] at hf'
  exact ⟨hf'.1, hf'.2 ▸ kept⟩

section

variable (tracks : Tracks cfg past s) (computes : Computes past pass) (quiet : Undisturbed past pass)

include tracks computes quiet

theorem Tracks.rows (hm : r ∈ pass.batch) {b : Nat} (hb : b < r.computed / bs) :
    s.summary b = cfg.digest (pass.engine (r.blockTable b)).k := by
  have long : bs ≤ r.computed := by
    by_contra short
    rw [Nat.div_eq_of_lt (by omega)] at hb
    cases hb
  have later : r.computed ≠ 0 := fun zero => by simp [zero] at hb
  obtain ⟨m, blocks, hf, rows⟩ := tracks.summaries r.seqId (quiet.owned r hm long)
  obtain ⟨rfl, kept⟩ := computes.seen hm later hf
  rw [rows b hb, kept b hb]

theorem Tracks.dense (dense : TakesDense bs pass.batch) (size : 0 < bs) :
    Tracks cfg (past.after pass) { s with summary := pass.batch.foldl (prefillSummary cfg pass.key) s.summary } := by
  constructor
  · obtain ⟨lens, content, serving, known, agrees⟩ := tracks.serving
    have served : (past.after pass).served = past.served := if_pos dense
    refine ⟨lens, content, { serving with
      books := serving.books.congr rfl rfl rfl rfl
      coherent := serving.coherent.congr rfl rfl rfl rfl rfl }, fun x hf => served ▸ known x hf, fun x n hf => ?_⟩
    obtain ⟨m, blocks, seen, hs, equal⟩ := agrees x n hf
    by_cases present : ∃ r ∈ pass.batch, r.seqId = x
    · obtain ⟨r, hm, rfl⟩ := present
      have later : r.computed ≠ 0 := fun zero =>
        quiet.restarted r hm zero (known _ (hf ▸ Option.some_ne_none n))
      obtain ⟨rfl, kept⟩ := computes.seen hm later seen
      have stays : r.computed / bs = r.seqLen / bs := by
        refine Nat.le_antisymm (Nat.div_le_div_right (Nat.sub_le _ _)) (Nat.le_of_not_lt fun grown => ?_)
        exact later (quiet.whole dense r hm grown)
      refine ⟨_, _, seen_after_of_mem computes hm, hs.trans stays, fun b hb => ?_⟩
      rw [equal b hb, kept b (hs ▸ hb)]
    · rw [seen_after_of_not_mem fun r hm owner => present ⟨r, hm, owner⟩]
      exact ⟨m, blocks, seen, hs, equal⟩
  intro x owner
  have short : ∀ r ∈ pass.batch, r.seqLen < bs → r.queryLen < bs := fun r hm short =>
    Nat.lt_of_le_of_lt (computes.counted r hm).2 short
  by_cases any : ∃ r ∈ pass.batch, bs ≤ r.seqLen
  · obtain ⟨r, hm, long⟩ := any
    rw [owner_after_of_mem quiet hm long, Option.some.injEq] at owner
    subst owner
    refine ⟨_, _, seen_after_of_mem computes hm, fun b hb => ?_⟩
    have total : r.computed + r.queryLen = r.seqLen := Nat.sub_add_cancel (computes.counted r hm).2
    show pass.batch.foldl (prefillSummary cfg pass.key) s.summary b = _
    rw [foldl_prefillSummary_of_single pass.key hm (fun r' hi => ?single) computes.distinct, prefillSummary]
    case single =>
      by_cases long' : bs ≤ r'.seqLen
      · have hs := quiet.single r' hi r hm long' long
        exact .inl (inj_on_of_nodup_map computes.distinct hi hm hs)
      · exact .inr (short r' hi (by omega))
    by_cases first : r.computed = 0
    · -- The whole request is in the query range.
      rw [show r.queryLen = r.seqLen by omega, if_pos hb]
      congr 1
      funext i
      have hi : b * bs + i < r.seqLen := by
        have := Nat.mul_le_mul_right bs (Nat.succ_le_of_lt hb)
        have := Nat.div_mul_le_self r.seqLen bs
        rw [Nat.succ_mul] at *
        omega
      rw [computes.written r hm b i (by omega) hi, first, Nat.sub_zero, Nat.add_assoc]
    · have stays := Nat.le_of_not_lt fun grown => first (quiet.whole dense r hm grown)
      have few : r.queryLen < bs := by
        by_contra many
        have := Nat.div_le_div_right (c := bs) (show r.computed + bs ≤ r.seqLen by omega)
        rw [Nat.add_div_right _ size] at this
        omega
      rw [Nat.div_eq_of_lt few]
      exact tracks.rows computes quiet hm (Nat.lt_of_lt_of_le hb stays)
  · have all : ∀ r ∈ pass.batch, r.seqLen < bs := fun r hm => by
      by_contra long
      exact any ⟨r, hm, by omega⟩
    rw [owner_after_of_short all] at owner
    obtain ⟨m, blocks, seen, rows⟩ := tracks.summaries x owner
    rw [foldl_prefillSummary_of_short pass.key fun r hm => short r hm (all r hm)]
    by_cases present : ∃ r ∈ pass.batch, r.seqId = x
    · obtain ⟨r, hm, rfl⟩ := present
      refine ⟨_, _, seen_after_of_mem computes hm, fun b hb => ?_⟩
      rw [Nat.div_eq_of_lt (all r hm)] at hb
      cases hb
    · rw [seen_after_of_not_mem fun r hm owner => present ⟨r, hm, owner⟩]
      exact ⟨m, blocks, seen, rows⟩

end

omit [DecidableEq S] in
theorem Computes.sparse (computes : Computes past pass) (sparse : ¬ TakesDense bs pass.batch)
    (hm : r ∈ pass.batch) : r.computed = r.seqLen - 1 ∧ bs ≤ r.seqLen ∧ 0 < r.seqLen := by
  unfold TakesDense at sparse
  rw [one_lt_maxQueryLen_iff] at sparse
  push Not at sparse
  have := sparse.1 r hm
  have := sparse.2 r hm
  have := computes.counted r hm
  unfold computed
  omega

omit [DecidableEq S] in
theorem Undisturbed.length_le (quiet : Undisturbed past pass) (computes : Computes past pass)
    (sparse : ¬ TakesDense bs pass.batch) : pass.batch.length ≤ 1 := by
  have hd := computes.distinct
  have single := quiet.single
  have long := fun r hm => (computes.sparse sparse (r := r) hm).2.1
  match shape : pass.batch with
  | [] | [_] => simp
  | r :: r' :: rest =>
    rw [shape] at hd single long
    have hs := single r (.head _) r' (by simp) (long r (.head _)) (long r' (by simp))
    simp [hs] at hd

section

variable (tracks : Tracks cfg past s) (computes : Computes past pass) (quiet : Undisturbed past pass)

include tracks computes quiet

theorem Tracks.sparse (sparse : ¬ TakesDense bs pass.batch) (valid : ValidSelect cfg.gpuBudget topK bs pass.select pass.batch)
    (size : 0 < bs) (two : 2 ≤ cfg.gpuBudget) :
    wp (decodePass cfg topK pass.toDecodePass)
      (fun out t => Tracks cfg (past.after pass) t ∧ Current cfg topK pass out)
      (fun e _ => Exhausted cfg (storedOf bs (batchLens pass.batch)) e) s := by
  obtain ⟨lens, content, serving, known, agrees⟩ := tracks.serving
  have few := quiet.length_le computes sparse
  have proper : ProperPass cfg.gpuBudget topK pass.toDecodePass :=
    ⟨computes.distinct, fun r hm => (computes.sparse sparse hm).2.2, valid, .inl few⟩
  have continues : Continues lens content pass.engine pass.batch := by
    intro r hm n hf
    have later : r.computed ≠ 0 := fun zero =>
      quiet.restarted r hm zero (known _ (hf ▸ Option.some_ne_none n))
    obtain ⟨m, blocks, seen, hs, equal⟩ := agrees _ n hf
    obtain ⟨rfl, kept⟩ := computes.seen hm later seen
    refine ⟨by rw [hs, (computes.sparse sparse hm).1], fun b hb => ?_⟩
    rw [kept b (hs ▸ hb), equal b hb]
  refine wp_imp (decodePass_serving serving continues proper size two) ?_
  rintro out t ⟨serving', summary, served⟩
  have rows : ∀ r ∈ pass.batch, ∀ b < r.seqLen / bs, t.summary b = cfg.digest (pass.engine (r.blockTable b)).k := by
    intro r hm b hb
    have only : pass.batch = [r] := by
      obtain ⟨before, after, shape⟩ := append_of_mem hm
      rw [shape, length_append, length_cons] at few
      rw [shape, eq_nil_of_length_eq_zero (by omega : before.length = 0),
        eq_nil_of_length_eq_zero (by omega : after.length = 0), nil_append]
    obtain ⟨before, long, hp⟩ := computes.sparse sparse hm
    have old : ∀ b < (r.seqLen - 1) / bs, s.summary b = cfg.digest (pass.engine (r.blockTable b)).k :=
      fun b hb => tracks.rows computes quiet hm (before ▸ hb)
    have content : ∀ b, contentOf pass.toDecodePass (r.seqId, b) = pass.engine (r.blockTable b) := fun b => by
      rw [contentOf, tableOf_of_mem computes.distinct hm]
    rw [summary, only, foldl_cons, foldl_nil, noteSummary]
    by_cases boundary : r.seqLen % bs = 0
    · rw [if_pos boundary, content]
      obtain ⟨_, previous⟩ := pred_div_of_boundary hp boundary
      by_cases last : b = r.seqLen / bs - 1
      · rw [last, Function.update_self]
      · rw [Function.update_of_ne last]
        exact old b (by omega)
    · rw [if_neg boundary]
      exact old b (pred_div_of_unfilled boundary ▸ hb)
  refine ⟨⟨⟨_, _, serving', fun x hf => ?_, fun x n hf => ?_⟩, fun x owner => ?_⟩, fun _ => ⟨t.summary, rows, served⟩⟩
  · obtain ⟨r, hm, rfl⟩ := (batchLens_ne_none_iff computes.distinct).mp hf
    have active : r.seqId ∈ activeIds pass.batch := mem_dedup.mpr (mem_map_of_mem hm)
    simpa [Past.after, sparse] using active
  · obtain ⟨r, hm, rfl, rfl⟩ := request_of_batchLens computes.distinct hf
    refine ⟨_, _, seen_after_of_mem computes hm, rfl, fun b _ => ?_⟩
    rw [contentOf, tableOf_of_mem computes.distinct hm]
  cases shape : pass.batch with
  | nil =>
    have none : ∀ r ∈ pass.batch, r.seqLen < bs ∧ r.seqId ≠ x := by simp [shape]
    rw [owner_after_of_short fun r hm => (none r hm).1] at owner
    rw [seen_after_of_not_mem fun r hm => (none r hm).2, summary, shape]
    exact tracks.summaries x owner
  | cons r rest =>
    have hm : r ∈ pass.batch := by simp [shape]
    rw [owner_after_of_mem quiet hm (computes.sparse sparse hm).2.1, Option.some.injEq] at owner
    subst owner
    exact ⟨_, _, seen_after_of_mem computes hm, rows r hm⟩

theorem forward_tracks
    (valid : ValidSelect cfg.gpuBudget topK bs pass.select pass.batch) (size : 0 < bs) (two : 2 ≤ cfg.gpuBudget) :
    wp (forward cfg topK false pass) (fun out t => Tracks cfg (past.after pass) t ∧ Current cfg topK pass out)
      (fun e _ => Exhausted cfg (storedOf bs (batchLens pass.batch)) e) s := by
  unfold forward
  by_cases dense : TakesDense bs pass.batch
  · simp only [dense, ↓reduceIte, Bool.false_eq_true, false_and, wp_bind]
    exact wp_notifyPrefill ⟨tracks.dense computes quiet dense size, fun sparse => absurd dense sparse⟩
  · simp only [dense]
    exact tracks.sparse computes quiet dense valid size two

end

theorem wp_forwardRun {passes : List (Pass S D bs R)} (tracks : Tracks cfg past s) (engine : Meets Computes passes past)
    (quiet : Meets Undisturbed passes past)
    (valid : ∀ pass ∈ passes, ValidSelect cfg.gpuBudget topK bs pass.select pass.batch) (size : 0 < bs)
    (two : 2 ≤ cfg.gpuBudget) :
    wp (passes.mapM (forward cfg topK false)) (fun out _ => List.Forall₂ (Current cfg topK) passes out)
      (fun e _ => ∃ pass ∈ passes, (pass.batch.map seqId).Nodup ∧
      Exhausted cfg (storedOf bs (batchLens pass.batch)) e) s := by
  induction passes generalizing past s with
  | nil => exact .nil
  | cons pass rest ih =>
    simp only [mapM_cons, wp_bind]
    refine wp_mono (forward_tracks tracks engine.1 quiet.1 (valid pass (.head _)) size two) ?_
      (fun e _ exhausted => ⟨pass, .head _, engine.1.distinct, exhausted⟩)
    rintro gs t ⟨tracks', current⟩
    refine wp_mono (ih tracks' engine.2 quiet.2 fun later hm => valid later (.tail _ hm))
      (fun out _ rest => .cons current rest) ?_
    rintro e _ ⟨later, hm, exhausted⟩
    exact ⟨later, .tail _ hm, exhausted⟩

/-- In every run of forward passes that all meet the condition, every sparse pass scores its candidates by the digests of
their keys and gathers blocks as the engine has them. -/
theorem forward_run_current (cfg : TierConfig bs R D) (mem : Memory bs R) (summary : Nat → D) (topK : Nat)
    (passes : List (Pass S D bs R)) (size : 0 < bs) (some : 0 < topK) (small : topK ≤ cfg.gpuBudget - 1)
    (engine : Meets Computes passes Past.start)
    (selected : ∀ pass ∈ passes, ∀ r ∈ pass.batch, ∀ summary, ValidIds (r.seqLen / bs) (min topK (r.seqLen / bs))
      (pass.select r summary (r.seqLen / bs) (min topK (r.seqLen / bs))))
    (pool : ∀ pass ∈ passes, fullBlocks bs pass.batch ≤ cfg.cpuBlocks) (quiet : Meets Undisturbed passes Past.start) :
    ∃ out t, passes.mapM (forward cfg topK false) (TierManager.init cfg mem summary) = .ok out t ∧
      List.Forall₂ (Current cfg topK) passes out := by
  refine wp_total (wp_forwardRun (tracks_start cfg mem summary) engine quiet (fun pass member r inside scores => ?_)
    size (by omega)) ?_
  · have valid := selected pass member r inside scores
    exact ⟨valid.distinct, valid.below, by have := valid.count; omega⟩
  · rintro e _ ⟨pass, member, distinct, exhausted⟩
    have := exhausted.lt_fullBlocks distinct
    have := pool pass member
    omega

def mainRequest (computed seqLen : Nat) : Request Nat :=
  { seqId := 0, seqLen := seqLen, queryStart := 0, queryEnd := seqLen - computed, blockTable := id }

def shortRequest : Request Nat := { seqId := 1, seqLen := 1, queryStart := 1, queryEnd := 2, blockTable := fun b => 8 + b }

def mainPass (computed seqLen : Nat) : Pass Nat Nat 2 Nat :=
  { countingPass [mainRequest computed seqLen] with key := (computed + ·), value := fun _ => 0 }

def mixedPass (seqLen : Nat) : Pass Nat Nat 2 Nat where
  toDecodePass := countingPass [mainRequest (seqLen - 1) seqLen, shortRequest]
  key i := if i = 0 then seqLen - 1 else 16
  value _ := 0

variable {past : Past Nat 2 Nat}

theorem computes_mainPass {computed seqLen : Nat} (more : computed < seqLen)
    (seen : 0 < computed → past.seen 0 = some (computed, countingEngine)) : Computes past (mainPass computed seqLen) where
  distinct := by simp [mainPass, countingPass]
  counted := by
    simp only [mainPass, countingPass, mem_singleton, forall_eq, Request.queryLen, mainRequest]
    omega
  kept := by
    simp only [mainPass, countingPass, mem_singleton, forall_eq, Request.computed, Request.queryLen, mainRequest]
    intro later
    rw [show seqLen - (seqLen - computed - 0) = computed by omega] at later ⊢
    exact ⟨countingEngine, seen later, fun _ _ => rfl⟩
  written := by
    simp only [mainPass, countingPass, countingEngine, mem_singleton, forall_eq, Request.computed, Request.queryLen,
      mainRequest, id_eq]
    omega

theorem computes_mixedPass {seqLen : Nat} (more : 1 < seqLen)
    (seen : past.seen 0 = some (seqLen - 1, countingEngine)) : Computes past (mixedPass seqLen) where
  distinct := by simp [mixedPass, countingPass, mainRequest, shortRequest]
  counted := by
    simp only [mixedPass, countingPass, mem_cons, not_mem_nil, or_false, forall_eq_or_imp, forall_eq,
      queryLen, mainRequest, shortRequest]
    omega
  kept := by
    simp only [mixedPass, countingPass, mem_cons, not_mem_nil, or_false, forall_eq_or_imp, forall_eq,
      computed, queryLen, mainRequest, shortRequest]
    refine ⟨fun _ => ?_, by omega⟩
    rw [show seqLen - (seqLen - (seqLen - 1) - 0) = seqLen - 1 by omega]
    exact ⟨countingEngine, seen, fun _ _ => rfl⟩
  written := by
    simp only [mixedPass, countingPass, countingEngine, mem_cons, not_mem_nil, or_false, forall_eq_or_imp,
      forall_eq, computed, queryLen, mainRequest, shortRequest, id_eq]
    refine ⟨fun b i low high => ?_, fun b i _ high => ?_⟩
    · rw [if_pos (by omega)]
      omega
    · rw [if_neg (by omega)]
      omega

theorem forward_run_current_mixed :
    let passes := [mainPass 0 2, mainPass 2 3, mainPass 3 4, mixedPass 5, mainPass 5 6]
    ∃ out t, passes.mapM (forward roomyConfig 1 false) (TierManager.init roomyConfig Memory.zero fun _ => 0) = .ok out t ∧
      List.Forall₂ (Current roomyConfig 1) passes out := by
  refine forward_run_current roomyConfig Memory.zero (fun _ => 0) 1 _ (by decide) (by decide) (by decide) ?_
    (fun pass member r _ scores => ?_) (by decide) (by decide)
  · exact ⟨computes_mainPass (by decide) nofun, computes_mainPass (by decide) fun _ => rfl,
      computes_mainPass (by decide) fun _ => rfl, computes_mixedPass (by decide) rfl,
      computes_mainPass (by decide) fun _ => rfl, trivial⟩
  · have first : pass.select r scores (r.seqLen / 2) (min 1 (r.seqLen / 2)) = List.range (min (r.seqLen / 2) 1) := by
      simp only [List.mem_cons, List.not_mem_nil, or_false] at member
      rcases member with rfl | rfl | rfl | rfl | rfl <;> rfl
    rw [first]
    exact validIds_first _

/-- Request 0 completes its second block in a dense pass. When it decodes alone again, that block is scored against a summary
that was never written. -/
theorem dense_pass_loses_block :
    let passes := [mainPass 0 2, mainPass 2 3, mixedPass 4, mainPass 4 5]
    Meets Computes passes Past.start ∧ ∃ out t,
      passes.mapM (forward roomyConfig 1 false) (TierManager.init roomyConfig Memory.zero fun _ => 0) = .ok out t ∧
      ¬ List.Forall₂ (Current roomyConfig 1) passes out := by
  refine ⟨⟨computes_mainPass (by decide) nofun, computes_mainPass (by decide) fun _ => rfl,
    computes_mixedPass (by decide) rfl, computes_mainPass (by decide) fun _ => rfl, trivial⟩, ?_⟩
  obtain ⟨out, t, run, scored⟩ := reads_iff.mp (by decide +kernel :
    reads (fun out => out.map fun gs => gs.map Gathered.scored)
      ([mainPass 0 2, mainPass 2 3, mixedPass 4, mainPass 4 5].mapM (forward roomyConfig 1 false))
      (TierManager.init roomyConfig Memory.zero fun _ => 0) = some [[], [[0]], [], [[0, 0]]])
  refine ⟨out, t, run, fun all => ?_⟩
  rcases all with _ | ⟨_, _ | ⟨_, _ | ⟨_, _ | ⟨current, _ | _⟩⟩⟩⟩
  obtain ⟨summary, rows, served⟩ := current (by decide)
  rcases served with _ | ⟨given, _ | _⟩
  have written : summary 1 = 2 := rows (mainRequest 4 5) (.head _) 1 (by decide)
  have used := given.scored
  simp only [List.map_cons, List.map_nil, List.cons.injEq, and_true] at scored
  rw [scored.2.2.2] at used
  have unwritten : summary 1 = 0 := (List.cons.inj (List.cons.inj used).2).1.symm
  omega

end KVOffload.Quest
