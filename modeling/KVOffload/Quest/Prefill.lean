import KVOffload.Quest.Forward

/-!
# The prefill hooks

What a prefill leaves in the summaries: `notify_filled_blocks_after_prefill` counts the blocks of a request
from the start of its query range.
-/

namespace KVOffload.Quest

variable {S D M R : Type} {bs : Nat}

def prefillSummary (cfg : TierConfig bs R D) (key : Nat → R) (summary : Nat → D) (r : Request S) : Nat → D :=
  fun b => if b < r.queryLen / bs then cfg.digest fun i => key (r.queryStart + b * bs + i) else summary b

theorem prefillSummary_of_lt (cfg : TierConfig bs R D) (key : Nat → R) (summary : Nat → D) {r : Request S}
    (short : r.queryLen < bs) : prefillSummary cfg key summary r = summary := by
  funext b
  simp [prefillSummary, Nat.div_eq_of_lt short]

theorem wp_notifyPrefill [BlockMemory M bs R] {cfg : TierConfig bs R D} {key : Nat → R} {batch : Batch S}
    {Q : Unit → TierManager S D M → Prop} {E : QuestError S → TierManager S D M → Prop} {s : TierManager S D M}
    (done : Q () { s with summary := batch.foldl (prefillSummary cfg key) s.summary }) :
    wp (notifyFilledBlocksAfterPrefill cfg key batch) Q E s := by
  refine wp_imp (wp_forM_handled (I := fun before t =>
    t = { s with summary := before.foldl (prefillSummary cfg key) s.summary }) ?_ rfl)
    (fun _ t equal => equal ▸ done)
  rintro before r rest _ t rfl
  rw [List.foldl_append, List.foldl_cons, List.foldl_nil]
  by_cases short : r.queryLen < bs
  · rw [if_pos short, wp_pure, prefillSummary_of_lt cfg key _ short]
  rw [if_neg short]
  set summary := before.foldl (prefillSummary cfg key) s.summary
  let upTo n : Nat → D := fun b =>
    if b < n then cfg.digest fun i => key (r.queryStart + b * bs + i) else summary b
  refine wp_imp (wp_forM_range (I := fun n t => t = { s with summary := upTo n }) ?_ (by simp [upTo])) ?_
  · rintro n _ t rfl
    simp only [registerPrefillSummary, TierManager.setSummary, wp_modify, TierManager.mk.injEq, true_and, and_true]
    funext b
    unfold upTo
    by_cases last : b = n
    · simp [last]
    · rw [Function.update_of_ne last]
      by_cases hb : b < n
      · rw [if_pos hb, if_pos (by omega)]
      · rw [if_neg hb, if_neg (by omega)]
  · rintro _ t rfl
    rfl

end KVOffload.Quest
