import KVOffload.Quest.TierSpec

/-!
# Runs of tier manager calls

`Call` lists the public methods of `TierManager`. A run makes one call after the other on one
manager, in any order and for any sequences.
-/

namespace KVOffload.Quest

inductive Call (S R : Type) (bs : Nat) where
  | registerPrefillSummary (seq : S) (block : Nat) (kBlock : Fin bs → R)
  | onBlockFilled (seq : S) (block : Nat) (content : KVBlock bs R)
  | trimToWorkingSet (seq : S) (numFullBlocks : Nat) (engine : Nat → KVBlock bs R) (row : Nat → Nat)
  | writeLiveBlock (seq : S) (liveBlock : Nat) (content : KVBlock bs R)
  | prefillIngestKvshare (seq : S) (numFullBlocks : Nat) (key value : Nat → R) (promptLen : Option Nat)
  | appendDecodeTokenKvshare (seq : S) (seqLenBefore : Nat) (kTok vTok : R)
  | ensureResident (seq : S) (ids keepIds : List Nat)
  | logicalToSlot (seq : S) (block : Nat)
  | setPrevSelected (seq : S) (ids : List Nat)
  | prefetchTopIds (seq : S) (ids : List Nat)
  | freeRequest (seq : S)

variable {S D M R : Type} {bs : Nat} [DecidableEq S] [ReadableMemory M bs R]

def Call.seq : Call S R bs → S
  | .registerPrefillSummary seq _ _ | .onBlockFilled seq _ _ | .trimToWorkingSet seq _ _ _
  | .writeLiveBlock seq _ _ | .prefillIngestKvshare seq _ _ _ _ | .appendDecodeTokenKvshare seq _ _ _
  | .ensureResident seq _ _ | .logicalToSlot seq _ | .setPrevSelected seq _ | .prefetchTopIds seq _
  | .freeRequest seq => seq

def runCall (cfg : TierConfig bs R D) : Call S R bs → TierM S D M (Option Nat)
  | .registerPrefillSummary _ block kBlock => do registerPrefillSummary cfg block kBlock; pure none
  | .onBlockFilled seq block content => some <$> onBlockFilled cfg seq block content
  | .trimToWorkingSet seq n engine row => do trimToWorkingSet cfg seq n engine row; pure none
  | .writeLiveBlock seq block content => some <$> writeLiveBlock cfg seq block content
  | .prefillIngestKvshare seq n key value len => do prefillIngestKvshare cfg seq n key value len; pure none
  | .appendDecodeTokenKvshare seq len kTok vTok => do appendDecodeTokenKvshare cfg seq len kTok vTok; pure none
  | .ensureResident seq ids keepIds => do ensureResident cfg seq ids keepIds; pure none
  | .logicalToSlot seq block => some <$> logicalToSlot seq block
  | .setPrevSelected seq ids => do setPrevSelected cfg seq ids; pure none
  | .prefetchTopIds seq ids => do prefetchTopIds cfg seq ids; pure none
  | .freeRequest seq => do freeRequest seq; pure none

def runCalls (cfg : TierConfig bs R D) (calls : List (Call S R bs)) : TierM S D M Unit :=
  forM calls fun call => do let _ ← runCall cfg call; pure ()

def StepsMeet (cfg : TierConfig bs R D) (P : TierManager S D M → Call S R bs → Prop) :
    List (Call S R bs) → TierManager S D M → Prop
  | [], _ => True
  | call :: rest, s => P s call ∧ ∀ result t, runCall cfg call s = .ok result t → StepsMeet cfg P rest t

instance StepsMeet.decidable (cfg : TierConfig bs R D) (P : TierManager S D M → Call S R bs → Prop)
    [∀ s call, Decidable (P s call)] : ∀ calls s, Decidable (StepsMeet cfg P calls s)
  | [], _ => isTrue trivial
  | call :: rest, s =>
    match step : runCall cfg call s with
    | .ok _ t =>
      let _ := StepsMeet.decidable cfg P rest t
      decidable_of_iff (P s call ∧ StepsMeet cfg P rest t) (by simp [StepsMeet, step])
    | .error _ _ => decidable_of_iff (P s call) (by simp [StepsMeet, step])

variable {cfg : TierConfig bs R D} {s t : TierManager S D M} {P : TierManager S D M → Call S R bs → Prop}

theorem wp_runCalls
    {I : TierManager S D M → Prop} {E : QuestError S → TierManager S D M → Prop}
    (step : ∀ call s, P s call → I s → wp (runCall cfg call) (fun _ t => I t) E s)
    {calls : List (Call S R bs)} (meets : StepsMeet cfg P calls s) (start : I s) :
    wp (runCalls cfg calls) (fun _ t => I t) E s := by
  induction calls generalizing s with
  | nil => simpa [runCalls] using start
  | cons call rest ih =>
    unfold runCalls at ih ⊢
    rw [List.forM_cons]
    simp only [wp_bind]
    have kept := step call s meets.1 start
    refine wp_of_outcomes (fun result t run => ?_) (fun e t run => wp_error kept run)
    exact ih (meets.2 result t run) (wp_ok kept run)

theorem runCalls_cons_ok {call : Call S R bs} {rest : List (Call S R bs)}
    : runCalls cfg (call :: rest) s = .ok () t ↔
      ∃ result u, runCall cfg call s = .ok result u ∧ runCalls cfg rest u = .ok () t := by
  unfold runCalls
  rw [List.forM_cons, bind_assoc, bind_ok_iff]
  simp

theorem runCalls_append_ok {before after : List (Call S R bs)}
    : runCalls cfg (before ++ after) s = .ok () t ↔
      ∃ u, runCalls cfg before s = .ok () u ∧ runCalls cfg after u = .ok () t := by
  unfold runCalls
  rw [List.forM_append, bind_ok_iff]
  exact ⟨fun ⟨_, u, first, second⟩ => ⟨u, first, second⟩, fun ⟨u, first, second⟩ => ⟨(), u, first, second⟩⟩

theorem StepsMeet.before
    {before after : List (Call S R bs)} (meets : StepsMeet cfg P (before ++ after) s) :
    StepsMeet cfg P before s := by
  induction before generalizing s with
  | nil => trivial
  | cons call rest ih => exact ⟨meets.1, fun result t run => ih (meets.2 result t run)⟩

end KVOffload.Quest
