import KVOffload.Lib.Purge
import KVOffload.Lib.Streams
import KVOffload.Quest.WorkingSet

/-!
# Transfers on CUDA streams

With a stream pool the memory of a manager is the log of issued commands. The blocking mode replays the log; the pool executes
it in any order that the streams and the event of `ensure_resident` allow.
-/

namespace KVOffload.Quest

open TierManager BlockMemory

inductive StreamId where
  | compute | h2d | d2h
  deriving DecidableEq, Repr

inductive Command (bs : Nat) (R : Type) where
  | fill (slot : Nat) (block : KVBlock bs R)
  | rows (slot : Nat) (given : Fin bs → Option (R × R))
  | store (cpuSlot : Nat) (block : KVBlock bs R)
  | barrier (stream : StreamId)
  | mirror (cpuSlot : Nat) (block : KVBlock bs R)
  | spill (cpuSlot slot : Nat)
  | load (cpuSlot slot : Nat)
  /-- `compute_stream.wait_event(record_h2d_done())`. -/
  | waitH2d
  | read (slots : List Nat)

structure Traced (bs : Nat) (R : Type) where
  mem : Memory bs R
  reads : List (List (KVBlock bs R))

variable {S D R : Type} {bs : Nat}

def Traced.on (f : Memory bs R → Memory bs R) (m : Traced bs R) : Traced bs R := { m with mem := f m.mem }

namespace Command

def stream : Command bs R → StreamId
  | .fill _ _ | .rows _ _ | .store _ _ | .waitH2d | .read _ => .compute
  | .barrier stream => stream
  | .mirror _ _ | .spill _ _ => .d2h
  | .load _ _ => .h2d

def waits : Command bs R → Option StreamId
  | .waitH2d => some .h2d
  | .barrier _ => some .compute
  | _ => none

def exec : Command bs R → Traced bs R → Traced bs R
  | .fill slot block => .on (fillSlot slot block)
  | .rows slot given => .on (BlockMemory.writeRows slot given)
  | .store cpuSlot block => .on (storeBlock cpuSlot block)
  | .mirror cpuSlot block => .on (mirrorBlock cpuSlot block)
  | .spill cpuSlot slot => .on (spillSlot cpuSlot slot)
  | .load cpuSlot slot => .on (loadSlot cpuSlot slot)
  | .read slots => fun m => { m with reads := m.reads ++ [slots.map m.mem.arena] }
  | .waitH2d | .barrier _ => id

end Command

/-- The streams of `QuestStreamPool` and the compute stream. -/
def streams : StreamKind StreamId (Command bs R) (Traced bs R) := ⟨Command.stream, Command.waits, Command.exec⟩

/-- A memory in which the compute stream reads arena slots. -/
class GatheringMemory (M : Type) (bs : outParam Nat) (R : outParam Type) extends BlockMemory M bs R where
  gather (slots : List Nat) : M → M

/-- `stream_pool=None`: every copy is done when it is issued. -/
instance : GatheringMemory (Traced bs R) bs R where
  fillSlot slot block := .on (fillSlot slot block)
  writeRows slot rows := .on (BlockMemory.writeRows slot rows)
  storeBlock cpuSlot block := .on (storeBlock cpuSlot block)
  mirrorBlock cpuSlot block := .on (mirrorBlock cpuSlot block)
  spillSlot cpuSlot slot := .on (spillSlot cpuSlot slot)
  loadSlot cpuSlot slot := .on (loadSlot cpuSlot slot)
  syncH2d := id
  gather slots m := { m with reads := m.reads ++ [slots.map m.mem.arena] }

structure IssueLog (bs : Nat) (R : Type) where
  commands : List (Command bs R)

def IssueLog.issue (c : Command bs R) (log : IssueLog bs R) : IssueLog bs R := ⟨log.commands ++ [c]⟩

instance : GatheringMemory (IssueLog bs R) bs R where
  fillSlot slot block := .issue (.fill slot block)
  writeRows slot rows := .issue (.rows slot rows)
  storeBlock cpuSlot block log := ((log.issue (.store cpuSlot block)).issue (.barrier .h2d)).issue (.barrier .d2h)
  mirrorBlock cpuSlot block := .issue (.mirror cpuSlot block)
  spillSlot cpuSlot slot := .issue (.spill cpuSlot slot)
  loadSlot cpuSlot slot := .issue (.load cpuSlot slot)
  syncH2d := .issue .waitH2d
  gather slots := .issue (.read slots)

inductive TransferCall (R : Type) (bs : Nat) where
  | onBlockFilled (block : Nat) (content : KVBlock bs R)
  | writeLiveBlock (liveBlock : Nat) (content : KVBlock bs R)
  /-- `ensure_resident`, the wait for its event, and the read of the blocks that were asked for. -/
  | ensureResident (ids keepIds : List Nat)

section

variable {M : Type} [DecidableEq S] [GatheringMemory M bs R] (cfg : TierConfig bs R D) (seq : S)

def slotsOf (s : TierManager S D M) (ids : List Nat) : List Nat := ids.filterMap fun b => s.slotMap.slot? (seq, b)

def runTransfer : TransferCall R bs → TierM S D M Unit
  | .onBlockFilled block content => do let _ ← onBlockFilled cfg seq block content
  | .writeLiveBlock block content => do let _ ← writeLiveBlock cfg seq block content
  | .ensureResident ids keepIds => do
    ensureResident cfg seq ids keepIds
    let s ← get
    modify (setMem (GatheringMemory.gather (slotsOf seq s (ids ++ keepIds))))

def AllHits (s : TierManager S D M) : TransferCall R bs → Prop
  | .ensureResident ids _ => ∀ b ∈ ids, (seq, b) ∈ s.slotMap.keys
  | _ => True

instance (s : TierManager S D M) (call : TransferCall R bs) : Decidable (AllHits seq s call) := by
  unfold AllHits
  split <;> infer_instance

end

section

variable {M M' : Type} {cfg : TierConfig bs R D} {φ : M → M'}

def TierManager.mapMem (φ : M → M') (s : TierManager S D M) : TierManager S D M' :=
  ⟨s.slotMap, φ s.mem, s.summary, s.residency, s.cpuFree, s.cpuSlots, s.hostSlots, s.prevSelected, s.trimmed, s.activeSeqs⟩

theorem commutes_beginEvict (layer b : Nat) :
    Commutes (mapMem φ) (beginEvict layer b : TierM S D M Unit) (beginEvict layer b) := by
  refine Commutes.get fun s => ?_
  simp only [mapMem]
  cases s.residency b with
  | onGpu => exact Commutes.modify fun _ => rfl
  | evicting => exact Commutes.pure _
  | onCpu => exact Commutes.throw _
  | loading => exact Commutes.throw _

theorem commutes_completeEvict (layer b : Nat) :
    Commutes (mapMem φ) (completeEvict layer b : TierM S D M Unit) (completeEvict layer b) := by
  refine Commutes.get fun s => ?_
  simp only [mapMem]
  cases s.residency b with
  | evicting => exact Commutes.modify fun _ => rfl
  | _ => exact Commutes.throw _

theorem commutes_beginLoad (layer b : Nat) :
    Commutes (mapMem φ) (beginLoad layer b : TierM S D M Unit) (beginLoad layer b) := by
  refine Commutes.get fun s => ?_
  simp only [mapMem]
  cases s.residency b with
  | onCpu => exact Commutes.modify fun _ => rfl
  | _ => exact Commutes.throw _

theorem commutes_completeLoad (layer b : Nat) :
    Commutes (mapMem φ) (completeLoad layer b : TierM S D M Unit) (completeLoad layer b) := by
  refine Commutes.get fun s => ?_
  simp only [mapMem]
  cases s.residency b with
  | loading => exact Commutes.modify fun _ => rfl
  | _ => exact Commutes.throw _

theorem commutes_allocOr (error : QuestError S) : Commutes (mapMem φ) (allocOr error : TierM S D M Nat) (allocOr error) := by
  intro s
  simp only [allocOr]
  cases free : s.cpuFree <;> simp [mapMem, free, bind, EStateM.bind, get, getThe, MonadStateOf.get, EStateM.get, set,
    EStateM.set, pure, EStateM.pure, throw, throwThe, MonadExceptOf.throw, EStateM.throw]

theorem commutes_markOnGpu (b : Nat) : Commutes (mapMem φ) (markOnGpu b : TierM S D M Unit) (markOnGpu b) :=
  Commutes.modify fun _ => rfl

section

variable [DecidableEq S]

theorem commutes_addSlot (key : S × Nat) (protect : List (S × Nat)) :
    Commutes (mapMem φ) (addSlot key protect : TierM S D M _) (addSlot key protect) := by
  refine Commutes.get fun s => ?_
  simp only [mapMem]
  cases s.slotMap.add key protect with
  | none => exact Commutes.throw _
  | some added =>
    refine Commutes.bind (Commutes.modify fun _ => ?_) fun _ => Commutes.pure _
    rfl

theorem commutes_takeBackup (key : S × Nat) :
    Commutes (mapMem φ) (takeBackup cfg key) (takeBackup cfg key) := by
  intro s
  unfold takeBackup
  cases cfg.enableWriteThrough <;> rfl

theorem commutes_touchResident (seq : S) (ids keepIds : List Nat) :
    Commutes (mapMem φ) (touchResident seq ids keepIds : TierM S D M Unit) (touchResident seq ids keepIds) := by
  refine Commutes.forM fun b => Commutes.modify fun s => ?_
  by_cases present : (seq, b) ∈ s.slotMap.keys
  · rw [if_pos present, if_pos (show (seq, b) ∈ (mapMem φ s).slotMap.keys from present)]
    rfl
  · rw [if_neg present, if_neg (show (seq, b) ∉ (mapMem φ s).slotMap.keys from present)]

end

variable [GatheringMemory M bs R] [GatheringMemory M' bs R]

structure Replays (φ : M → M') : Prop where
  fill : ∀ slot block m, fillSlot slot block (φ m) = φ (fillSlot slot block m)
  mirror : ∀ cpuSlot block m, mirrorBlock cpuSlot block (φ m) = φ (mirrorBlock cpuSlot block m)
  spill : ∀ cpuSlot slot m, spillSlot cpuSlot slot (φ m) = φ (spillSlot cpuSlot slot m)
  load : ∀ cpuSlot slot m, loadSlot cpuSlot slot (φ m) = φ (loadSlot cpuSlot slot m)
  sync : ∀ m, φ m = φ (syncH2d m)
  gather : ∀ slots m, GatheringMemory.gather slots (φ m) = φ (GatheringMemory.gather slots m)

theorem commutes_fillSlot (replays : Replays φ) (slot : Nat) (content : KVBlock bs R) :
    Commutes (mapMem φ) (modify (setMem (fillSlot slot content)) : TierM S D M PUnit)
      (modify (setMem (fillSlot slot content))) :=
  Commutes.modify fun s => by simp only [setMem, mapMem, replays.fill]

variable [DecidableEq S]

section

variable (replays : Replays φ)

include replays

theorem commutes_spillHook (key : S × Nat) (slot : Nat) :
    Commutes (mapMem φ) (spillHook cfg key slot) (spillHook cfg key slot) := by
  unfold spillHook
  split
  · refine Commutes.get fun s => ?_
    refine Commutes.ite ?_ ?_
    · exact (Commutes.throw _).bind fun _ => (commutes_beginEvict _ _).bind fun _ => commutes_completeEvict _ _
    · exact (commutes_beginEvict _ _).bind fun _ => commutes_completeEvict _ _
  · refine (commutes_allocOr _).bind fun cpuSlot => (commutes_beginEvict _ _).bind fun _ => ?_
    refine (Commutes.modify fun s => ?_).bind fun _ => (commutes_completeEvict _ _).bind fun _ => Commutes.modify fun _ => rfl
    simp only [setMem, mapMem, replays.spill]

theorem commutes_claimSlot (key : S × Nat) (protect : List (S × Nat)) :
    Commutes (mapMem φ) (claimSlot cfg key protect) (claimSlot cfg key protect) := by
  refine Commutes.bind (commutes_addSlot key protect) fun added => ?_
  obtain ⟨slot, evicted⟩ := added
  cases evicted with
  | none => exact Commutes.pure slot
  | some victim => exact Commutes.bind (commutes_spillHook replays victim slot) fun _ => Commutes.pure _

theorem commutes_mirrorToHost (key : S × Nat) (block : KVBlock bs R) :
    Commutes (mapMem φ) (mirrorToHost cfg key block) (mirrorToHost cfg key block) := by
  refine Commutes.get fun s => Commutes.ite (Commutes.pure _) ?_
  refine Commutes.bind (commutes_allocOr _) fun cpuSlot => Commutes.bind (Commutes.modify fun _ => ?_) fun _ =>
    Commutes.modify fun t => ?_
  · rfl
  · simp only [setMem, mapMem, replays.mirror]

theorem commutes_onBlockFilled (seq : S) (b : Nat) (content : KVBlock bs R) :
    Commutes (mapMem φ) (onBlockFilled cfg seq b content) (onBlockFilled cfg seq b content) := by
  refine Commutes.bind (Commutes.modify fun _ => ?_) fun _ => Commutes.bind (commutes_claimSlot replays _ _) fun slot =>
    Commutes.bind (commutes_fillSlot replays slot content) fun _ => Commutes.bind (commutes_markOnGpu b) fun _ => ?_
  · rfl
  · exact Commutes.ite (Commutes.bind (commutes_mirrorToHost replays _ _) fun _ => Commutes.pure _) (Commutes.pure _)

theorem commutes_ensureOne (seq : S) (b : Nat) :
    Commutes (mapMem φ) (ensureOne cfg seq b) (ensureOne cfg seq b) := by
  refine Commutes.get fun s => Commutes.ite (Commutes.modify fun _ => rfl) ?_
  refine Commutes.bind (commutes_takeBackup _) fun hf => ?_
  cases hf with
  | none => exact Commutes.throw _
  | some cpuSlot =>
    refine Commutes.bind (commutes_claimSlot replays _ _) fun slot => Commutes.bind (commutes_beginLoad _ _) fun _ =>
      Commutes.bind (Commutes.modify fun t => ?_) fun _ => ?_
    · simp only [setMem, mapMem, replays.load]
    · refine Commutes.ite (Commutes.bind (Commutes.modify fun _ => ?_) fun _ => commutes_completeLoad _ _)
        (commutes_completeLoad _ _)
      rfl

end

variable (cfg) in
theorem commutes_runTransfer (replays : Replays φ) (seq : S) (call : TransferCall R bs) :
    Commutes (mapMem φ) (runTransfer { cfg with streamPool := true } seq call)
      (runTransfer { cfg with streamPool := false } seq call) := by
  cases call with
  | onBlockFilled b content =>
    exact Commutes.bind (commutes_onBlockFilled replays seq b content) fun _ => Commutes.pure _
  | writeLiveBlock b content =>
    exact Commutes.bind (Commutes.bind (commutes_claimSlot replays _ _) fun slot =>
      Commutes.bind (commutes_fillSlot replays slot content) fun _ => Commutes.bind (commutes_markOnGpu b) fun _ =>
        Commutes.pure _) fun _ => Commutes.pure _
  | ensureResident ids keepIds =>
    refine Commutes.bind (Commutes.bind (commutes_touchResident seq ids keepIds) fun _ =>
      Commutes.bind (Commutes.forM fun b => commutes_ensureOne replays seq b) fun _ => ?_) fun _ =>
        Commutes.get fun s => Commutes.modify fun t => ?_
    · intro s
      exact congrArg (fun m => EStateM.Result.ok () ({ mapMem φ s with mem := m })) (replays.sync s.mem)
    · simp only [setMem, mapMem, replays.gather]
      rfl

end

theorem IssueLog.replay_issue (c : Command bs R) (log : IssueLog bs R) (m : Traced bs R) :
    streams.replay (log.issue c).commands m = c.exec (streams.replay log.commands m) :=
  StreamKind.replay_append log.commands c m

theorem replays_log (m : Traced bs R) : Replays fun log : IssueLog bs R => streams.replay log.commands m where
  fill slot block log := (log.replay_issue (.fill slot block) m).symm
  mirror cpuSlot block log := (log.replay_issue (.mirror cpuSlot block) m).symm
  spill cpuSlot slot log := (log.replay_issue (.spill cpuSlot slot) m).symm
  load cpuSlot slot log := (log.replay_issue (.load cpuSlot slot) m).symm
  sync log := (log.replay_issue .waitH2d m).symm
  gather slots log := (log.replay_issue (.read slots) m).symm

def IssueLog.NoLoads (log : IssueLog bs R) : Prop := ∀ c ∈ log.commands, c.stream ≠ .h2d

variable {log : IssueLog bs R}

theorem IssueLog.NoLoads.issue {c : Command bs R} (none : log.NoLoads) (other : c.stream ≠ .h2d) :
    (log.issue c).NoLoads := by
  intro c' hm
  rcases List.mem_append.mp hm with old | new
  · exact none c' old
  · exact List.mem_singleton.mp new ▸ other

section

variable [DecidableEq S] {cfg : TierConfig bs R D} {seq : S} {s : TierManager S D (IssueLog bs R)}

theorem claimSlot_noLoads {key : S × Nat} {protect : List (S × Nat)} (none : s.mem.NoLoads) :
    wp (claimSlot cfg key protect) (fun _ t => t.mem.NoLoads) (fun _ t => t.mem.NoLoads) s := by
  refine wp_claimSlot (fun _ _ _ => none) (fun victim slot m _ _ => ?_) (fun _ => none)
  exact wp_spillHook (fun _ _ _ _ _ => none.issue (by simp [Command.stream])) (fun _ _ _ => none) (fun _ _ => none)
    (fun _ _ => none) (fun t hs _ => hs ▸ none)

theorem onBlockFilled_noLoads {b : Nat} {content : KVBlock bs R} (none : s.mem.NoLoads) :
    wp (onBlockFilled cfg seq b content) (fun _ t => t.mem.NoLoads) (fun _ t => t.mem.NoLoads) s := by
  unfold onBlockFilled
  simp only [wp_bind, wp_modify, markOnGpu]
  refine wp_imp (claimSlot_noLoads none) (fun slot t kept => ?_)
  have filled : (fillSlot slot content t.mem).NoLoads := kept.issue (by simp [Command.stream])
  rw [wp_when]
  split
  · refine wp_mirrorWith (fun _ => filled) (fun _ cpuSlot rest _ => ?_) (fun _ _ => filled)
    exact filled.issue (by simp [Command.stream])
  · exact filled

theorem ensureResident_noLoads {ids keepIds : List Nat} (none : s.mem.NoLoads) (hits : ∀ b ∈ ids, (seq, b) ∈ s.slotMap.keys) :
    wp (ensureResident cfg seq ids keepIds) (fun _ t => t.mem.NoLoads) (fun _ t => t.mem.NoLoads) s := by
  unfold ensureResident
  rw [wp_bind]
  refine wp_touchResident fun t hs _ => ?_
  rw [wp_bind]
  refine wp_mono (wp_forM (I := fun u => Reordered s u) ?_ hs) ?_ ?_ (E := fun _ u => u.mem.NoLoads)
  · intro b hm u hs'
    have present := hs'.mem_keys.mpr (hits b hm)
    exact wp_ensureOne (fun _ => hs'.trans (reordered_touch u _)) (fun missing => absurd present missing)
      (fun _ missing => absurd present missing) (fun _ missing => absurd present missing)
  · rintro _ u hs'
    have mem : u.mem = s.mem := by rw [hs'.rest]
    split
    · simp only [wp_modify, setMem]
      rw [mem]
      exact none.issue (by simp [Command.stream])
    · simpa [mem] using none
  · exact fun _ _ kept => kept

theorem runTransfer_noLoads {call : TransferCall R bs} (hits : AllHits seq s call) (none : s.mem.NoLoads) :
    (finalState (runTransfer cfg seq call) s).mem.NoLoads := by
  refine (wp_outcome (P := fun _ (t : TierManager S D (IssueLog bs R)) => t.mem.NoLoads)).mp ?_
  cases call with
  | onBlockFilled b content =>
    rw [runTransfer, wp_bind]
    exact onBlockFilled_noLoads none
  | writeLiveBlock b content =>
    rw [runTransfer, wp_bind]
    unfold writeLiveBlock
    rw [wp_bind]
    refine wp_imp (claimSlot_noLoads none) (fun slot t kept => ?_)
    exact kept.issue (by simp [Command.stream])
  | ensureResident ids keepIds =>
    rw [runTransfer, wp_bind]
    refine wp_imp (ensureResident_noLoads none hits) (fun _ t kept => ?_)
    exact kept.issue (by simp [Command.stream])

end

def Command.act : Command bs R → (Nat → KVBlock bs R) × List (List (KVBlock bs R)) →
    (Nat → KVBlock bs R) × List (List (KVBlock bs R))
  | .fill slot block, v => (Function.update v.1 slot block, v.2)
  | .rows slot given, v => (Function.update v.1 slot ((v.1 slot).overwrite given), v.2)
  | .read slots, v => (v.1, v.2 ++ [slots.map v.1])
  | _, v => v

theorem private_arena (none : log.NoLoads) :
    StreamKind.Private streams .compute log.commands (fun m => (m.mem.arena, m.reads)) Command.act where
  own c _ mine m := by
    cases c with
    | mirror | spill | load => exact absurd mine (by simp [streams, Command.stream])
    | _ => rfl
  other c hm other m := by
    cases c with
    | load => exact absurd rfl (none _ hm)
    | fill | rows | store | waitH2d | read => exact absurd rfl other
    | _ => rfl

theorem act_reads (c : Command bs R) (v : (Nat → KVBlock bs R) × List (List (KVBlock bs R))) : v.2 <+: (c.act v).2 := by
  cases c with
  | read => exact List.prefix_append _ _
  | _ => exact List.prefix_rfl

theorem foldl_act_reads (cs : List (Command bs R)) (v : (Nat → KVBlock bs R) × List (List (KVBlock bs R))) :
    v.2 <+: (cs.foldl (fun v c => c.act v) v).2 := by
  induction cs generalizing v with
  | nil => exact List.prefix_rfl
  | cons c rest ih => exact (act_reads c v).trans (ih (c.act v))

theorem ticks_reads (none : log.NoLoads) {m : Traced bs R} {schedule : List StreamId}
    {device : Device StreamId (Command bs R) (Traced bs R)}
    (run : streams.ticks schedule (streams.start log.commands m) = some device) :
    device.mem.reads <+: (streams.replay log.commands m).reads ∧
      (device.queue .compute = [] → device.mem.reads = (streams.replay log.commands m).reads) := by
  have priv := private_arena none
  obtain ⟨before, split, seen⟩ := ((StreamKind.underway_start m).ticks priv run).seen
  have all := priv.replay m
  rw [split, List.foldl_append, ← seen] at all
  have reads : (streams.replay log.commands m).reads = _ := congrArg Prod.snd all
  refine ⟨?_, fun drained => ?_⟩
  · rw [reads]
    exact foldl_act_reads _ (device.mem.mem.arena, device.mem.reads)
  · rw [drained] at reads
    exact reads.symm

/-- While no `ensure_resident` has to load a block, the compute stream reads under every schedule what the blocking mode
reads, and the calls end alike. -/
theorem hits_read_alike [DecidableEq S] (cfg : TierConfig bs R D) (seq : S) (calls : List (TransferCall R bs))
    (mem : Memory bs R) (summary : Nat → D)
    (hits : EveryStep (runTransfer { cfg with streamPool := false } seq) (AllHits seq) calls
      (.init cfg (⟨mem, []⟩ : Traced bs R) summary)) :
    let blocking := runTransfer { cfg with streamPool := false } seq
    let pooled := runTransfer { cfg with streamPool := true } seq
    let s : TierManager S D (Traced bs R) := .init cfg ⟨mem, []⟩ summary
    let t : TierManager S D (IssueLog bs R) := .init cfg ⟨[]⟩ summary
    outcomes pooled (fun _ => true) calls t = outcomes blocking (fun _ => true) calls s ∧
    ∀ schedule device,
      streams.ticks schedule (streams.start (runPast pooled calls t).mem.commands ⟨mem, []⟩) = some device →
      device.mem.reads <+: (runPast blocking calls s).mem.reads ∧
      (device.queue .compute = [] → device.mem.reads = (runPast blocking calls s).mem.reads) := by
  intro blocking pooled s t
  have replays : Replays fun log : IssueLog bs R => streams.replay log.commands ⟨mem, []⟩ := replays_log _
  have same : ∀ call, Commutes (mapMem fun log => streams.replay log.commands ⟨mem, []⟩) (pooled call)
      (blocking call) := fun call => commutes_runTransfer cfg replays seq call
  have final := runPast_image same calls t
  have none : (runPast pooled calls t).mem.NoLoads := by
    have every : EveryStep pooled (AllHits seq) calls t := EveryStep.of_image same (fun s call => ?_) hits
    · refine EveryStep.runPast (I := fun u => u.mem.NoLoads) (fun call u hit kept => runTransfer_noLoads hit kept) every ?_
      simp [IssueLog.NoLoads, t, TierManager.init]
    · cases call <;> exact id
  refine ⟨(outcomes_image same _ calls t).symm, fun schedule device run => ?_⟩
  have reads := ticks_reads none run
  rw [show runPast blocking calls s = _ from final]
  exact reads

def slimConfig : TierConfig 1 Nat Nat where
  layerIdx := 0
  gpuBudget := 1
  cpuBlocks := 2
  digest k := k 0

def slimBlock (x : Nat) : KVBlock 1 Nat := ⟨fun _ => x, fun _ => x⟩

def pooledInit : TierManager Nat Nat (IssueLog 1 Nat) := .init slimConfig ⟨[]⟩ fun _ => 0

def blockingInit : TierManager Nat Nat (Traced 1 Nat) := .init slimConfig ⟨.zero, []⟩ fun _ => 0

def keysRead (reads : List (List (KVBlock 1 Nat))) : List (List Nat) := reads.map fun r => r.map fun x => x.k 0

def readUnder (calls : List (TransferCall Nat 1)) (schedule : List StreamId) : Option (List (List Nat) × Nat) :=
  (streams.ticks schedule (streams.start
    (runPast (runTransfer { slimConfig with streamPool := true } 7) calls pooledInit).mem.commands ⟨.zero, []⟩)).map
      fun device => (keysRead device.mem.reads, (device.queue .compute).length)

theorem hits_read_alike_two_fills :
    let calls : List (TransferCall Nat 1) :=
      [.onBlockFilled 0 (slimBlock 3), .ensureResident [0] [], .onBlockFilled 1 (slimBlock 5), .ensureResident [1] [1]]
    outcomes (runTransfer { slimConfig with streamPool := true } 7) (fun _ => true) calls pooledInit =
      outcomes (runTransfer { slimConfig with streamPool := false } 7) (fun _ => true) calls blockingInit ∧
    readUnder calls [.compute, .compute, .compute, .compute, .compute, .compute, .d2h] = some ([[3], [5, 5]], 0) :=
  ⟨(hits_read_alike slimConfig 7 _ .zero (fun _ => 0) (by decide)).1, by decide +kernel⟩

/-- Block 0 is spilled by the fill of block 1. The compute stream overwrites the slot before the D2H stream has copied
it, and the load brings back block 1. -/
theorem spill_overtaken :
    let calls : List (TransferCall Nat 1) :=
      [.onBlockFilled 0 (slimBlock 3), .onBlockFilled 1 (slimBlock 5), .ensureResident [0] []]
    keysRead (runPast (runTransfer { slimConfig with streamPool := false } 7) calls blockingInit).mem.reads = [[3]] ∧
    readUnder calls [.compute, .compute, .d2h, .d2h, .h2d, .compute, .compute] = some ([[5]], 0) := by
  decide

end KVOffload.Quest
