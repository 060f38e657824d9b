import KVOffload.Quest.Exhausted
import KVOffload.Quest.Evictions
import KVOffload.Quest.ForwardRun
import KVOffload.Quest.HostSizing
import KVOffload.Quest.Prefetch
import KVOffload.Quest.Interference
import KVOffload.Quest.Streams
import KVOffload.Quest.SharedScratch
import KVOffload.Quest.Scores
import KVOffload.Core.MambaAlign
import KVOffload.Core.HybridHit
import KVOffload.Core.ScheduleLoops
import KVOffload.Quest.PrefixHit
import KVOffload.Offload.CpuBlocks
import KVOffload.Offload.ArcLists
import KVOffload.Offload.Resets
import KVOffload.Offload.SharedRegion
import KVOffload.Offload.HybridLookup
import KVOffload.Offload.SimpleWorker
import KVOffload.Worker.LogitsState
import KVOffload.Worker.SlotMapping
import KVOffload.Multimodal.MirrorCache
import KVOffload.Eplb.Rebalance
import KVOffload.Engine.NgramProposer
