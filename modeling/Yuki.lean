import Yuki.Runtime.Fencing
import Yuki.Runtime.Accounting
import Yuki.Runtime.Lifecycle
import Yuki.Runtime.Wakeup
import Yuki.Runtime.Delivery
import Yuki.Effects.Retry
import Yuki.Effects.Unresolved
import Yuki.Protocol.Collection
import Yuki.Automation.Due
import Yuki.Automation.Worker
import Yuki.Conversation.Incremental
import Yuki.Memory.AtMostOnce
import Yuki.Turns.Idle
import Yuki.Agents.Agreement
import Yuki.Agents.Delivery
import Yuki.Identity.Merging
import Yuki.Social.AtMostOnce
import Yuki.Persistence.Admission
import Yuki.Compaction.Tail
import Yuki.Memory.EmbeddingVectors
import Yuki.Memory.ReadPaths
import Yuki.Notifications.Resends
import Yuki.ToolResults.JsonVisits
import Yuki.Lib.LongestFit
import Yuki.Lib.Paging
import Yuki.BackgroundTurns.Runs
import Yuki.Outbound.Transport
import Yuki.ModelRuntime.Counter
import Yuki.Protocol.Published
import Yuki.ToolResults.JsonCounts
import Yuki.Automation.Zones
import Yuki.Conversation.FrozenRuns
import Yuki.Conversation.ProjectionRuns
import Yuki.Compaction.PlanSelection
import Yuki.Protocol.Journal
import Yuki.Outbound.Rendered
import Yuki.Outbound.RenderedMessage
import Yuki.Outbound.SpanTexts
import Yuki.Outbound.CodeLines
import Yuki.Outbound.Divided
import Yuki.Outbound.CodeBlocks
import Yuki.Outbound.RenderedAlike
import Yuki.Lib.RoundRobin
import Yuki.Runtime.Scheduler
import Yuki.Runtime.Supervision
