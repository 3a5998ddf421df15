import MyClaw.Storage.TornLines
import MyClaw.Storage.RotateCrash
import MyClaw.Storage.MessageIds
import MyClaw.Session.ActiveEntry
import MyClaw.Agent.CallCap
import MyClaw.Agent.Recovery
import MyClaw.Agent.OpenCalls
import MyClaw.Agent.DeferredYield
import MyClaw.Agent.Request
import MyClaw.Context.SuspensionTasks
import MyClaw.Context.TerminalNotice
import MyClaw.Context.YieldOrder
import MyClaw.Context.YieldCrash
import MyClaw.Shell.Reports
import MyClaw.Channels.DebounceRuns
import MyClaw.Identity.DirNames
import MyClaw.Identity.RegistryRuns
import MyClaw.Delegation.Tables
import MyClaw.Delegation.Startup
import MyClaw.Compaction.Protects
import MyClaw.Compaction.Dropped
import MyClaw.Inbound.SpoolBooks
import MyClaw.Inbound.Replay
import MyClaw.Scheduler.Prune
import MyClaw.Provider.FallbackAnswers
import MyClaw.Provider.FallbackChain
import MyClaw.Provider.PoolRuns
import MyClaw.Identity.Friends
import MyClaw.Identity.Mailbox
import MyClaw.Mcp.Client
import MyClaw.Mcp.SseCall
import MyClaw.Provider.StreamEnds
import MyClaw.Channels.ChunkContent
import MyClaw.Channels.ChunkLimit
import MyClaw.Webhook.Guard
import MyClaw.Scheduler.InjectTarget
import MyClaw.Delegation.NoticeQueue
import MyClaw.Scheduler.WeekdayShift
import MyClaw.Webhook.Prompt
import MyClaw.Agent.MentionCuts
import MyClaw.Channels.FenceBalance
import MyClaw.Session.SanitizeTwice
import MyClaw.Tools.CalculatorExact
import MyClaw.Identity.Merging
import MyClaw.Provider.Reassembly
import MyClaw.Provider.ByteChunks
import MyClaw.Provider.AnthropicWellFormed
import MyClaw.Memory.FileRoundTrip
import MyClaw.Text.FrontMatterBlocks
import MyClaw.Tools.SearchFailover
import MyClaw.Tools.TaskForest
import MyClaw.Agent.AskReplies
import MyClaw.Channels.TurnDelivery
import MyClaw.Agent.LoopStreaks
import MyClaw.Mcp.ToolNames
import MyClaw.Delegation.Inbox
import MyClaw.Channels.OutputOrder
import MyClaw.Agent.RequestLegal
import MyClaw.Context.ReminderMarks
import MyClaw.Provider.GoogleSchema
import MyClaw.Tools.FileEdit
import MyClaw.Channels.QqOutbox
