import RyanAI.Credit.LostUpdate
import RyanAI.Credit.Encoders
import RyanAI.Gateway.SerialQueue
import RyanAI.Gateway.FairQueueOrder
import RyanAI.Gateway.StateImport
import RyanAI.Gateway.AccountCheckpoint
import RyanAI.Gateway.DeliveryInvariant
import RyanAI.Gateway.ShardFence
import RyanAI.Gateway.NonceReplay
import RyanAI.Gateway.ShardSupervisor
import RyanAI.Gateway.ReplyWire
import RyanAI.Backend.Redelivery
import RyanAI.Backend.Assignment
import RyanAI.Backend.BindingsInvariant
import RyanAI.Backend.Rebalance
import RyanAI.Chat.StoresRun
import RyanAI.Chat.StreamChunks
import RyanAI.Chat.ToolApprovalProtocol
import RyanAI.Chat.TimersRun
import RyanAI.Access.SessionRefresh
import RyanAI.Credit.Statistics
import RyanAI.Gateway.GroupGate
import RyanAI.Chat.AnthropicStreamArguments
import RyanAI.Mfa.Requests
import RyanAI.Credit.DailyReset
import RyanAI.Socket.RedisDict
import RyanAI.Socket.Ydoc
import RyanAI.Chat.ResponseReplay
import RyanAI.Chat.ResponseBatching
import RyanAI.Access.Signup
import RyanAI.Gateway.CredentialStores
import RyanAI.Chat.AnthropicRequest
import RyanAI.Chat.ResponsesPayload
import RyanAI.Chat.CompactionRun
import RyanAI.Chat.InternalMessagesRun
import RyanAI.Notes.UpdateRun
import RyanAI.Encryption.SessionInvariant
import RyanAI.Gateway.BridgeRoundTrip
import RyanAI.Skills.ArchiveRoundTrip
import RyanAI.Automations.NextRun
import RyanAI.Gateway.ConversationLock
import RyanAI.Gateway.ReplyChunks
import RyanAI.Credit.EmptyAnswer
import RyanAI.Credit.CustomFees
import RyanAI.Credit.PriceLookup
import RyanAI.Knowledge.Commands
import RyanAI.Access.RateLimit
import RyanAI.Knowledge.ChunkMerge
import RyanAI.Knowledge.Indexing
import RyanAI.Chat.RepairCurrent
import RyanAI.Skills.Operations
import RyanAI.Gateway.Ports
import RyanAI.Access.FolderRepair
import RyanAI.Knowledge.DirectoryDeletion
import RyanAI.Knowledge.DirectoryUpdate
import RyanAI.Access.PermissionChecks
import RyanAI.Chat.UsageMerge
import RyanAI.Chat.DisplayItems
