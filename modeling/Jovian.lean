import Jovian.Lib.Transition
import Jovian.Lib.Log
import Jovian.Lib.Transducer
import Jovian.Lib.Turns
import Jovian.Lib.InsertionMap
import Jovian.Lib.Backlog
import Jovian.Lib.Json
import Jovian.Lib.JsonLexer
import Jovian.Lib.JsonText
import Jovian.Lib.Utf8
import Jovian.Lib.Throws
import Jovian.Lib.PathLock
import Jovian.Lib.Percent
import Jovian.Lib.Argv
import Jovian.Wire.Serializer
import Jovian.Wire.Authentication
import Jovian.Wire.OneLine
import Jovian.Wire.RoundTrip
import Jovian.Client.ExecutionQueue
import Jovian.Client.Ledger
import Jovian.Client.Settlement
import Jovian.Client.SingleFlight
import Jovian.Client.ChannelOrder
import Jovian.Kernel.Publisher
import Jovian.Kernel.PublisherDelivery
import Jovian.Supervisor.SessionOptions
import Jovian.Supervisor.Launch
import Jovian.Supervisor.Frames
import Jovian.Supervisor.Relay
import Jovian.Supervisor.RelayDelivery
import Jovian.Supervisor.PollLoop
import Jovian.Supervisor.DeferredContent
import Jovian.Supervisor.Registry
import Jovian.Supervisor.Custody
import Jovian.Supervisor.Sessions
import Jovian.Supervisor.KernelProcess
import Jovian.Supervisor.ProcessLife
import Jovian.Supervisor.OutputPump
import Jovian.Supervisor.Delivery
import Jovian.Supervisor.Terminal
import Jovian.Supervisor.ExitReports
import Jovian.Kernel.ServerZmq
import Jovian.Kernel.StreamBuffer
import Jovian.Kernel.Interrupts
import Jovian.Kernel.CellRunner
import Jovian.Kernel.DebugRequests
import Jovian.Kernel.Traffic
import Jovian.Kernel.ServerQueues
import Jovian.Kernel.ReplyOrder
import Jovian.Kernel.AbortQueue
import Jovian.Kernel.KernelCore
import Jovian.Kernel.ExecuteReply
import Jovian.Kernel.Dispatch
import Jovian.Session.Conversation
import Jovian.Session.StopOnError
import Jovian.Session.LibraryLock
import Jovian.Session.StartLock
import Jovian.Session.InstallHolds
import Jovian.Session.HoldThenLook
import Jovian.Session.EnvironmentMaking
import Jovian.Session.OneSession
import Jovian.Session.RStatic
import Jovian.Session.RReading
import Jovian.Supervisor.Registration
import Jovian.Supervisor.Handshake
import Jovian.Supervisor.Outbox
import Jovian.Supervisor.WsRelay
import Jovian.Supervisor.Access
import Jovian.Supervisor.CommandLine
import Jovian.Kernel.StdinInput
import Jovian.Kernel.Comm
import Jovian.Kernel.CommR
import Jovian.Kernel.CommRegistry
import Jovian.Kernel.CommTargets
import Jovian.Client.SessionFrames
import Jovian.Client.FrameEffects
import Jovian.Client.FrameOrder
import Jovian.Client.Promises
import Jovian.Client.SessionCalls
import Jovian.Client.CallBooks
import Jovian.Client.SessionLines
import Jovian.Client.CallsSettle
import Jovian.Kernel.EchoFilter
import Jovian.Kernel.EchoChunks
import Jovian.Kernel.Utf8Decoder
import Jovian.Client.Transcript
import Jovian.Client.TranscriptBatches
import Jovian.Lib.Worklist
import Jovian.Packages.Requirements
import Jovian.Packages.Plan
import Jovian.Packages.PlanListed
import Jovian.Packages.PlanSound
import Jovian.Supervisor.ClientHeartbeat
import Jovian.Supervisor.IopubSignal
import Jovian.Client.ExecutionState
import Jovian.Lib.Lines
import Jovian.Packages.RunEnsure
import Jovian.Client.CommLifecycle
import Jovian.Packages.PyInstall
import Jovian.Client.History
import Jovian.Session.PackagesLease
import Jovian.Session.AttachCode
import Jovian.Session.RHelper
import Jovian.Kernel.AbortReplies
import Jovian.Lib.Regex
import Jovian.Kernel.HistoryManager
import Jovian.Kernel.HistorySearch
import Jovian.Kernel.TailHold
import Jovian.Kernel.ErrorMessage
import Jovian.Kernel.StataExecute
import Jovian.Kernel.IsComplete
import Jovian.Kernel.PyIsComplete
import Jovian.Kernel.StataCompletion
import Jovian.Kernel.SingleCommand
import Jovian.Packages.DependencyClosure
import Jovian.Lib.JsonValue
import Jovian.Kernel.RJson
import Jovian.Kernel.RRoundTrip
import Jovian.Kernel.RToJson
import Jovian.Kernel.RGraphics
import Jovian.Kernel.DisplayList
import Jovian.Kernel.PlotsFollow
import Jovian.Kernel.StataData
import Jovian.Kernel.MataJson
import Jovian.Kernel.MataRows
import Jovian.Kernel.StataReaders
import Jovian.Client.FrameBatcher
import Jovian.Client.Playground
import Jovian.Session.Rpc
