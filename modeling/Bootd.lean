import Bootd.Core.LTS
import Bootd.Core.Exec
import Bootd.Core.Chain
import Bootd.Core.Slots
import Bootd.Core.Ledger
import Bootd.Core.Memory
import Bootd.Core.Chunked
import Bootd.L2State.Listeners
import Bootd.L2State.Hosts
import Bootd.L2State.Files
import Bootd.L2State.Trace
import Bootd.L3Protocol.Tftp
import Bootd.L3Protocol.Rmp
import Bootd.L4Daemon.HostTable
import Bootd.L4Daemon.Reply
import Bootd.L4Daemon.Track
import Bootd.L4Daemon.Step
import Bootd.L4Daemon.Confine
import Bootd.L4Daemon.Request
import Bootd.L4Daemon.Descriptors
import Bootd.Bugs.TftpBuffers
import Bootd.Bugs.ErrorStorm
import Bootd.Bugs.HostChain
import Bootd.Bugs.RefusedRequest
import Bootd.Bugs.SessionCount
import Bootd.Bugs.StaleSession
import Bootd.Bugs.Leak
import Bootd.Bugs.SessionId
import Bootd.Core.Blocks
import Bootd.L4Daemon.Returns
import Bootd.Bugs.RmpCrash
import Bootd.L4Daemon.LinkReply
import Bootd.Bugs.BootReply
import Bootd.Bugs.ShortReplies
import Bootd.L4Daemon.TftpReturns
import Bootd.L4Daemon.TftpReply
import Bootd.Bugs.TwoReplies
import Bootd.L4Daemon.Transfer
import Bootd.Bugs.FinalAck
import Bootd.Bugs.Interference
import Bootd.Bugs.StaleBytes
import Bootd.Bugs.StaleFrames
import Bootd.Bugs.NullName
import Bootd.Bugs.OwnAddress
import Bootd.Bugs.ServerPort
import Bootd.Config.Source
import Bootd.Core.Fuel
import Bootd.Config.Parse
import Bootd.Config.Grammar
import Bootd.Config.Runs
import Bootd.Bugs.SeparatorLoop
import Bootd.Config.PrintParse
import Bootd.Config.Room
import Bootd.Bugs.LaxGrammar
import Bootd.Config.Lexer
import Bootd.Core.Ring
import Bootd.Config.Tokenize
import Bootd.Config.Words
import Bootd.Config.Services
import Bootd.Config.Entries
import Bootd.Config.Eval
import Bootd.Config.Marks
import Bootd.Config.Evaluated
import Bootd.Config.Bindings
import Bootd.Config.Complete
import Bootd.Config.Loaded
import Bootd.Bugs.IgnoredBlocks
import Bootd.Config.Masks
import Bootd.Bugs.ZeroMask
import Bootd.Config.Meaning
import Bootd.Config.Refines
import Bootd.Core.Mealy
import Bootd.Config.Stream
import Bootd.Config.Quote
import Bootd.Bugs.QuotedEscapes
import Bootd.Bugs.LostToken
import Bootd.Bugs.CommentJoins
import Bootd.Bugs.Lookahead
import Bootd.Bugs.RarpPadding
import Bootd.L4Daemon.Whoami
import Bootd.Bugs.EmptyBlock
import Bootd.Config.Scanner
import Bootd.Bugs.QuotedDelimiter
import Bootd.Config.Kept
import Bootd.Bugs.EntryLines
import Bootd.Config.Stored
import Bootd.Config.Refusals
import Bootd.Bugs.CutToken
import Bootd.Core.Stops
import Bootd.Config.Reorder
import Bootd.Bugs.MissingPath
import Bootd.Core.Buckets
import Bootd.L2State.BestMatch
import Bootd.Bugs.ProbeReply
import Bootd.Bugs.BootDone
import Bootd.L4Daemon.SessionAdd
import Bootd.Bugs.LongTimeout
import Bootd.L2State.ListenerHeap
import Bootd.L2State.ListenerRefines
import Bootd.Bugs.HeadTwice
import Bootd.Bugs.FileRecords
import Bootd.Bugs.DeviceAddress
import Bootd.Config.Separate
import Bootd.Bugs.DeviceAll
import Bootd.Config.Start
import Bootd.Bugs.FullBindings
import Bootd.Bugs.IntSettings
import Bootd.Config.BindSpec
import Bootd.Bugs.SignedPort
import Bootd.Bugs.PrintedBind
import Bootd.L3Protocol.TftpFields
import Bootd.Bugs.FullField
import Bootd.Config.FileTexts
import Bootd.Bugs.MissingServer
import Bootd.Core.CString
import Bootd.L2State.Log
import Bootd.Bugs.LogBuffer
import Bootd.Bugs.LogLevels
import Bootd.Bugs.TokenOverrun
import Bootd.Config.HostText
import Bootd.Bugs.LocalBuffers
import Bootd.Config.StringCopy
import Bootd.Bugs.MissingNul
import Bootd.Bugs.QuoteOverrun
import Bootd.Config.Chunks
import Bootd.Config.ChunkTables
import Bootd.Config.Interned
import Bootd.Config.ServiceIds
import Bootd.Bugs.ServiceNames
import Bootd.Core.LockStep
import Bootd.L4Daemon.LossyNetwork
import Bootd.L5Program.Startup
import Bootd.L5Program.Confinement
import Bootd.L5Program.Serving
import Bootd.Core.Fair
import Bootd.L4Daemon.Liveness
import Bootd.Core.Walk
import Bootd.L5Program.ServerLoop
import Bootd.L5Program.Netboot
import Bootd.Config.Layout
import Bootd.Config.HostFile
import Bootd.L5Program.Reload
import Bootd.Config.Interfaces
import Bootd.L5Program.Listening
