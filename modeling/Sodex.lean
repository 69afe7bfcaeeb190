import Sodex.LinkRing
import Sodex.LinkFamily
import Sodex.Runs
import Sodex.RingBuffer
import Sodex.PipeStream
import Sodex.Poll
import Sodex.KernelHeap
import Sodex.HeapTiling
import Sodex.HeapCalls
import Sodex.HeapAligned
import Sodex.PhysicalPool
import Sodex.HeapOwnership
import Sodex.UserHeap
import Sodex.MemoryLayout
import Sodex.DatagramSocket
import Sodex.DatagramQueue
import Sodex.Dlist
import Sodex.Process
import Sodex.ProcessTree
import Sodex.ExitStatus
import Sodex.ByteMem
import Sodex.Ext3Store
import Sodex.Ext3Fs
import Sodex.Ext3Heap
import Sodex.Ext3Tree
import Sodex.Ext3TreeRuns
import Sodex.CInt
import Sodex.SshReader
import Sodex.SshReaderSafety
import Sodex.CtrMode
import Sodex.SshRandom
import Sodex.TcpSocket
import Sodex.TcpStream
import Sodex.QueueRecords
import Sodex.TcpBacklog
import Sodex.TcpAccept
import Sodex.SshWire
import Sodex.SshFraming
import Sodex.SshPayload
import Sodex.SshServer
import Sodex.SshPoll
import Sodex.SshSteps
import Sodex.SshAuthOrder
import Sodex.SshAuthLimit
import Sodex.SshFreshSecrets
import Sodex.SshCodec
import Sodex.SshOutbound
import Sodex.SshFrames
import Sodex.Newlines
import Sodex.SshTtyOutput
import Sodex.SshSession
import Sodex.SshShellOutput
import Sodex.SshFlowControl
import Sodex.SshKeySwitch
import Sodex.Tally
import Sodex.OpenFiles
import Sodex.OpenFileCounts
import Sodex.OpenFileRuns
import Sodex.CText
import Sodex.AdminConfig
import Sodex.AdminAuth
import Sodex.AdminRequests
import Sodex.AdminServer
import Sodex.AdminTokens
import Sodex.Lockout
import Sodex.AdminThrottle
import Sodex.AdminSegments
import Sodex.Components
import Sodex.Json
import Sodex.AgentPaths
import Sodex.PathStack
import Sodex.AgentTools
import Sodex.Ext3Walk
import Sodex.Permissions
import Sodex.CFormat
import Sodex.AuditLog
import Sodex.JsonRounds
import Sodex.JsonText
import Sodex.Utf8
import Sodex.JsonStrings
import Sodex.JsonTree
import Sodex.JsonAccess
import Sodex.JsonWriter
import Sodex.JsonUtf8
import Sodex.JsonCalls
import Sodex.BoundedOutput
import Sodex.CommandBlock
import Sodex.Consent
import Sodex.FusionShell
import Sodex.FusionConsent
import Sodex.TermSurface
import Sodex.TermPaint
import Sodex.VtParser
import Sodex.TermFrame
import Sodex.TermAlternate
import Sodex.PairedCells
import Sodex.TermRows
import Sodex.TermInvariant
import Sodex.TermScreen
import Sodex.TermDamage
import Sodex.TermRender
import Sodex.TermPicture
import Sodex.SseStream
import Sodex.DnsCache
import Sodex.ShellTest
import Sodex.TextPatterns
import Sodex.Computations
import Sodex.SxProgram
import Sodex.SxHost
import Sodex.SxBuiltins
import Sodex.SxBuiltinParts
import Sodex.SxRuntime
import Sodex.SxBalance
import Sodex.SxParts
import Sodex.SxTraps
import Sodex.SxBound
import Sodex.SxCheck
