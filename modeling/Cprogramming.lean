import Cprogramming.Library.ByteMemory
import Cprogramming.Library.CStrings
import Cprogramming.Library.LastMatch
import Cprogramming.Library.MachineWords
import Cprogramming.Library.PackedLayout
import Cprogramming.Library.OrderedTree
import Cprogramming.Library.KeyedTree
import Cprogramming.Library.Runs
import Cprogramming.Library.InOrder
import Cprogramming.Library.Decimals
import Cprogramming.Library.Fields
import Cprogramming.Library.Tables
import Cprogramming.Library.IntrusiveList
import Cprogramming.Library.LinkedSegments
import Cprogramming.Library.OnesComplement
import Cprogramming.Library.Allocations
import Cprogramming.Library.ForkJoin
import Cprogramming.Library.ExchangeSort
import Cprogramming.Pfexec.Protocol
import Cprogramming.Pfexec.FillMbuf
import Cprogramming.Pfexec.EnvironmentArea
import Cprogramming.Pfexec.AreaBounds
import Cprogramming.Pfexec.AreaLayout
import Cprogramming.Pfexec.RoundTrip
import Cprogramming.Pfexec.Rules
import Cprogramming.Pfexec.CommandMatch
import Cprogramming.Pfexec.Environment
import Cprogramming.Pfexec.Daemon
import Cprogramming.Pfexec.Decision
import Cprogramming.Pfexec.GroupIdentity
import Cprogramming.Pfexec.MessageLimits
import Cprogramming.Pfexec.Kernel
import Cprogramming.Pfexec.Escalation
import Cprogramming.Pfexec.ExecCopy
import Cprogramming.Pfexec.Groups
import Cprogramming.Pfexec.Lexer
import Cprogramming.Pfexec.OptionGrammar
import Cprogramming.Pfexec.PreparedEnvironment
import Cprogramming.Pfexec.ReceiveLoop
import Cprogramming.Pfexec.EnvironmentSlots
import Cprogramming.Acct.Records
import Cprogramming.Acct.Device
import Cprogramming.Acct.Effects
import Cprogramming.Acct.Tracking
import Cprogramming.Acct.Features
import Cprogramming.Acct.Locks
import Cprogramming.Acct.Queue
import Cprogramming.Acct.Subscriptions
import Cprogramming.Acct.TrackedPaths
import Cprogramming.Acct.OpenFilter
import Cprogramming.ReliableUdp.Header
import Cprogramming.ReliableUdp.Process
import Cprogramming.ReliableUdp.Replay
import Cprogramming.ReliableUdp.Client
import Cprogramming.ReliableUdp.Server
import Cprogramming.ReliableUdp.Script
import Cprogramming.ReliableUdp.Transfer
import Cprogramming.ReliableUdp.PortLock
import Cprogramming.ReliableUdp.Assembly
import Cprogramming.ReliableUdp.Checksum
import Cprogramming.ReliableUdp.Encryption
import Cprogramming.ReliableUdp.WholeFile
import Cprogramming.LinkLayer.Addresses
import Cprogramming.LinkLayer.DistanceMap
import Cprogramming.LinkLayer.Packets
import Cprogramming.LinkLayer.Mailbox
import Cprogramming.LinkLayer.Switch
import Cprogramming.LinkLayer.Handlers
import Cprogramming.LinkLayer.Leases
import Cprogramming.LinkLayer.Lookups
import Cprogramming.LinkLayer.PollTable
import Cprogramming.LinkLayer.AddressNames
import Cprogramming.LinkLayer.AddressWalk
import Cprogramming.LinkLayer.Fragments
import Cprogramming.LinkLayer.RouteChoice
import Cprogramming.LinkLayer.Fallback
import Cprogramming.EventServer.Delivery
import Cprogramming.EventServer.Lifetime
import Cprogramming.EventServer.Metrics
import Cprogramming.EventServer.Pipeline
import Cprogramming.EventServer.StaleValues
import Cprogramming.EventServer.InterfaceBuffer
import Cprogramming.GameManagement.Grid
import Cprogramming.GameManagement.Texts
import Cprogramming.GameManagement.Game
import Cprogramming.GameManagement.Agents
import Cprogramming.GameManagement.ShipCount
import Cprogramming.GameManagement.Agreement
import Cprogramming.GameManagement.Placements
import Cprogramming.GameManagement.Pipe
import Cprogramming.GameManagement.Hunting
import Cprogramming.GameManagement.Moves
import Cprogramming.GameManagement.Normalisation
import Cprogramming.GameManagement.Setup
import Cprogramming.GameManagement.Splitting
import Cprogramming.GameManagement.Sweep
import Cprogramming.GameManagement.HelperBounds
import Cprogramming.GameProtocol.Server
import Cprogramming.GameProtocol.Search
import Cprogramming.GameProtocol.Pairs
import Cprogramming.GameProtocol.Matches
import Cprogramming.GameProtocol.Records
import Cprogramming.GameProtocol.TableBounds
import Cprogramming.GameProtocol.SharedRecord
import Cprogramming.GameProtocol.Reconnect
import Cprogramming.GameProtocol.Play
import Cprogramming.GameProtocol.Verdicts
import Cprogramming.GameProtocol.Scoreboard
import Cprogramming.Sudoku.Checks
import Cprogramming.Sudoku.Threads
import Cprogramming.Containers.LinkedQueue
import Cprogramming.Containers.Stacks
import Cprogramming.Containers.Brackets
import Cprogramming.Containers.Calculator
import Cprogramming.LexYacc.RecursiveDescent
import Cprogramming.RequestServer.Lines
import Cprogramming.SharedMemory.Exchange
