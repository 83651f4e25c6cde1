import OnlDaemons.Lib.Explore
import OnlDaemons.Lib.RangeList
import OnlDaemons.Lib.LockProgram
import OnlDaemons.Lib.Run
import OnlDaemons.Nmd.Isolation
import OnlDaemons.Nmd.SwitchCommands
import OnlDaemons.Nmd.VlanPool
import OnlDaemons.Nmd.VlanSet
import OnlDaemons.Npr.Configuration
import OnlDaemons.Npr.Filters
import OnlDaemons.Npr.IndexList
import OnlDaemons.Npr.Ownership
import OnlDaemons.Npr.Routes
import OnlDaemons.Onldb.AssignList
import OnlDaemons.Onldb.TimeRange
import OnlDaemons.Onldb.Topology
import OnlDaemons.Onldb.WeeklyPolicy
import OnlDaemons.Onldb.FillIn
import OnlDaemons.Onldb.FillInInvariant
import OnlDaemons.Onldb.FillInSearch
import OnlDaemons.Onldb.FillInSound
import OnlDaemons.Lib.Arrange
import OnlDaemons.Onldb.Schedule
import OnlDaemons.Onldb.GetTopology
import OnlDaemons.Onldb.ReadNodes
import OnlDaemons.Onldb.ReadLinks
import OnlDaemons.Onldb.StoredRows
import OnlDaemons.Onldb.StoredNodes
import OnlDaemons.Onldb.ReadBack
import OnlDaemons.Onldb.ReservationQueries
import OnlDaemons.Onldb.MakeReservation
import OnlDaemons.Onldb.ExtendReservation
import OnlDaemons.Onldb.ReservationLock
import OnlDaemons.Onldb.SpecialState
import OnlDaemons.Lib.Wire
import OnlDaemons.Shared.ByteBuffer
import OnlDaemons.Shared.OnlTypes
import OnlDaemons.Shared.Rendezvous
import OnlDaemons.Shared.RoundTrip
import OnlDaemons.Shared.Message
import OnlDaemons.Shared.OnlRequests
import OnlDaemons.Crd.CrdRequests
import OnlDaemons.Crd.CrdResponses
import OnlDaemons.Shared.OnlResponses
import OnlDaemons.Dispatcher.CreateMessage
import OnlDaemons.Dispatcher.SendMessage
import OnlDaemons.Dispatcher.CallRendezvous
import OnlDaemons.Lib.ProgramRules
import OnlDaemons.Onldb.ReadPlaces
import OnlDaemons.Onldb.StoredSchedule
import OnlDaemons.Onldb.ExtendSafe
import OnlDaemons.Crd.SessionLinks
import OnlDaemons.Crd.LinkMoves
import OnlDaemons.Crd.LinkAnswers
import OnlDaemons.Crd.SessionCommit
import OnlDaemons.Crd.ClearedSession
import OnlDaemons.Npr.PluginControl
import OnlDaemons.Lib.ProgramEffects
import OnlDaemons.Onldb.Experiments
import OnlDaemons.Lib.Registry
import OnlDaemons.Crd.SessionTable
import OnlDaemons.Crd.ReservationTable
import OnlDaemons.Npr.Sections
import OnlDaemons.Npr.ConcurrentCalls
import OnlDaemons.Npr.ArpRequests
import OnlDaemons.Npr.ArpResults
import OnlDaemons.Npr.TcamStream
import OnlDaemons.Crd.LifeRuns
import OnlDaemons.Lib.Framing
import OnlDaemons.Dispatcher.NccpStream
import OnlDaemons.Proxy.MsgBuf
import OnlDaemons.Proxy.SessionRx
import OnlDaemons.Proxy.Sending
import OnlDaemons.Proxy.SessionTx
import OnlDaemons.Proxy.Manager
import OnlDaemons.Proxy.ManagerLocks
import OnlDaemons.Lib.Offers
import OnlDaemons.Lib.Walks
import OnlDaemons.Onldb.CheapestPath
import OnlDaemons.Onldb.ShortestPaths
import OnlDaemons.Onldb.PathCosts
import OnlDaemons.Onldb.NeighborMapping
import OnlDaemons.Onldb.RolledBack
import OnlDaemons.Onldb.WeekLoop
import OnlDaemons.Onldb.EdgeLoads
import OnlDaemons.Onldb.CarriedLoads
import OnlDaemons.Onldb.LeafDemand
import OnlDaemons.Onldb.StartSlots
import OnlDaemons.Lib.Tally
import OnlDaemons.Onldb.InterswitchBandwidth
import OnlDaemons.Onldb.VerifyClusters
import OnlDaemons.Lib.Contraction
import OnlDaemons.Onldb.MergeVswitches
import OnlDaemons.Onldb.Backtracking
import OnlDaemons.Lib.NextFit
import OnlDaemons.Onldb.AvailableNode
import OnlDaemons.Onldb.SplitVgige
import OnlDaemons.Onldb.LessRoom
import OnlDaemons.Onldb.SplitPaths
import OnlDaemons.Onldb.SplitRounds
import OnlDaemons.Npr.FreeLists
import OnlDaemons.Npr.RouterRuns
import OnlDaemons.Npr.DeleteByKey
import OnlDaemons.Npr.AddFailures
import OnlDaemons.Nmd.SshLock
import OnlDaemons.Crd.VlanGroups
import OnlDaemons.Onldb.TopologyEdits
import OnlDaemons.Onldb.BaseTopology
import OnlDaemons.Onldb.BandwidthUnits
import OnlDaemons.Onldb.SpecialDb
import OnlDaemons.Onldb.StateChanges
import OnlDaemons.Onldb.MovedReservations
import OnlDaemons.Lib.Drain
import OnlDaemons.Vmbase.SessionManager
import OnlDaemons.VpnBase.DeviceSession
import OnlDaemons.Vmbase.SessionFrame
import OnlDaemons.Vmbase.NameInvariant
import OnlDaemons.Vmbase.NamePool
import OnlDaemons.Nmd.PortBitmaps
import OnlDaemons.Onldb.ExtDevices
import OnlDaemons.Crd.RefreshOutcome
import OnlDaemons.Crd.UpMessages
import OnlDaemons.Lib.LineStream
import OnlDaemons.Base.UserData
import OnlDaemons.Crd.PortConfiguration
import OnlDaemons.Crd.ObserveRequests
import OnlDaemons.Base.Relay
import OnlDaemons.Npr.PluginConn
import OnlDaemons.Nmd.CommandText
import OnlDaemons.Nmd.VlanLists
import OnlDaemons.Lib.Lexer
import OnlDaemons.Lib.ByteMemory
import OnlDaemons.Lib.OnesComplement
import OnlDaemons.Npr.DramAccess
import OnlDaemons.Npr.DataPath
import OnlDaemons.Npr.LocalDelivery
import OnlDaemons.Npr.EchoReply
import OnlDaemons.Npr.IcmpErrors
import OnlDaemons.Npr.ArpRelease
import OnlDaemons.Npr.ControlText
import OnlDaemons.Shared.MessageCount
import OnlDaemons.Npr.LifeCycle
import OnlDaemons.Lib.Words
import OnlDaemons.Swrouter.FilterCommand
import OnlDaemons.Swrouter.FilterMeaning
import OnlDaemons.Shared.PeriodicTime
import OnlDaemons.Proxy.Forwarding
import OnlDaemons.Onldb.Subnet
import OnlDaemons.Onldb.LeafNeighbors
import OnlDaemons.Swrouter.ConfigurePort
import OnlDaemons.Swrouter.QueueHandles
import OnlDaemons.Lib.LeastBound
import OnlDaemons.Proxy.SelectSet
import OnlDaemons.Proxy.Commands
