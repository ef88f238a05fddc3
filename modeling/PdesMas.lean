import PdesMas.Library.Cut
import PdesMas.Lp.LpId
import PdesMas.State.WritePeriod
import PdesMas.State.StateVariable
import PdesMas.Library.Machine
import PdesMas.State.Operation
import PdesMas.State.Effect
import PdesMas.State.ReadValidity
import PdesMas.State.Ordered
import PdesMas.State.LiveWrites
import PdesMas.State.FossilCollection
import PdesMas.Types.Value
import PdesMas.RangeQuery.RangeRoutingTable
import PdesMas.Ssv.AccessCostCalculator
import PdesMas.State.Migration
import PdesMas.Lp.Message
import PdesMas.Lp.Alp
import PdesMas.Lp.AgentHistory
import PdesMas.Lp.OrphanRequest
import PdesMas.Lp.RollbackGuard
import PdesMas.Lp.RollbackTagList
import PdesMas.Library.HeapTree
import PdesMas.Routing.ForwardingTable
import PdesMas.Routing.RouteTable
import PdesMas.Lp.Clp
import PdesMas.Lp.ClpNetwork
import PdesMas.Lp.ClpEffect
import PdesMas.Lp.SingleHome
import PdesMas.Library.RoutedOrder
import PdesMas.Lp.MessageFlow
import PdesMas.Lp.MessageOrder
import PdesMas.Lp.GvtCalculator
import PdesMas.Lp.GvtNetwork
import PdesMas.Library.Sweep
import PdesMas.Library.Token
import PdesMas.Lp.GvtEffect
import PdesMas.Lp.GvtTimes
import PdesMas.Lp.GvtRounds
import PdesMas.Lp.GvtCuts
import PdesMas.Lp.GvtSafety
import PdesMas.Lp.RestoredLvt
import PdesMas.Lp.ResponseMatching
import PdesMas.Lp.WhiteMessages
import PdesMas.Library.ChainMap
import PdesMas.RangeQuery.RangeQueryInfo
import PdesMas.Lp.RollbackMap
import PdesMas.State.TakenOut
import PdesMas.Lp.MigrationRollbacks
import PdesMas.RangeQuery.Placement
import PdesMas.State.QueryRollbacks
import PdesMas.State.RangeCover
import PdesMas.Routing.Directions
import PdesMas.Library.Gather
import PdesMas.Lp.RangeClp
import PdesMas.RangeQuery.RangePeriods
import PdesMas.RangeQuery.RangeOverTime
import PdesMas.RangeQuery.TableRuns
import PdesMas.Types.RangeOverlap
import PdesMas.RangeQuery.BlockedQueries
import PdesMas.Lp.RangeQueryEffect
import PdesMas.Lp.RangeTableEffect
import PdesMas.Lp.RangeNetwork
import PdesMas.Lp.RangeWiring
import PdesMas.Lp.RangeChange
import PdesMas.Lp.RangeGather
import PdesMas.Lp.RangeUndone
import PdesMas.Messages.Transport
import PdesMas.Lp.RollbackSending
import PdesMas.State.SameTimeWrites
import PdesMas.State.OwnRollback
import PdesMas.State.PeriodList
import PdesMas.Library.RouteWalks
import PdesMas.Routing.Delivery
import PdesMas.Library.Flood
import PdesMas.Lp.EndFlood
import PdesMas.Lp.TreeMessages
import PdesMas.Lp.GvtFastPath
import PdesMas.Lp.GvtRing
import PdesMas.Lp.GvtDrain
import PdesMas.Lp.GvtColours
import PdesMas.RangeQuery.LaterPeriods
import PdesMas.State.RejectedWrites
import PdesMas.State.CoveredTable
import PdesMas.Lp.RangeSummary
import PdesMas.Parse.Preloading
import PdesMas.Lp.PortRanges
import PdesMas.Lp.GvtRequests
import PdesMas.Library.UpperBound
import PdesMas.Lp.LvtMoves
import PdesMas.Lp.RangeCoverage
import PdesMas.Library.ResetCounter
import PdesMas.Lp.MessageIdentifiers
import PdesMas.Routing.TreeMetric
import PdesMas.State.BoxOrder
import PdesMas.Ssv.MigrationMap
import PdesMas.Lp.MigrationRounds
import PdesMas.Routing.PortsInUse
import PdesMas.Ssv.MigrationTargets
import PdesMas.State.PrivateVariableStorage
import PdesMas.RangeQuery.RecordedQueries
import PdesMas.Library.Ledger
import PdesMas.Lp.ClpAnswers
import PdesMas.Lp.Letters
import PdesMas.Routing.Bearings
import PdesMas.Lp.LetterSteps
import PdesMas.Lp.Conservation
import PdesMas.Lp.Settling
import PdesMas.Lp.AnsweredAgents
import PdesMas.Lp.Simulation
import PdesMas.Lp.AgentsAnswered
import PdesMas.Lp.GvtAgreement
import PdesMas.Lp.GvtProgress
import PdesMas.Ssv.Accesses
import PdesMas.Lp.Balancing
import PdesMas.Lp.BalancedLoad
import PdesMas.Lp.BalancingRuns
import PdesMas.State.Lasting
import PdesMas.State.LastingState
import PdesMas.Lp.LastingClp
import PdesMas.Lp.KeepsRunning
