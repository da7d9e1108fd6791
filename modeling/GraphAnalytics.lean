import GraphAnalytics.Cancellation
import GraphAnalytics.Components
import GraphAnalytics.Interleaving
import GraphAnalytics.Main
import GraphAnalytics.Memory.Range
import GraphAnalytics.Partition.Document
import GraphAnalytics.Progress.Tracker
import GraphAnalytics.Report.CommandLine
import GraphAnalytics.Schedule.Scheduler
import GraphAnalytics.Settings.Document
import GraphAnalytics.TopologicalOrder
import GraphAnalytics.Proofs.Memory.Budget
import GraphAnalytics.Proofs.Paged.CellHistories
import GraphAnalytics.Proofs.BitSet
import GraphAnalytics.Proofs.Graph.Cycles
import GraphAnalytics.Proofs.Graph.Constructions
import GraphAnalytics.Proofs.Graph.Totals
import GraphAnalytics.Proofs.Sets.Leader
import GraphAnalytics.Proofs.Sets.Interleaved
import GraphAnalytics.Proofs.Sets.Histories
import GraphAnalytics.Proofs.Sets.Comparisons
import GraphAnalytics.Proofs.Sets.Names
import GraphAnalytics.Proofs.Schedule.Record
import GraphAnalytics.Proofs.Schedule.Drained
import GraphAnalytics.Proofs.Schedule.Families
import GraphAnalytics.Proofs.Schedule.Flat
import GraphAnalytics.Proofs.Components.Connected
import GraphAnalytics.Proofs.Components.Stopping
import GraphAnalytics.Proofs.TopologicalOrder.Counting
import GraphAnalytics.Proofs.TopologicalOrder.Distances
import GraphAnalytics.Proofs.TopologicalOrder.Stopping
import GraphAnalytics.Proofs.Cancelled
import GraphAnalytics.Proofs.Paged.Bulk
import GraphAnalytics.Proofs.Paged.Histories
import GraphAnalytics.Proofs.Partition.Balance
import GraphAnalytics.Proofs.Progress.Frames
import GraphAnalytics.Proofs.OpenTasks
import GraphAnalytics.Proofs.Settings.Documents
import GraphAnalytics.Proofs.Json.Reading
import GraphAnalytics.Proofs.Json.Objects
import GraphAnalytics.Proofs.Partition.Documents
import GraphAnalytics.Proofs.Paged.Raising
import GraphAnalytics.Proofs.Progress.Percentages
import GraphAnalytics.Proofs.Sets.Halving
import GraphAnalytics.Proofs.Memory.Geometry
import GraphAnalytics.Proofs.Memory.Tables
import GraphAnalytics.Proofs.Partition.Batches
import GraphAnalytics.Proofs.BitSet.Visits
import GraphAnalytics.Proofs.Report.Tables
