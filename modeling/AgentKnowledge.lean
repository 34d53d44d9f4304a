import AgentKnowledge.Lib.Tar
import AgentKnowledge.Lib.Text
import AgentKnowledge.Core.Id
import AgentKnowledge.Core.Path
import AgentKnowledge.Core.Time
import AgentKnowledge.Core.Request
import AgentKnowledge.Lib.Bytes
import AgentKnowledge.Lib.Codec
import AgentKnowledge.Lib.Expansion
import AgentKnowledge.Core.Document
import AgentKnowledge.Core.Markdown
import AgentKnowledge.Queue.Package
import AgentKnowledge.Repository.Journal
import AgentKnowledge.Lib.SortedMap
import AgentKnowledge.Lib.FileTree
import AgentKnowledge.Lib.Edits
import AgentKnowledge.Repository.Layout
import AgentKnowledge.Repository.Index
import AgentKnowledge.Repository.Plan
import AgentKnowledge.Repository.PlanSound
import AgentKnowledge.Repository.Conflict
import AgentKnowledge.Repository.Follow
import AgentKnowledge.Repository.Frame
import AgentKnowledge.Lib.Lineage
import AgentKnowledge.Repository.History
import AgentKnowledge.Repository.Stats
import AgentKnowledge.Lib.Checkout
import AgentKnowledge.Repository.View
import AgentKnowledge.Repository.Worktree
import AgentKnowledge.Repository.Outcome
import AgentKnowledge.Repository.Transaction
import AgentKnowledge.Core.Revision
import AgentKnowledge.Lib.Alignment
import AgentKnowledge.Lib.EditGraph
import AgentKnowledge.Lib.Json
import AgentKnowledge.Lib.Least
import AgentKnowledge.Lib.Packing
import AgentKnowledge.Lib.Results
import AgentKnowledge.Repository.Read
import AgentKnowledge.Gateway.Diff
import AgentKnowledge.Gateway.DiffSearch
import AgentKnowledge.Gateway.Hunks
import AgentKnowledge.Lib.Pages
import AgentKnowledge.Lib.Reading
import AgentKnowledge.Queue.Storage
import AgentKnowledge.Repository.HistoryReader
import AgentKnowledge.Repository.HistoryLookup
import AgentKnowledge.Repository.Search
import AgentKnowledge.Gateway.Inspect
import AgentKnowledge.Gateway.InspectSpec
import AgentKnowledge.Gateway.Context
import AgentKnowledge.Gateway.Projects
import AgentKnowledge.Lib.Durable
import AgentKnowledge.Queue.FileQueue
import AgentKnowledge.Queue.Records
import AgentKnowledge.Queue.Transitions
import AgentKnowledge.Gateway.HistoryPages
import AgentKnowledge.Queue.Status
import AgentKnowledge.Client.Export
import AgentKnowledge.Client.Inspect
import AgentKnowledge.Client.Packages
import AgentKnowledge.Queue.Batch
import AgentKnowledge.Queue.Protocol
import AgentKnowledge.Queue.Scan
import AgentKnowledge.Queue.Selection
import AgentKnowledge.Queue.BatchClaims
import AgentKnowledge.Queue.Pending
import AgentKnowledge.Queue.Invariant
import AgentKnowledge.Queue.Observation
import AgentKnowledge.Queue.Ownership
import AgentKnowledge.Queue.Acceptance
import AgentKnowledge.Queue.Digest
import AgentKnowledge.Queue.Limits
import AgentKnowledge.Queue.PayloadTree
import AgentKnowledge.Repository.Bundles
import AgentKnowledge.Repository.Archive
import AgentKnowledge.Repository.Replication
import AgentKnowledge.Worker.Schedule
import AgentKnowledge.Access.Registry
import AgentKnowledge.Access.AuthorizedKeys
