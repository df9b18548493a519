import SwarmCloud.Lib.Runs
import SwarmCloud.Lib.Docs
import SwarmCloud.Common.States
import SwarmCloud.Common.Pools
import SwarmCloud.Admission.Model
import SwarmCloud.Admission.Spec
import SwarmCloud.Admission.Batch
import SwarmCloud.Admission.Conservation
import SwarmCloud.Admission.Capacity
import SwarmCloud.Quota.PoolWrite
import SwarmCloud.Admission.LatePools
import SwarmCloud.Rollup.Derive
import SwarmCloud.Rollup.Final
import SwarmCloud.Lib.Sorting
import SwarmCloud.MergeSlot.Slot
import SwarmCloud.MergeSlot.Protocol
import SwarmCloud.Quota.Aimd
import SwarmCloud.Quota.Broker
import SwarmCloud.Quota.Ceiling
import SwarmCloud.Quota.Recovery
import SwarmCloud.Paging.Page
import SwarmCloud.Paging.OnePage
import SwarmCloud.Paging.Follow
import SwarmCloud.Lib.Decimal
import SwarmCloud.Lib.Json
import SwarmCloud.SpecSign.Value
import SwarmCloud.SpecSign.Encode
import SwarmCloud.SpecSign.ReadBack
import SwarmCloud.SpecSign.Canonical
import SwarmCloud.SpecSign.Binding
import SwarmCloud.SpecSign.Formats
import SwarmCloud.MergeTrain.Lane
import SwarmCloud.MergeTrain.Bisection
import SwarmCloud.Lib.GroupTesting
import SwarmCloud.MergeTrain.Culprits
import SwarmCloud.Accounts.Account
import SwarmCloud.Accounts.Readings
import SwarmCloud.Accounts.Convergence
import SwarmCloud.Accounts.HoldLedger
import SwarmCloud.Accounts.HoldRuns
import SwarmCloud.Accounts.Reauth
import SwarmCloud.Accounts.Documents
import SwarmCloud.Accounts.Decoding
import SwarmCloud.Accounts.Registration
import SwarmCloud.Schedules.Firings
import SwarmCloud.Schedules.Booked
import SwarmCloud.Schedules.Calls
import SwarmCloud.Schedules.Queue
import SwarmCloud.Schedules.Release
import SwarmCloud.AttemptState.Documents
import SwarmCloud.AttemptState.Fence
import SwarmCloud.AttemptState.Parks
import SwarmCloud.AttemptState.Routes
import SwarmCloud.AttemptState.Writers
import SwarmCloud.AttemptState.Delivery
import SwarmCloud.AttemptState.Record
import SwarmCloud.Lib.Substrings
import SwarmCloud.Quota.Reopening
import SwarmCloud.Quota.SweepLease
import SwarmCloud.Dependencies.EndCauses
import SwarmCloud.Lib.Paths
import SwarmCloud.Staging.Submission
import SwarmCloud.Staging.Inputs
import SwarmCloud.Staging.Agreement
import SwarmCloud.Retention.Keys
import SwarmCloud.Retention.Safety
import SwarmCloud.Checkpoints.Chain
import SwarmCloud.Checkpoints.Manager
import SwarmCloud.Checkpoints.Restorable
import SwarmCloud.Scheduler.Dispatch
import SwarmCloud.Scheduler.Repair
import SwarmCloud.Scheduler.Commits
import SwarmCloud.Scheduler.Grants
import SwarmCloud.Scheduler.Leases
import SwarmCloud.Rollup.Readings
import SwarmCloud.Scheduler.StepStates
import SwarmCloud.Scheduler.RetryCap
import SwarmCloud.Lib.Interleave
import SwarmCloud.Quota.Rereads
import SwarmCloud.Rollup.Verdicts
import SwarmCloud.Scheduler.Fairness
import SwarmCloud.Scheduler.FailedDispatch
import SwarmCloud.Scheduler.RepairSafety
import SwarmCloud.Accounts.Resets
import SwarmCloud.Cron.Expr
import SwarmCloud.Cron.Grammar
import SwarmCloud.Cron.Walls
import SwarmCloud.Cron.Next
import SwarmCloud.Cron.Gaps
import SwarmCloud.Cron.Recurs
import SwarmCloud.Cron.Glued
import SwarmCloud.Checkpoints.Trees
import SwarmCloud.Checkpoints.Unpack
import SwarmCloud.Checkpoints.Layers
import SwarmCloud.Checkpoints.Deltas
import SwarmCloud.Checkpoints.Replay
import SwarmCloud.Checkpoints.Restored
import SwarmCloud.Accounts.Choosing
import SwarmCloud.Redaction.Literals
import SwarmCloud.Redaction.Windows
import SwarmCloud.Schedules.Slots
import SwarmCloud.Schedules.Accounting
import SwarmCloud.Schedules.CatchUp
import SwarmCloud.Lib.Loops
import SwarmCloud.Lib.Topological
import SwarmCloud.Workflows.Dag
import SwarmCloud.Workflows.Cycle
import SwarmCloud.Workflows.Order
import SwarmCloud.Accounts.Health
import SwarmCloud.Lib.Listing
import SwarmCloud.Retention.Crash
import SwarmCloud.Staging.Manifest
import SwarmCloud.Staging.Resolve
import SwarmCloud.Staging.Beside
import SwarmCloud.Staging.Landing
import SwarmCloud.Dependencies.Release
import SwarmCloud.Dependencies.Closure
import SwarmCloud.Lib.Rotation
import SwarmCloud.Scheduler.Windows
import SwarmCloud.Lib.Kernel
import SwarmCloud.Checkpoints.Hostile
import SwarmCloud.Checkpoints.Confined
import SwarmCloud.GraphService.Loading
import SwarmCloud.GraphService.Answers
import SwarmCloud.Judge.Authority
import SwarmCloud.Judge.Settlement
import SwarmCloud.Scheduler.Pass
import SwarmCloud.Install.Lease
import SwarmCloud.Install.Waits
import SwarmCloud.Admins.Answers
import SwarmCloud.Upgrade.Runs
