import DuDuClaw.AccountRotator.Cooldown
import DuDuClaw.AccountRotator.Select
import DuDuClaw.Admission.Expiry
import DuDuClaw.Approval.ActionGrant
import DuDuClaw.Approval.PolicySnapshot
import DuDuClaw.Approval.Turns
import DuDuClaw.Causal.ParentAdjustment
import DuDuClaw.Ccr.Compaction
import DuDuClaw.Ccr.LexicalSearch
import DuDuClaw.Ccr.Paging
import DuDuClaw.Ccr.Revocation
import DuDuClaw.Ccr.TaskScore
import DuDuClaw.Concurrency.Expiry
import DuDuClaw.Concurrency.Slots
import DuDuClaw.Delegation.Whitelist
import DuDuClaw.DispatchGuard.Runs
import DuDuClaw.Fork.Backends
import DuDuClaw.Fork.Globs
import DuDuClaw.Fork.Links
import DuDuClaw.GoalLoop.StateLedger
import DuDuClaw.Knowledge.Blobs
import DuDuClaw.Knowledge.ChunkSizes
import DuDuClaw.Knowledge.CitationStable
import DuDuClaw.Knowledge.Edits
import DuDuClaw.Knowledge.GrantRoles
import DuDuClaw.Knowledge.Grants
import DuDuClaw.Knowledge.JobRuns
import DuDuClaw.Knowledge.TurnCitations
import DuDuClaw.Knowledge.VectorCache
import DuDuClaw.Knowledge.VectorLimit
import DuDuClaw.LlmContract.Fingerprint
import DuDuClaw.Memory.Exact
import DuDuClaw.Memory.Fence
import DuDuClaw.OrgFieldGuard.Guard
import DuDuClaw.OrgFieldGuard.OperatorCmd
import DuDuClaw.OrgFieldGuard.TomlFreeze
import DuDuClaw.OrgFieldGuard.WorkingDir
import DuDuClaw.Redaction.Decode
import DuDuClaw.Redaction.DisplayMask
import DuDuClaw.Redaction.Identity
import DuDuClaw.Redaction.PathText
import DuDuClaw.Redaction.ScopeHistory
import DuDuClaw.Redaction.Structured
import DuDuClaw.Responsibility.Breaker
import DuDuClaw.Responsibility.Budget
import DuDuClaw.Responsibility.FireKeys
import DuDuClaw.Responsibility.Protocol
import DuDuClaw.Takeover.Ceiling
import DuDuClaw.TaskStore.Authority
import DuDuClaw.TaskStore.Claims
import DuDuClaw.TaskStore.Dependencies
import DuDuClaw.TaskStore.Goals
import DuDuClaw.TaskStore.Ledger
import DuDuClaw.TaskStore.PlanRuns
import DuDuClaw.TaskStore.Rejections
import DuDuClaw.TaskStore.Steering
import DuDuClaw.Workflow.CostBounds
import DuDuClaw.Workflow.Freshness
import DuDuClaw.Workflow.InputIndependence
import DuDuClaw.Workflow.Saga
import DuDuClaw.Workflow.Targets
