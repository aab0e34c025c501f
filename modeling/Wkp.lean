import Wkp.Lib.Assoc
import Wkp.Lib.Brackets
import Wkp.Lib.Bucket
import Wkp.Lib.Checked
import Wkp.Lib.Slices
import Wkp.Git.HttpBackend
import Wkp.Git.Provenance
import Wkp.Lib.Effect
import Wkp.Lib.Files
import Wkp.Lib.Hex
import Wkp.Lib.History
import Wkp.Lib.Json
import Wkp.Lib.Lossy
import Wkp.Lib.Path
import Wkp.Lib.Program
import Wkp.Lib.Ranking
import Wkp.Lib.Regex
import Wkp.Lib.Rely
import Wkp.Lib.Replicas
import Wkp.Lib.Str
import Wkp.Lib.Table
import Wkp.Lib.ThreeWay
import Wkp.Lib.Toml
import Wkp.Lib.Total
import Wkp.Lib.Trace
import Wkp.Lib.Utf8
import Wkp.Lib.Walk
import Wkp.Lib.Words
import Wkp.Core.Batches
import Wkp.Core.Budgeted
import Wkp.Core.Converge
import Wkp.Core.Excerpts
import Wkp.Core.Expiry
import Wkp.Core.Fenced
import Wkp.Core.Filtered
import Wkp.Core.Frontmatter
import Wkp.Core.Fused
import Wkp.Core.Fusion
import Wkp.Core.Gate
import Wkp.Core.Graph
import Wkp.Core.Index
import Wkp.Core.Ledger
import Wkp.Core.Marked
import Wkp.Core.Mentions
import Wkp.Core.Merge
import Wkp.Core.MergeLaws
import Wkp.Core.Rebuild
import Wkp.Core.Rendered
import Wkp.Core.Resolved
import Wkp.Core.RoundTrip
import Wkp.Core.Secrets
import Wkp.Core.Spliced
import Wkp.Core.Stable
import Wkp.Core.Tied
import Wkp.Core.Tier
import Wkp.Core.Usage
import Wkp.Core.UsageReadings
import Wkp.Core.UsageRings
import Wkp.Core.UsageSqlite
import Wkp.Core.UsageTables
import Wkp.Core.UsageWindow
import Wkp.Crypto.Recipients
import Wkp.Crypto.Recovery
import Wkp.Git.Branches
import Wkp.Git.Changes
import Wkp.Git.Clone
import Wkp.Git.DeviceBranch
import Wkp.Git.Disk
import Wkp.Git.Pathspec
import Wkp.Git.Plumbing
import Wkp.Git.Remote
import Wkp.Git.Repo
import Wkp.Git.SignedCommit
import Wkp.Git.Status
import Wkp.Cli.Brought
import Wkp.Cli.Carried
import Wkp.Cli.Confined
import Wkp.Cli.Delivered
import Wkp.Cli.Devices
import Wkp.Cli.Encrypted
import Wkp.Cli.Filter
import Wkp.Cli.Forged
import Wkp.Cli.Forget
import Wkp.Cli.Fresh
import Wkp.Cli.Gated
import Wkp.Cli.Import
import Wkp.Cli.Imported
import Wkp.Cli.Inverse
import Wkp.Cli.Leftovers
import Wkp.Cli.Listed
import Wkp.Cli.Malformed
import Wkp.Cli.Merged
import Wkp.Cli.Notes
import Wkp.Cli.Promote
import Wkp.Cli.PromptHook
import Wkp.Cli.PromptTokens
import Wkp.Cli.Prompted
import Wkp.Cli.Quoted
import Wkp.Cli.Refused
import Wkp.Cli.Remember
import Wkp.Cli.Remembered
import Wkp.Cli.Reported
import Wkp.Cli.Revoked
import Wkp.Cli.RunSync
import Wkp.Cli.Scanned
import Wkp.Cli.Signed
import Wkp.Cli.Survived
import Wkp.Cli.Sync
import Wkp.Cli.Synced
import Wkp.Cli.TrustFiles
import Wkp.Cli.Wkpd
import Wkp.Hub.Approval
import Wkp.Hub.Calls
import Wkp.Hub.Complete
import Wkp.Hub.ControlPlane
import Wkp.Hub.Enrollment
import Wkp.Hub.GitHttp
import Wkp.Hub.IndexWorker
import Wkp.Hub.Isolated
import Wkp.Hub.Enrolled
import Wkp.Hub.Opened
import Wkp.Hub.Asked
import Wkp.Lib.Triple
import Wkp.Cli.HubRegister
import Wkp.Lib.Protocol
import Wkp.Crypto.Identity
import Wkp.Crypto.Agreed
import Wkp.Cli.Registered
import Wkp.Hub.Issued
import Wkp.Hub.Listener
import Wkp.Hub.PercentDecode
import Wkp.Hub.Polled
import Wkp.Hub.Privacy
import Wkp.Hub.Published
import Wkp.Hub.Reaped
import Wkp.Hub.Reconfigured
import Wkp.Hub.Recorded
import Wkp.Hub.Registry
import Wkp.Hub.Retried
import Wkp.Hub.Stages
import Wkp.Hub.Storage
import Wkp.Hub.TenantPod
import Wkp.Hub.TenantRepo
import Wkp.Hub.Usage
import Wkp.Hub.UsageAgree
import Wkp.Hub.UsageI64
import Wkp.Hub.HubCa
import Wkp.Core.Indexable
import Wkp.Core.Sanitized
import Wkp.Cli.Whole
