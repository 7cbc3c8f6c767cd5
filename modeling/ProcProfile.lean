import ProcProfile.Main
import ProcProfile.Proofs.Counting
import ProcProfile.Proofs.Region.FoldOrder
import ProcProfile.Proofs.Tally.Times
import ProcProfile.Proofs.Call.Times
import ProcProfile.Proofs.Call.Nested
import ProcProfile.Proofs.Call.AlongTree
import ProcProfile.Proofs.Region.Failures
import ProcProfile.Proofs.Reading
import ProcProfile.Proofs.Layouts
import ProcProfile.Proofs.Tally.Sane
import ProcProfile.Proofs.Interpreters
import ProcProfile.Proofs.Region.Apart
import ProcProfile.Proofs.Region.Summaries
import ProcProfile.Proofs.Region.Ledger
import ProcProfile.Proofs.Region.ChunkMap
import ProcProfile.Proofs.Tally.Answers
import ProcProfile.Proofs.Call.Ending
import ProcProfile.Proofs.Call.Served
import ProcProfile.Proofs.Region.Resets
import ProcProfile.Proofs.Host
import ProcProfile.Proofs.Region.Afresh
import ProcProfile.Proofs.Removal
import ProcProfile.Proofs.Region.Strays
import ProcProfile.Proofs.Image
import ProcProfile.Proofs.Region.Image
import ProcProfile.Proofs.Disk
import ProcProfile.Proofs.Tokens
import ProcProfile.Proofs.Region.Moves
import ProcProfile.Proofs.Region.Lockstep
import ProcProfile.Proofs.Region.Operations
import ProcProfile.Proofs.Requests
import ProcProfile.Proofs.DeadLocks
import ProcProfile.Proofs.RegionFile
import ProcProfile.Proofs.OneStore
import ProcProfile.Proofs.Recency
import ProcProfile.Proofs.Numbering.Listing
import ProcProfile.Proofs.Region.Verdict
import ProcProfile.Proofs.Tally.Conserved
import ProcProfile.Proofs.Reading.Rows
import ProcProfile.Proofs.Coverage
import ProcProfile.Proofs.Coverage.Merged
import ProcProfile.Proofs.Attaching
import ProcProfile.Proofs.Coverage.Overruns
import ProcProfile.Proofs.Tally.Accounts
import ProcProfile.Proofs.Tally.Unbounded
import ProcProfile.Proofs.Tally.Running
import ProcProfile.Proofs.Region.Room
import ProcProfile.Proofs.Deviations
import ProcProfile.Proofs.Json.Tokens
import ProcProfile.Proofs.Json.Values
import ProcProfile.Proofs.Reading.Lines
import ProcProfile.Proofs.Report.Documents
import ProcProfile.Proofs.Report.Files
