import OtaAgent.Main
import OtaAgent.Rehearsal
import OtaAgent.Proofs.Table
import OtaAgent.Proofs.Report
import OtaAgent.Proofs.Path
import OtaAgent.Proofs.Path.Above
import OtaAgent.Proofs.Path.Parts
import OtaAgent.Proofs.Text.Utf8
import OtaAgent.Proofs.Text.Digits
import OtaAgent.Proofs.Text.Segment
import OtaAgent.Proofs.Text.Base64
import OtaAgent.Proofs.Digest
import OtaAgent.Proofs.Digest.Spelling
import OtaAgent.Proofs.Json.Lexing
import OtaAgent.Proofs.Json.Building
import OtaAgent.Proofs.Json.Judging
import OtaAgent.Proofs.Json.Values
import OtaAgent.Proofs.Json.Members
import OtaAgent.Proofs.Files.Content
import OtaAgent.Proofs.Files.Job
import OtaAgent.Proofs.Files.Within
import OtaAgent.Proofs.Files.Resolving
import OtaAgent.Proofs.Files.Growing
import OtaAgent.Proofs.Files.Opened
import OtaAgent.Proofs.Files.Labels
import OtaAgent.Proofs.Files.Relabelled
import OtaAgent.Proofs.Files.Interrupted
import OtaAgent.Proofs.Files.Rules
import OtaAgent.Proofs.Files.Alike
import OtaAgent.Proofs.Files.Resumed
import OtaAgent.Proofs.Files.Entering
import OtaAgent.Proofs.Files.Clearing
import OtaAgent.Proofs.Files.Renewing
import OtaAgent.Proofs.Archive.History
import OtaAgent.Proofs.Archive.Steps
import OtaAgent.Proofs.Archive.Record
import OtaAgent.Proofs.Archive.Effects
import OtaAgent.Proofs.Archive.Reading
import OtaAgent.Proofs.Archive.Refinement
import OtaAgent.Proofs.Archive.Isolation
import OtaAgent.Proofs.Archive.Refusing
import OtaAgent.Proofs.Archive.Checksums
import OtaAgent.Proofs.Archive.Keeping
import OtaAgent.Proofs.Archive.Confinement
import OtaAgent.Proofs.Archive.Atomicity
import OtaAgent.Proofs.Archive.Reinstating
import OtaAgent.Proofs.Archive.Receipts
import OtaAgent.Proofs.Advertising
import OtaAgent.Proofs.Correspondence
import OtaAgent.Proofs.Archive.Renamed
import OtaAgent.Proofs.Shelves
import OtaAgent.Proofs.Bench.Preparing
import OtaAgent.Proofs.Bench.Confinement
import OtaAgent.Proofs.Bench.Sparing
import OtaAgent.Proofs.Bench.Repeating
import OtaAgent.Proofs.Delivery.Fetching
import OtaAgent.Proofs.Delivery.Mirroring
import OtaAgent.Proofs.Course.Ensures
import OtaAgent.Proofs.Course.Staging
import OtaAgent.Proofs.Course.Installing
import OtaAgent.Proofs.Course.Dealing
import OtaAgent.Proofs.Course.Reachable
import OtaAgent.Proofs.Course.CallOrder
import OtaAgent.Proofs.Course.Histories
import OtaAgent.Proofs.Course.Coupled
import OtaAgent.Proofs.Course.Twin
import OtaAgent.Proofs.Course.Faults
import OtaAgent.Proofs.Course.Suggestions
import OtaAgent.Proofs.Course.Checksums
import OtaAgent.Proofs.Course.Completing
import OtaAgent.Proofs.Course.Conclusions
import OtaAgent.Proofs.Course.Announcing
import OtaAgent.Proofs.Course.Departing
import OtaAgent.Proofs.Course.Superseding
import OtaAgent.Proofs.Course.Housekeeping
import OtaAgent.Proofs.Course.TwoPhase
import OtaAgent.Proofs.Course.Corresponding
import OtaAgent.Proofs.Course.Renamed
import OtaAgent.Proofs.Course.RenamedEvents
import OtaAgent.Proofs.Course.Opacity
import OtaAgent.Proofs.Course.Availability
import OtaAgent.Proofs.Course.FallingBack
import OtaAgent.Proofs.Course.Advertised
import OtaAgent.Proofs.Session.Coupled
import OtaAgent.Proofs.Journal.Sealing
import OtaAgent.Proofs.Session.Refusals
import OtaAgent.Proofs.Session.Serving
import OtaAgent.Proofs.Session.Sealing
import OtaAgent.Proofs.Session.Traffic
import OtaAgent.Proofs.Session.Intercepting
import OtaAgent.Proofs.Wire.Layout
import OtaAgent.Proofs.Wire.Messages
import OtaAgent.Proofs.Endpoint
import OtaAgent.Proofs.Link
