import FormSchema.Assist.Command
import FormSchema.Contract.Diagnostics
import FormSchema.Datum.Key
import FormSchema.Datum.Plain
import FormSchema.Main
import FormSchema.Proofs.Assist.LookAhead
import FormSchema.Proofs.Assist.Session
import FormSchema.Proofs.Assist.Shaping
import FormSchema.Proofs.CommandLine.DefaultMode
import FormSchema.Proofs.CommandLine.DryRun
import FormSchema.Proofs.CommandLine.Findings
import FormSchema.Proofs.CommandLine.Insertion
import FormSchema.Proofs.Datum.Canonical
import FormSchema.Proofs.Datum.Closure
import FormSchema.Proofs.Datum.Order
import FormSchema.Proofs.Disk.Discovery
import FormSchema.Proofs.Disk.Documents
import FormSchema.Proofs.Disk.Places
import FormSchema.Proofs.Engine.Anchored
import FormSchema.Proofs.Engine.Bounds
import FormSchema.Proofs.Engine.Isolation
import FormSchema.Proofs.Engine.KeyLines
import FormSchema.Proofs.Engine.LineEnds
import FormSchema.Proofs.Engine.Outline
import FormSchema.Proofs.Engine.Publication
import FormSchema.Proofs.Engine.Rejection
import FormSchema.Proofs.Engine.Unescaped
import FormSchema.Proofs.Json.Meaning
import FormSchema.Proofs.Json.Settled
import FormSchema.Proofs.Recognition
import FormSchema.Proofs.Report
import FormSchema.Proofs.RuleRegistry
import FormSchema.Proofs.Surfaces
import FormSchema.Proofs.Traversal
import FormSchema.RuleRegistry
import FormSchema.Service.Application
