import TraceWeave.Integration.Template
import TraceWeave.LogStyle
import TraceWeave.Main
import TraceWeave.Proofs.HandlePlan
import TraceWeave.Proofs.Go.Reading
import TraceWeave.Proofs.Go.Types
import TraceWeave.Proofs.Go.Expressions
import TraceWeave.Proofs.Go.Statements
import TraceWeave.Proofs.Go.Items
import TraceWeave.Proofs.Go.Tokens
import TraceWeave.Proofs.Go.Comments
import TraceWeave.Proofs.Edit
import TraceWeave.Proofs.Evolution
import TraceWeave.Proofs.Go.Places
import TraceWeave.Proofs.Insertion
import TraceWeave.Proofs.HandleEdits
import TraceWeave.Proofs.Handover
import TraceWeave.Proofs.Seeds
import TraceWeave.Proofs.HandleUse
import TraceWeave.Proofs.Ink
import TraceWeave.Proofs.HandleRest
import TraceWeave.Proofs.InjectRest
import TraceWeave.Proofs.Standstill
import TraceWeave.Proofs.Agent
import TraceWeave.Proofs.Barrier
import TraceWeave.Proofs.Go.Lexemes
import TraceWeave.Proofs.Leaves
import TraceWeave.Proofs.Patch
import TraceWeave.Proofs.TestFiles
import TraceWeave.Proofs.NilArgument
import TraceWeave.Proofs.Qualifiers
import TraceWeave.Proofs.Disk
import TraceWeave.Proofs.FileHistory
import TraceWeave.Proofs.Delivery
import TraceWeave.Proofs.InjectFates
import TraceWeave.Proofs.Widening
import TraceWeave.Proofs.Splice
import TraceWeave.Proofs.Unmatched
import TraceWeave.Proofs.StaleNames
import TraceWeave.Proofs.Variants
import TraceWeave.Proofs.Positions
import TraceWeave.Proofs.HandleAgain
import TraceWeave.Proofs.Scopes
import TraceWeave.Proofs.Shadowing
import TraceWeave.Proofs.PackageCalls
import TraceWeave.Proofs.HandleOrder
import TraceWeave.Proofs.StatementOrder
import TraceWeave.Proofs.FunctionNames
import TraceWeave.Proofs.RequiredModules
import TraceWeave.Proofs.ImportInk
import TraceWeave.Proofs.ImportLayout
import TraceWeave.Proofs.HandleCreation
import TraceWeave.Proofs.ModuleFile
import TraceWeave.Proofs.Loading
import TraceWeave.Proofs.PackagePatterns
import TraceWeave.Proofs.Go.Walk
import TraceWeave.Proofs.LineReplay
import TraceWeave.Proofs.AcceptedNames
import TraceWeave.Proofs.Rerun
