import Covenant.Class.Stock
import Covenant.Report.Contract
import Covenant.Report.Signature
import Covenant.Session
import Covenant.Proofs.Inference
import Covenant.Proofs.Checking
import Covenant.Proofs.ArrayRules
import Covenant.Proofs.Conformance
import Covenant.Proofs.Blame
import Covenant.Proofs.Registries
import Covenant.Proofs.RegistryRuns
import Covenant.Proofs.Rendering
import Covenant.Proofs.TypeGrammar
import Covenant.Proofs.Screening
import Covenant.Proofs.ClauseGrammar
import Covenant.Proofs.Grammar
import Covenant.Proofs.RoundTrip
import Covenant.Proofs.Projections
import Covenant.Proofs.Slices
import Covenant.Proofs.Lines
import Covenant.Proofs.Places
import Covenant.Proofs.Refusals
import Covenant.Proofs.Reports
import Covenant.Proofs.FirstFaults
import Covenant.Proofs.Leaves
import Covenant.Proofs.Precedence
import Covenant.Proofs.ScreenedReading
import Covenant.Proofs.Translation
import Covenant.Proofs.Lexing
import Covenant.Proofs.TypePlaces
import Covenant.Proofs.Labels
import Covenant.Proofs.Renaming
import Covenant.Proofs.Precision
import Covenant.Proofs.Similarity
import Covenant.Proofs.Equality
import Covenant.Proofs.Coordinates
import Covenant.Proofs.EditScripts
import Covenant.Proofs.Snippets
import Covenant.Proofs.MissingClasses
import Covenant.Proofs.CursorRuns
