import MarkupCompiler.Compile
import MarkupCompiler.Tree.Position
import MarkupCompiler.Tree.Same
import MarkupCompiler.Proofs.Collisions
import MarkupCompiler.Proofs.Composition
import MarkupCompiler.Proofs.Display.RoundTrip
import MarkupCompiler.Proofs.Lowering.Idempotence
import MarkupCompiler.Proofs.Resolution.Reach
import MarkupCompiler.Proofs.TextOutput
import MarkupCompiler.Proofs.DocumentOrder
import MarkupCompiler.Proofs.Helpers
import MarkupCompiler.Proofs.Targets
import MarkupCompiler.Proofs.Display.Operations
import MarkupCompiler.Proofs.Display.Chain
import MarkupCompiler.Proofs.Display.Markup
import MarkupCompiler.Proofs.Resolution.Extension
import MarkupCompiler.Proofs.Spans.Compilation
import MarkupCompiler.Proofs.StaticText
import MarkupCompiler.Proofs.NormalForm
import MarkupCompiler.Proofs.Grouping
import MarkupCompiler.Proofs.Resolution.Extraction
import MarkupCompiler.Proofs.Resolution.Validation
import MarkupCompiler.Proofs.Transcript
import MarkupCompiler.Proofs.ClassList
import MarkupCompiler.Proofs.StyleText
import MarkupCompiler.Proofs.Number.Layout
import MarkupCompiler.Proofs.Resolution.Guard
import MarkupCompiler.Proofs.StyleKeys
import MarkupCompiler.Proofs.LastingNames
import MarkupCompiler.Proofs.Locations
import MarkupCompiler.Proofs.Slices
import MarkupCompiler.Proofs.Windows
import MarkupCompiler.Proofs.Json.Grammar
import MarkupCompiler.Proofs.Configuration
import MarkupCompiler.Proofs.EventNames
