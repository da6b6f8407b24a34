import BlockScript.Main
import BlockScript.Proofs.Annotation
import BlockScript.Proofs.Answers
import BlockScript.Proofs.Buildability
import BlockScript.Proofs.Culprits
import BlockScript.Proofs.Declarations
import BlockScript.Proofs.FieldChains
import BlockScript.Proofs.FreePaths
import BlockScript.Proofs.Inscription
import BlockScript.Proofs.Interleaving
import BlockScript.Proofs.Jumps
import BlockScript.Proofs.Linking
import BlockScript.Proofs.LocalVariables
import BlockScript.Proofs.LoopVariables
import BlockScript.Proofs.ManifestSafety
import BlockScript.Proofs.Naming
import BlockScript.Proofs.NumeralValues
import BlockScript.Proofs.OnlyYields
import BlockScript.Proofs.Placeholders
import BlockScript.Proofs.Quoting
import BlockScript.Proofs.RawBlocks
import BlockScript.Proofs.Repetition
import BlockScript.Proofs.Suspension
import BlockScript.Proofs.Totality
import BlockScript.Proofs.TrailingAssignment
import BlockScript.Proofs.Yielding
import BlockScript.Web
