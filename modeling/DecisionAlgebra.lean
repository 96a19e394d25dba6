import DecisionAlgebra.Environment
import DecisionAlgebra.Algebra.Operators
import DecisionAlgebra.Algebra.Simplify
import DecisionAlgebra.Calculus.Derivative
import DecisionAlgebra.Calculus.Evaluation
import DecisionAlgebra.Calculus.Power
import DecisionAlgebra.Calculus.Substitution
import DecisionAlgebra.Constraint.Comparison
import DecisionAlgebra.Dense
import DecisionAlgebra.Json.Reader
import DecisionAlgebra.Json.Writer
import DecisionAlgebra.Linear.Implication
import DecisionAlgebra.Linear.Representation
import DecisionAlgebra.Logging.Config
import DecisionAlgebra.Serial.Constraint
import DecisionAlgebra.Proofs.Exponents
import DecisionAlgebra.Proofs.ExactTotals
import DecisionAlgebra.Proofs.Sequencing
import DecisionAlgebra.Proofs.Contracts
import DecisionAlgebra.Proofs.WellFormed
import DecisionAlgebra.Proofs.LikeTerms
import DecisionAlgebra.Proofs.Meaning
import DecisionAlgebra.Proofs.ExactMeaning
import DecisionAlgebra.Proofs.Closure
import DecisionAlgebra.Proofs.Evaluation
import DecisionAlgebra.Proofs.Operators
import DecisionAlgebra.Proofs.Substitution
import DecisionAlgebra.Proofs.Derivative
import DecisionAlgebra.Proofs.NormalForm
import DecisionAlgebra.Proofs.Linear.Difference
import DecisionAlgebra.Proofs.Linear.Coefficients
import DecisionAlgebra.Proofs.Constraints
import DecisionAlgebra.Proofs.Linear.Extraction
import DecisionAlgebra.Proofs.Linear.Representation
import DecisionAlgebra.Proofs.Linear.Implication
import DecisionAlgebra.Proofs.Validity
import DecisionAlgebra.Proofs.Places
import DecisionAlgebra.Proofs.Rows
import DecisionAlgebra.Proofs.InBounds
import DecisionAlgebra.Proofs.Linear.Simplified
import DecisionAlgebra.Proofs.CappedPowers
import DecisionAlgebra.Proofs.Assigned
import DecisionAlgebra.Proofs.Serial.Fields
import DecisionAlgebra.Proofs.Serial.RoundTrip
import DecisionAlgebra.Proofs.Refusals
import DecisionAlgebra.Proofs.Serial.Bounds
import DecisionAlgebra.Proofs.Products
import DecisionAlgebra.Proofs.RecordedShapes
import DecisionAlgebra.Proofs.EventLog
import DecisionAlgebra.Proofs.Families
import DecisionAlgebra.Proofs.Simplification
import DecisionAlgebra.Proofs.Linear.Reconstruction
import DecisionAlgebra.Proofs.Linear.Stacking
import DecisionAlgebra.Proofs.Rendering.Unambiguous
import DecisionAlgebra.Proofs.ExponentSets
import DecisionAlgebra.Proofs.Powers
import DecisionAlgebra.Proofs.Degrees
import DecisionAlgebra.Proofs.Sources
import DecisionAlgebra.Proofs.MixedDerivatives
import DecisionAlgebra.Proofs.Elementwise
import DecisionAlgebra.Proofs.Negation
import DecisionAlgebra.Proofs.ConstraintElements
import DecisionAlgebra.Proofs.Satisfaction
import DecisionAlgebra.Proofs.RowReports
import DecisionAlgebra.Proofs.Transposition
import DecisionAlgebra.Proofs.DenseConversions
import DecisionAlgebra.Proofs.Listing
import DecisionAlgebra.Proofs.Allocation
import DecisionAlgebra.Proofs.Promotion
import DecisionAlgebra.Proofs.Signatures
