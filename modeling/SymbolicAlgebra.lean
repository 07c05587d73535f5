import SymbolicAlgebra.Expr.Same
import SymbolicAlgebra.Proofs.CallExpansion
import SymbolicAlgebra.Proofs.DemandedNodes
import SymbolicAlgebra.Proofs.DerivativeMeaning
import SymbolicAlgebra.Proofs.DerivativeTermination
import SymbolicAlgebra.Proofs.DerivativeTypes
import SymbolicAlgebra.Proofs.DescentProgress
import SymbolicAlgebra.Proofs.DivisorWords
import SymbolicAlgebra.Proofs.EdgeLiterals
import SymbolicAlgebra.Proofs.ElementwiseDerivative
import SymbolicAlgebra.Proofs.InlinedDerivative
import SymbolicAlgebra.Proofs.InstantiatedTargets
import SymbolicAlgebra.Proofs.IntegerSpellings
import SymbolicAlgebra.Proofs.MentionedSymbols
import SymbolicAlgebra.Proofs.ProductSigns
import SymbolicAlgebra.Proofs.RectangularLiteral
import SymbolicAlgebra.Proofs.Redex
import SymbolicAlgebra.Proofs.ScannerSafety
import SymbolicAlgebra.Proofs.SimplifyMeaning
import SymbolicAlgebra.Proofs.SimplifyTermination
import SymbolicAlgebra.Proofs.SimplifyTypes
import SymbolicAlgebra.Proofs.StructuralEquality
import SymbolicAlgebra.Proofs.SubstitutionLaws
import SymbolicAlgebra.Proofs.SubstitutionTypes
import SymbolicAlgebra.Proofs.TwoTables
import SymbolicAlgebra.Proofs.TypeRefinement
import SymbolicAlgebra.Proofs.UnitTokens
import SymbolicAlgebra.Proofs.VanishingLiterals
import SymbolicAlgebra.Proofs.WellFormed
import SymbolicAlgebra.Scalar.SignedFloat
import SymbolicAlgebra.Worksheet
