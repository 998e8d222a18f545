import CppEmission.Units
import CppEmission.Proofs.Grammar.Derivation
import CppEmission.Proofs.Grammar.Unambiguous
import CppEmission.Proofs.Phrase.Reading
import CppEmission.Proofs.Dependency
import CppEmission.Proofs.Units.Script
import CppEmission.Proofs.Units.Steady
import CppEmission.Proofs.Declaration.Head
import CppEmission.Proofs.Units.Outline
import CppEmission.Proofs.Units.Agreement
import CppEmission.Proofs.Units.Page
import CppEmission.Proofs.Stmt.Balance
import CppEmission.Proofs.Spelling
import CppEmission.Proofs.Spelling.Borrow
import CppEmission.Proofs.Inline.Phrase
import CppEmission.Proofs.Stmt.Recovery
import CppEmission.Proofs.Acceptance.Program
import CppEmission.Proofs.Units.Resource
import CppEmission.Proofs.Surface.Reading
import CppEmission.Proofs.Header.Inclusion
import CppEmission.Proofs.Quoted
import CppEmission.Proofs.Units.Label
import CppEmission.Proofs.Units.Shown
import CppEmission.Proofs.Location.Site
import CppEmission.Proofs.Naming.Units
import CppEmission.Proofs.Phrase.Parent
import CppEmission.Proofs.Stmt.Stripped
import CppEmission.Proofs.Stmt.Lowered
import CppEmission.Proofs.Stmt.Branch
import CppEmission.Proofs.Conversion.Pointer
import CppEmission.Proofs.Conversion.Shape
import CppEmission.Proofs.Conversion.OwnedString
import CppEmission.Proofs.Dependency.Stable
import CppEmission.Proofs.Dialect
import CppEmission.Proofs.Location.Field
import CppEmission.Proofs.Location.Expr
import CppEmission.Proofs.Declaration.Bytes
import CppEmission.Proofs.Naming.Resource
import CppEmission.Proofs.Naming.Distinct
import CppEmission.Proofs.Writer.Nesting
import CppEmission.Proofs.Declaration.Integer
import CppEmission.Proofs.Stmt.Labelled
