import SelectAlgebra.Main
import SelectAlgebra.Proofs.Command.OneShot
import SelectAlgebra.Proofs.Command.Transcript
import SelectAlgebra.Proofs.Comment.Escaped
import SelectAlgebra.Proofs.Config.Lookup
import SelectAlgebra.Proofs.Config.Written
import SelectAlgebra.Proofs.Expr.Condition
import SelectAlgebra.Proofs.Expr.Layout
import SelectAlgebra.Proofs.Query.FirstStatement
import SelectAlgebra.Proofs.Query.ImplicitAlias
import SelectAlgebra.Proofs.Query.JsonForms
import SelectAlgebra.Proofs.Query.Legend
import SelectAlgebra.Proofs.Query.LetterCase
import SelectAlgebra.Proofs.Query.Opacity
import SelectAlgebra.Proofs.Query.SelectForms
import SelectAlgebra.Proofs.Query.SortKeys
import SelectAlgebra.Proofs.Statement.Division
