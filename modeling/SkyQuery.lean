import SkyQuery.Config
import SkyQuery.Operand.Edit
import SkyQuery.Pipeline
import SkyQuery.Proofs.Double.Rounding
import SkyQuery.Proofs.Double.Text
import SkyQuery.Proofs.Region.Stcs
import SkyQuery.Proofs.Region.RoundTrip
import SkyQuery.Proofs.Preorder
import SkyQuery.Proofs.Gating
import SkyQuery.Proofs.Sql.Lexical
import SkyQuery.Proofs.Sql.Recovery
import SkyQuery.Proofs.Dialect.Lowered
import SkyQuery.Proofs.Dialect.Readable
import SkyQuery.Proofs.Dialect.UniqueReading
import SkyQuery.Proofs.Lexeme
import SkyQuery.Proofs.Sql.Lexemes
import SkyQuery.Proofs.Sql.Worded
import SkyQuery.Proofs.Sql.Statements
import SkyQuery.Proofs.Dialect.Worded
import SkyQuery.Proofs.Dialect.Vocabulary
import SkyQuery.Proofs.Dialect.Quotation
import SkyQuery.Proofs.Dialect.Comments
import SkyQuery.Proofs.Brackets
import SkyQuery.Proofs.Formula
import SkyQuery.Proofs.Condition.Meaning
import SkyQuery.Proofs.Sql.Shape
import SkyQuery.Proofs.Dialect.Meaning
import SkyQuery.Proofs.Operand.Grammar
import SkyQuery.Proofs.Operand.Reread
import SkyQuery.Proofs.Region.PgSphere
import SkyQuery.Proofs.Region.Decoding
import SkyQuery.Proofs.Dialect.Integers
import SkyQuery.Proofs.Sql.JoinTree
import SkyQuery.Proofs.Sql.Joins
import SkyQuery.Proofs.Dialect.Joins
import SkyQuery.Proofs.Region.Wkt
import SkyQuery.Proofs.CoreFeatures
import SkyQuery.Proofs.Placeholders
import SkyQuery.Proofs.Dialect.Faults
import SkyQuery.Proofs.Dialect.Success
import SkyQuery.Proofs.FeatureKeys
import SkyQuery.Proofs.Config.Declarations
import SkyQuery.Proofs.Config.Features
import SkyQuery.Proofs.Config.Functions
import SkyQuery.Proofs.Config.Paging
import SkyQuery.Proofs.Lowercase
import SkyQuery.Proofs.CallNames
import SkyQuery.Proofs.Sql.Subexpressions
import SkyQuery.Proofs.Dialect.Shown
import SkyQuery.Proofs.Dialect.Labels
import SkyQuery.Proofs.Dialect.Places
import SkyQuery.Proofs.Operand.Signs
import SkyQuery.Proofs.Dialect.OperatorRuns
import SkyQuery.Proofs.Dialect.PostgresOperators
import SkyQuery.Proofs.Signature.Spelling
import SkyQuery.Proofs.Signature.RoundTrip
import SkyQuery.Proofs.Substitution
import SkyQuery.Proofs.OwnPattern
import SkyQuery.Proofs.WithoutOwnPatterns
import SkyQuery.Proofs.Dialect.Alike
import SkyQuery.Proofs.Dialect.OwnPatterns
import SkyQuery.Proofs.Dialect.RegionPoints
import SkyQuery.Proofs.Double.Spelling
import SkyQuery.Proofs.Region.Spelling
import SkyQuery.Proofs.Region.FirstFault
import SkyQuery.Proofs.ReaderLayout
import SkyQuery.Proofs.Region.Layout
import SkyQuery.Proofs.SettledText
import SkyQuery.Proofs.Dialect.Expansions
import SkyQuery.Proofs.Operand.Hexadecimal
import SkyQuery.Proofs.Operand.GeometryArgument
import SkyQuery.Proofs.Dialect.Affinity
import SkyQuery.Proofs.Dialect.Copies
