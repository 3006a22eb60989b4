import FilterEncoding.Chars.Blank
import FilterEncoding.Chars.Cut
import FilterEncoding.Chars.Letters
import FilterEncoding.Chars.Ranges
import FilterEncoding.Crs
import FilterEncoding.Distance
import FilterEncoding.Expression.Common
import FilterEncoding.Expression.Compile
import FilterEncoding.Expression.Dialect
import FilterEncoding.Expression.Language
import FilterEncoding.Expression.Mapserver
import FilterEncoding.Expression.Sql
import FilterEncoding.Expression.Test
import FilterEncoding.FeatureIdRequest
import FilterEncoding.FilterParameter
import FilterEncoding.Geometry.Bounds
import FilterEncoding.Geometry.Engine
import FilterEncoding.Geometry.Rectangle
import FilterEncoding.Geometry.Shape
import FilterEncoding.Geometry.WellKnownText
import FilterEncoding.Gml.Box
import FilterEncoding.Gml.Fault
import FilterEncoding.Gml.Positions
import FilterEncoding.Gml.Shape
import FilterEncoding.Layer.Basic
import FilterEncoding.Layer.FieldType
import FilterEncoding.Layer.Schema
import FilterEncoding.LayerFilter
import FilterEncoding.Like.Folding
import FilterEncoding.Like.Pattern
import FilterEncoding.Like.Regex
import FilterEncoding.Number.Digits
import FilterEncoding.Number.Numeral
import FilterEncoding.Number.Numeric
import FilterEncoding.Number.Positional
import FilterEncoding.Number.Shortest
import FilterEncoding.Plan
import FilterEncoding.Predicate.Basic
import FilterEncoding.Predicate.Boxes
import FilterEncoding.Predicate.Checks
import FilterEncoding.Predicate.Document
import FilterEncoding.Predicate.Element
import FilterEncoding.Predicate.FeatureId
import FilterEncoding.Predicate.Names
import FilterEncoding.Predicate.Operator
import FilterEncoding.Text
import FilterEncoding.Xml.CharData
import FilterEncoding.Xml.Character
import FilterEncoding.Xml.Document
import FilterEncoding.Xml.Node
import FilterEncoding.Xml.Scope
import FilterEncoding.Xml.Segment
import FilterEncoding.Xml.Tag
import FilterEncoding.Xml.Unprefixed
import FilterEncoding.Proofs.Common.Containment
import FilterEncoding.Proofs.Common.Like
import FilterEncoding.Proofs.Expression.BareValues
import FilterEncoding.Proofs.Expression.Expressible
import FilterEncoding.Proofs.Expression.Expressing
import FilterEncoding.Proofs.FeatureId.Document
import FilterEncoding.Proofs.FeatureId.Grouping
import FilterEncoding.Proofs.FeatureId.Groups
import FilterEncoding.Proofs.FeatureId.LayerNames
import FilterEncoding.Proofs.FilterParameter.Documents
import FilterEncoding.Proofs.FilterParameter.Recovery
import FilterEncoding.Proofs.FilterParameter.Sections
import FilterEncoding.Proofs.Gml.AxisOrder
import FilterEncoding.Proofs.Gml.Figures
import FilterEncoding.Proofs.Gml.Members
import FilterEncoding.Proofs.Gml.Pieces
import FilterEncoding.Proofs.Layer.Declarations
import FilterEncoding.Proofs.LayerFilter
import FilterEncoding.Proofs.Like.Cut
import FilterEncoding.Proofs.Like.RegularExpression
import FilterEncoding.Proofs.Like.SameTexts
import FilterEncoding.Proofs.Like.Tokens
import FilterEncoding.Proofs.Mapserver.Containment
import FilterEncoding.Proofs.Mapserver.Like
import FilterEncoding.Proofs.Number.LongestNumber
import FilterEncoding.Proofs.Plan.Equivalence
import FilterEncoding.Proofs.Plan.Request
import FilterEncoding.Proofs.Predicate.Classification
import FilterEncoding.Proofs.Predicate.Comments
import FilterEncoding.Proofs.Predicate.Failures
import FilterEncoding.Proofs.Predicate.Operands
import FilterEncoding.Proofs.Predicate.PropertyNames
import FilterEncoding.Proofs.Predicate.Renaming
import FilterEncoding.Proofs.Predicate.Spelling
import FilterEncoding.Proofs.Reading.Literal
import FilterEncoding.Proofs.Sql.Draft
import FilterEncoding.Proofs.Sql.Like
import FilterEncoding.Proofs.Sql.Quoting
import FilterEncoding.Proofs.Xml.Sections
