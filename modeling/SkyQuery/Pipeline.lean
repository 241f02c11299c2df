import SkyQuery.Dialect.Lowering
import SkyQuery.Validation

/-!
# From query text to SQL text

The reader of query text is given from outside.
-/

namespace SkyQuery

/-- Reads a query, checks it against the enabled features and writes it in a dialect. -/
def sqlOfText (read : String → Except Error Query) (enabled : FeatureSet) (d : Dialect)
    (text : String) : Except Error String := do
  let q ← read text
  Validation.check (.query q) enabled
  d.queryText q

end SkyQuery
