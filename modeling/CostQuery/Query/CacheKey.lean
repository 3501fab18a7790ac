import CostQuery.Digest
import CostQuery.Query.Text

/-! Keys under which callers may keep results. -/

namespace CostQuery

/-- The text that tells a query from all others: its kind and its exchange form. -/
def AnalyzeQuery.cacheText (q : AnalyzeQuery) : String := "analyze" ++ q.toJson.text

def SearchQuery.cacheText (q : SearchQuery) : String := "search" ++ q.toJson.text

def AnalyzeQuery.cacheKey (q : AnalyzeQuery) : String := Digest.hexOfText q.cacheText

def SearchQuery.cacheKey (q : SearchQuery) : String := Digest.hexOfText q.cacheText

end CostQuery
