import CostQuery.Pipeline.Compile
import CostQuery.Plan.Search
import CostQuery.Query.Validate
import CostQuery.Service.Client
import CostQuery.Sql.Search
import CostQuery.Sql.Text

/-! What a request comes to before any collaborator is called. -/

namespace CostQuery

def Request.analyzePlan (s : Settings) (r : Request) : Served AnalyzePlan := do
  let query ← (AnalyzeQuery.ofRequest s.warehouse.limits r).mapError .request
  (AnalyzePlan.ofQuery query).mapError .plan

def Request.pipeline (s : Settings) (r : Request) :
    Served (AnalyzePlan × List Pipeline.Stage) := do
  let plan ← r.analyzePlan s
  return (plan, ← (Pipeline.ofPlan s.warehouse plan).mapError .compile)

def Request.analyzeSql (s : Settings) (r : Request) : Served (AnalyzePlan × String) := do
  let plan ← r.analyzePlan s
  let statement ← (Sql.Statement.ofAnalyzePlan s.warehouse plan).mapError .compile
  return (plan, statement.text)

def Request.searchSql (s : Settings) (r : Request) : Served (SearchPlan × String) := do
  let query ← (SearchQuery.ofRequest r).mapError .request
  let plan := SearchPlan.ofQuery s.warehouse query
  let statement ← (Sql.Statement.ofSearchPlan s.warehouse plan).mapError .compile
  return (plan, statement.text)

end CostQuery
