import CostQuery.Query.CacheKey
import CostQuery.Pipeline.Text
import CostQuery.Service.Basic
import CostQuery.Document.Source
import CostQuery.Request.Document
import CostQuery.Proofs.Sql.Pruning
import CostQuery.Proofs.Filter.Agreement
import CostQuery.Proofs.Calendar.Cover
import CostQuery.Proofs.Record.Paging
import CostQuery.Proofs.Plan.FacetTotals
import CostQuery.Proofs.Sql.Quoting
import CostQuery.Proofs.Sql.Compile
import CostQuery.Proofs.Record.Ordering
import CostQuery.Proofs.Pipeline.Documents
import CostQuery.Proofs.Plan.FacetKeys
import CostQuery.Proofs.Filter.Conditions
import CostQuery.Proofs.Select.Agreement
import CostQuery.Proofs.Store.Missing
import CostQuery.Proofs.Pipeline.Columns
import CostQuery.Proofs.Sql.Columns
import CostQuery.Proofs.Record.Columns
import CostQuery.Proofs.Filter.Alternatives
import CostQuery.Proofs.Query.CacheKey
import CostQuery.Proofs.Pipeline.References
import CostQuery.Proofs.Record.TotalCount
import CostQuery.Proofs.Service.Lifecycle
import CostQuery.Proofs.Record.Documents
import CostQuery.Proofs.Record.DisplayNames
import CostQuery.Proofs.Record.Rollup
import CostQuery.Proofs.Plan.Window
import CostQuery.Proofs.Plan.Recorded
import CostQuery.Proofs.Sql.Items
import CostQuery.Proofs.Record.SearchColumns
import CostQuery.Proofs.Filter.Dated
import CostQuery.Proofs.Service.Attempts
import CostQuery.Proofs.Sql.BilledPeriod
import CostQuery.Proofs.Json.Quotes
import CostQuery.Proofs.Record.Agreement
import CostQuery.Proofs.Record.Slots
import CostQuery.Proofs.Record.Pages
import CostQuery.Proofs.Record.Unwrapped
import CostQuery.Proofs.Filter.Moments
import CostQuery.Proofs.Sql.Like
import CostQuery.Proofs.Plan.FirstClaims
import CostQuery.Proofs.Plan.Strays
import CostQuery.Proofs.Sql.Conditions
import CostQuery.Proofs.Query.Literals
import CostQuery.Proofs.Service.Delays
