import CostQuery.Record.Result
import CostQuery.Record.Rollup
import CostQuery.Service.Prepare
import CostQuery.Service.Retry

/-! The service: requests run against collaborators, which are connected and disconnected with
it. -/

namespace CostQuery

structure Service (m : Type → Type) where
  settings : Settings
  documents : Option (DocumentClient m) := none
  sql : Option (SqlClient m) := none
  directory : Option (Directory m) := none
  /-- Waits for some milliseconds. -/
  pause : Nat → m Unit
  isOpen : Bool := false

namespace Service

variable {m : Type → Type} [Monad m] {α : Type}

def connectDocuments (s : Service m) : m (Outcome Unit) :=
  match s.documents with
  | some client => client.connect
  | none => return .ok ()

def connectSql (s : Service m) : m (Outcome Unit) :=
  match s.sql with
  | some client => client.connect
  | none => return .ok ()

def disconnectDocuments (s : Service m) : m Unit :=
  match s.documents with
  | some client => client.disconnect
  | none => return ()

def disconnectSql (s : Service m) : m Unit :=
  match s.sql with
  | some client => client.disconnect
  | none => return ()

/-- Every client is connected, or none is left so. An open service stays as it is. -/
def connect (s : Service m) : m (Served Unit × Service m) := do
  if s.isOpen then return (.ok (), s)
  match ← s.connectDocuments with
  | .error failure => return (.error (.backend failure), s)
  | .ok () =>
    match ← s.connectSql with
    | .error failure =>
      s.disconnectDocuments
      return (.error (.backend failure), s)
    | .ok () => return (.ok (), { s with isOpen := true })

/-- The last to be connected is the first to be disconnected. -/
def disconnect (s : Service m) : m (Service m) := do
  if s.isOpen then
    s.disconnectSql
    s.disconnectDocuments
    return { s with isOpen := false }
  else return s

def retried (s : Service m) (call : m (Outcome α)) : ExceptT ServiceFault m α := ExceptT.mk do
  let outcome ← (RetryPolicy.ofSettings s.settings.retry).run s.pause call
  return outcome.mapError .backend

def ensureOpen (s : Service m) : ExceptT ServiceFault m Unit :=
  if s.isOpen then return () else throw .notOpen

def configured (collaborator : Collaborator) : Option α → ExceptT ServiceFault m α
  | some a => return a
  | none => throw (.unconfigured collaborator)

/-- The client is asked for before the request is looked at. -/
def analyzeDocuments (s : Service m) (r : Request) : ExceptT ServiceFault m AnalyzeResult := do
  s.ensureOpen
  let client ← configured .documents s.documents
  let (plan, stages) ← ofExcept (r.pipeline s.settings)
  let rows ← s.retried (client.aggregate s.settings.warehouse.table stages)
  return plan.result (Record.ofDocuments rows)

def runSql (s : Service m) (sql : String) : ExceptT ServiceFault m (List Record) := do
  let client ← configured .sql s.sql
  return Record.ofRows (← s.retried (client.query sql))

/-- The client is asked for once the statement is written. -/
def analyzeSql (s : Service m) (r : Request) : ExceptT ServiceFault m AnalyzeResult := do
  s.ensureOpen
  let (plan, sql) ← ofExcept (r.analyzeSql s.settings)
  return plan.result (← s.runSql sql)

def searchSql (s : Service m) (r : Request) : ExceptT ServiceFault m SearchOutcome := do
  s.ensureOpen
  let (plan, sql) ← ofExcept (r.searchSql s.settings)
  return plan.outcome (← s.runSql sql)

/-- Records of projects under the groups that the projects belong to. -/
def rollup (s : Service m) (rows : List Record) (dimension : String)
    (valueFields : List String) : ExceptT ServiceFault m (List Record) := do
  let directory ← configured .directory s.directory
  let groups ← s.retried directory.projectGroups
  return Record.rollup rows dimension "project_group_id" (Members.collect groups) valueFields

end Service
end CostQuery
