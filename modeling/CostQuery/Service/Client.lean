import CostQuery.Pipeline.Basic
import CostQuery.Plan.Analyze
import CostQuery.Plan.Fault
import CostQuery.Record.Cell
import CostQuery.Service.Failure

/-! Collaborators of the service, and why a call to it fails. -/

namespace CostQuery

/-- A document store that runs pipelines. -/
structure DocumentClient (m : Type → Type) where
  connect : m (Outcome Unit)
  disconnect : m Unit
  aggregate (collection : String) (stages : List Pipeline.Stage) : m (Outcome (List Json))

/-- A warehouse that runs SQL text. -/
structure SqlClient (m : Type → Type) where
  connect : m (Outcome Unit)
  disconnect : m Unit
  query (sql : String) : m (Outcome (List Row))

/-- The groups that projects belong to, in pairs of project and group. -/
structure Directory (m : Type → Type) where
  projectGroups : m (Outcome (List (String × String)))

inductive Collaborator where
  | documents
  | sql
  | directory

def Collaborator.name : Collaborator → String
  | .documents => "document client"
  | .sql => "sql client"
  | .directory => "directory service"

inductive ServiceFault where
  | request (fault : RequestFault)
  | plan (fault : PlanFault)
  | compile (fault : CompileFault)
  | backend (failure : Failure)
  | notOpen
  | unconfigured (collaborator : Collaborator)

def ServiceFault.message : ServiceFault → String
  | .request fault => fault.message
  | .plan fault => fault.message
  | .compile fault => fault.message
  | .backend failure => failure.message
  | .notOpen => "service is not open"
  | .unconfigured collaborator => "no " ++ collaborator.name ++ " configured"

abbrev Served := Except ServiceFault

end CostQuery
