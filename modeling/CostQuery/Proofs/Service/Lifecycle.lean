import CostQuery.Proofs.Service.Calls

/-! A service connects its clients when it opens and disconnects them when it closes. Whatever the
clients answer, none is left connected, and none runs anything while it is not. -/

namespace CostQuery

/-- How collaborators answer, by the calls that were made before: any call may fail, and the same
call may be answered otherwise when it comes again. -/
structure Backend where
  connect : ClientKind → CallLog → Outcome Unit
  aggregate : CallLog → String → List Pipeline.Stage → Outcome (List Json)
  query : CallLog → String → Outcome (List Row)
  projectGroups : CallLog → Outcome (List (String × String))

/-- What a service is built with. -/
structure Setup where
  settings : Settings
  clients : ClientKind → Bool
  directory : Bool

namespace Setup

/-- The calls that connect a client, if the service has it. -/
def connections (u : Setup) (c : ClientKind) : CallLog :=
  if u.clients c then [.connect c true] else []

def disconnections (u : Setup) (c : ClientKind) : CallLog :=
  if u.clients c then [.disconnect c] else []

/-- Clients that a service has run what they are given while it is open. Nothing but the service
itself asks for connections. -/
def Allows (u : Setup) (isOpen : Bool) (call : Call) : Prop :=
  (∃ c, call = .run c ∧ (isOpen && u.clients c) = true) ∨ call = .projectGroups

end Setup

namespace Backend

def documents (b : Backend) : DocumentClient Logged where
  connect := Logged.answered (.connect .documents ·.isOk) (b.connect .documents)
  disconnect := Logged.answered (fun _ => .disconnect .documents) fun _ => ()
  aggregate collection stages :=
    Logged.answered (fun _ => .run .documents) fun log => b.aggregate log collection stages

def sql (b : Backend) : SqlClient Logged where
  connect := Logged.answered (.connect .sql ·.isOk) (b.connect .sql)
  disconnect := Logged.answered (fun _ => .disconnect .sql) fun _ => ()
  query text := Logged.answered (fun _ => .run .sql) fun log => b.query log text

def directory (b : Backend) : Directory Logged where
  projectGroups := Logged.answered (fun _ => .projectGroups) b.projectGroups

/-- The service with its collaborators, open or not. -/
def service (b : Backend) (u : Setup) (isOpen : Bool) : Service Logged where
  settings := u.settings
  documents := if u.clients .documents then some b.documents else none
  sql := if u.clients .sql then some b.sql else none
  directory := if u.directory then some b.directory else none
  pause _ := return ()
  isOpen := isOpen

/-- A client that the service has connects if it is asked to now. -/
def admits (b : Backend) (u : Setup) (c : ClientKind) (log : CallLog) : Bool :=
  !u.clients c || (b.connect c log).isOk

/-- All clients do, the warehouse after the document store. -/
def admitsAll (b : Backend) (u : Setup) (log : CallLog) : Bool :=
  b.admits u .documents log && b.admits u .sql (log ++ u.connections .documents)

/-- A client that the service has is asked to connect. -/
def attempt (b : Backend) (u : Setup) (c : ClientKind) (log : CallLog) :
    Outcome Unit × CallLog :=
  if u.clients c then (b.connect c log, log ++ [.connect c (b.connect c log).isOk])
  else (.ok (), log)

end Backend

namespace Service

inductive Step where
  | connect
  | disconnect
  | analyzeDocuments (request : Request)
  | analyzeSql (request : Request)
  | searchSql (request : Request)
  | rollup (rows : List Record) (dimension : String) (valueFields : List String)

/-- The service after a step, whatever came of it. -/
def serve (s : Service Logged) : Step → Logged (Service Logged)
  | .connect => return (← s.connect).2
  | .disconnect => s.disconnect
  | .analyzeDocuments r => do
    let _ ← (s.analyzeDocuments r).run
    return s
  | .analyzeSql r => do
    let _ ← (s.analyzeSql r).run
    return s
  | .searchSql r => do
    let _ ← (s.searchSql r).run
    return s
  | .rollup rows dimension valueFields => do
    let _ ← (s.rollup rows dimension valueFields).run
    return s

def serveAll (s : Service Logged) (steps : List Step) : Logged (Service Logged) :=
  steps.foldlM serve s

end Service

namespace Backend
variable {α β ε : Type} {b : Backend} {u : Setup} {isOpen : Bool} {log : CallLog} {p : Call → Prop}

/-! What connecting and disconnecting do. -/

theorem connectDocuments_eq (b : Backend) (u : Setup) (isOpen : Bool) (log : CallLog) :
    (b.service u isOpen).connectDocuments log = b.attempt u .documents log := by
  rw [Service.connectDocuments, service, attempt]
  cases u.clients .documents <;> rfl

theorem connectSql_eq (b : Backend) (u : Setup) (isOpen : Bool) (log : CallLog) :
    (b.service u isOpen).connectSql log = b.attempt u .sql log := by
  rw [Service.connectSql, service, attempt]
  cases u.clients .sql <;> rfl

theorem disconnectDocuments_eq (b : Backend) (u : Setup) (isOpen : Bool) (log : CallLog) :
    (b.service u isOpen).disconnectDocuments log = ((), log ++ u.disconnections .documents) := by
  rw [Service.disconnectDocuments, service, Setup.disconnections]
  cases u.clients .documents
  · exact Prod.ext rfl (List.append_nil log).symm
  · rfl

theorem disconnectSql_eq (b : Backend) (u : Setup) (isOpen : Bool) (log : CallLog) :
    (b.service u isOpen).disconnectSql log = ((), log ++ u.disconnections .sql) := by
  rw [Service.disconnectSql, service, Setup.disconnections]
  cases u.clients .sql
  · exact Prod.ext rfl (List.append_nil log).symm
  · rfl

theorem attempt_cases (b : Backend) (u : Setup) (c : ClientKind) (log : CallLog) :
    (b.admits u c log = true ∧ b.attempt u c log = (.ok (), log ++ u.connections c)) ∨
    (b.admits u c log = false ∧
      ∃ failure, b.attempt u c log = (.error failure, log ++ [.connect c false])) := by
  rw [admits, attempt, Setup.connections]
  cases u.clients c with
  | false => exact Or.inl ⟨rfl, Prod.ext rfl (List.append_nil log).symm⟩
  | true =>
    cases b.connect c log with
    | ok => exact Or.inl ⟨rfl, rfl⟩
    | error failure => exact Or.inr ⟨rfl, failure, rfl⟩

/-- A service that is closed connects all of its clients, or disconnects those it did connect. -/
theorem connect_cases (b : Backend) (u : Setup) (log : CallLog) :
    (b.admitsAll u log = true ∧ (b.service u false).connect log =
      ((.ok (), b.service u true), log ++ (u.connections .documents ++ u.connections .sql))) ∨
    (b.admitsAll u log = false ∧ ∃ failure, (b.service u false).connect log =
      ((.error (.backend failure), b.service u false),
        log ++ if b.admits u .documents log then
          u.connections .documents ++ (.connect .sql false :: u.disconnections .documents)
        else [.connect .documents false])) := by
  have hclosed : (b.service u false).isOpen = false := rfl
  simp only [Service.connect, hclosed, Bool.false_eq_true, if_false, Logged.bind_apply,
    connectDocuments_eq, admitsAll]
  rcases b.attempt_cases u .documents log with ⟨hd, heq⟩ | ⟨hd, failure, heq⟩
  · rw [heq, hd]
    rcases b.attempt_cases u .sql (log ++ u.connections .documents) with
      ⟨hs, heqs⟩ | ⟨hs, failure, heqs⟩
    · refine Or.inl ⟨by rw [hs]; rfl, ?_⟩
      simp only [Logged.bind_apply, connectSql_eq, heqs, List.append_assoc]
      rfl
    · refine Or.inr ⟨by rw [hs]; rfl, failure, ?_⟩
      simp only [Logged.bind_apply, connectSql_eq, heqs, disconnectDocuments_eq,
        List.append_assoc]
      rfl
  · rw [heq, hd]
    exact Or.inr ⟨rfl, failure, rfl⟩

theorem disconnect_eq (b : Backend) (u : Setup) (isOpen : Bool) (log : CallLog) :
    (b.service u isOpen).disconnect log = (b.service u false,
      log ++ if isOpen then u.disconnections .sql ++ u.disconnections .documents else []) := by
  cases isOpen with
  | false => exact Prod.ext rfl (List.append_nil log).symm
  | true =>
    have hopen : (b.service u true).isOpen = true := rfl
    simp only [Service.disconnect, hopen, if_true, Logged.bind_apply, disconnectSql_eq,
      disconnectDocuments_eq, List.append_assoc]
    rfl

/-! Which calls requests come to. -/

theorem makes_ofExcept (p : Call → Prop) (x : Except ε α) :
    Logged.Makes p (ofExcept x : ExceptT ε Logged α).run := by
  cases x <;> exact Logged.makes_pure _

theorem makes_retried {call : Logged (Outcome α)} (h : Logged.Makes p call) :
    Logged.Makes p ((b.service u isOpen).retried call).run :=
  (h.runFrom (fun _ => Logged.makes_pure ()) _ _ _).bind fun _ => Logged.makes_pure _

theorem makes_of_ensureOpen {k : Unit → ExceptT ServiceFault Logged α}
    (h : isOpen = true → Logged.Makes p (k ()).run) :
    Logged.Makes p ((b.service u isOpen).ensureOpen >>= k).run := by
  cases isOpen with
  | false => exact Logged.makes_pure _
  | true => exact h rfl

theorem makes_of_configured {collaborator : Collaborator} {has : Bool} {client : β}
    {k : β → ExceptT ServiceFault Logged α} (h : has = true → Logged.Makes p (k client).run) :
    Logged.Makes p
      (Service.configured collaborator (if has then some client else none) >>= k).run := by
  cases has with
  | false => exact Logged.makes_pure _
  | true => exact h rfl

theorem makes_analyzeDocuments (b : Backend) (u : Setup) (isOpen : Bool) (r : Request) :
    Logged.Makes (u.Allows isOpen) ((b.service u isOpen).analyzeDocuments r).run := by
  refine makes_of_ensureOpen fun hopen => makes_of_configured fun hclient => ?_
  refine (makes_ofExcept _ _).bindExcept fun (plan, stages) => ?_
  refine (makes_retried ?_).bindExcept fun rows => Logged.makes_pure _
  exact Logged.makes_answered fun _ => Or.inl ⟨.documents, rfl, by rw [hopen, hclient]; rfl⟩

theorem makes_runSql (b : Backend) (u : Setup) (sql : String) :
    Logged.Makes (u.Allows true) ((b.service u true).runSql sql).run := by
  refine makes_of_configured fun hclient => ?_
  refine (makes_retried ?_).bindExcept fun rows => Logged.makes_pure _
  exact Logged.makes_answered fun _ => Or.inl ⟨.sql, rfl, hclient⟩

theorem makes_analyzeSql (b : Backend) (u : Setup) (isOpen : Bool) (r : Request) :
    Logged.Makes (u.Allows isOpen) ((b.service u isOpen).analyzeSql r).run := by
  refine makes_of_ensureOpen fun hopen => ?_
  subst hopen
  refine (makes_ofExcept _ _).bindExcept fun (plan, sql) => ?_
  exact (b.makes_runSql u sql).bindExcept fun rows => Logged.makes_pure _

theorem makes_searchSql (b : Backend) (u : Setup) (isOpen : Bool) (r : Request) :
    Logged.Makes (u.Allows isOpen) ((b.service u isOpen).searchSql r).run := by
  refine makes_of_ensureOpen fun hopen => ?_
  subst hopen
  refine (makes_ofExcept _ _).bindExcept fun (plan, sql) => ?_
  exact (b.makes_runSql u sql).bindExcept fun rows => Logged.makes_pure _

theorem makes_rollup (b : Backend) (u : Setup) (isOpen : Bool) (rows : List Record)
    (dimension : String) (valueFields : List String) :
    Logged.Makes (u.Allows isOpen)
      ((b.service u isOpen).rollup rows dimension valueFields).run := by
  refine makes_of_configured fun _ => ?_
  refine (makes_retried ?_).bindExcept fun groups => Logged.makes_pure _
  exact Logged.makes_answered fun _ => Or.inr rfl

end Backend

namespace CallLog
variable {u : Setup} {c c' : ClientKind} {log : CallLog} {isOpen : Bool}

/-! What every step keeps, and so every run. -/

theorem turns_connections :
    turns c (u.connections c') = if c' = c ∧ u.clients c' = true then [true] else [] := by
  rw [Setup.connections]
  by_cases hc : c' = c <;> cases u.clients c' <;> simp [turns, Call.turn?, hc]

theorem turns_disconnections :
    turns c (u.disconnections c') = if c' = c ∧ u.clients c' = true then [false] else [] := by
  rw [Setup.disconnections]
  by_cases hc : c' = c <;> cases u.clients c' <;> simp [turns, Call.turn?, hc]

theorem run_notMem_connections : .run c ∉ u.connections c' := by
  rw [Setup.connections]
  split <;> simp

theorem run_notMem_disconnections : .run c ∉ u.disconnections c' := by
  rw [Setup.disconnections]
  split <;> simp

theorem Balanced.connected (h : Balanced u.clients false log) :
    Balanced u.clients true (log ++ (u.connections .documents ++ u.connections .sql)) := by
  have hturns : ∀ c, turns c (u.connections .documents ++ u.connections .sql) =
      if u.clients c then [true] else [] := by
    intro c
    rw [turns_append, turns_connections, turns_connections]
    cases c <;> simp
  refine h.append_turns (fun c => ?_) (fun c => ?_) fun c => ?_
  · simp [run_notMem_connections]
  · rw [hturns]
    cases u.clients c <;> simp
  · rw [hturns]
    cases u.clients c <;> rfl

/-- The client that refuses is not connected, and the one before it is not left so. -/
theorem Balanced.refused (h : Balanced u.clients false log) (admitted : Bool) :
    Balanced u.clients false (log ++ if admitted then
      u.connections .documents ++ (.connect .sql false :: u.disconnections .documents)
    else [.connect .documents false]) := by
  split
  · have hturns : ∀ c,
        turns c (u.connections .documents ++ (.connect .sql false :: u.disconnections .documents)) =
          if .documents = c ∧ u.clients .documents = true then [true, false] else [] := by
      intro c
      have hrefused : turns c (.connect .sql false :: u.disconnections .documents) =
          turns c (u.disconnections .documents) := rfl
      rw [turns_append, hrefused, turns_connections, turns_disconnections]
      split <;> rfl
    refine h.append_turns (fun c => ?_) (fun c => ?_) fun c => ?_
    · simp [run_notMem_connections, run_notMem_disconnections]
    · rw [hturns]
      split <;> simp
    · rw [hturns]
      split <;> rfl
  · exact h.append_turns (by simp) (fun _ => List.isChain_singleton _) fun _ => rfl

theorem Balanced.disconnected (h : Balanced u.clients true log) :
    Balanced u.clients false (log ++ (u.disconnections .sql ++ u.disconnections .documents)) := by
  have hturns : ∀ c, turns c (u.disconnections .sql ++ u.disconnections .documents) =
      if u.clients c then [false] else [] := by
    intro c
    rw [turns_append, turns_disconnections, turns_disconnections]
    cases c <;> simp
  refine h.append_turns (fun c => ?_) (fun c => ?_) fun c => ?_
  · simp [run_notMem_disconnections]
  · rw [hturns]
    cases u.clients c <;> simp
  · rw [hturns]
    cases u.clients c <;> rfl

theorem Balanced.answered {α : Type} (h : Balanced u.clients isOpen log) {x : Logged α}
    (hx : Logged.Makes (u.Allows isOpen) x) : Balanced u.clients isOpen (x log).2 := by
  obtain ⟨calls, hcalls, hallowed⟩ := hx log
  rw [hcalls]
  refine h.append_runs fun call hcall => (hallowed call hcall).imp_left ?_
  rintro ⟨c, rfl, hc⟩
  exact ⟨c, rfl, (h.isConnected_eq c).trans hc⟩

end CallLog

namespace Backend
variable {u : Setup} {isOpen : Bool} {log : CallLog}

/-- Connecting succeeds if every client is willing, and is all there is to do if the service is
open. After it the service is open. If it fails the service is closed, and connects when it is asked
again, if every client is willing then. -/
theorem connect_balanced (b : Backend) (h : CallLog.Balanced u.clients isOpen log) :
    ∃ answer isOpen' log',
      (b.service u isOpen).connect log = ((answer, b.service u isOpen'), log') ∧
      CallLog.Balanced u.clients isOpen' log' ∧
      (answer = .ok () ↔ isOpen = true ∨ b.admitsAll u log = true) ∧
      (answer = .ok () → isOpen' = true) ∧
      (answer ≠ .ok () → isOpen' = false ∧ (((b.service u false).connect log').1.1 = .ok () ↔
        b.admitsAll u log' = true)) := by
  have hagain : ∀ log', ((b.service u false).connect log').1.1 = .ok () ↔
      b.admitsAll u log' = true := by
    intro log'
    rcases b.connect_cases u log' with ⟨hall, heq⟩ | ⟨hall, failure, heq⟩ <;> simp [heq, hall]
  cases isOpen with
  | true => exact ⟨_, true, log, rfl, h, by simp, fun _ => rfl, by simp⟩
  | false =>
    rcases b.connect_cases u log with ⟨hall, heq⟩ | ⟨hall, failure, heq⟩
    · exact ⟨_, true, _, heq, h.connected, by simp [hall], fun _ => rfl, by simp⟩
    · exact ⟨_, false, _, heq, h.refused _, by simp [hall], by simp, fun _ => ⟨rfl, hagain _⟩⟩

theorem disconnect_balanced (b : Backend) (h : CallLog.Balanced u.clients isOpen log) :
    ∃ log', (b.service u isOpen).disconnect log = (b.service u false, log') ∧
      CallLog.Balanced u.clients false log' := by
  refine ⟨_, b.disconnect_eq u isOpen log, ?_⟩
  cases isOpen with
  | true => exact h.disconnected
  | false =>
    rw [if_neg Bool.false_ne_true, List.append_nil]
    exact h

theorem serve_balanced (b : Backend) (step : Service.Step)
    (h : CallLog.Balanced u.clients isOpen log) :
    ∃ isOpen' log', (b.service u isOpen).serve step log = (b.service u isOpen', log') ∧
      CallLog.Balanced u.clients isOpen' log' := by
  cases step with
  | connect =>
    obtain ⟨answer, isOpen', log', heq, hbalanced, -⟩ := b.connect_balanced h
    refine ⟨isOpen', log', ?_, hbalanced⟩
    rw [Service.serve, Logged.bind_apply, heq]
    rfl
  | disconnect =>
    obtain ⟨log', heq, hbalanced⟩ := b.disconnect_balanced h
    exact ⟨false, log', heq, hbalanced⟩
  | analyzeDocuments r => exact ⟨isOpen, _, rfl, h.answered (b.makes_analyzeDocuments u isOpen r)⟩
  | analyzeSql r => exact ⟨isOpen, _, rfl, h.answered (b.makes_analyzeSql u isOpen r)⟩
  | searchSql r => exact ⟨isOpen, _, rfl, h.answered (b.makes_searchSql u isOpen r)⟩
  | rollup rows dimension valueFields =>
    exact ⟨isOpen, _, rfl, h.answered (b.makes_rollup u isOpen rows dimension valueFields)⟩

theorem run_balanced (b : Backend) (steps : List Service.Step)
    (h : CallLog.Balanced u.clients isOpen log) :
    ∃ isOpen' log', (b.service u isOpen).serveAll steps log = (b.service u isOpen', log') ∧
      CallLog.Balanced u.clients isOpen' log' := by
  induction steps generalizing isOpen log with
  | nil => exact ⟨isOpen, log, rfl, h⟩
  | cons step steps ih =>
    obtain ⟨isOpen', log', heq, hbalanced⟩ := b.serve_balanced step h
    obtain ⟨isOpen'', log'', hrest, hlast⟩ := ih hbalanced
    refine ⟨isOpen'', log'', ?_, hlast⟩
    rw [Service.serveAll, List.foldlM_cons, Logged.bind_apply, heq]
    exact hrest

/-- After any steps a service has its clients connected if it is open, and none if it is not; so it
is after one more connection, which leaves it open exactly if it succeeds, and when the service is
dropped. -/
theorem serveAll_balanced (b : Backend) (u : Setup) (steps : List Service.Step) :
    ∃ isOpen log, (b.service u false).serveAll steps [] = (b.service u isOpen, log) ∧
      CallLog.Balanced u.clients isOpen log ∧
      (∃ answer isOpen' log',
        (b.service u isOpen).connect log = ((answer, b.service u isOpen'), log') ∧
        CallLog.Balanced u.clients isOpen' log' ∧
        (answer = .ok () ↔ isOpen = true ∨ b.admitsAll u log = true) ∧
        (answer = .ok () → isOpen' = true) ∧
        (answer ≠ .ok () → isOpen' = false ∧ (((b.service u false).connect log').1.1 = .ok () ↔
          b.admitsAll u log' = true))) ∧
      ∃ log', (b.service u isOpen).disconnect log = (b.service u false, log') ∧
        CallLog.Balanced u.clients false log' := by
  have hnone : CallLog.Balanced u.clients false [] := CallLog.balanced_nil
  obtain ⟨isOpen, log, heq, h⟩ := b.run_balanced steps hnone
  exact ⟨isOpen, log, heq, h, b.connect_balanced h, b.disconnect_balanced h⟩

/-- A warehouse that is busy at first. -/
def busy : Backend where
  connect c log := if c = .sql ∧ log.length < 2 then .error (.transient "busy") else .ok ()
  aggregate _ _ _ := .ok []
  query _ _ := .ok []
  projectGroups _ := .ok []

/-- It refuses the first connection, and the document store is disconnected. -/
example : ((busy.service ⟨{}, fun _ => true, false⟩ false).serveAll
    [.connect, .connect, .disconnect] []).2 =
      [.connect .documents true, .connect .sql false, .disconnect .documents,
        .connect .documents true, .connect .sql true, .disconnect .sql, .disconnect .documents] :=
  rfl

end Backend
end CostQuery
