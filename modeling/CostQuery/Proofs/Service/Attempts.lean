import CostQuery.Proofs.Outcome
import CostQuery.Service.Basic
import Mathlib.Order.Bounds.Basic

/-! What a service asks of its clients for one request. A request that is refused asks nothing. Any
other asks the same at every attempt, until an answer is no passing failure or the attempts are used
up, and waits in between. -/

namespace CostQuery

/-- What is done for a request: a client is called, or some time is waited. -/
inductive Act where
  | aggregate (collection : String) (stages : List Pipeline.Stage)
  | query (sql : String)
  | wait (ms : Nat)

def Act.isCall : Act → Bool
  | .aggregate _ _ | .query _ => true
  | .wait _ => false

/-- It may be another at the next attempt. -/
def Outcome.isPassing {α : Type} : Outcome α → Bool
  | .ok _ => false
  | .error failure => failure.isTransient

/-- Computations that leave a trace of what was done, the earliest first. -/
abbrev Traced := StateM (List Act)

namespace Traced
variable {α β : Type} {trace : List Act}

def calls (trace : List Act) : Nat := trace.countP Act.isCall

/-- A call that is answered by a script, from which every call takes the next answer. -/
def scripted (call : Act) (script : Nat → α) : Traced α :=
  fun trace => (script (calls trace), trace ++ [call])

def waited (ms : Nat) : Traced Unit := fun trace => ((), trace ++ [.wait ms])

theorem bind_apply (x : Traced α) (k : α → Traced β) (trace : List Act) :
    (x >>= k) trace = k (x trace).1 (x trace).2 := rfl

end Traced

/-- Where the attempts of a run may stop: at an answer that is no passing failure, or at the last
that is allowed. -/
def RetrySettings.stops {α : Type} (s : RetrySettings) (outcomes : Nat → Outcome α) : Set Nat :=
  {k | k = max s.maxAttempts 1 ∨ ∃ i, k = i + 1 ∧ Outcome.isPassing (outcomes i) = false}

namespace RetryPolicy
variable {α : Type} {p : RetryPolicy} {call : Act} {script : Nat → Outcome α}

/-- Attempts that failed, counted on from one of them, each with the pause after it. -/
def failures (p : RetryPolicy) (call : Act) (first n : Nat) : List Act :=
  (List.range' first n).flatMap fun attempt => [call, .wait (p.delayMs attempt)]

theorem failures_succ (p : RetryPolicy) (call : Act) (first n : Nat) :
    p.failures call first (n + 1) =
      [call, .wait (p.delayMs first)] ++ p.failures call (first + 1) n := by
  simp [failures, List.range'_succ]

/-- The attempts up to the last. -/
def attempts (p : RetryPolicy) (call : Act) (last : Nat) : List Act :=
  p.failures call 1 (last - 1) ++ [call]

/-- A passing failure makes way for the next attempt after a pause; any other answer is the last. -/
theorem runFrom_step (attempt left : Nat) (trace : List Act) :
    p.runFrom Traced.waited (Traced.scripted call script) attempt (left + 1) trace =
      if Outcome.isPassing (script (Traced.calls trace)) then
        p.runFrom Traced.waited (Traced.scripted call script) (attempt + 1) left
          (trace ++ [call, .wait (p.delayMs attempt)])
      else (script (Traced.calls trace), trace ++ [call]) := by
  rw [runFrom, Traced.bind_apply, Traced.scripted]
  cases script (Traced.calls trace) with
  | ok a => rfl
  | error failure =>
    by_cases hpassing : failure.isTransient
    · simp [hpassing, Outcome.isPassing, Traced.bind_apply, Traced.waited]
    · simp [hpassing, Outcome.isPassing]
      rfl

/-- All attempts before the last fail for a passing reason. -/
theorem runFrom_scripted (p : RetryPolicy) (script : Nat → Outcome α) (hcall : call.isCall = true)
    (attempt left : Nat) (trace : List Act) :
    ∃ n ≤ left, (∀ i < n, Outcome.isPassing (script (Traced.calls trace + i)) = true) ∧
      (n = left ∨ Outcome.isPassing (script (Traced.calls trace + n)) = false) ∧
      p.runFrom Traced.waited (Traced.scripted call script) attempt left trace =
        (script (Traced.calls trace + n), trace ++ (p.failures call attempt n ++ [call])) := by
  induction left generalizing attempt trace with
  | zero =>
    refine ⟨0, le_rfl, ?_, Or.inl rfl, rfl⟩
    intro i hi
    omega
  | succ left ih =>
    rw [runFrom_step]
    by_cases hpassing : Outcome.isPassing (script (Traced.calls trace)) = true
    · have hwait : Act.isCall (.wait (p.delayMs attempt)) = false := rfl
      have hcalls : Traced.calls (trace ++ [call, .wait (p.delayMs attempt)]) =
          Traced.calls trace + 1 := by
        simp [Traced.calls, hcall, hwait]
      obtain ⟨n, hn, hbefore, hstop, heq⟩ :=
        ih (attempt + 1) (trace ++ [call, .wait (p.delayMs attempt)])
      have hshift : ∀ i, Traced.calls trace + 1 + i = Traced.calls trace + (i + 1) := by omega
      simp only [hcalls, hshift] at hbefore hstop heq
      refine ⟨n + 1, by omega, ?_, ?_, ?_⟩
      · intro i hi
        cases i with
        | zero => exact hpassing
        | succ i => exact hbefore i (by omega)
      · exact hstop.imp_left (congrArg (· + 1))
      · rw [if_pos hpassing, heq, failures_succ, List.append_assoc, List.append_assoc]
    · refine ⟨0, by omega, ?_, Or.inr (Bool.eq_false_iff.mpr hpassing), if_neg hpassing⟩
      intro i hi
      omega

end RetryPolicy

/-- Attempts follow on each other until one stops them, and what is answered comes of the last. -/
def Tries {α β : Type} (s : RetrySettings) (call : Act) (script : Nat → Outcome α)
    (answer : Outcome α → β) (x : Traced β) : Prop :=
  ∀ trace, ∃ last, IsLeast (s.stops fun i => script (Traced.calls trace + i)) last ∧
    x trace = (answer (script (Traced.calls trace + (last - 1))),
      trace ++ (RetryPolicy.ofSettings s).attempts call last)

section
variable {α β γ : Type} {settings : RetrySettings} {call : Act} {script : Nat → Outcome α}

theorem tries_run (hcall : call.isCall = true) : Tries settings call script id
    ((RetryPolicy.ofSettings settings).run Traced.waited (Traced.scripted call script)) := by
  intro trace
  obtain ⟨n, hn, hbefore, hstop, heq⟩ := (RetryPolicy.ofSettings settings).runFrom_scripted
    script hcall 1 ((RetryPolicy.ofSettings settings).maxAttempts - 1) trace
  have hmax : (RetryPolicy.ofSettings settings).maxAttempts = max settings.maxAttempts 1 := rfl
  refine ⟨n + 1, ⟨?_, ?_⟩, heq⟩
  · rcases hstop with hlast | hstop
    · exact Or.inl (by omega)
    · exact Or.inr ⟨n, rfl, hstop⟩
  · rintro k (hk | ⟨i, rfl, hi⟩)
    · omega
    · by_contra hlt
      have hpassing := hbefore i (by omega)
      rw [hi] at hpassing
      cases hpassing

theorem Tries.map {answer : Outcome α → β} {x : Traced β} (h : Tries settings call script answer x)
    (f : β → γ) : Tries settings call script (fun outcome => f (answer outcome)) (f <$> x) := by
  intro trace
  obtain ⟨last, hlast, heq⟩ := h trace
  refine ⟨last, hlast, ?_⟩
  change (f (x trace).1, (x trace).2) = _
  rw [heq]

end

/-- What the clients answer, call after call. -/
structure Script where
  aggregate : Nat → Outcome (List Json)
  query : Nat → Outcome (List Row)

namespace Service
variable {α β γ : Type}

/-- The clients that a service has answer by a script, whatever they are given. -/
structure Follows (s : Service Traced) (script : Script) : Prop where
  documents : ∀ client ∈ s.documents, ∀ collection stages,
    client.aggregate collection stages =
      Traced.scripted (.aggregate collection stages) script.aggregate
  sql : ∀ client ∈ s.sql, ∀ sql, client.query sql = Traced.scripted (.query sql) script.query
  pause : s.pause = Traced.waited

/-- The plan and the pipeline of a request that is taken, or why it is refused. -/
def takenDocuments (s : Service Traced) (r : Request) :
    Served (AnalyzePlan × List Pipeline.Stage) :=
  if !s.isOpen then .error .notOpen
  else if s.documents.isNone then .error (.unconfigured .documents)
  else r.pipeline s.settings

/-- The plan and the statement of a request that is taken, or why it is refused. -/
def takenSql (s : Service Traced) (prepared : Served (α × String)) : Served (α × String) :=
  if !s.isOpen then .error .notOpen
  else match prepared with
    | .error fault => .error fault
    | .ok taken => if s.sql.isNone then .error (.unconfigured .sql) else .ok taken

/-- A request that is refused leaves no trace. One that is taken makes one call at every attempt,
and is answered by the last. -/
structure Handles (s : Service Traced) (taken : Served α) (call : α → Act)
    (script : Nat → Outcome β) (answer : α → β → γ) (x : ExceptT ServiceFault Traced γ) :
    Prop where
  refused : ∀ fault, taken = .error fault → ∀ trace, x.run trace = (.error fault, trace)
  taken : ∀ a, taken = .ok a → Tries s.settings.retry (call a) script
    (fun outcome => (outcome.mapError .backend).map (answer a)) x.run

variable {s : Service Traced} {script : Script} {call : Act} {outcomes : Nat → Outcome α}

theorem Handles.of_refused {calls : α → Act} {script : Nat → Outcome β} {answer : α → β → γ}
    (fault : ServiceFault) :
    s.Handles (.error fault) calls script answer (throw fault) where
  refused _ h _ := by
    obtain rfl := Except.error.inj h
    rfl
  taken _ h := nomatch h

theorem Handles.of_taken {calls : α → Act} {script : Nat → Outcome β} {answer : α → β → γ}
    {x : ExceptT ServiceFault Traced γ} (a : α)
    (h : Tries s.settings.retry (calls a) script
      (fun outcome => (outcome.mapError .backend).map (answer a)) x.run) :
    s.Handles (.ok a) calls script answer x where
  refused _ hfault := nomatch hfault
  taken _ hok := by
    obtain rfl := Except.ok.inj hok
    exact h

theorem tries_retried (h : s.Follows script) (hcall : call.isCall = true) :
    Tries s.settings.retry call outcomes (fun outcome => outcome.mapError ServiceFault.backend)
      (s.retried (Traced.scripted call outcomes)).run := by
  have hrun : Tries s.settings.retry call outcomes id _ := tries_run hcall
  rw [← h.pause] at hrun
  exact hrun.map fun outcome => outcome.mapError ServiceFault.backend

/-- A call is all that is left to do once a request is taken. -/
theorem tries_answered (h : s.Follows script) (hcall : call.isCall = true) (f : α → β) :
    Tries s.settings.retry call outcomes
      (fun outcome => (outcome.mapError ServiceFault.backend).map f)
      (do return f (← s.retried (Traced.scripted call outcomes))).run := by
  have hretried : Tries s.settings.retry call outcomes _ _ := tries_retried h hcall
  intro trace
  obtain ⟨last, hlast, heq⟩ := hretried.map (Except.map f) trace
  refine ⟨last, hlast, Eq.trans ?_ heq⟩
  rw [ExceptT.run_bind]
  change _ = (Except.map f ((s.retried (Traced.scripted call outcomes)).run trace).1, _)
  rw [Traced.bind_apply]
  cases ((s.retried (Traced.scripted call outcomes)).run trace).1 <;> rfl

theorem ofExcept_ok (a : α) : (ofExcept (.ok a) : ExceptT ServiceFault Traced α) = pure a := rfl

theorem ofExcept_error (fault : ServiceFault) :
    (ofExcept (.error fault) : ExceptT ServiceFault Traced α) = throw fault := rfl

theorem analyzeDocuments_cases (s : Service Traced) (r : Request) :
    (∃ fault, s.takenDocuments r = .error fault ∧ s.analyzeDocuments r = throw fault) ∨
    ∃ taken, ∃ client ∈ s.documents, s.takenDocuments r = .ok taken ∧
      s.analyzeDocuments r = do
        return taken.1.result (Record.ofDocuments
          (← s.retried (client.aggregate s.settings.warehouse.table taken.2))) := by
  cases hopen : s.isOpen with
  | false =>
    refine Or.inl ⟨.notOpen, by simp [takenDocuments, hopen], ?_⟩
    simp [analyzeDocuments, ensureOpen, hopen]
  | true =>
    cases hclient : s.documents with
    | none =>
      refine Or.inl ⟨.unconfigured .documents, by simp [takenDocuments, hopen, hclient], ?_⟩
      simp [analyzeDocuments, ensureOpen, configured, hopen, hclient]
    | some client =>
      cases hpipeline : r.pipeline s.settings with
      | error fault =>
        refine Or.inl ⟨fault, by simp [takenDocuments, hopen, hclient, hpipeline], ?_⟩
        simp [analyzeDocuments, ensureOpen, configured, hopen, hclient, hpipeline, ofExcept_error]
      | ok taken =>
        refine Or.inr ⟨taken, client, rfl,
          by simp [takenDocuments, hopen, hclient, hpipeline], ?_⟩
        simp [analyzeDocuments, ensureOpen, configured, hopen, hclient, hpipeline, ofExcept_ok]

/-- An analysis or a search of the warehouse, once it is prepared. -/
def answerSql (s : Service Traced) (prepared : Served (α × String)) (result : α → List Record → γ) :
    ExceptT ServiceFault Traced γ := do
  s.ensureOpen
  let (plan, sql) ← ofExcept prepared
  return result plan (← s.runSql sql)

theorem answerSql_cases (s : Service Traced) (prepared : Served (α × String))
    (result : α → List Record → γ) :
    (∃ fault, s.takenSql prepared = .error fault ∧ s.answerSql prepared result = throw fault) ∨
    ∃ taken, ∃ client ∈ s.sql, s.takenSql prepared = .ok taken ∧
      s.answerSql prepared result = do
        return result taken.1 (Record.ofRows (← s.retried (client.query taken.2))) := by
  cases hopen : s.isOpen with
  | false =>
    refine Or.inl ⟨.notOpen, by simp [takenSql, hopen], ?_⟩
    simp [answerSql, ensureOpen, hopen]
  | true =>
    cases prepared with
    | error fault =>
      refine Or.inl ⟨fault, by simp [takenSql, hopen], ?_⟩
      simp [answerSql, ensureOpen, hopen, ofExcept_error]
    | ok taken =>
      cases hclient : s.sql with
      | none =>
        refine Or.inl ⟨.unconfigured .sql, by simp [takenSql, hopen, hclient], ?_⟩
        simp [answerSql, ensureOpen, runSql, configured, hopen, hclient, ofExcept_ok]
      | some client =>
        refine Or.inr ⟨taken, client, rfl, by simp [takenSql, hopen, hclient], ?_⟩
        simp [answerSql, ensureOpen, runSql, configured, hopen, hclient, ofExcept_ok]

theorem handles_documents (h : s.Follows script) (r : Request) :
    s.Handles (s.takenDocuments r)
      (fun taken => .aggregate s.settings.warehouse.table taken.2) script.aggregate
      (fun taken rows => taken.1.result (Record.ofDocuments rows)) (s.analyzeDocuments r) := by
  rcases s.analyzeDocuments_cases r with
    ⟨fault, htaken, heq⟩ | ⟨taken, client, hclient, htaken, heq⟩
  · rw [htaken, heq]
    exact .of_refused fault
  · rw [htaken, heq, h.documents client hclient]
    exact .of_taken taken (tries_answered h rfl _)

theorem handles_sql (h : s.Follows script) (prepared : Served (α × String))
    (result : α → List Record → γ) :
    s.Handles (s.takenSql prepared) (fun taken => .query taken.2) script.query
      (fun taken rows => result taken.1 (Record.ofRows rows)) (s.answerSql prepared result) := by
  rcases s.answerSql_cases prepared result with
    ⟨fault, htaken, heq⟩ | ⟨taken, client, hclient, htaken, heq⟩
  · rw [htaken, heq]
    exact .of_refused fault
  · rw [htaken, heq, h.sql client hclient]
    exact .of_taken taken (tries_answered h rfl _)

/-- A run ends at the first attempt that is no passing failure, or at the last that is allowed, and
each attempt before it is followed by its pause. A service makes no call for a request that it
refuses; for any other it runs one call, and its answer comes of the last attempt. -/
theorem requests_tried (h : s.Follows script) (r : Request) :
    (∀ (β : Type) (settings : RetrySettings) (call : Act) (outcomes : Nat → Outcome β),
      call.isCall = true → Tries settings call outcomes id
        ((RetryPolicy.ofSettings settings).run Traced.waited (Traced.scripted call outcomes))) ∧
    s.Handles (s.takenDocuments r)
      (fun taken => .aggregate s.settings.warehouse.table taken.2) script.aggregate
      (fun taken rows => taken.1.result (Record.ofDocuments rows)) (s.analyzeDocuments r) ∧
    s.Handles (s.takenSql (r.analyzeSql s.settings)) (fun taken => .query taken.2) script.query
      (fun taken rows => taken.1.result (Record.ofRows rows)) (s.analyzeSql r) ∧
    s.Handles (s.takenSql (r.searchSql s.settings)) (fun taken => .query taken.2) script.query
      (fun taken rows => taken.1.outcome (Record.ofRows rows)) (s.searchSql r) :=
  ⟨fun _ _ _ _ hcall => tries_run hcall, handles_documents h r, handles_sql h _ _,
    handles_sql h _ _⟩

/-- A warehouse that loses its first connection. -/
def resetScript : Script where
  aggregate _ := .ok []
  query n := if n = 0 then .error (.transient "connection reset") else .ok []

def warehouseService : Service Traced where
  settings := {}
  sql := some {
    connect := return .ok ()
    disconnect := return ()
    query := fun sql => Traced.scripted (.query sql) resetScript.query }
  pause := Traced.waited
  isOpen := true

/-- The second attempt is the last, though a third is allowed. -/
theorem requests_tried_reset :
    warehouseService.Follows resetScript ∧
      ∃ plan sql, Request.searchSql {} { countOnly := true } = .ok (plan, sql) ∧
        (warehouseService.searchSql { countOnly := true }).run [] =
          (.ok (.count 0), [.query sql, .wait 200, .query sql]) := by
  have hfollows : warehouseService.Follows resetScript := by
    refine ⟨nofun, ?_, rfl⟩
    rintro client hclient sql
    obtain rfl := Option.some.inj hclient
    rfl
  obtain ⟨plan, sql, hprepared, hmode⟩ : ∃ plan sql,
      Request.searchSql warehouseService.settings { countOnly := true } = .ok (plan, sql) ∧
        plan.mode = .count := ⟨_, _, rfl, rfl⟩
  have htaken : warehouseService.takenSql
      (Request.searchSql warehouseService.settings { countOnly := true }) = .ok (plan, sql) := by
    rw [hprepared]
    rfl
  refine ⟨hfollows, plan, sql, hprepared, ?_⟩
  obtain ⟨-, -, -, hsearch⟩ := requests_tried hfollows { countOnly := true }
  obtain ⟨last, hlast, heq⟩ := hsearch.taken (plan, sql) htaken []
  have hsecond : IsLeast (warehouseService.settings.retry.stops fun i =>
      resetScript.query (Traced.calls [] + i)) 2 := by
    refine ⟨Or.inr ⟨1, rfl, rfl⟩, ?_⟩
    rintro k (rfl | ⟨i, rfl, hi⟩)
    · decide
    · cases i with
      | zero => cases hi
      | succ i => omega
  obtain rfl := hlast.unique hsecond
  have hcount : plan.outcome (Record.ofRows []) = .count 0 := by
    rw [SearchPlan.outcome, hmode]
    rfl
  rw [heq, ← hcount]
  rfl

end Service
end CostQuery
