import CostQuery.Service.Basic
import Mathlib.Data.List.Chain

/-! The calls that clients get, in order, whatever they answer. -/

namespace CostQuery

/-- The clients that are connected with a service. -/
inductive ClientKind where
  | documents
  | sql
deriving DecidableEq

inductive Call where
  | connect (client : ClientKind) (succeeded : Bool)
  | disconnect (client : ClientKind)
  /-- A pipeline or a statement is run. -/
  | run (client : ClientKind)
  | projectGroups

/-- Calls, the earliest first. -/
abbrev CallLog := List Call

/-- What becomes of a client by a call, if anything: connected or not. -/
def Call.turn? (client : ClientKind) : Call → Option Bool
  | .connect c true => if c = client then some true else none
  | .disconnect c => if c = client then some false else none
  | _ => none

namespace CallLog
variable {c : ClientKind} {log calls : CallLog} {has : ClientKind → Bool} {isOpen isOpen' : Bool}

/-- The successful connections of a client, and the ends of them. -/
def turns (c : ClientKind) (log : CallLog) : List Bool := log.filterMap (Call.turn? c)

def isConnected (c : ClientKind) (log : CallLog) : Bool := (turns c log).getLast?.getD false

/-- Connections and their ends take turns, a connection first. -/
def Alternates (c : ClientKind) (log : CallLog) : Prop := (false :: turns c log).IsChain (· ≠ ·)

/-- A client runs only what comes while it is connected. -/
def RunsConnected (log : CallLog) : Prop :=
  ∀ before c after, log = before ++ .run c :: after → isConnected c before = true

theorem turns_append (log calls : CallLog) :
    turns c (log ++ calls) = turns c log ++ turns c calls :=
  List.filterMap_append

theorem isConnected_append (log calls : CallLog) :
    isConnected c (log ++ calls) = (turns c calls).getLast?.getD (isConnected c log) := by
  rw [isConnected, turns_append, List.getLast?_append]
  cases (turns c calls).getLast? <;> rfl

theorem alternates_append :
    Alternates c (log ++ calls) ↔
      Alternates c log ∧ (isConnected c log :: turns c calls).IsChain (· ≠ ·) := by
  have hlast : (false :: turns c log).getLast? = some (isConnected c log) := List.getLast?_cons
  rw [Alternates, turns_append, ← List.cons_append, List.isChain_append, hlast, Alternates,
    List.isChain_cons (l := turns c calls)]
  simp only [Option.mem_some_iff, forall_eq', and_comm]

theorem RunsConnected.append (h : RunsConnected log)
    (hcalls : ∀ before c after, calls = before ++ .run c :: after →
      isConnected c (log ++ before) = true) : RunsConnected (log ++ calls) := by
  intro before c after heq
  rcases List.append_eq_append_iff.mp heq with ⟨middle, hbefore, hafter⟩ | ⟨middle, hlog, hafter⟩
  · rw [hbefore]
    exact hcalls middle c after hafter
  · cases middle with
    | nil =>
      rw [List.append_nil] at hlog
      have hfirst := hcalls [] c after hafter.symm
      rwa [List.append_nil, hlog] at hfirst
    | cons call middle =>
      obtain ⟨rfl, rfl⟩ := List.cons.inj hafter
      exact h before c middle hlog

/-- The clients that a service has are connected while it is open, and at no other time. -/
structure Balanced (has : ClientKind → Bool) (isOpen : Bool) (log : CallLog) : Prop where
  alternates : ∀ c, Alternates c log
  isConnected_eq : ∀ c, isConnected c log = (isOpen && has c)
  runsConnected : RunsConnected log

theorem balanced_nil : Balanced has false [] where
  alternates _ := List.isChain_singleton _
  isConnected_eq _ := rfl
  runsConnected before c after h := by simp at h

/-- Runs of clients that are connected, and calls of no client, leave all as it is. -/
theorem Balanced.append_runs (h : Balanced has isOpen log)
    (hcalls : ∀ call ∈ calls, (∃ c, call = .run c ∧ isConnected c log = true) ∨
      call = .projectGroups) : Balanced has isOpen (log ++ calls) := by
  have hquiet : ∀ part, (∀ call ∈ part, call ∈ calls) → ∀ c, turns c part = [] := by
    intro part hpart c
    refine List.filterMap_eq_nil_iff.mpr fun call hcall => ?_
    rcases hcalls call (hpart call hcall) with ⟨c, rfl, -⟩ | rfl <;> rfl
  have hsame : ∀ part, (∀ call ∈ part, call ∈ calls) → ∀ c,
      isConnected c (log ++ part) = isConnected c log := by
    intro part hpart c
    rw [isConnected_append, hquiet part hpart c]
    rfl
  constructor
  · intro c
    rw [alternates_append, hquiet calls (fun _ hcall => hcall) c]
    exact ⟨h.alternates c, List.isChain_singleton _⟩
  · intro c
    rw [hsame calls (fun _ hcall => hcall) c]
    exact h.isConnected_eq c
  · refine h.runsConnected.append ?_
    rintro before c after rfl
    rw [hsame before (fun call hcall => List.mem_append_left _ hcall) c]
    rcases hcalls (.run c) (by simp) with ⟨c', hrun, hconnected⟩ | hgroups
    · obtain rfl := Call.run.inj hrun
      exact hconnected
    · cases hgroups

/-- Connections and disconnections that bring the clients from one state to another. -/
theorem Balanced.append_turns (h : Balanced has isOpen log) (hcalls : ∀ c, .run c ∉ calls)
    (hturns : ∀ c, ((isOpen && has c) :: turns c calls).IsChain (· ≠ ·))
    (hlast : ∀ c, (turns c calls).getLast?.getD (isOpen && has c) = (isOpen' && has c)) :
    Balanced has isOpen' (log ++ calls) := by
  constructor
  · intro c
    rw [alternates_append, h.isConnected_eq]
    exact ⟨h.alternates c, hturns c⟩
  · intro c
    rw [isConnected_append, h.isConnected_eq, hlast]
  · refine h.runsConnected.append ?_
    rintro before c after rfl
    exact absurd (by simp) (hcalls c)

end CallLog

/-- Computations that tell of the calls they make. -/
abbrev Logged := StateM CallLog

namespace Logged
variable {α β ε : Type} {p : Call → Prop}

/-- An answer to a call that is told of. -/
def answered (call : α → Call) (answer : CallLog → α) : Logged α :=
  fun log => (answer log, log ++ [call (answer log)])

/-- Calls of no other sort are made, and none told of before is forgotten. -/
def Makes (p : Call → Prop) (x : Logged α) : Prop :=
  ∀ log, ∃ calls, (x log).2 = log ++ calls ∧ ∀ call ∈ calls, p call

theorem bind_apply (x : Logged α) (k : α → Logged β) (log : CallLog) :
    (x >>= k) log = k (x log).1 (x log).2 := rfl

theorem makes_pure (a : α) : Makes p (pure a : Logged α) := by
  intro log
  exact ⟨[], (List.append_nil log).symm, List.forall_mem_nil p⟩

theorem makes_answered {call : α → Call} {answer : CallLog → α} (h : ∀ a, p (call a)) :
    Makes p (answered call answer) := by
  intro log
  exact ⟨[call (answer log)], rfl, by simpa using h _⟩

theorem Makes.bind {x : Logged α} {k : α → Logged β} (hx : Makes p x) (hk : ∀ a, Makes p (k a)) :
    Makes p (x >>= k) := by
  intro log
  obtain ⟨first, hfirst, hp⟩ := hx log
  obtain ⟨rest, hrest, hp'⟩ := hk (x log).1 (x log).2
  refine ⟨first ++ rest, ?_, List.forall_mem_append.mpr ⟨hp, hp'⟩⟩
  rw [bind_apply, hrest, hfirst, List.append_assoc]

theorem Makes.bindExcept {x : ExceptT ε Logged α} {k : α → ExceptT ε Logged β}
    (hx : Makes p x.run) (hk : ∀ a, Makes p (k a).run) : Makes p (x >>= k).run := by
  rw [ExceptT.run_bind]
  refine hx.bind fun a => ?_
  cases a with
  | ok a => exact hk a
  | error fault => exact makes_pure _

/-- Attempts make the calls that one makes. -/
theorem Makes.runFrom {call : Logged (Outcome α)} (h : Makes p call) {pause : Nat → Logged Unit}
    (hpause : ∀ ms, Makes p (pause ms)) (policy : RetryPolicy) (attempt left : Nat) :
    Makes p (policy.runFrom pause call attempt left) := by
  induction left generalizing attempt with
  | zero => exact h
  | succ left ih =>
    refine h.bind fun outcome => ?_
    cases outcome with
    | ok a => exact makes_pure _
    | error failure =>
      simp only
      split
      · exact (hpause _).bind fun _ => ih (attempt + 1)
      · exact makes_pure _

end Logged

end CostQuery
