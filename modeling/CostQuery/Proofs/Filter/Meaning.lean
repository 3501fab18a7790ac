import CostQuery.Filter.Predicate
import Mathlib.Data.List.Basic
import Mathlib.Data.List.Forall2

/-! The meaning of a predicate, given which of its tests are met. -/

namespace CostQuery.Predicate
variable {met met' : Predicate → Prop} {p t : Predicate} {parts : List Predicate}

/-- It joins nothing. -/
def isTest : Predicate → Bool
  | .and _ | .or _ => false
  | _ => true

section
variable {motive : Predicate → Prop} (test : ∀ p, p.isTest = true → motive p)
  (and : ∀ parts, (∀ p ∈ parts, motive p) → motive (.and parts))
  (or : ∀ parts, (∀ p ∈ parts, motive p) → motive (.or parts))
include test and or

/-- Induction on what joins the tests. -/
@[elab_as_elim]
theorem of_parts : ∀ p, motive p
  | .and parts => and parts fun p _ => of_parts p
  | .or parts => or parts fun p _ => of_parts p
  | .isNull c => test (.isNull c) rfl
  | .isNotNull c => test (.isNotNull c) rfl
  | .compare c op v => test (.compare c op v) rfl
  | .regex c pattern => test (.regex c pattern) rfl
  | .contains c text negated => test (.contains c text negated) rfl
  | .oneOf c vs negated => test (.oneOf c vs negated) rfl
  | .datetime c op text => test (.datetime c op text) rfl
  | .timediff c op time => test (.timediff c op time) rfl
  | .never => test .never rfl
termination_by p => sizeOf p
decreasing_by
  all_goals
    have := List.sizeOf_lt_of_mem ‹_ ∈ parts›
    simp
    omega

end

mutual

/-- Met, where it is told of each test whether it is met. -/
def holds (met : Predicate → Prop) : Predicate → Prop
  | .and parts => holdsAll met parts
  | .or parts => holdsAny met parts
  | test => met test

def holdsAll (met : Predicate → Prop) : List Predicate → Prop
  | [] => True
  | p :: rest => p.holds met ∧ holdsAll met rest

def holdsAny (met : Predicate → Prop) : List Predicate → Prop
  | [] => False
  | p :: rest => p.holds met ∨ holdsAny met rest

end

theorem holds_of_isTest (h : p.isTest = true) : p.holds met ↔ met p := by
  cases p <;> first | rfl | simp [isTest] at h

theorem holds_and : (and parts).holds met ↔ ∀ p ∈ parts, p.holds met := by
  rw [holds]
  induction parts with
  | nil => simp [holdsAll]
  | cons p rest ih => rw [holdsAll, ih, List.forall_mem_cons]

theorem holds_or : (or parts).holds met ↔ ∃ p ∈ parts, p.holds met := by
  rw [holds]
  induction parts with
  | nil => simp [holdsAny]
  | cons p rest ih => rw [holdsAny, ih, List.exists_mem_cons_iff]

theorem testsOfAll_eq (parts : List Predicate) : testsOfAll parts = parts.flatMap tests := by
  induction parts with
  | nil => rfl
  | cons p rest ih => rw [testsOfAll, ih, List.flatMap_cons]

theorem tests_of_isTest (h : p.isTest = true) : p.tests = [p] := by
  cases p <;> first | rfl | simp [isTest] at h

theorem mem_tests_and : t ∈ (and parts).tests ↔ ∃ p ∈ parts, t ∈ p.tests := by
  rw [tests, testsOfAll_eq, List.mem_flatMap]

theorem mem_tests_or : t ∈ (or parts).tests ↔ ∃ p ∈ parts, t ∈ p.tests := by
  rw [tests, testsOfAll_eq, List.mem_flatMap]

theorem isTest_of_mem_tests (h : t ∈ p.tests) : t.isTest = true := by
  induction p using of_parts with
  | test p hp =>
    rw [tests_of_isTest hp, List.mem_singleton] at h
    rwa [h]
  | and parts ih =>
    obtain ⟨p, hp, ht⟩ := mem_tests_and.mp h
    exact ih p hp ht
  | or parts ih =>
    obtain ⟨p, hp, ht⟩ := mem_tests_or.mp h
    exact ih p hp ht

/-- No test is negated from outside: more tests met never make a predicate fail. -/
theorem holds_mono (h : ∀ t ∈ p.tests, met t → met' t) (hp : p.holds met) : p.holds met' := by
  induction p using of_parts with
  | test p ht =>
    rw [holds_of_isTest ht] at hp ⊢
    exact h p (by simp [tests_of_isTest ht]) hp
  | and parts ih =>
    rw [holds_and] at hp ⊢
    intro q hq
    exact ih q hq (fun t ht => h t (mem_tests_and.mpr ⟨q, hq, ht⟩)) (hp q hq)
  | or parts ih =>
    rw [holds_or] at hp ⊢
    obtain ⟨q, hq, hp⟩ := hp
    exact ⟨q, hq, ih q hq (fun t ht => h t (mem_tests_or.mpr ⟨q, hq, ht⟩)) hp⟩

theorem holds_congr (h : ∀ t ∈ p.tests, met t ↔ met' t) : p.holds met ↔ p.holds met' :=
  ⟨holds_mono fun t ht => (h t ht).mp, holds_mono fun t ht => (h t ht).mpr⟩

end CostQuery.Predicate
