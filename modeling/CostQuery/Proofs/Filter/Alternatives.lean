import CostQuery.Proofs.Filter.Conditions

/-! Alternatives added to a search. One that asks for something narrows the search only where no
other alternative asks for anything. -/

namespace CostQuery
variable {m : Matching} {f : Fields} {filter filterOr : List Condition} {c : Condition}

/-- The record meets the predicate of the conditions; where they leave none, every record does. -/
def Accepts (m : Matching) (f : Fields) (filter filterOr : List Condition) : Prop :=
  ∀ p ∈ Predicate.ofFilters? filter filterOr, p.holds (Predicate.Meets m f)

namespace Condition

/-- One of the conditions that ask for something holds, if there are any. -/
def SomeHolds (m : Matching) (f : Fields) (conds : List Condition) : Prop :=
  (∃ c ∈ conds, ¬ c.AsksNothing) → ∃ c ∈ conds, ¬ c.AsksNothing ∧ c.Holds m f

theorem Fitting.concat (h : Fitting filterOr) (hc : c.operator.Takes c.operand) :
    Fitting (filterOr ++ [c]) :=
  List.forall_mem_append.mpr ⟨h, List.forall_mem_singleton.mpr hc⟩

theorem accepts_iff (h : Fitting filterOr) : Accepts m f filter filterOr ↔
    (∀ p ∈ filter.filterMap Predicate.ofCondition?, p.holds (Predicate.Meets m f)) ∧
      SomeHolds m f filterOr := by
  rw [Accepts, Predicate.holds_ofFilters, h.lowered_ne_nil, h.some_lowered, SomeHolds]

theorem someHolds_concat (h : SomeHolds m f filterOr) : SomeHolds m f (filterOr ++ [c]) ↔
    (∃ a ∈ filterOr, ¬ a.AsksNothing) ∨ c.AsksNothing ∨ c.Holds m f := by
  have hkept : (∃ a ∈ filterOr ++ [c], ¬ a.AsksNothing) ↔
      (∃ a ∈ filterOr, ¬ a.AsksNothing) ∨ ¬ c.AsksNothing := by
    simp [or_and_right, exists_or]
  have hheld : (∃ a ∈ filterOr ++ [c], ¬ a.AsksNothing ∧ a.Holds m f) ↔
      (∃ a ∈ filterOr, ¬ a.AsksNothing ∧ a.Holds m f) ∨ (¬ c.AsksNothing ∧ c.Holds m f) := by
    simp [or_and_right, exists_or]
  rw [SomeHolds, hkept, hheld]
  by_cases hbefore : ∃ a ∈ filterOr, ¬ a.AsksNothing
  · -- The alternative that holds already is still there.
    exact iff_of_true (fun _ => .inl (h hbefore)) (.inl hbefore)
  · have hnone : ¬ ∃ a ∈ filterOr, ¬ a.AsksNothing ∧ a.Holds m f :=
      fun ⟨a, ha, hasks, _⟩ => hbefore ⟨a, ha, hasks⟩
    by_cases hc : c.AsksNothing <;> simp only [hbefore, hnone, hc] <;> simp

end Condition

/-- A record that a search accepts is accepted with one more alternative too, if an alternative
asked for something before, or the new one asks for nothing or holds. Otherwise the new one is the
only alternative, and the record is left out. -/
theorem accepts_concat {rs : List Request.Condition} {r : Request.Condition}
    (hor : rs.mapM Condition.ofRequest = .ok filterOr) (hc : Condition.ofRequest r = .ok c)
    (h : Accepts m f filter filterOr) : Accepts m f filter (filterOr ++ [c]) ↔
      (∃ a ∈ filterOr, ¬ a.AsksNothing) ∨ c.AsksNothing ∨ c.Holds m f := by
  have hfit : Condition.Fitting filterOr := Condition.fitting_of_ofRequest hor
  have hfit' := hfit.concat (Condition.takes_of_ofRequest hc)
  obtain ⟨hfilter, hsome⟩ := (Condition.accepts_iff hfit).mp h
  rw [Condition.accepts_iff hfit', Condition.someHolds_concat hsome]
  exact and_iff_right hfilter

/-- A cost below null, and a name. -/
def namedRequests : List Request.Condition :=
  [{ key := "cost", operator := some "lt" },
    { key := "tags.Name", value := .str "web_", operator := some "contain" }]

def costBelowNull : Condition := ⟨"cost", .lt, .scalar .null⟩

def namedWeb : Condition := ⟨"tags.Name", .contain, .scalar (.text "web_")⟩

def fromAwsRequest : Request.Condition := { key := "provider", value := .str "aws" }

def fromAws : Condition := ⟨"provider", .eq, .scalar (.text "aws")⟩

/-- A name is asked for, so that costs of another provider stay. -/
theorem accepts_concat_named :
    namedRequests.mapM Condition.ofRequest = .ok [costBelowNull, namedWeb] ∧
      Condition.ofRequest fromAwsRequest = .ok fromAws ∧
      Accepts (Engine.plain 0).matching unprovided [] [costBelowNull, namedWeb] ∧
      Accepts (Engine.plain 0).matching unprovided [] ([costBelowNull, namedWeb] ++ [fromAws]) := by
  have hor : namedRequests.mapM Condition.ofRequest = .ok [costBelowNull, namedWeb] := rfl
  have hc : Condition.ofRequest fromAwsRequest = .ok fromAws := rfl
  have hnamed : namedWeb.Holds (Engine.plain 0).matching unprovided :=
    ⟨nofun, "My-WEB_1", rfl, by decide⟩
  have haccepts : Accepts (Engine.plain 0).matching unprovided [] [costBelowNull, namedWeb] :=
    (Condition.accepts_iff (Condition.fitting_of_ofRequest hor)).mpr
      ⟨nofun, fun _ => ⟨namedWeb, by simp, nofun, hnamed⟩⟩
  exact ⟨hor, hc, haccepts, (accepts_concat hor hc haccepts).mpr (.inl ⟨namedWeb, by simp, nofun⟩)⟩

/-- Costs below null are all costs. With costs of one provider as an alternative, costs of no known
provider are left out. -/
theorem narrowed_by_aws :
    [namedRequests[0]].mapM Condition.ofRequest = .ok [costBelowNull] ∧
      Condition.ofRequest fromAwsRequest = .ok fromAws ∧
      Accepts (Engine.plain 0).matching unprovided [] [costBelowNull] ∧
      ¬ Accepts (Engine.plain 0).matching unprovided [] ([costBelowNull] ++ [fromAws]) := by
  refine ⟨rfl, rfl, nofun, fun h => ?_⟩
  obtain ⟨hprovider, -⟩ := h _ rfl
  exact hprovider rfl

end CostQuery
