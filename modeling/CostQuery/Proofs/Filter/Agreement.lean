import CostQuery.Proofs.Filter.Asks
import CostQuery.Proofs.Store.Plain

/-! The two stores filter alike, save for comparisons of moments that are missing. -/

namespace CostQuery

section
variable {r : Sql.Reader} {g : Engine} {f : Fields} {p t : Predicate} {e : Sql.Expr}

theorem not_asks_of_meetsNull (h : t.MeetsNull g f) : ¬ t.Asks g f := by
  cases t with
  | datetime c op text =>
    rintro ⟨s, a, b, hs, -⟩
    rw [h.1] at hs
    cases hs
  | timediff c op time =>
    rintro ⟨s, a, hs, -⟩
    rw [h.1] at hs
    cases hs
  | _ => exact h.elim

theorem not_asks_of_refers (hg : g.Alike) (h : t.Refers) : ¬ t.Asks g f := by
  cases t with
  | datetime c op text =>
    rintro ⟨s, a, b, -, -, hb, -⟩
    rw [hg.dollar text h] at hb
    cases hb
  | _ => exact h.elim

/-- A filter selects no row that it does not match as a document. It matches the documents besides
in which a missing moment meets a test, or in which a moment is written as a path. -/
theorem filters_alike {filter filterOr : List Condition}
    (hp : Predicate.ofFilters? filter filterOr = some p) (hu : r.unwind = none)
    (hf : f.OnlyTexts) (hg : g.Alike) (htexts : ∀ t ∈ p.tests, t.OnTexts)
    (hstored : ∀ t ∈ p.tests, ∀ c, t.column? = some c → r.ReadsStored c)
    (h : r.filter p = .ok e) :
    (e.Selects g f → (Pipeline.Match.ofPredicate p).holds g f = true) ∧
      ((∀ t ∈ p.tests, ¬ t.Refers ∧ ¬ t.MeetsNull g f) →
        (e.Selects g f ↔ (Pipeline.Match.ofPredicate p).holds g f = true)) ∧
      ((∀ t ∈ p.tests, ¬ t.Refers) →
        ((Pipeline.Match.ofPredicate p).holds g f = true ↔
          p.holds fun t => Sql.Met g f r.filter t ∨ t.MeetsNull g f)) ∧
      ∀ t ∈ p.tests, ¬ t.Refers →
        ((Sql.Met g f r.filter t ↔ Pipeline.Match.Met g f t) ↔ ¬ t.MeetsNull g f) := by
  have hplain : ∀ t ∈ p.tests, t.Plain r := fun t ht =>
    { texts := htexts t ht
      stored := hstored t ht
      named := fun c hc => Predicate.column_of_ofFilters hp ht hc }
  have hsql : ∀ t ∈ p.tests, (Sql.Met g f r.filter t ↔ t.Asks g f) := by
    intro t ht
    obtain ⟨e', he'⟩ := r.filter_joins.test_ok h ht
    have := selects_iff_asks hu hf hg (Predicate.isTest_of_mem_tests ht) (hplain t ht) he'
    simpa [Sql.Met, he'] using this
  have hdoc : ∀ t ∈ p.tests, ¬ t.Refers →
      (Pipeline.Match.Met g f t ↔ t.Asks g f ∨ t.MeetsNull g f) := fun t ht =>
    met_iff_asks hf (Predicate.isTest_of_mem_tests ht) (hplain t ht)
  rw [r.filter_joins.selects_iff h, Pipeline.Match.holds_ofPredicate]
  refine ⟨?_, ?_, ?_, ?_⟩
  · refine Predicate.holds_mono fun t ht hmet => ?_
    have hasks := (hsql t ht).mp hmet
    have hrefers : ¬ t.Refers := fun hr => not_asks_of_refers hg hr hasks
    exact (hdoc t ht hrefers).mpr (Or.inl hasks)
  · intro hnone
    refine Predicate.holds_congr fun t ht => ?_
    rw [hsql t ht, hdoc t ht (hnone t ht).1, or_iff_left (hnone t ht).2]
  · intro hnone
    refine Predicate.holds_congr fun t ht => ?_
    rw [hsql t ht, hdoc t ht (hnone t ht)]
  · intro t ht hrefers
    rw [hsql t ht, hdoc t ht hrefers]
    constructor
    · intro hsame hnull
      exact not_asks_of_meetsNull hnull (hsame.mpr (Or.inr hnull))
    · intro hnull
      rw [or_iff_left hnull]

end

theorem plain_alike (now : Int) : (Engine.plain now).Alike where
  contains text s := by
    have hpattern : (Sql.containing text).toList =
        '%' :: ((Text.escape Text.likeSpecial text).toList ++ ['%']) := by
      simp [Sql.containing]
    simp only [Engine.plain, hpattern, List.drop_one, List.tail_cons, List.dropLast_concat]
    rw [Text.unescape_escape (by decide), Text.unescape_escape (by decide)]
  dollar text h := by
    obtain ⟨rest, hrest⟩ : ∃ rest, text.toList = '$' :: rest := by
      cases ht : text.toList with
      | nil => simp [ht] at h
      | cons c rest =>
        rw [ht, List.head?_cons, Option.some.injEq] at h
        exact ⟨rest, by rw [h]⟩
    have hyear : DateText.year? ('$' :: rest) = none := rfl
    simp [Engine.plain, hrest, DateText.date?, hyear]

/-- A record of one provider, with a tag and the time of its last change. -/
def tagged : Fields := fun c =>
  if c = ⟨"provider", none⟩ then .text "aws"
  else if c = ⟨"tags", some "Name"⟩ then .text "My-WEB_1"
  else if c = ⟨"updated_at", none⟩ then .text "2024-02-01"
  else .null

theorem tagged_onlyTexts : tagged.OnlyTexts := by
  intro c
  unfold tagged
  repeat' split
  all_goals simp

theorem filters_alike_tagged :
    ∃ p e,
      Predicate.ofFilters? [⟨"provider", .eq, .scalar (.text "aws")⟩,
          ⟨"updated_at", .datetimeGte, .scalar (.text "2024-01-05")⟩]
        [⟨"tags.Name", .contain, .scalar (.text "web_")⟩,
          ⟨"region_code", .notIn, .list [.text "kr", .null]⟩] = some p ∧
      (Sql.Reader.mk {} none).filter p = .ok e ∧
      e.Selects (.plain 0) tagged ∧
      (Pipeline.Match.ofPredicate p).holds (.plain 0) tagged = true := by
  have hsome : Predicate.ofFilters? [⟨"provider", .eq, .scalar (.text "aws")⟩,
      ⟨"updated_at", .datetimeGte, .scalar (.text "2024-01-05")⟩]
      [⟨"tags.Name", .contain, .scalar (.text "web_")⟩,
        ⟨"region_code", .notIn, .list [.text "kr", .null]⟩] =
    some (.and [.compare ⟨"provider", none⟩ .eq (.text "aws"),
      .datetime ⟨"updated_at", none⟩ .gte "2024-01-05",
      .or [.contains ⟨"tags", some "Name"⟩ "web_" false,
        .and [.oneOf ⟨"region_code", none⟩ [.text "kr"] true,
          .isNotNull ⟨"region_code", none⟩]]]) := rfl
  obtain ⟨hsound, -⟩ := filters_alike (g := .plain 0) (f := tagged) (r := ⟨{}, none⟩) hsome rfl
    tagged_onlyTexts (plain_alike 0)
    (by
      simp only [Predicate.tests, Predicate.testsOfAll, List.append_nil, List.cons_append,
        List.nil_append, List.forall_mem_cons]
      exact ⟨⟨_, rfl⟩, trivial, trivial, ⟨["kr"], rfl⟩, trivial, by simp⟩)
    (by
      simp [Predicate.tests, Predicate.testsOfAll, Predicate.column?, Sql.Reader.ReadsStored]
      decide)
    rfl
  refine ⟨_, _, hsome, rfl, ?_, hsound ?_⟩ <;> decide

/-- A time before a day: the document of a record without the time matches, and SQL selects no
row. -/
theorem not_alike_missing :
    ∃ p e,
      Predicate.ofFilters? [⟨"updated_at", .datetimeLt, .scalar (.text "2024-01-05")⟩] [] =
        some p ∧
      (Sql.Reader.mk {} none).filter p = .ok e ∧
      ¬ e.Selects (.plain 0) (fun _ => .null) ∧
      (Pipeline.Match.ofPredicate p).holds (.plain 0) (fun _ => .null) = true := by
  refine ⟨_, _, rfl, rfl, ?_, ?_⟩ <;> decide

end CostQuery
