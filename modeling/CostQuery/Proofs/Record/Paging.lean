import CostQuery.Proofs.Plan.Stages
import CostQuery.Query.Validate
import CostQuery.Record.Result

/-! Pages with one row beyond them: a store that skips and limits gives the slice of the whole
result. -/

namespace CostQuery
variable {α : Type}

/-! The row beyond a page. -/

theorem take_fetched (rows : List α) (skip limit : Nat) :
    ((rows.drop skip).take (limit + 1)).take limit = (rows.drop skip).take limit := by
  rw [List.take_take, Nat.min_eq_left (Nat.le_succ limit)]

theorem lt_length_fetched (rows : List α) (skip limit : Nat) :
    limit < ((rows.drop skip).take (limit + 1)).length ↔ skip + limit < rows.length := by
  rw [List.length_take, List.length_drop]
  omega

namespace Page
variable {page : Page}

/-- The rows before a page, those on it and one more are fewer than `2 ^ 63`. -/
structure Fits (page : Page) : Prop where
  one_le_start : 1 ≤ page.start
  one_le_limit : 1 ≤ page.limit
  bounded : (page.start - 1) * page.limit + page.limit + 1 < Nat.pow 2 63

theorem fits_of_ofRequest {r : Option Request.Page} (h : ofRequest r = .ok (some page)) :
    page.Fits := by
  rw [ofRequest] at h
  split at h
  · cases h
  · next start limit hr =>
    obtain ⟨p, -, hlimit⟩ := Option.bind_eq_some_iff.mp hr
    obtain ⟨n, hn, heq⟩ := Option.map_eq_some_iff.mp hlimit
    obtain ⟨-, rfl⟩ := Prod.mk.inj heq
    have hpos : 0 < n := by simpa using (Option.filter_eq_some_iff.mp hn).2
    simp only at h
    split at h
    · next hbound =>
      obtain rfl := Option.some.inj (Except.ok.inj h)
      exact ⟨Nat.le_max_right _ _, hpos, hbound⟩
    · cases h

theorem count_bound : Nat.pow 2 63 ≤ maxCount := by decide

theorem Fits.offset_eq (h : page.Fits) : page.offset = (page.start - 1) * page.limit := by
  have hbound := h.bounded
  have hmax := count_bound
  exact Nat.min_eq_left (by omega)

theorem Fits.addCounts_offset (h : page.Fits) :
    addCounts page.offset page.limit = page.offset + page.limit := by
  have hbound := h.bounded
  have hmax := count_bound
  rw [h.offset_eq]
  exact Nat.min_eq_left (by omega)

theorem Fits.addCounts_one (h : page.Fits) : addCounts page.limit 1 = page.limit + 1 := by
  have hbound := h.bounded
  have hmax := count_bound
  exact Nat.min_eq_left (by omega)

end Page

namespace AnalyzePlan

/-- The rows that a store returns, of all rows in order. -/
def fetched (p : AnalyzePlan) (rows : List α) : List α :=
  let rest := rows.drop ((p.stages.findSome? Stage.skip?).getD 0)
  match p.fetchLimit? with
  | some n => rest.take n
  | none => rest

/-- Rows fetched for a page give the slice of all rows, and every count on the way is exact. -/
theorem result_fetched {r : Option Request.Page} {q : AnalyzeQuery} {plan : AnalyzePlan}
    (hpage : Page.ofRequest r = .ok q.page) (h : AnalyzePlan.ofQuery q = .ok plan) :
    (∀ rows : List Record, plan.result (plan.fetched rows) =
      ⟨(pageSlice rows q.page).results.map plan.record, (pageSlice rows q.page).more⟩) ∧
    ∀ page ∈ q.page,
      plan.stages.findSome? Stage.skip? = some ((page.start - 1) * page.limit) ∧
      plan.fetchLimit? = some (page.limit + 1) ∧
      1 ≤ page.start ∧ 1 ≤ page.limit ∧
      (page.start - 1) * page.limit + page.limit + 1 < Nat.pow 2 63 ∧
      page.offset = (page.start - 1) * page.limit ∧
      addCounts page.offset page.limit = page.offset + page.limit := by
  obtain ⟨-, rfl⟩ := AnalyzePlan.ofQuery_ok h
  have hskip := q.skip_stages q.draft
  have hlimit := q.limit_stages q.draft
  cases hq : q.page with
  | none =>
    rw [hq] at hskip hlimit
    refine ⟨fun rows => ?_, fun page hmem => absurd hmem (by simp)⟩
    simp [fetched, fetchLimit?, result, pageSlice, hskip, hlimit]
  | some page =>
    have hfits : page.Fits := Page.fits_of_ofRequest (hq ▸ hpage)
    rw [hq, Option.map_some] at hskip hlimit
    rw [hfits.addCounts_one] at hlimit
    constructor
    · intro rows
      have hmore := lt_length_fetched rows page.offset page.limit
      simp only [fetched, fetchLimit?, result, pageSlice, hskip, hlimit, Option.getD_some,
        Option.map_some, take_fetched, hmore, hfits.addCounts_offset]
    · intro page' hmem
      obtain rfl := Option.mem_some_iff.mp hmem
      exact ⟨hfits.offset_eq ▸ hskip, hlimit, hfits.one_le_start, hfits.one_le_limit,
        hfits.bounded, hfits.offset_eq, hfits.addCounts_offset⟩

/-- The third page of ten rows each. -/
theorem result_fetched_third :
    ∃ plan, Page.ofRequest (some ⟨some 3, some 10⟩) = .ok (some ⟨3, 10⟩) ∧
      AnalyzePlan.ofQuery { costsByRegion with page := some ⟨3, 10⟩ } = .ok plan ∧
      (∀ rows : List Record, plan.result (plan.fetched rows) =
        ⟨(pageSlice rows (some ⟨3, 10⟩)).results.map plan.record,
          (pageSlice rows (some ⟨3, 10⟩)).more⟩) ∧
      plan.stages.findSome? Stage.skip? = some 20 ∧ plan.fetchLimit? = some 11 := by
  have hpage : Page.ofRequest (some ⟨some 3, some 10⟩) = .ok (some ⟨3, 10⟩) := rfl
  have h : AnalyzePlan.ofQuery { costsByRegion with page := some ⟨3, 10⟩ } = .ok _ := rfl
  obtain ⟨hrows, hcounts⟩ := result_fetched hpage h
  obtain ⟨hskip, hlimit, -⟩ := hcounts ⟨3, 10⟩ rfl
  exact ⟨_, hpage, h, hrows, hskip, hlimit⟩

end AnalyzePlan
end CostQuery
