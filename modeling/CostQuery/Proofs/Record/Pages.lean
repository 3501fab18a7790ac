import CostQuery.Record.Result
import Mathlib.Data.List.Basic

/-! Pages of rows that are all at hand: one after the other they are the rows. -/

namespace CostQuery
variable {α : Type} {a n start limit : Nat}

/-! Counts that stop at the greatest one are exact as far as a list can tell, since the length of
a list is such a count itself. -/

theorem counted_lt_iff (h : n ≤ maxCount) : min a maxCount < n ↔ a < n := by
  omega

theorem drop_counted {rows : List α} (h : rows.length ≤ maxCount) (n : Nat) :
    rows.drop (min n maxCount) = rows.drop n := by
  by_cases hn : n ≤ maxCount
  · rw [Nat.min_eq_left hn]
  · have hall : rows.length ≤ n := by omega
    rw [Nat.min_eq_right (by omega), List.drop_eq_nil_of_le h, List.drop_eq_nil_of_le hall]

/-- Where a page ends, by sums and products that stop, is where it ends, or the greatest count. -/
theorem Page.addCounts_offset_eq (page : Page) :
    addCounts page.offset page.limit =
      min ((page.start - 1) * page.limit + page.limit) maxCount := by
  unfold Page.offset addCounts mulCounts
  omega

/-- A page by arithmetic that never stops. -/
theorem pageSlice_eq {rows : List Record} (h : rows.length ≤ maxCount) (start limit : Nat) :
    pageSlice rows (some ⟨start, limit⟩) =
      ⟨(rows.drop ((start - 1) * limit)).take limit,
        decide ((start - 1) * limit + limit < rows.length)⟩ := by
  have hdrop : rows.drop (Page.mk start limit).offset = rows.drop ((start - 1) * limit) :=
    drop_counted h _
  have hmore : addCounts (Page.mk start limit).offset limit < rows.length ↔
      (start - 1) * limit + limit < rows.length := by
    rw [Page.addCounts_offset_eq, counted_lt_iff h]
  simp only [pageSlice, hdrop, hmore]

/-- The pages up to a number are the rows up to the end of the last of them. -/
theorem flatMap_pages (rows : List α) (limit k : Nat) :
    (List.range' 1 k).flatMap (fun start => (rows.drop ((start - 1) * limit)).take limit) =
      rows.take (k * limit) := by
  induction k with
  | zero => simp
  | succ k ih =>
    rw [List.range'_1_concat, List.flatMap_append, ih, Nat.succ_mul, List.take_add]
    simp

/-- There is something on the next page exactly if there is something after this one. -/
theorem page_ne_nil_iff (rows : List α) (hlimit : 1 ≤ limit) (n : Nat) :
    (rows.drop n).take limit ≠ [] ↔ n < rows.length := by
  rw [Ne, ← List.length_eq_zero_iff, List.length_take, List.length_drop]
  omega

theorem Page.end_eq_next (hstart : 1 ≤ start) :
    (start - 1) * limit + limit = (start + 1 - 1) * limit := by
  obtain ⟨k, rfl⟩ := Nat.exists_eq_add_of_le' hstart
  rw [Nat.add_sub_cancel, Nat.add_sub_cancel, Nat.succ_mul]

/-- Pages of any size, in order of their numbers, are the rows without loss or repetition, and
each of them tells whether there is another. No number and no size of a page makes its place wrap
around: it is exact, or the greatest count, which no row comes after. -/
theorem pages_tile {rows : List Record} (h : rows.length ≤ maxCount) (limit : Nat) :
    (∀ k, (List.range' 1 k).flatMap
        (fun start => (pageSlice rows (some ⟨start, limit⟩)).results) =
      rows.take (min rows.length (k * limit))) ∧
    (∀ start, (pageSlice rows (some ⟨start, limit⟩)).results.length ≤ limit) ∧
    (1 ≤ limit → ∀ k, 1 ≤ k →
      ((pageSlice rows (some ⟨k, limit⟩)).more = true ↔
        (pageSlice rows (some ⟨k + 1, limit⟩)).results ≠ [])) ∧
    pageSlice rows (some ⟨0, limit⟩) = pageSlice rows (some ⟨1, limit⟩) ∧
    ∀ start,
      (Page.mk start limit).offset = min ((start - 1) * limit) maxCount ∧
      addCounts (Page.mk start limit).offset limit =
        min ((start - 1) * limit + limit) maxCount ∧
      pageSlice rows (some ⟨start, limit⟩) =
        ⟨(rows.drop ((start - 1) * limit)).take limit,
          decide ((start - 1) * limit + limit < rows.length)⟩ := by
  have hpage := pageSlice_eq h
  refine ⟨fun k => ?_, fun start => ?_, fun hlimit k hk => ?_, rfl, fun start => ?_⟩
  · simp only [hpage, flatMap_pages]
    rw [Nat.min_comm, ← List.take_take, List.take_length]
  · rw [hpage]
    exact List.length_take_le limit _
  · rw [hpage, hpage]
    simp only [decide_eq_true_eq]
    rw [page_ne_nil_iff rows hlimit, Page.end_eq_next hk]
  · exact ⟨rfl, Page.addCounts_offset_eq ⟨start, limit⟩, hpage start limit⟩

/-- Rows that fill two pages of two exactly. -/
def fourRows : List Record := (List.range 4).map fun i => [("i", .int i)]

theorem pages_tile_two :
    fourRows.length ≤ maxCount ∧
      (List.range' 1 2).flatMap (fun start => (pageSlice fourRows (some ⟨start, 2⟩)).results) =
        fourRows.take (min fourRows.length (2 * 2)) ∧
      (pageSlice fourRows (some ⟨1, 2⟩)).more = true ∧
      ((pageSlice fourRows (some ⟨2, 2⟩)).more = true ↔
        (pageSlice fourRows (some ⟨3, 2⟩)).results ≠ []) ∧
      (pageSlice fourRows (some ⟨3, 2⟩)).results = [] := by
  have h : fourRows.length ≤ maxCount := by decide
  obtain ⟨htile, -, hmore, -⟩ := pages_tile h 2
  exact ⟨h, htile 2, rfl, hmore (by decide) 2 (by decide), rfl⟩

end CostQuery
