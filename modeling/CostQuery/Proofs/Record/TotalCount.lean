import CostQuery.Plan.Search
import CostQuery.Proofs.Outcome
import CostQuery.Proofs.Record.Paging
import CostQuery.Record.Result
import CostQuery.Sql.Search

/-! The total of a search rides on the rows of its page: past the last row there is none to carry
it. -/

namespace CostQuery
variable {α : Type} {w : Warehouse} {q : SearchQuery} {l : Listing} {rows : List α}

/-- The rows after those skipped, up to the limit. -/
def sliced (skip : Nat) (limit : Option Nat) (rows : List α) : List α :=
  match limit with
  | some n => (rows.drop skip).take n
  | none => rows.drop skip

theorem mem_of_sliced {skip : Nat} {limit : Option Nat} {row : α}
    (h : row ∈ sliced skip limit rows) : row ∈ rows := by
  cases limit with
  | none => exact List.mem_of_mem_drop h
  | some n => exact List.mem_of_mem_drop (List.mem_of_mem_take h)

theorem sliced_eq_nil {skip : Nat} {limit : Option Nat} :
    sliced skip limit rows = [] ↔ limit = some 0 ∨ rows.length ≤ skip := by
  cases limit with
  | none => simp [sliced]
  | some n => simp [sliced, List.take_eq_nil_iff]

/-- The rows that a plan asks for, of all rows in order. -/
def Listing.fetched (l : Listing) (rows : List α) : List α := sliced l.skip l.limit rows

/-- The rows that a warehouse returns. -/
def Sql.Select.fetched (s : Sql.Select) (rows : List α) : List α :=
  sliced (s.offset.getD 0) s.limit rows

/-- Rows with the number of all of them. -/
def counted (rows : List Record) : List Record :=
  rows.map fun row => row.put Sql.windowCountName.text (.int rows.length)

theorem get?_of_counted {rows : List Record} {row : Record} (h : row ∈ counted rows) :
    row.get? Sql.windowCountName.text = some (.int rows.length) := by
  obtain ⟨r, -, rfl⟩ := List.mem_map.mp h
  exact Members.get?_put_self r _ _

theorem firstCount_of_get? {name : String} {n : Nat} {rows : List Record}
    (h : ∀ row ∈ rows, row.get? name = some (.int n)) :
    firstCount name rows = if rows = [] then 0 else n := by
  cases rows with
  | nil => rfl
  | cons row rest =>
    rw [firstCount, h row List.mem_cons_self, if_neg (List.cons_ne_nil row rest)]
    simp [Json.toCount?, Json.int]

namespace SearchPlan

/-- The total that is told with the rows fetched. -/
def pageTotal (p : SearchPlan) (l : Listing) (rows : List Record) : Nat :=
  (p.result (l.fetched (counted rows))).totalCount

theorem pageTotal_eq (p : SearchPlan) (l : Listing) (rows : List Record) :
    p.pageTotal l rows = if l.fetched rows = [] then 0 else rows.length := by
  have hcarried : ∀ row ∈ l.fetched (counted rows),
      row.get? Sql.windowCountName.text = some (.int rows.length) :=
    fun row hrow => get?_of_counted (mem_of_sliced hrow)
  have hempty : l.fetched (counted rows) = [] ↔ l.fetched rows = [] := by
    rw [Listing.fetched, Listing.fetched, sliced_eq_nil, sliced_eq_nil, counted, List.length_map]
  rw [pageTotal, result, firstCount_of_get? hcarried]
  simp only [hempty]

theorem page_of_mode (h : (ofQuery w q).mode = .rows l) :
    l.skip = (q.page.map Page.offset).getD 0 ∧ l.limit = q.page.map (·.limit) := by
  simp only [ofQuery, SearchQuery.mode] at h
  split at h
  · cases h
  · split at h
    · cases h
    · obtain rfl := SearchMode.rows.inj h
      exact ⟨rfl, rfl⟩

/-- Without a page nothing is skipped. -/
theorem fetched_eq_nil (h : (ofQuery w q).mode = .rows l) : l.fetched rows = [] ↔
    rows = [] ∨ ∃ page ∈ q.page, page.limit = 0 ∨ rows.length ≤ page.offset := by
  obtain ⟨hskip, hlimit⟩ := page_of_mode h
  rw [Listing.fetched, sliced_eq_nil, hskip, hlimit]
  cases hpage : q.page with
  | none => simp
  | some page =>
    have hnil : rows = [] → rows.length ≤ page.offset := by
      rintro rfl
      exact Nat.zero_le _
    simpa using fun h => Or.inr (hnil h)

/-- A search of rows asks the warehouse for the rows of its page, each with the number of rows on
all pages. -/
theorem fetched_of_statement {s : Sql.Statement} (h : (ofQuery w q).mode = .rows l)
    (hs : Sql.Statement.ofSearchPlan w (ofQuery w q) = .ok s) :
    s.body.fetched rows = l.fetched rows ∧ Sql.Reader.countItem ∈ s.body.items := by
  obtain ⟨hskip, hlimit⟩ := page_of_mode h
  simp only [Sql.Statement.ofSearchPlan, Sql.Reader.search, h, bind_ok, pure_ok,
    Sql.Reader.listed] at hs
  obtain ⟨table, -, explode, -, filter, -, _, ⟨columns, -, computed, -, order, -, rfl⟩, rfl⟩ := hs
  have hoffset : (l.limit.map fun _ => l.skip).getD 0 = l.skip := by
    rw [hskip, hlimit]
    cases q.page <;> rfl
  refine ⟨?_, by simp⟩
  rw [Sql.Select.fetched, Listing.fetched]
  simp only [hoffset]

/-- The total told with a page is the number of all rows if the page has a row or there is none at
all; past the last row it is zero. The rows are those that the statement asks for, and on a page
that was checked the skipped ones are counted exactly. -/
theorem pageTotal_iff (h : (ofQuery w q).mode = .rows l) (rows : List Record) :
    ((ofQuery w q).pageTotal l rows = rows.length ↔
      rows = [] ∨ ∀ page ∈ q.page, page.limit ≠ 0 ∧ page.offset < rows.length) ∧
    ((ofQuery w q).pageTotal l rows ≠ rows.length → (ofQuery w q).pageTotal l rows = 0) ∧
    (∀ s, Sql.Statement.ofSearchPlan w (ofQuery w q) = .ok s →
      s.body.fetched (counted rows) = l.fetched (counted rows) ∧
        Sql.Reader.countItem ∈ s.body.items) ∧
    ∀ r, Page.ofRequest r = .ok q.page → ∀ page ∈ q.page,
      page.limit ≠ 0 ∧ page.offset = (page.start - 1) * page.limit := by
  have hpages : (∀ page ∈ q.page, page.limit ≠ 0 ∧ page.offset < rows.length) ↔
      ¬ ∃ page ∈ q.page, page.limit = 0 ∨ rows.length ≤ page.offset := by
    simp only [not_exists, not_and, not_or, not_le]
  refine ⟨?_, ?_, fun s hs => fetched_of_statement h hs, fun r hr page hpage => ?_⟩
  · rw [pageTotal_eq, hpages]
    by_cases hnil : l.fetched rows = []
    · rw [if_pos hnil, eq_comm, List.length_eq_zero_iff]
      rcases (fetched_eq_nil h).mp hnil with hrows | hpast
      · exact iff_of_true hrows (.inl hrows)
      · exact (or_iff_left (not_not.mpr hpast)).symm
    · rw [if_neg hnil]
      exact iff_of_true rfl (.inr fun hpast => hnil ((fetched_eq_nil h).mpr (.inr hpast)))
  · rw [pageTotal_eq]
    split <;> simp
  · have hfits : page.Fits := Page.fits_of_ofRequest (hpage ▸ hr)
    have hlimit := hfits.one_le_limit
    exact ⟨by omega, hfits.offset_eq⟩

/-- The second of two pages: eleven costs, ten on the first. -/
def secondPage : SearchQuery where
  filter := []
  filterOr := []
  sort := []
  page := some ⟨2, 10⟩
  distinct := none
  select := []
  unwind := none
  minimal := false
  only := ["cost"]
  countOnly := false

def costRows (n : Nat) : List Record := (List.range n).map fun i => [("cost", .int i)]

theorem pageTotal_iff_second :
    ∃ l, (ofQuery {} secondPage).mode = .rows l ∧
      (ofQuery {} secondPage).pageTotal l (costRows 11) = 11 := by
  have h : (ofQuery {} secondPage).mode = .rows _ := rfl
  have hpage : ∀ page ∈ secondPage.page, page.limit ≠ 0 ∧
      page.offset < (costRows 11).length := by
    intro page hpage
    obtain rfl := Option.mem_some_iff.mp hpage
    decide
  exact ⟨_, h, (pageTotal_iff h (costRows 11)).1.mpr (.inr hpage)⟩

/-- Ten costs are one page. Asked for the second, the search tells of none. -/
theorem pageTotal_past :
    ∃ l, (ofQuery {} secondPage).mode = .rows l ∧
      (ofQuery {} secondPage).pageTotal l (costRows 10) = 0 ∧ (costRows 10).length = 10 :=
  ⟨_, rfl, by decide, by decide⟩

end SearchPlan
end CostQuery
