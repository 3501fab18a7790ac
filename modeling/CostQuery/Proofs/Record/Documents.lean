import CostQuery.Proofs.Decimal.Places
import CostQuery.Proofs.Json.Views
import CostQuery.Proofs.Members
import CostQuery.Proofs.Pipeline.Names
import CostQuery.Record.Cell
import Mathlib.Data.List.Forall2

/-! Rows as documents: a decimal is wrapped there as the text of a decimal of the same value, and
whatever else a cell holds is written as in a record. Read back, the documents give the records of
the rows wherever the two decimals become the same float, which they may fail to do if their places
differ. All else agrees. -/

namespace CostQuery
open Decimal (Bounded)

mutual

/-- The names in a cell, at every depth. -/
def Cell.names : Cell → List String
  | .list cells => namesOfCells cells
  | .map entries => namesOfEntries entries
  | .null | .bool _ | .int _ | .float _ | .decimal _ | .text _ | .bytes _ => []

def namesOfCells : List Cell → List String
  | [] => []
  | c :: rest => c.names ++ namesOfCells rest

def namesOfEntries : List (String × Cell) → List String
  | [] => []
  | (k, c) :: rest => k :: (c.names ++ namesOfEntries rest)

end

/-- Cells with no cells in them, decimals apart. -/
def Cell.isPlain : Cell → Bool
  | .null | .bool _ | .int _ | .float _ | .text _ | .bytes _ => true
  | .decimal _ | .list _ | .map _ => false

/-- A value of a document that stands for a cell. The text of a decimal is read as one that it is
related to. -/
inductive DocumentValue (R : Bounded → Bounded → Prop) : Cell → Json → Prop
  | plain {c : Cell} (h : c.isPlain = true) : DocumentValue R c c.toJson
  | decimal {d e : Bounded} {text : String} (htext : Bounded.ofText? text = some e)
      (h : R d e) : DocumentValue R (.decimal d) (.obj [("$numberDecimal", .str text)])
  | list {cells : List Cell} {items : List Json}
      (h : List.Forall₂ (DocumentValue R) cells items) : DocumentValue R (.list cells) (.arr items)
  | map {entries : List (String × Cell)} {members : List (String × Json)}
      (hkeys : (Members.collect entries).map Prod.fst = members.map Prod.fst)
      (h : List.Forall₂ (DocumentValue R) ((Members.collect entries).map Prod.snd)
        (members.map Prod.snd)) : DocumentValue R (.map entries) (.obj members)

/-- Every row is an object of a document. -/
def DocumentRows (R : Bounded → Bounded → Prop) (rows : List Row) (docs : List Json) : Prop :=
  List.Forall₂ (DocumentValue R) (rows.map .map) docs

namespace Cell

theorem toJson_list (cells : List Cell) : (list cells).toJson = .arr (cells.map toJson) := by
  rw [toJson, cellsToJson_eq_map]

theorem toJson_map (entries : List (String × Cell)) :
    (map entries).toJson = .obj ((Members.collect entries).map fun e => (e.1, e.2.toJson)) := by
  rw [toJson, entriesToJson_eq_map, Members.collect_map]

section
variable {motive : Cell → Prop} (plain : ∀ c, c.isPlain = true → motive c)
  (decimal : ∀ d, motive (.decimal d))
  (list : ∀ cells, (∀ c ∈ cells, motive c) → motive (.list cells))
  (map : ∀ entries, (∀ e ∈ entries, motive e.2) → motive (.map entries))
include plain decimal list map

/-- Induction on what holds the cells. -/
@[elab_as_elim]
theorem of_contents : ∀ c, motive c
  | .list cells => list cells fun c _ => of_contents c
  | .map entries => map entries fun e _ => of_contents e.2
  | .decimal d => decimal d
  | .null => plain .null rfl
  | .bool b => plain (.bool b) rfl
  | .int n => plain (.int n) rfl
  | .float x => plain (.float x) rfl
  | .text s => plain (.text s) rfl
  | .bytes bs => plain (.bytes bs) rfl
termination_by c => sizeOf c
decreasing_by
  · have := List.sizeOf_lt_of_mem ‹_ ∈ cells›
    simp
    omega
  · have := List.sizeOf_lt_of_mem ‹_ ∈ entries›
    cases e
    simp at this ⊢
    omega

end

theorem names_subset_of_mem {cells : List Cell} {c : Cell} (h : c ∈ cells) :
    c.names ⊆ (list cells).names := by
  rw [names]
  induction cells with
  | nil => cases h
  | cons first rest ih =>
    rw [namesOfCells]
    rcases List.mem_cons.mp h with rfl | h
    · exact List.subset_append_left _ _
    · exact List.subset_append_of_subset_right _ (ih h)

theorem mem_names_of_mem {entries : List (String × Cell)} {e : String × Cell} (h : e ∈ entries) :
    e.1 ∈ (map entries).names ∧ e.2.names ⊆ (map entries).names := by
  rw [names]
  induction entries with
  | nil => cases h
  | cons first rest ih =>
    rw [namesOfEntries]
    rcases List.mem_cons.mp h with rfl | h
    · exact ⟨List.mem_cons_self,
        List.subset_cons_of_subset _ (List.subset_append_left _ _)⟩
    · obtain ⟨hname, hnames⟩ := ih h
      exact ⟨List.mem_cons_of_mem _ (List.mem_append_right _ hname),
        List.subset_cons_of_subset _ (List.subset_append_of_subset_right _ hnames)⟩

end Cell

namespace Json

/-- Only the name of a wrapped decimal makes an object one. -/
theorem wrappedDecimal?_eq_none {members : Members Json} (h : "$numberDecimal" ∉ members.keys) :
    wrappedDecimal? members = none := by
  unfold wrappedDecimal?
  split
  · exact absurd (List.mem_singleton_self _) h
  · rfl

theorem unwrapped_arr (items : List Json) :
    (arr items).unwrapped = .arr (items.map unwrapped) := by
  rw [unwrapped]
  congr 1
  induction items with
  | nil => rfl
  | cons v rest ih => rw [unwrappedItems, ih, List.map_cons]

theorem unwrappedMembers_eq (members : List (String × Json)) :
    unwrappedMembers members = members.map fun e => (e.1, e.2.unwrapped) := by
  induction members with
  | nil => rfl
  | cons e rest ih => rw [unwrappedMembers, ih, List.map_cons]

theorem unwrapped_obj_of_notMem {members : Members Json} (h : "$numberDecimal" ∉ members.keys) :
    (obj members).unwrapped = .obj (members.map fun e => (e.1, e.2.unwrapped)) := by
  rw [unwrapped, wrappedDecimal?_eq_none h, unwrappedMembers_eq]

theorem unwrapped_ofDecimalText {text : String} {e : Bounded}
    (h : Bounded.ofText? text = some e) :
    (obj [("$numberDecimal", .str text)]).unwrapped = decimalToJson e := by
  simp only [unwrapped, wrappedDecimal?, ofDecimalText, h]

theorem unwrapped_ofFloat (x : Float) : (ofFloat x).unwrapped = ofFloat x := by
  rw [ofFloat]
  split <;> rfl

end Json

theorem Cell.unwrapped_toJson {c : Cell} (h : c.isPlain = true) :
    c.toJson.unwrapped = c.toJson := by
  cases c with
  | float x => exact Json.unwrapped_ofFloat x
  | null | bool | int | text | bytes => rfl
  | decimal | list | map => cases h

/-- Where related members are of a kind as they are seen, the lists are as they are seen. -/
theorem forall₂_iff_map_eq {α β γ : Type} {p q : α → β → Prop} {g : α → γ} {k : β → γ}
    {as : List α} {bs : List β} (h : List.Forall₂ p as bs)
    (hq : ∀ a ∈ as, ∀ b, p a b → (g a = k b ↔ q a b)) :
    as.map g = bs.map k ↔ List.Forall₂ q as bs := by
  induction h with
  | nil => simp
  | @cons a b as bs hab _ ih =>
    obtain ⟨hfirst, hrest⟩ := List.forall_mem_cons.mp hq
    rw [List.map_cons, List.map_cons, List.cons.injEq, List.forall₂_cons, hfirst b hab, ih hrest]

namespace DocumentValue
variable {R S : Bounded → Bounded → Prop} {c : Cell} {v : Json} {d : Bounded}
  {cells : List Cell} {entries : List (String × Cell)} {members : List (String × Json)}

theorem decimal_iff :
    DocumentValue R (.decimal d) v ↔
      ∃ text e, v = .obj [("$numberDecimal", .str text)] ∧ Bounded.ofText? text = some e ∧
        R d e := by
  constructor
  · rintro (h | ⟨htext, h⟩)
    · cases h
    · exact ⟨_, _, rfl, htext, h⟩
  · rintro ⟨text, e, rfl, htext, h⟩
    exact .decimal htext h

theorem list_iff :
    DocumentValue R (.list cells) v ↔
      ∃ items, v = .arr items ∧ List.Forall₂ (DocumentValue R) cells items := by
  constructor
  · rintro (h | _ | h)
    · cases h
    · exact ⟨_, rfl, h⟩
  · rintro ⟨items, rfl, h⟩
    exact .list h

theorem map_iff :
    DocumentValue R (.map entries) v ↔
      ∃ members, v = .obj members ∧
        (Members.collect entries).map Prod.fst = members.map Prod.fst ∧
        List.Forall₂ (DocumentValue R) ((Members.collect entries).map Prod.snd)
          (members.map Prod.snd) := by
  constructor
  · rintro (h | _ | _ | ⟨hkeys, h⟩)
    · cases h
    · exact ⟨_, rfl, hkeys, h⟩
  · rintro ⟨members, rfl, hkeys, h⟩
    exact .map hkeys h

theorem decimal_of_text {e : Bounded} {text : String} (htext : Bounded.ofText? text = some e) :
    DocumentValue R (.decimal d) (.obj [("$numberDecimal", .str text)]) ↔ R d e := by
  simp [decimal_iff, htext]

theorem list_of_items {items : List Json} :
    DocumentValue R (.list cells) (.arr items) ↔ List.Forall₂ (DocumentValue R) cells items := by
  simp [list_iff]

theorem map_of_members (hkeys : (Members.collect entries).map Prod.fst = members.map Prod.fst) :
    DocumentValue R (.map entries) (.obj members) ↔
      List.Forall₂ (DocumentValue R) ((Members.collect entries).map Prod.snd)
        (members.map Prod.snd) := by
  simp [map_iff, hkeys]

theorem notMem_keys (hkeys : (Members.collect entries).map Prod.fst = members.map Prod.fst)
    (hnames : ∀ name ∈ (Cell.map entries).names, hasSigil name = false) :
    "$numberDecimal" ∉ Members.keys members := by
  intro hmem
  rw [Members.keys, ← hkeys] at hmem
  obtain ⟨e, he, hkey⟩ := List.mem_map.mp (Members.mem_keys_collect.mp hmem)
  have hplain := hnames _ (Cell.mem_names_of_mem he).1
  rw [hkey] at hplain
  exact absurd hplain (by decide)

/-- What is unwrapped looks as what the cell gives, exactly if the decimals do. Wrapped decimals are
the only objects of a document with names that begin with a dollar sign, so that nothing else is
unwrapped. -/
theorem seen_eq_iff {f : Json → Json} (hf : Json.Pointwise f)
    (hdecimals : ∀ d e, R d e → (f (decimalToJson d) = f (decimalToJson e) ↔ S d e))
    (h : DocumentValue R c v) (hnames : ∀ name ∈ c.names, hasSigil name = false) :
    f c.toJson = f v.unwrapped ↔ DocumentValue S c v := by
  induction c using Cell.of_contents generalizing v with
  | plain c hc =>
    cases h with
    | plain h => exact iff_of_true (by rw [Cell.unwrapped_toJson hc]) (.plain hc)
    | decimal | list | map => cases hc
  | decimal d =>
    obtain ⟨text, e, rfl, htext, hd⟩ := decimal_iff.mp h
    rw [Json.unwrapped_ofDecimalText htext, Cell.toJson, hdecimals d e hd, decimal_of_text htext]
  | list cells ih =>
    obtain ⟨items, rfl, hitems⟩ := list_iff.mp h
    have hiff : cells.map (fun c => f c.toJson) = items.map (fun v => f v.unwrapped) ↔
        List.Forall₂ (DocumentValue S) cells items :=
      forall₂_iff_map_eq hitems fun c hc v hv =>
        ih c hc hv fun name hname => hnames _ (Cell.names_subset_of_mem hc hname)
    rw [Cell.toJson_list, Json.unwrapped_arr, hf.arr, hf.arr, Json.arr.injEq, List.map_map,
      List.map_map, list_of_items]
    exact hiff
  | map entries ih =>
    obtain ⟨members, rfl, hkeys, hvalues⟩ := map_iff.mp h
    -- Only what is kept of a name that comes twice is compared.
    have hiff : ((Members.collect entries).map Prod.snd).map (fun c => f c.toJson) =
        (members.map Prod.snd).map (fun v => f v.unwrapped) ↔
          List.Forall₂ (DocumentValue S) ((Members.collect entries).map Prod.snd)
            (members.map Prod.snd) := by
      refine forall₂_iff_map_eq hvalues fun c hc v hv => ?_
      obtain ⟨e, he, rfl⟩ := List.mem_map.mp hc
      have hentry := Members.of_mem_collect he
      exact ih e hentry hv fun name hname => hnames _ ((Cell.mem_names_of_mem hentry).2 hname)
    rw [Cell.toJson_map, Json.unwrapped_obj_of_notMem (notMem_keys hkeys hnames), hf.obj, hf.obj,
      Json.obj.injEq, List.map_map, List.map_map, map_of_members hkeys, ← hiff]
    exact Members.map_eq_map_iff hkeys (fun c => f c.toJson) fun v => f v.unwrapped

/-- A row becomes an object. -/
theorem unwrapped_map (h : DocumentValue R (.map entries) v)
    (hnames : ∀ name ∈ (Cell.map entries).names, hasSigil name = false) :
    ∃ members, v.unwrapped = .obj members := by
  obtain ⟨members, rfl, hkeys, -⟩ := map_iff.mp h
  exact ⟨_, Json.unwrapped_obj_of_notMem (notMem_keys hkeys hnames)⟩

end DocumentValue

namespace Json

theorem unsignedZeros_of_zero {d : Bounded} (h : d.units = 0) :
    (decimalToJson d).unsignedZeros = .num (.float 0) := by
  rw [decimalToJson]
  rcases Bounded.toFloat_of_zero h with h | h
  · rw [h, unsignedZeros_ofFloat (by decide +kernel), if_pos (by decide +kernel)]
  · rw [h, unsignedZeros_ofFloat (by decide +kernel), if_pos (by decide +kernel)]

/-- Decimals of one value and with the same places become floats that compare equal. -/
theorem unsignedZeros_of_equals {d e : Bounded} (h : d.Equals e) (hplaces : d.places = e.places) :
    (decimalToJson d).unsignedZeros = (decimalToJson e).unsignedZeros := by
  rcases h.eq_or_zero hplaces with rfl | ⟨hd, he⟩
  · rfl
  · rw [unsignedZeros_of_zero hd, unsignedZeros_of_zero he]

end Json

namespace Record
variable {R S : Bounded → Bounded → Prop} {rows : List Row} {docs : List Json}

/-- Records in some way to look at values. -/
def seen (f : Json → Json) (records : List Record) : List Json := records.map fun r => f (.obj r)

theorem seen_ofRows (f : Json → Json) (rows : List Row) :
    seen f (ofRows rows) = (rows.map Cell.map).map fun c => f c.toJson := by
  simp only [seen, ofRows, ofRow, List.map_map, Function.comp_def, Cell.toJson]

theorem seen_ofDocuments (f : Json → Json) (h : DocumentRows R rows docs)
    (hnames : ∀ row ∈ rows, ∀ name ∈ namesOfEntries row, hasSigil name = false) :
    seen f (ofDocuments docs) = docs.map fun v => f v.unwrapped := by
  replace h := List.forall₂_map_left_iff.mp h
  induction h with
  | nil => rfl
  | @cons row v rows docs hdoc _ ih =>
    obtain ⟨hrow, hothers⟩ := List.forall_mem_cons.mp hnames
    obtain ⟨members, hv⟩ := hdoc.unwrapped_map hrow
    have hrest : seen f (ofDocuments docs) = _ := ih hothers
    rw [List.map_cons, ← hrest, hv, ofDocuments, List.filterMap_cons, hv]
    rfl

theorem seen_eq_iff {f : Json → Json} (hf : Json.Pointwise f)
    (hdecimals : ∀ d e, R d e → (f (decimalToJson d) = f (decimalToJson e) ↔ S d e))
    (h : DocumentRows R rows docs)
    (hnames : ∀ row ∈ rows, ∀ name ∈ namesOfEntries row, hasSigil name = false) :
    seen f (ofDocuments docs) = seen f (ofRows rows) ↔ DocumentRows S rows docs := by
  rw [seen_ofDocuments f h hnames, seen_ofRows, eq_comm]
  refine forall₂_iff_map_eq h fun c hc v hv => ?_
  obtain ⟨row, hrow, rfl⟩ := List.mem_map.mp hc
  exact hv.seen_eq_iff hf hdecimals (hnames row hrow)

theorem seen_id_eq_iff {first second : List Record} :
    seen id first = seen id second ↔ first = second :=
  List.map_inj_right fun _ _ h => Json.obj.inj h

/-- Rows read from documents are the rows read from cells, exactly where every decimal becomes the
float that the one in the document becomes. With the same places both compare equal; with others
they may differ, and nothing else may. -/
theorem ofDocuments_eq_ofRows_iff (h : DocumentRows Bounded.Equals rows docs)
    (hnames : ∀ row ∈ rows, ∀ name ∈ namesOfEntries row, hasSigil name = false) :
    (ofDocuments docs = ofRows rows ↔
      DocumentRows (fun d e => d.Equals e ∧ decimalToJson d = decimalToJson e) rows docs) ∧
    (seen Json.unsignedZeros (ofDocuments docs) = seen Json.unsignedZeros (ofRows rows) ↔
      DocumentRows (fun d e => d.Equals e ∧
        (decimalToJson d).unsignedZeros = (decimalToJson e).unsignedZeros) rows docs) ∧
    (DocumentRows (fun d e => d.Equals e ∧ d.places = e.places) rows docs →
      seen Json.unsignedZeros (ofDocuments docs) = seen Json.unsignedZeros (ofRows rows)) ∧
    seen Json.withoutFloats (ofDocuments docs) = seen Json.withoutFloats (ofRows rows) := by
  refine ⟨?_, ?_, ?_, ?_⟩
  · rw [← seen_id_eq_iff]
    exact seen_eq_iff Json.pointwise_id (fun d e hd => (and_iff_right hd).symm) h hnames
  · exact seen_eq_iff Json.pointwise_unsignedZeros (fun d e hd => (and_iff_right hd).symm) h hnames
  · intro hplaces
    refine (seen_eq_iff Json.pointwise_unsignedZeros (fun d e hd => ?_) hplaces hnames).mpr hplaces
    exact iff_of_true (Json.unsignedZeros_of_equals hd.1 hd.2) hd
  · refine (seen_eq_iff Json.pointwise_withoutFloats (fun d e hd => ?_) h hnames).mpr h
    refine iff_of_true ?_ hd
    exact (Json.withoutFloats_ofFloat _).trans (Json.withoutFloats_ofFloat _).symm

/-- A column that comes twice, and decimals that are written in more than one way. -/
def nestedRow : Row :=
  [("cost", .text "none"),
    ("items", .list [.null, .map [("value", .decimal ⟨false, 125, 1, by decide, by decide⟩)]]),
    ("cost", .decimal ⟨true, 1250, 2, by decide, by decide⟩)]

def nestedDocument : Json :=
  .obj [("cost", .obj [("$numberDecimal", .str "-12.5")]),
    ("items", .arr [.null, .obj [("value", .obj [("$numberDecimal", .str "+1_2.5")])]])]

theorem documentRows_nested
    (hcost : R ⟨true, 1250, 2, by decide, by decide⟩ ⟨true, 125, 1, by decide, by decide⟩)
    (hvalue : R ⟨false, 125, 1, by decide, by decide⟩ ⟨false, 125, 1, by decide, by decide⟩) :
    DocumentRows R [nestedRow] [nestedDocument] := by
  have hcost' : DocumentValue R (.decimal ⟨true, 1250, 2, _, _⟩)
      (.obj [("$numberDecimal", .str "-12.5")]) := .decimal (by decide) hcost
  have hvalue' : DocumentValue R (.decimal ⟨false, 125, 1, _, _⟩)
      (.obj [("$numberDecimal", .str "+1_2.5")]) := .decimal (by decide) hvalue
  have hitem : DocumentValue R (.map [("value", .decimal ⟨false, 125, 1, _, _⟩)])
      (.obj [("value", _)]) := .map rfl (.cons hvalue' .nil)
  have hitems : DocumentValue R (.list [.null, .map _]) (.arr [.null, .obj _]) :=
    .list (.cons (.plain rfl) (.cons hitem .nil))
  exact .cons (.map (by decide) (.cons hcost' (.cons hitems .nil))) .nil

theorem ofDocuments_eq_ofRows_nested :
    DocumentRows Bounded.Equals [nestedRow] [nestedDocument] ∧
      (∀ row ∈ [nestedRow], ∀ name ∈ namesOfEntries row, hasSigil name = false) ∧
      ofDocuments [nestedDocument] = ofRows [nestedRow] := by
  have hrows : DocumentRows Bounded.Equals [nestedRow] [nestedDocument] :=
    documentRows_nested (by decide) (by decide)
  have hnames : ∀ row ∈ [nestedRow], ∀ name ∈ namesOfEntries row, hasSigil name = false := by
    decide
  have hfloats : DocumentRows (fun d e => d.Equals e ∧ decimalToJson d = decimalToJson e)
      [nestedRow] [nestedDocument] :=
    documentRows_nested ⟨by decide, congrArg Json.ofFloat (by decide +kernel)⟩ ⟨by decide, rfl⟩
  exact ⟨hrows, hnames, (ofDocuments_eq_ofRows_iff hrows hnames).1.mpr hfloats⟩

/-- The cost at ten places, as a column of the warehouse has it, and at its own two. -/
def pricedRow : Row := [("cost", .decimal ⟨false, 2754650300000000, 10, by decide, by decide⟩)]

def pricedDocument : Json := .obj [("cost", .obj [("$numberDecimal", .str "275465.03")])]

theorem documentRows_priced : DocumentRows R [pricedRow] [pricedDocument] ↔
    R ⟨false, 2754650300000000, 10, by decide, by decide⟩
      ⟨false, 27546503, 2, by decide, by decide⟩ := by
  have htext : Bounded.ofText? "275465.03" = some ⟨false, 27546503, 2, by decide, by decide⟩ := by
    decide
  simp [DocumentRows, DocumentValue.map_iff, DocumentValue.decimal_of_text htext, pricedRow,
    pricedDocument, Members.collect, Members.put]

/-- The float of ten places is rounded to them once more, and ends up beside the other. -/
theorem ofDocuments_ne_ofRows_priced :
    DocumentRows Bounded.Equals [pricedRow] [pricedDocument] ∧
      (∀ row ∈ [pricedRow], ∀ name ∈ namesOfEntries row, hasSigil name = false) ∧
      seen Json.unsignedZeros (ofDocuments [pricedDocument]) ≠
        seen Json.unsignedZeros (ofRows [pricedRow]) ∧
      ofDocuments [pricedDocument] ≠ ofRows [pricedRow] := by
  have hrows : DocumentRows Bounded.Equals [pricedRow] [pricedDocument] :=
    documentRows_priced.mpr (by decide)
  have hnames : ∀ row ∈ [pricedRow], ∀ name ∈ namesOfEntries row, hasSigil name = false := by
    decide
  have hseen : seen Json.unsignedZeros (ofDocuments [pricedDocument]) ≠
      seen Json.unsignedZeros (ofRows [pricedRow]) := by
    intro hseen
    have hfloats := (documentRows_priced.mp ((seen_eq_iff Json.pointwise_unsignedZeros
      (fun d e hd => (and_iff_right hd).symm) hrows hnames).mp hseen)).2
    rw [decimalToJson, decimalToJson, Json.unsignedZeros_ofFloat (by decide +kernel),
      Json.unsignedZeros_ofFloat (by decide +kernel)] at hfloats
    injection hfloats with hfloats
    injection hfloats with hfloats
    revert hfloats
    decide +kernel
  exact ⟨hrows, hnames, hseen, fun h => hseen (congrArg _ h)⟩

end Record

end CostQuery
