import CostQuery.Proofs.Json.Quotes
import CostQuery.Proofs.Record.Rollup
import CostQuery.Proofs.Sorted

/-! Which rows come to one record where records are grouped again, and how the records follow one
another. Rows come together if the texts of their columns are the same. Those tell the columns
apart, unless the separator of the texts is in a name. -/

namespace CostQuery

section
variable {α β : Type} [DecidableEq α] [DecidableEq β]

theorem eraseDups_concat (as : List α) (a : α) :
    (as ++ [a]).eraseDups = if a ∈ as then as.eraseDups else as.eraseDups ++ [a] := by
  rw [List.eraseDups_append]
  by_cases h : a ∈ as <;> simp [List.removeAll, h, List.eraseDups_cons]

theorem eraseDups_map {f : α → β} {as : List α}
    (hf : ∀ a ∈ as, ∀ b ∈ as, f a = f b → a = b) :
    (as.map f).eraseDups = as.eraseDups.map f := by
  induction as using List.reverseRecOn with
  | nil => rfl
  | append_singleton as a ih =>
    have hmem : f a ∈ as.map f ↔ a ∈ as := by
      constructor
      · intro h
        obtain ⟨b, hb, hfb⟩ := List.mem_map.mp h
        exact hf b (List.mem_append_left _ hb) a (by simp) hfb ▸ hb
      · exact List.mem_map_of_mem
    have has : (as.map f).eraseDups = as.eraseDups.map f := ih fun a ha b hb =>
      hf a (List.mem_append_left _ ha) b (List.mem_append_left _ hb)
    rw [List.map_append, List.map_singleton, eraseDups_concat, eraseDups_concat, has]
    by_cases h : a ∈ as
    · rw [if_pos (hmem.mpr h), if_pos h]
    · rw [if_neg (mt hmem.mp h), if_neg h, List.map_append, List.map_singleton]

/-- Pieces that are not empty are read back from what joins them. -/
theorem intercalate_inj {sep : α} {as bs : List (List α)} (ha : ∀ a ∈ as, sep ∉ a ∧ a ≠ [])
    (hb : ∀ b ∈ bs, sep ∉ b ∧ b ≠ []) (h : [sep].intercalate as = [sep].intercalate bs) :
    as = bs := by
  have hread : ∀ {as : List (List α)}, (∀ a ∈ as, sep ∉ a ∧ a ≠ []) →
      (([sep].intercalate as).splitOn sep).filter (· ≠ []) = as := by
    intro as has
    cases as with
    | nil => rfl
    | cons a as =>
      rw [List.splitOn_intercalate _ (fun l hl => (has l hl).1) (List.cons_ne_nil _ _)]
      exact List.filter_eq_self.mpr fun l hl => decide_eq_true (has l hl).2
  rw [← hread ha, h, hread hb]

end

theorem rel_eq_iff {α : Type} {a b : Option α} : Option.Rel Eq a b ↔ a = b := by
  constructor
  · intro h
    cases h with
    | some h => exact congrArg some h
    | none => rfl
  · rintro rfl
    cases a with
    | some a => exact .some rfl
    | none => exact .none

/-- Values that are equal: the members of objects may stand in another order, and a zero may have
another sign. -/
inductive Json.Alike : Json → Json → Prop
  | refl (v : Json) : Json.Alike v v
  | float {x y : Float} (h : (x == y) = true) : Json.Alike (.num (.float x)) (.num (.float y))
  | arr {items items' : List Json} (h : List.Forall₂ Json.Alike items items') :
    Json.Alike (.arr items) (.arr items')
  | obj {members members' : Members Json}
    (h : ∀ name, Option.Rel Json.Alike (members.get? name) (members'.get? name)) :
    Json.Alike (.obj members) (.obj members')

namespace Record
variable {dimension target name : String} {mapping : Members String} {valueFields : List String}
  {rows : List Record} {row row' other other' : Record} {groups : Members Record}

/-- The dimensions of the rows are mapped to one id, and the rows have the same columns with the
same values, the columns left out that are replaced or merged. -/
structure Agree (same : Json → Json → Prop) (mapping : Members String) (dimension target : String)
    (valueFields : List String) (row row' : Record) : Prop where
  id : mappedId? mapping dimension row = mappedId? mapping dimension row'
  columns : ∀ name, name ≠ dimension → name ≠ target → name ∉ valueFields →
    Option.Rel same (row.get? name) (row'.get? name)

theorem Agree.imp {same same' : Json → Json → Prop}
    (h : Agree same mapping dimension target valueFields row row')
    (himp : ∀ name ∉ dimension :: target :: valueFields, ∀ v ∈ row.get? name,
      ∀ v' ∈ row'.get? name, same v v' → same' v v') :
    Agree same' mapping dimension target valueFields row row' := by
  refine ⟨h.id, fun name hdimension htarget hvalue => ?_⟩
  have hname : name ∉ dimension :: target :: valueFields := by
    simp [hdimension, htarget, hvalue]
  have hrel := h.columns name hdimension htarget hvalue
  have hname' := himp name hname
  generalize row.get? name = a at hrel hname' ⊢
  generalize row'.get? name = b at hrel hname' ⊢
  cases hrel with
  | some hsame => exact .some (hname' _ rfl _ rfl hsame)
  | none => exact .none

/-! The text of a record. -/

/-- The columns that rows have to agree on. -/
def compared (valueFields : List String) (row : Record) : Members Json :=
  Members.collectSorted (row.filter fun e => !valueFields.contains e.1)

theorem get?_compared (hkeys : row.keys.Nodup) (name : String) :
    (compared valueFields row).get? name =
      if name ∈ valueFields then none else row.get? name := by
  rw [compared, Members.get?_collectSorted,
    Members.collect_eq_iff.mpr (hkeys.sublist (List.filter_sublist.map _)),
    Members.get?_filter fun name => !valueFields.contains name]
  by_cases h : name ∈ valueFields <;> simp [h]

def columnText (e : String × Json) : String := e.1 ++ "=" ++ e.2.text

theorem groupText_eq (valueFields : List String) (row : Record) :
    row.groupText valueFields =
      "\x1f".intercalate ((compared valueFields row).map columnText) := rfl

theorem toList_columnText (e : String × Json) :
    (columnText e).toList = e.1.toList ++ '=' :: e.2.chars := by
  simp [columnText, Json.text]

theorem columnText_injective : Function.Injective columnText := by
  rintro ⟨name, v⟩ ⟨name', v'⟩ h
  have htext := congrArg String.toList h
  rw [toList_columnText, toList_columnText] at htext
  obtain ⟨hname, hv⟩ := Json.eq_of_named htext
  exact Prod.ext (String.toList_inj.mp hname) hv

/-- The separator of columns is in no name that is compared. -/
def Separable (valueFields : List String) (row : Record) : Prop :=
  ∀ name ∈ row.keys, name ∉ valueFields → '\x1f' ∉ name.toList

theorem separable_columnText (hkeys : row.keys.Nodup) (h : row.Separable valueFields) :
    ∀ text ∈ (compared valueFields row).map (String.toList ∘ columnText),
      '\x1f' ∉ text ∧ text ≠ [] := by
  intro text htext
  obtain ⟨⟨name, v⟩, he, rfl⟩ := List.mem_map.mp htext
  rw [Function.comp_apply, toList_columnText]
  have hget : (compared valueFields row).get? name = some v :=
    (Members.mem_iff_get? (Members.isSorted_collectSorted _).nodup).mp he
  rw [get?_compared hkeys] at hget
  split at hget
  · cases hget
  · next hvalue =>
    refine ⟨?_, List.append_ne_nil_of_right_ne_nil _ (List.cons_ne_nil _ _)⟩
    have hname : name ∈ row.keys := List.mem_map.mpr ⟨_, Members.mem_of_get? hget, rfl⟩
    have hchars : '\x1f' ∉ v.chars := fun hmem =>
      Quotes.printable_of_scan (Json.closed_chars v) _ hmem (by decide)
    simp only [List.mem_append, List.mem_cons, not_or]
    exact ⟨h name hname hvalue, by decide, hchars⟩

theorem groupText_eq_iff (hkeys : row.keys.Nodup) (hkeys' : row'.keys.Nodup)
    (h : row.Separable valueFields) (h' : row'.Separable valueFields) :
    row.groupText valueFields = row'.groupText valueFields ↔
      ∀ name ∉ valueFields, row.get? name = row'.get? name := by
  constructor
  · intro htext name hname
    have hlists := congrArg String.toList htext
    rw [groupText_eq, groupText_eq, String.toList_intercalate, String.toList_intercalate,
      List.map_map, List.map_map] at hlists
    have hpieces := intercalate_inj (separable_columnText hkeys h)
      (separable_columnText hkeys' h') hlists
    have hinj : Function.Injective (String.toList ∘ columnText) :=
      Function.Injective.comp (fun _ _ => String.toList_inj.mp) columnText_injective
    have hcolumns := List.map_injective_iff.mpr hinj hpieces
    have hget := congrArg (fun m : Members Json => m.get? name) hcolumns
    simpa only [get?_compared hkeys, get?_compared hkeys', if_neg hname] using hget
  · intro hget
    have hcolumns : compared valueFields row = compared valueFields row' := by
      refine (Members.isSorted_collectSorted _).ext (Members.isSorted_collectSorted _) ?_
      intro name
      change (compared valueFields row).get? name = (compared valueFields row').get? name
      rw [get?_compared hkeys, get?_compared hkeys']
      by_cases hname : name ∈ valueFields
      · rw [if_pos hname, if_pos hname]
      · rw [if_neg hname, if_neg hname, hget name hname]
    rw [groupText_eq, groupText_eq, hcolumns]

/-! Groups. -/

/-- The first row, with the values of the others merged into it. -/
def gathered? (valueFields : List String) : List Record → Option Record
  | [] => none
  | row :: rest => some (rest.foldl (mergeFields valueFields) row)

theorem gathered?_concat (rows : List Record) (row : Record) :
    gathered? valueFields (rows ++ [row]) = some (match gathered? valueFields rows with
      | some group => group.mergeFields valueFields row
      | none => row) := by
  cases rows with
  | nil => rfl
  | cons first rest =>
    rw [List.cons_append, gathered?, List.foldl_append]
    rfl

/-- Each group has the rows of one text, and the texts stand as they first came. -/
structure Grouped (valueFields : List String) (rows : List Record) (groups : Members Record) :
    Prop where
  keys : groups.keys = (rows.map (groupText valueFields)).eraseDups
  nodup : groups.keys.Nodup
  gathered : ∀ key, groups.get? key =
    gathered? valueFields (rows.filter fun row => row.groupText valueFields = key)

theorem Grouped.addToGroup (h : Grouped valueFields rows groups) (row : Record) :
    Grouped valueFields (rows ++ [row]) (addToGroup valueFields groups row) := by
  rw [addToGroup_eq]
  constructor
  case keys =>
    have hmem : row.groupText valueFields ∈ groups.keys ↔
        row.groupText valueFields ∈ rows.map (groupText valueFields) := by
      rw [h.keys, List.mem_eraseDups]
    rw [List.map_append, List.map_singleton, eraseDups_concat, ← h.keys]
    by_cases hkey : row.groupText valueFields ∈ groups.keys
    · rw [Members.keys_put_of_mem hkey, if_pos (hmem.mp hkey)]
    · rw [Members.put_of_notMem hkey, if_neg (mt hmem.mpr hkey), Members.keys, List.map_append]
      rfl
  case nodup => exact Members.nodup_keys_put h.nodup _ _
  case gathered =>
    intro key
    rw [List.filter_append, List.filter_singleton]
    by_cases hkey : key = row.groupText valueFields
    · subst hkey
      rw [Members.get?_put_self, decide_eq_true rfl, cond_true, gathered?_concat, ← h.gathered]
      rfl
    · rw [Members.get?_put_of_ne _ _ hkey, decide_eq_false (Ne.symm hkey), cond_false,
        List.append_nil, h.gathered]

theorem grouped_foldl (valueFields : List String) (rows : List Record) :
    Grouped valueFields rows (rows.foldl (addToGroup valueFields) []) := by
  induction rows using List.reverseRecOn with
  | nil => exact ⟨rfl, List.nodup_nil, fun key => rfl⟩
  | append_singleton rows row ih =>
    rw [List.foldl_append]
    exact ih.addToGroup row

/-! Places. -/

/-- The groups of the rows whose dimension is mapped. -/
def regrouped (rows : List Record) (dimension target : String) (mapping : Members String)
    (valueFields : List String) : Members Record :=
  (rows.filterMap (mapped? mapping dimension target)).foldl (addToGroup valueFields) []

theorem rollup_eq (rows : List Record) (dimension target : String) (mapping : Members String)
    (valueFields : List String) : rollup rows dimension target mapping valueFields =
      (regrouped rows dimension target mapping valueFields).map Prod.snd := rfl

/-- The place of the record that a row comes to, unless its dimension is not mapped. -/
def place? (rows : List Record) (dimension target : String) (mapping : Members String)
    (valueFields : List String) (row : Record) : Option Nat :=
  (mapped? mapping dimension target row).map fun other =>
    (regrouped rows dimension target mapping valueFields).keys.idxOf (other.groupText valueFields)

theorem grouped_regrouped (rows : List Record) (dimension target : String)
    (mapping : Members String) (valueFields : List String) :
    Grouped valueFields (rows.filterMap (mapped? mapping dimension target))
      (regrouped rows dimension target mapping valueFields) :=
  grouped_foldl valueFields _

theorem Grouped.mem_keys (h : Grouped valueFields rows groups) (hrow : row ∈ rows) :
    row.groupText valueFields ∈ groups.keys := by
  rw [h.keys, List.mem_eraseDups]
  exact List.mem_map_of_mem hrow

/-- The record at a place gathers the rows that have it. -/
theorem Grouped.getElem? (h : Grouped valueFields rows groups) (n : Nat) :
    (groups.map Prod.snd)[n]? = gathered? valueFields
      (rows.filter fun row => groups.keys.idxOf (row.groupText valueFields) = n) := by
  have hlength : groups.keys.length = groups.length := List.length_map _
  by_cases hn : n < groups.length
  · have hkeys : n < groups.keys.length := hlength ▸ hn
    have hkey : groups.keys[n] = groups[n].1 := List.getElem_map _
    have hsame : (rows.filter fun row => groups.keys.idxOf (row.groupText valueFields) = n) =
        rows.filter fun row => row.groupText valueFields = groups[n].1 := by
      refine List.filter_congr fun row hrow => decide_eq_decide.mpr ?_
      rw [← hkey]
      constructor
      · rintro rfl
        exact (List.getElem_idxOf _).symm
      · intro htext
        rw [htext]
        exact h.nodup.idxOf_getElem n _
    have hget : groups.get? groups[n].1 = some groups[n].2 :=
      (Members.mem_iff_get? h.nodup).mp (List.getElem_mem hn)
    rw [hsame, ← h.gathered, hget]
    simp [hn]
  · have hnone :
        (rows.filter fun row => groups.keys.idxOf (row.groupText valueFields) = n) = [] := by
      refine List.filter_eq_nil_iff.mpr fun row hrow => ?_
      have hplace := List.idxOf_lt_length_of_mem (h.mem_keys hrow)
      simp only [decide_eq_true_eq]
      omega
    rw [hnone]
    simp [gathered?, Nat.not_lt.mp hn]

theorem Grouped.places (h : Grouped valueFields rows groups) :
    (rows.map fun row => groups.keys.idxOf (row.groupText valueFields)).eraseDups =
      List.range groups.length := by
  have hsplit : (rows.map fun row => groups.keys.idxOf (row.groupText valueFields)) =
      (rows.map (groupText valueFields)).map groups.keys.idxOf := by
    rw [List.map_map]
    rfl
  have hinj : ∀ a ∈ rows.map (groupText valueFields), ∀ b ∈ rows.map (groupText valueFields),
      groups.keys.idxOf a = groups.keys.idxOf b → a = b := by
    intro a ha b _ hplace
    obtain ⟨row, hrow, rfl⟩ := List.mem_map.mp ha
    exact (List.idxOf_inj (h.mem_keys hrow)).mp hplace
  rw [hsplit, eraseDups_map hinj, ← h.keys]
  refine List.ext_getElem (by simp [Members.keys]) fun n hn _ => ?_
  rw [List.getElem_map, List.getElem_range]
  exact h.nodup.idxOf_getElem n _

/-! Rows that come together. -/

theorem separable_mapped (hkeys : row.keys.Nodup) (htarget : '\x1f' ∉ target.toList)
    (hrow : row.Separable (dimension :: target :: valueFields))
    (h : mapped? mapping dimension target row = some other) : other.Separable valueFields := by
  obtain ⟨hother, id, -, hget⟩ := mapped_ok hkeys h
  intro name hname hvalue
  by_cases hname' : name = target
  · exact hname' ▸ htarget
  · obtain ⟨⟨name, v⟩, he, rfl⟩ := List.mem_map.mp hname
    have hfound := (Members.mem_iff_get? hother).mp he
    rw [hget, if_neg hname'] at hfound
    split at hfound
    · cases hfound
    · next hdimension =>
      refine hrow name (List.mem_map.mpr ⟨_, Members.mem_of_get? hfound, rfl⟩) ?_
      simp [hdimension, hname', hvalue]

theorem groupText_mapped_iff (hkeys : row.keys.Nodup) (hkeys' : row'.keys.Nodup)
    (hvalue : target ∉ valueFields) (htarget : '\x1f' ∉ target.toList)
    (hrow : row.Separable (dimension :: target :: valueFields))
    (hrow' : row'.Separable (dimension :: target :: valueFields))
    (h : mapped? mapping dimension target row = some other)
    (h' : mapped? mapping dimension target row' = some other') :
    other.groupText valueFields = other'.groupText valueFields ↔
      Agree Eq mapping dimension target valueFields row row' := by
  obtain ⟨hother, id, hid, hget⟩ := mapped_ok hkeys h
  obtain ⟨hother', id', hid', hget'⟩ := mapped_ok hkeys' h'
  rw [groupText_eq_iff hother hother' (separable_mapped hkeys htarget hrow h)
    (separable_mapped hkeys' htarget hrow' h')]
  constructor
  · intro hsame
    constructor
    case id =>
      have hids := hsame target hvalue
      rw [hget, hget', if_pos rfl, if_pos rfl, Option.some.injEq, Json.str.injEq] at hids
      rw [hid, hid', hids]
    case columns =>
      intro name hdimension hname hcompared
      have hcolumn := hsame name hcompared
      rw [hget, hget', if_neg hname, if_neg hname, if_neg hdimension, if_neg hdimension] at hcolumn
      exact rel_eq_iff.mpr hcolumn
  · intro hagree name hname
    rw [hget, hget']
    split_ifs with htarget hdimension
    · have hids : some id = some id' := hid.symm.trans (hagree.id.trans hid')
      rw [Option.some.inj hids]
    · rfl
    · exact rel_eq_iff.mp (hagree.columns name hdimension htarget hname)

theorem place_eq_iff (hkeys : ∀ row ∈ rows, row.keys.Nodup) (hvalue : target ∉ valueFields)
    (htarget : '\x1f' ∉ target.toList)
    (hnames : ∀ row ∈ rows, row.Separable (dimension :: target :: valueFields))
    (hrow : row ∈ rows) (hrow' : row' ∈ rows) (hmapped : isMapped mapping dimension row = true)
    (hmapped' : isMapped mapping dimension row' = true) :
    place? rows dimension target mapping valueFields row =
        place? rows dimension target mapping valueFields row' ↔
      Agree Eq mapping dimension target valueFields row row' := by
  rw [← isSome_mapped mapping dimension target] at hmapped hmapped'
  obtain ⟨other, hother⟩ := Option.isSome_iff_exists.mp hmapped
  obtain ⟨other', hother'⟩ := Option.isSome_iff_exists.mp hmapped'
  have hmem : other ∈ rows.filterMap (mapped? mapping dimension target) :=
    List.mem_filterMap.mpr ⟨row, hrow, hother⟩
  rw [place?, place?, hother, hother', Option.map_some, Option.map_some, Option.some.injEq,
    List.idxOf_inj ((grouped_regrouped rows dimension target mapping valueFields).mem_keys hmem)]
  exact groupText_mapped_iff (hkeys row hrow) (hkeys row' hrow') hvalue htarget (hnames row hrow)
    (hnames row' hrow') hother hother'

/-- The rows that have a place, under the target. -/
theorem mapped_place (rows : List Record) (dimension target : String) (mapping : Members String)
    (valueFields : List String) (n : Nat) :
    (rows.filter fun row =>
        place? rows dimension target mapping valueFields row = some n).filterMap
          (mapped? mapping dimension target) =
      (rows.filterMap (mapped? mapping dimension target)).filter fun other =>
        (regrouped rows dimension target mapping valueFields).keys.idxOf
          (other.groupText valueFields) = n := by
  rw [List.filterMap_filter, List.filter_filterMap]
  refine List.filterMap_congr fun row _ => ?_
  rw [place?]
  cases mapped? mapping dimension target row with
  | none => simp
  | some other => simp [Option.filter]

theorem filterMap_place (rows : List Record) (dimension target : String)
    (mapping : Members String) (valueFields : List String) :
    rows.filterMap (place? rows dimension target mapping valueFields) =
      (rows.filterMap (mapped? mapping dimension target)).map fun other =>
        (regrouped rows dimension target mapping valueFields).keys.idxOf
          (other.groupText valueFields) := by
  rw [List.map_filterMap]
  rfl

/-- Every record gathers the rows of its place, and the places are opened one after another. Two
rows have one place if they agree with the same values, as written; that is, if they agree, unless
equal values of theirs are written in different ways. No name that is compared has the separator in
it. -/
theorem rollup_agreement (hkeys : ∀ row ∈ rows, row.keys.Nodup) (hvalue : target ∉ valueFields)
    (htarget : '\x1f' ∉ target.toList)
    (hnames : ∀ row ∈ rows, row.Separable (dimension :: target :: valueFields)) :
    (∀ n : Nat, (rollup rows dimension target mapping valueFields)[n]? =
      gathered? valueFields ((rows.filter fun row =>
        place? rows dimension target mapping valueFields row = some n).filterMap
          (mapped? mapping dimension target))) ∧
    (rows.filterMap (place? rows dimension target mapping valueFields)).eraseDups =
      List.range (rollup rows dimension target mapping valueFields).length ∧
    ∀ row ∈ rows, ∀ row' ∈ rows, isMapped mapping dimension row = true →
      isMapped mapping dimension row' = true →
      (place? rows dimension target mapping valueFields row =
          place? rows dimension target mapping valueFields row' ↔
        Agree Eq mapping dimension target valueFields row row') ∧
      ((∀ name ∉ dimension :: target :: valueFields, ∀ v ∈ row.get? name, ∀ v' ∈ row'.get? name,
          Json.Alike v v' → v = v') →
        (place? rows dimension target mapping valueFields row =
            place? rows dimension target mapping valueFields row' ↔
          Agree Json.Alike mapping dimension target valueFields row row')) := by
  have hgrouped := grouped_regrouped rows dimension target mapping valueFields
  refine ⟨fun n => ?_, ?_, ?_⟩
  · rw [mapped_place, rollup_eq]
    exact hgrouped.getElem? n
  · rw [filterMap_place, rollup_eq, List.length_map]
    exact hgrouped.places
  · intro row hrow row' hrow' hmapped hmapped'
    have hsame := place_eq_iff hkeys hvalue htarget hnames hrow hrow' hmapped hmapped'
    refine ⟨hsame, fun hwritten => hsame.trans ?_⟩
    constructor
    · intro hagree
      refine hagree.imp fun name hname v hv v' hv' heq => ?_
      exact heq ▸ .refl v
    · intro hagree
      exact hagree.imp hwritten

def taggedRow (project : String) (tags : Members Json) (cost : Int) : Record :=
  [("project_id", .str project), ("tags", .obj tags), ("cost", .int cost)]

/-- Two projects of one group with the same tags, written alike. -/
def taggedRows : List Record :=
  [taggedRow "p1" [("a", .int 1), ("b", .int 2)] 1,
    taggedRow "p2" [("a", .int 1), ("b", .int 2)] 2]

theorem rollup_agreement_tagged :
    (∀ row ∈ taggedRows, row.keys.Nodup) ∧
      rollup taggedRows "project_id" "project_group_id" projectGroups ["cost"] =
        [[("project_group_id", .str "g"), ("tags", .obj [("a", .int 1), ("b", .int 2)]),
          ("cost", .int 3)]] ∧
      Agree Eq projectGroups "project_id" "project_group_id" ["cost"] taggedRows[0]
        taggedRows[1] := by
  have hkeys : ∀ row ∈ taggedRows, row.keys.Nodup := by decide
  have hnames : ∀ row ∈ taggedRows, row.Separable ["project_id", "project_group_id", "cost"] := by
    unfold Separable
    decide
  obtain ⟨-, -, hagree⟩ := @rollup_agreement "project_id" "project_group_id" projectGroups ["cost"]
    taggedRows hkeys (by decide) (by decide) hnames
  have hfirst : taggedRows[0] ∈ taggedRows := List.getElem_mem _
  have hsecond : taggedRows[1] ∈ taggedRows := List.getElem_mem _
  exact ⟨hkeys, rfl, (hagree _ hfirst _ hsecond rfl rfl).1.mp rfl⟩

/-- The tags of the second project stand in another order. -/
def reorderedRows : List Record :=
  [taggedRow "p1" [("a", .int 1), ("b", .int 2)] 1,
    taggedRow "p2" [("b", .int 2), ("a", .int 1)] 2]

/-- The columns of the first row look like the name of the one column of the second. -/
def separatorRows : List Record :=
  [[("project_id", .str "p1"), ("a", .int 1), ("b", .int 2)],
    [("project_id", .str "p2"), ("a=1\x1fb", .int 2)]]

theorem alike_reordered : Json.Alike (.obj [("a", .int 1), ("b", .int 2)])
    (.obj [("b", .int 2), ("a", .int 1)]) := by
  refine .obj fun name => ?_
  by_cases ha : name = "a"
  · subst ha
    exact .some (.refl _)
  · by_cases hb : name = "b"
    · subst hb
      exact .some (.refl _)
    · simp only [Members.get?, Ne.symm ha, Ne.symm hb, if_false]
      exact .none

/-- Rows that agree are kept apart, and rows that do not agree come together. -/
theorem rollup_agreement_fails :
    (Agree Json.Alike projectGroups "project_id" "project_group_id" ["cost"] reorderedRows[0]
        reorderedRows[1] ∧
      (rollup reorderedRows "project_id" "project_group_id" projectGroups ["cost"]).length = 2) ∧
    ¬ Agree Json.Alike projectGroups "project_id" "project_group_id" ["cost"] separatorRows[0]
        separatorRows[1] ∧
      rollup separatorRows "project_id" "project_group_id" projectGroups ["cost"] =
        [[("project_group_id", .str "g"), ("a", .int 1), ("b", .int 2)]] := by
  refine ⟨⟨⟨rfl, fun name hdimension _ hvalue => ?_⟩, rfl⟩, fun hagree => ?_, rfl⟩
  · by_cases htags : name = "tags"
    · subst htags
      exact .some alike_reordered
    · have hcost : name ≠ "cost" := fun hname => hvalue (hname ▸ List.mem_singleton_self _)
      simp only [reorderedRows, taggedRow, Members.get?, List.getElem_cons_zero,
        List.getElem_cons_succ, Ne.symm hdimension, Ne.symm htags, Ne.symm hcost, if_false]
      exact .none
  · have hcolumn := hagree.columns "a" (by decide) (by decide) (by decide)
    cases hcolumn

end Record
end CostQuery
