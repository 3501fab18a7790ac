import CostQuery.Proofs.Record.Sums
import CostQuery.Record.Rollup

/-! Totals over records that are grouped again, or folded at the end of a ranking. -/

namespace CostQuery.Record
variable {field name dimension target : String} {mapping : Members String} {σ : Shape}
  {valueFields : List String} {limit : Nat} {rows : List Record} {row other : Record}
  {groups : Members Record}

/-- The values of a column. -/
def column (field : String) (rows : List Record) : List Json := rows.map (·.valueOf field)

/-- The mapping has the dimension of the record. -/
def isMapped (mapping : Members String) (dimension : String) (row : Record) : Bool :=
  (((row.get? dimension).bind Json.keyText?).bind mapping.get?).isSome

/-! Records under the target. -/

theorem isSome_mapped (mapping : Members String) (dimension target : String) (row : Record) :
    (mapped? mapping dimension target row).isSome = isMapped mapping dimension row := by
  rw [mapped?, isMapped]
  cases (row.get? dimension).bind Json.keyText? with
  | none => rfl
  | some key =>
    simp only [Option.bind_eq_bind, Option.bind_some]
    cases mapping.get? key <;> rfl

/-- What the mapping has for the dimension of the record. -/
def mappedId? (mapping : Members String) (dimension : String) (row : Record) : Option String :=
  ((row.get? dimension).bind Json.keyText?).bind mapping.get?

theorem mapped_ok (hkeys : row.keys.Nodup)
    (h : mapped? mapping dimension target row = some other) :
    other.keys.Nodup ∧ ∃ id, mappedId? mapping dimension row = some id ∧
      ∀ name, other.get? name = if name = target then some (.str id)
        else if name = dimension then none else row.get? name := by
  simp only [mapped?, Option.bind_eq_bind, Option.bind_eq_some_iff] at h
  obtain ⟨key, ⟨v, hv, hkey⟩, id, hid, heq⟩ := h
  obtain rfl := Option.some.inj heq
  have hnames : (((target, Json.str id) ::
      row.filter fun e => e.1 ≠ dimension && e.1 ≠ target).map Prod.fst).Nodup := by
    refine List.nodup_cons.mpr ⟨?_, hkeys.sublist (List.filter_sublist.map _)⟩
    simp
  refine ⟨Members.nodup_keys_collect _, id, by simp [mappedId?, hv, hkey, hid], fun name => ?_⟩
  rw [Members.collect_eq_iff.mpr hnames, Members.get?,
    Members.get?_filter fun name => name ≠ dimension && name ≠ target]
  by_cases htarget : name = target
  · rw [if_pos htarget.symm, if_pos htarget]
  · rw [if_neg (Ne.symm htarget), if_neg htarget]
    by_cases hdimension : name = dimension <;> simp [htarget, hdimension]

theorem valueOf_mapped (hdimension : field ≠ dimension) (htarget : field ≠ target)
    (hkeys : row.keys.Nodup) (h : mapped? mapping dimension target row = some other) :
    other.valueOf field = row.valueOf field := by
  obtain ⟨-, id, -, hget⟩ := mapped_ok hkeys h
  rw [Members.valueOf, hget, if_neg htarget, if_neg hdimension, Members.valueOf]

theorem column_mapped (hdimension : field ≠ dimension) (htarget : field ≠ target)
    (hkeys : ∀ row ∈ rows, row.keys.Nodup) :
    column field (rows.filterMap (mapped? mapping dimension target)) =
      column field (rows.filter (isMapped mapping dimension)) := by
  induction rows with
  | nil => rfl
  | cons row rows ih =>
    obtain ⟨hrow, hrest⟩ := List.forall_mem_cons.mp hkeys
    have hsome := isSome_mapped mapping dimension target row
    cases hmapped : mapped? mapping dimension target row with
    | none =>
      rw [hmapped] at hsome
      rw [List.filterMap_cons_none hmapped, List.filter_cons_of_neg (by simp [← hsome]), ih hrest]
    | some other =>
      rw [hmapped] at hsome
      rw [List.filterMap_cons_some hmapped, List.filter_cons_of_pos (by simp [← hsome])]
      simp only [column, List.map_cons]
      rw [valueOf_mapped hdimension htarget hrow hmapped]
      exact congrArg (_ :: ·) (ih hrest)

/-! Fields merged into a record. -/

theorem valueOf_mergeField_of_ne (h : name ≠ field) (value : Json) :
    (row.mergeField field value).valueOf name = row.valueOf name :=
  Members.valueOf_put_of_ne h

theorem mergeFields_cons (field : String) (valueFields : List String) (row other : Record) :
    row.mergeFields (field :: valueFields) other =
      (match other.get? field with
        | some value => row.mergeField field value
        | none => row).mergeFields valueFields other := rfl

theorem valueOf_mergeFields_of_notMem (h : field ∉ valueFields) (row other : Record) :
    (row.mergeFields valueFields other).valueOf field = row.valueOf field := by
  induction valueFields generalizing row with
  | nil => rfl
  | cons name rest ih =>
    obtain ⟨hname, hrest⟩ := not_or.mp (mt List.mem_cons.mpr h)
    rw [mergeFields_cons, ih hrest]
    split
    · exact valueOf_mergeField_of_ne hname _
    · rfl

/-- A field that is listed once is merged once. -/
theorem valueOf_mergeFields (h : valueFields.count field = 1) (row other : Record) :
    (row.mergeFields valueFields other).valueOf field =
      (row.valueOf field).merge (other.valueOf field) := by
  induction valueFields generalizing row with
  | nil => cases h
  | cons name rest ih =>
    rw [mergeFields_cons]
    by_cases hname : name = field
    · subst hname
      -- The rest of the list lacks the field, so that nothing is merged into it again.
      rw [List.count_cons_self, Nat.add_eq_right, List.count_eq_zero] at h
      rw [valueOf_mergeFields_of_notMem h]
      split
      · next value hother =>
        rw [mergeField, Members.valueOf_put_self, Members.valueOf, Members.valueOf, hother,
          Option.getD_some]
      · next hother =>
        rw [Members.valueOf, Members.valueOf, hother, Option.getD_none, Json.merge_null]
    · rw [List.count_cons_of_ne hname] at h
      rw [ih h]
      split
      · rw [valueOf_mergeField_of_ne (Ne.symm hname)]
      · rfl

/-! Groups. -/

def groupColumn (field : String) (groups : Members Record) : List Json :=
  groups.map fun e => e.2.valueOf field

/-- The value of the group that a record belongs to, null if there is none yet. -/
def groupValue (valueFields : List String) (groups : Members Record) (row : Record)
    (field : String) : Json :=
  ((groups.get? (row.groupText valueFields)).map fun group => group.valueOf field).getD .null

/-- The record of a group after a record has come to it. -/
def joined (valueFields : List String) (groups : Members Record) (row : Record) : Record :=
  match groups.get? (row.groupText valueFields) with
  | some group => group.mergeFields valueFields row
  | none => row

theorem addToGroup_eq (valueFields : List String) (groups : Members Record) (row : Record) :
    addToGroup valueFields groups row =
      groups.put (row.groupText valueFields) (joined valueFields groups row) := rfl

theorem valueOf_joined (hcount : valueFields.count field = 1) (groups : Members Record)
    (row : Record) : (joined valueFields groups row).valueOf field =
      (groupValue valueFields groups row field).merge (row.valueOf field) := by
  rw [joined, groupValue]
  cases groups.get? (row.groupText valueFields) with
  | none => exact (Json.null_merge _).symm
  | some group => exact valueOf_mergeFields hcount group row

theorem groupValue_cases (valueFields : List String) (groups : Members Record) (row : Record)
    (field : String) : groupValue valueFields groups row field = .null ∨
      groupValue valueFields groups row field ∈ groupColumn field groups := by
  rw [groupValue]
  cases hgroup : groups.get? (row.groupText valueFields) with
  | none => exact Or.inl rfl
  | some group =>
    exact Or.inr (List.mem_map_of_mem (f := fun e : String × Record => e.2.valueOf field)
      (Members.mem_of_get? hgroup))

/-- The value of a group takes the place of the one that it had. -/
theorem sum_addToGroup {N : Type} [AddCommMonoid N] (f : Json → N) (hf : f .null = 0)
    (hcount : valueFields.count field = 1) (groups : Members Record) (row : Record) :
    ((groupColumn field (addToGroup valueFields groups row)).map f).sum +
        f (groupValue valueFields groups row field) =
      ((groupColumn field groups).map f).sum +
        f ((groupValue valueFields groups row field).merge (row.valueOf field)) := by
  have hput := Members.sum_put (fun group : Record => f (group.valueOf field)) groups
    (row.groupText valueFields) (joined valueFields groups row)
  have hvalue : ((groups.get? (row.groupText valueFields)).map fun group =>
      f (group.valueOf field)).getD 0 = f (groupValue valueFields groups row field) := by
    rw [groupValue]
    cases groups.get? (row.groupText valueFields) with
    | none => exact hf.symm
    | some group => rfl
  rw [hvalue, valueOf_joined hcount] at hput
  simp only [groupColumn, List.map_map]
  exact hput

/-- The groups have the totals of the values that came to them. -/
structure Gathers (σ : Shape) (field : String) (vs : List Json) (groups : Members Record) :
    Prop where
  fits : ∀ v ∈ groupColumn field groups, σ.Fits v
  total : ∀ path, Json.total path (groupColumn field groups) = Json.total path vs
  weight : ∀ path, Json.weight path (groupColumn field groups) ≤ Json.weight path vs

theorem gathers_nil : Gathers σ field [] [] where
  fits _ h := absurd h List.not_mem_nil
  total _ := rfl
  weight _ := Nat.le_refl _

theorem Gathers.groupValue {vs : List Json} (h : Gathers σ field vs groups)
    (valueFields : List String) (row : Record) :
    σ.Fits (groupValue valueFields groups row field) ∧
      ∀ path, ((groupValue valueFields groups row field).amount path).natAbs ≤
        Json.weight path vs := by
  rcases groupValue_cases valueFields groups row field with hnull | hmem
  · rw [hnull]
    refine ⟨.null σ, fun path => ?_⟩
    rw [Json.amount_null]
    exact Nat.zero_le _
  · exact ⟨h.fits _ hmem, fun path => Nat.le_trans (Json.natAbs_amount_le hmem) (h.weight path)⟩

theorem Gathers.addToGroup {vs : List Json} (h : Gathers σ field vs groups)
    (hcount : valueFields.count field = 1) (hsum : σ.Summable (vs ++ [row.valueOf field])) :
    Gathers σ field (vs ++ [row.valueOf field]) (addToGroup valueFields groups row) := by
  -- What the group has is part of what was gathered, so that its merge stays within a word.
  obtain ⟨hold, hpart⟩ := h.groupValue valueFields row
  have hbounded : ∀ path, Json.weight path vs + ((row.valueOf field).amount path).natAbs ≤
      maxAmount := by
    intro path
    have hweight := hsum.bounded path
    rwa [Json.weight_append, Json.weight_singleton] at hweight
  obtain ⟨hfits, hamount⟩ := hold.merge
    (hsum.fits _ (List.mem_append_right _ (List.mem_singleton_self _))) fun path =>
      Nat.le_trans (Nat.add_le_add_right (hpart path) _) (hbounded path)
  constructor
  case fits =>
    intro v hv
    obtain ⟨e, he, rfl⟩ := List.mem_map.mp hv
    rw [addToGroup_eq] at he
    rcases Members.of_mem_put he with rfl | he
    · change σ.Fits ((joined valueFields groups row).valueOf field)
      rw [valueOf_joined hcount]
      exact hfits
    · exact h.fits _ (List.mem_map_of_mem he)
  case total =>
    intro path
    have hput := sum_addToGroup (fun v => v.amount path) (Json.amount_null path) hcount groups row
    have hgroups := h.total path
    rw [hamount path] at hput
    rw [Json.total_append, Json.total_singleton]
    simp only [Json.total] at hgroups ⊢
    omega
  case weight =>
    intro path
    have hput := sum_addToGroup (fun v => (v.amount path).natAbs)
      (by rw [Json.amount_null]; rfl) hcount groups row
    have hgroups := h.weight path
    rw [hamount path] at hput
    rw [Json.weight_append, Json.weight_singleton]
    simp only [Json.weight] at hgroups ⊢
    omega

/-- Every value that is summed comes to some group. -/
theorem gathers_addToGroup (hcount : valueFields.count field = 1)
    (h : σ.Summable (column field rows)) :
    Gathers σ field (column field rows) (rows.foldl (addToGroup valueFields) []) := by
  induction rows using List.reverseRecOn with
  | nil => exact gathers_nil
  | append_singleton rows row ih =>
    have hcolumn : column field (rows ++ [row]) = column field rows ++ [row.valueOf field] :=
      List.map_append
    rw [hcolumn] at h ⊢
    rw [List.foldl_append]
    exact (ih (h.of_sublist (List.sublist_append_left _ _))).addToGroup hcount h

/-- A field that is listed once has the total of the records whose dimension is mapped. -/
theorem rollup_total (mapping : Members String) (hcount : valueFields.count field = 1)
    (hdimension : field ≠ dimension) (htarget : field ≠ target)
    (hkeys : ∀ row ∈ rows, row.keys.Nodup) (h : σ.Summable (column field rows)) :
    σ.Summable (column field (rollup rows dimension target mapping valueFields)) ∧
      ∀ path, Json.total path (column field (rollup rows dimension target mapping valueFields)) =
        Json.total path (column field (rows.filter (isMapped mapping dimension))) := by
  have hmapped : column field (rows.filterMap (mapped? mapping dimension target)) =
      column field (rows.filter (isMapped mapping dimension)) :=
    column_mapped hdimension htarget hkeys
  have hsum : σ.Summable (column field (rows.filter (isMapped mapping dimension))) :=
    h.of_sublist (List.filter_sublist.map _)
  rw [← hmapped] at hsum ⊢
  have hgathers := gathers_addToGroup hcount hsum
  have hcolumn : column field (rollup rows dimension target mapping valueFields) =
      groupColumn field ((rows.filterMap (mapped? mapping dimension target)).foldl
        (addToGroup valueFields) []) := by
    rw [column, rollup, List.map_map]
    rfl
  rw [hcolumn]
  exact ⟨⟨hgathers.fits, fun path => Nat.le_trans (hgathers.weight path) (hsum.bounded path)⟩,
    hgathers.total⟩

/-! The end of a ranking. -/

theorem foldl_merge_column (field : String) (rows : List Record) (acc : Json) :
    (rows.filterMap (·.get? field)).foldl Json.merge acc =
      (column field rows).foldl Json.merge acc := by
  rw [column, List.foldl_filterMap, List.foldl_map]
  congr 1
  funext acc row
  rw [Members.valueOf]
  cases row.get? field with
  | none => exact (Json.merge_null acc).symm
  | some value => rfl

theorem valueOf_others (hfield : field ∈ valueFields) (rows : List Record) :
    (others rows valueFields).valueOf field = (column field rows).foldl Json.merge .null := by
  rw [Members.valueOf, others, Members.get?_collect, List.reverse_cons, ← List.map_reverse,
    List.lookup_append, Members.lookup_of_names, if_pos (List.mem_reverse.mpr hfield)]
  exact foldl_merge_column field rows .null

theorem column_othersBucket (hlimit : limit < rows.length) (hfield : field ∈ valueFields) :
    column field (othersBucket rows limit valueFields) = column field (rows.take limit) ++
      [(column field (rows.drop limit)).foldl Json.merge .null] := by
  rw [othersBucket, if_neg (Nat.not_le.mpr hlimit), column, List.map_append, List.map_singleton,
    valueOf_others hfield]
  rfl

theorem othersBucket_total (limit : Nat) (hfield : field ∈ valueFields)
    (h : σ.Summable (column field rows)) :
    σ.Summable (column field (othersBucket rows limit valueFields)) ∧
      ∀ path, Json.total path (column field (othersBucket rows limit valueFields)) =
        Json.total path (column field rows) := by
  by_cases hlimit : rows.length ≤ limit
  · rw [othersBucket, if_pos hlimit]
    exact ⟨h, fun path => rfl⟩
  · have hsplit : column field (rows.take limit) ++ column field (rows.drop limit) =
        column field rows := by
      rw [column, column, ← List.map_append, List.take_append_drop]
      rfl
    rw [← hsplit] at h
    obtain ⟨hfits, htotal⟩ :=
      (h.of_sublist (List.sublist_append_right _ _)).merge_null_all
    rw [column_othersBucket (Nat.not_le.mp hlimit) hfield, ← hsplit]
    refine ⟨⟨?_, fun path => ?_⟩, fun path => ?_⟩
    · intro v hv
      rcases List.mem_append.mp hv with hv | hv
      · exact h.fits v (List.mem_append_left _ hv)
      · exact List.mem_singleton.mp hv ▸ hfits
    · have hbounded := h.bounded path
      have hpart : (Json.total path (column field (rows.drop limit))).natAbs ≤
          Json.weight path (column field (rows.drop limit)) := Json.natAbs_total_le _
      rw [Json.weight_append] at hbounded ⊢
      rw [Json.weight_singleton, htotal path]
      omega
    · rw [Json.total_append, Json.total_append, Json.total_singleton, htotal path]

theorem take_othersBucket (rows : List Record) (limit : Nat) (valueFields : List String) :
    (othersBucket rows limit valueFields).take limit = rows.take limit ∧
      (othersBucket rows limit valueFields).length = min rows.length (limit + 1) := by
  rw [othersBucket]
  split
  · refine ⟨rfl, ?_⟩
    omega
  · next hlimit =>
    have hlength : (rows.take limit).length = limit := by
      rw [List.length_take]
      omega
    refine ⟨List.take_left' hlength, ?_⟩
    rw [List.length_append, hlength, List.length_singleton]
    omega

/-- A field that is listed once keeps its totals where records are grouped under what their
dimension is mapped to, and any field where the end of a ranking is folded; both in any order of the
records, and with whole numbers at every path still. -/
theorem totals_kept (h : σ.Summable (column field rows)) (hkeys : ∀ row ∈ rows, row.keys.Nodup)
    (hfield : field ∈ valueFields) :
    (∀ dimension target mapping, field ≠ dimension → field ≠ target →
      valueFields.count field = 1 →
      σ.Summable (column field (rollup rows dimension target mapping valueFields)) ∧
      (∀ path, Json.total path (column field (rollup rows dimension target mapping valueFields)) =
        Json.total path (column field (rows.filter (isMapped mapping dimension)))) ∧
      ∀ rows', rows'.Perm rows → ∀ path,
        Json.total path (column field (rollup rows' dimension target mapping valueFields)) =
          Json.total path (column field (rollup rows dimension target mapping valueFields))) ∧
    ∀ limit, σ.Summable (column field (othersBucket rows limit valueFields)) ∧
      (∀ path, Json.total path (column field (othersBucket rows limit valueFields)) =
        Json.total path (column field rows)) ∧
      (othersBucket rows limit valueFields).take limit = rows.take limit ∧
      (othersBucket rows limit valueFields).length = min rows.length (limit + 1) ∧
      ∀ rows', rows'.Perm rows → ∀ path,
        Json.total path (column field (othersBucket rows' limit valueFields)) =
          Json.total path (column field (othersBucket rows limit valueFields)) := by
  have hperm : ∀ rows', rows'.Perm rows → σ.Summable (column field rows') ∧
      ∀ row ∈ rows', row.keys.Nodup := fun rows' hrows =>
    ⟨h.perm (hrows.map _), fun row hrow => hkeys row (hrows.subset hrow)⟩
  refine ⟨fun dimension target mapping hdimension htarget hcount => ?_, fun limit => ?_⟩
  · obtain ⟨hsum, htotal⟩ := rollup_total mapping hcount hdimension htarget hkeys h
    refine ⟨hsum, htotal, fun rows' hrows path => ?_⟩
    obtain ⟨h', hkeys'⟩ := hperm rows' hrows
    rw [(rollup_total mapping hcount hdimension htarget hkeys' h').2 path, htotal path]
    exact Json.total_perm ((hrows.filter _).map _)
  · obtain ⟨hsum, htotal⟩ := othersBucket_total limit hfield h
    obtain ⟨htake, hlength⟩ := take_othersBucket rows limit valueFields
    refine ⟨hsum, htotal, htake, hlength, fun rows' hrows path => ?_⟩
    rw [(othersBucket_total limit hfield (hperm rows' hrows).1).2 path, htotal path]
    exact Json.total_perm (hrows.map _)

def projectGroups : Members String := [("p1", "g"), ("p2", "g")]

/-- The costs of a January. -/
def january (n : Int) : Json := .obj [("2024-01", .int n)]

theorem fits_january (n : Int) : Shape.Fits (.object fun _ => .number) (january n) := by
  refine .object (List.nodup_singleton _) fun name => ?_
  simp only [Members.valueOf, Members.get?]
  split
  · exact .number n
  · exact .null _

theorem natAbs_january (n : Int) (path : List String) :
    ((january n).amount path).natAbs ≤ n.natAbs := by
  rcases path with _ | ⟨name, _ | ⟨month, path⟩⟩ <;>
    simp only [january, Json.amount, Members.valueOf, Members.get?, Int.natAbs_zero, Nat.zero_le]
  · split
    · exact Nat.le_refl _
    · exact Nat.zero_le _
  · split <;> exact Nat.zero_le _

/-- Two projects of one group, and one that has none and no costs. -/
def januaryRows : List Record :=
  [[("project_id", .str "p1"), ("cost", january 1)],
    [("project_id", .str "p2"), ("cost", january 2)],
    [("project_id", .str "p3"), ("cost", .null)]]

theorem summable_januaryRows :
    (Shape.object fun _ => .number).Summable (column "cost" januaryRows) := by
  have hcolumn : column "cost" januaryRows = [january 1, january 2, .null] := rfl
  rw [hcolumn]
  refine ⟨?_, fun path => ?_⟩
  · exact List.forall_mem_cons.mpr ⟨fits_january 1, List.forall_mem_cons.mpr
      ⟨fits_january 2, List.forall_mem_singleton.mpr (.null _)⟩⟩
  · have hfirst := natAbs_january 1 path
    have hsecond := natAbs_january 2 path
    rw [Json.weight_cons, Json.weight_cons, Json.weight_singleton, Json.amount_null, maxAmount,
      Nat.pow_eq]
    omega

/-- They come to three over the groups, and over the ranking. -/
theorem totals_kept_january :
    (Shape.object fun _ => .number).Summable (column "cost" januaryRows) ∧
      (∀ row ∈ januaryRows, row.keys.Nodup) ∧
      Json.total ["2024-01"] (column "cost"
        (rollup januaryRows "project_id" "project_group_id" projectGroups ["cost"])) = 3 ∧
      Json.total ["2024-01"] (column "cost" (othersBucket januaryRows 1 ["cost"])) = 3 := by
  have hkeys : ∀ row ∈ januaryRows, row.keys.Nodup := by decide
  obtain ⟨hrollup, hothers⟩ :=
    totals_kept summable_januaryRows hkeys (List.mem_singleton_self "cost")
  obtain ⟨-, hmapped, -⟩ := hrollup "project_id" "project_group_id" projectGroups (by decide)
    (by decide) rfl
  exact ⟨summable_januaryRows, hkeys, (hmapped _).trans rfl, ((hothers 1).2.1 _).trans rfl⟩

/-- The costs of two projects of one group. -/
def projectRows : List Record :=
  [[("project_id", .str "p1"), ("cost", .int 1)], [("project_id", .str "p2"), ("cost", .int 2)]]

/-- A field that is listed twice is merged twice, into the record that came first. -/
theorem totals_not_kept_twice :
    Shape.number.Summable (column "cost" projectRows) ∧ (∀ row ∈ projectRows, row.keys.Nodup) ∧
      Json.total [] (column "cost" (projectRows.filter (isMapped projectGroups "project_id"))) = 3 ∧
      Json.total [] (column "cost" (rollup projectRows "project_id" "project_group_id"
        projectGroups ["cost", "cost"])) = 5 ∧
      Json.total [] (column "cost" (rollup projectRows.reverse "project_id" "project_group_id"
        projectGroups ["cost", "cost"])) = 4 ∧
      Json.total [] (column "cost" (othersBucket projectRows 0 ["cost", "cost"])) = 3 := by
  have hcolumn : column "cost" projectRows = [.int 1, .int 2] := rfl
  refine ⟨?_, by decide, rfl, rfl, rfl, rfl⟩
  rw [hcolumn]
  refine ⟨?_, fun path => ?_⟩
  · exact List.forall_mem_cons.mpr ⟨.number 1, List.forall_mem_singleton.mpr (.number 2)⟩
  · cases path with
    | nil => decide
    | cons name path => exact Nat.zero_le _

end CostQuery.Record
