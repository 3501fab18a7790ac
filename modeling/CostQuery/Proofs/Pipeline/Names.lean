import CostQuery.Pipeline.Text
import CostQuery.Proofs.Pipeline.Meaning

/-! The names of members in the documents that tests become. Names with a dollar sign before them
are operators to the store, also where a request named a column so. -/

namespace CostQuery

/-- The store takes such a name for its own. -/
def hasSigil (name : String) : Bool := name.toList.head? = some '$'

namespace Json

mutual

/-- The names of all members, at every depth. -/
def names : Json → List String
  | .arr items => namesOfAll items
  | .obj members => namesOfMembers members
  | .null | .bool _ | .num _ | .str _ => []

def namesOfAll : List Json → List String
  | [] => []
  | v :: rest => v.names ++ namesOfAll rest

def namesOfMembers : List (String × Json) → List String
  | [] => []
  | (k, v) :: rest => k :: (v.names ++ namesOfMembers rest)

end

theorem namesOfAll_eq (items : List Json) : namesOfAll items = items.flatMap names := by
  induction items with
  | nil => rfl
  | cons v rest ih => rw [namesOfAll, ih, List.flatMap_cons]

end Json

theorem Literal.names_toJson (v : Literal) : v.toJson.names = [] := by
  cases v with
  | float x =>
    rw [toJson, Json.ofFloat]
    split <;> rfl
  | null | bool | int | text => rfl

theorem Literal.names_list (vs : List Literal) : Json.namesOfAll (vs.map toJson) = [] := by
  rw [Json.namesOfAll_eq, List.flatMap_map]
  simp [names_toJson]

namespace Pipeline
variable {name : String} {e : Expr} {p t : Predicate}

/-- The operators that tests of documents are written with. -/
def filterOperators : List String :=
  ["$eq", "$ne", "$lt", "$lte", "$gt", "$gte", "$in", "$nin", "$regex", "$options", "$not", "$and",
    "$or", "$expr", "$toDate", "$dateTrunc", "$dateAdd"]

/-- What begins with a dollar sign among the names is an operator. -/
def Operators (names : List String) : Prop :=
  ∀ name ∈ names, hasSigil name = true → name ∈ filterOperators

instance (names : List String) : Decidable (Operators names) :=
  inferInstanceAs (Decidable (∀ name ∈ names, hasSigil name = true → name ∈ filterOperators))

mutual

/-- The tests of a match, without what joins them. -/
def Match.leaves : Match → List Match
  | .and parts | .or parts => leavesOfAll parts
  | m => [m]

def leavesOfAll : List Match → List Match
  | [] => []
  | m :: rest => m.leaves ++ leavesOfAll rest

end

namespace Match

def key? : Match → Option String
  | .field key _ => some key
  | _ => none

/-- The columns that fields of a match are named after. -/
def keys (m : Match) : List String := m.leaves.filterMap key?

end Match

theorem leavesOfAll_eq (parts : List Match) : leavesOfAll parts = parts.flatMap Match.leaves := by
  induction parts with
  | nil => rfl
  | cons m rest ih => rw [leavesOfAll, ih, List.flatMap_cons]

theorem matchesToJson_eq (parts : List Match) : matchesToJson parts = parts.map Match.toJson := by
  induction parts with
  | nil => rfl
  | cons m rest ih => rw [matchesToJson, ih, List.map_cons]

namespace Match

theorem field_or_expr (ht : t.isTest = true) :
    (∃ key test, ofPredicate t = .field key test) ∨ ∃ e, ofPredicate t = .expr e := by
  cases t with
  | isNull | isNotNull | regex => exact .inl ⟨_, _, rfl⟩
  | compare c op => cases op <;> exact .inl ⟨_, _, rfl⟩
  | contains c text negated => cases negated <;> exact .inl ⟨_, _, rfl⟩
  | oneOf c values negated => cases negated <;> exact .inl ⟨_, _, rfl⟩
  | datetime | timediff | never => exact .inr ⟨_, rfl⟩
  | and | or => cases ht

/-- What joins the tests of a predicate joins those of the match. -/
theorem leaves_ofPredicate (p : Predicate) : (ofPredicate p).leaves = p.tests.map ofPredicate := by
  induction p using Predicate.of_parts with
  | test p hp =>
    rw [Predicate.tests_of_isTest hp, List.map_singleton]
    rcases field_or_expr hp with ⟨key, test, hm⟩ | ⟨e, hm⟩
    · rw [hm]
      rfl
    · rw [hm]
      rfl
  | and parts ih | or parts ih =>
    rw [ofPredicate, leaves, leavesOfAll_eq, matchesOf_eq, List.flatMap_map, Predicate.tests,
      Predicate.testsOfAll_eq, List.map_flatMap]
    exact List.flatMap_congr ih

theorem mem_names_joined {op : String} {parts : List Predicate} :
    name ∈ (operator op (.arr (matchesToJson (matchesOf parts)))).names ↔
      name = op ∨ ∃ p ∈ parts, name ∈ (ofPredicate p).toJson.names := by
  simp only [operator, Json.names, Json.namesOfMembers, Json.namesOfAll_eq, matchesToJson_eq,
    matchesOf_eq, List.flatMap_map, List.append_nil, List.mem_cons, List.mem_flatMap]

/-- A member of the document joins tests or is within one. -/
theorem mem_names_ofPredicate (h : name ∈ (ofPredicate p).toJson.names) :
    name = "$and" ∨ name = "$or" ∨ ∃ t ∈ p.tests, name ∈ (ofPredicate t).toJson.names := by
  induction p using Predicate.of_parts with
  | test p hp =>
    have hself : p ∈ p.tests := by simp [Predicate.tests_of_isTest hp]
    exact .inr (.inr ⟨p, hself, h⟩)
  | and parts ih =>
    rw [ofPredicate, toJson, mem_names_joined] at h
    obtain rfl | ⟨p, hp, h⟩ := h
    · exact .inl rfl
    · obtain hand | hor | ⟨t, ht, h⟩ := ih p hp h
      · exact .inl hand
      · exact .inr (.inl hor)
      · exact .inr (.inr ⟨t, Predicate.mem_tests_and.mpr ⟨p, hp, ht⟩, h⟩)
  | or parts ih =>
    rw [ofPredicate, toJson, mem_names_joined] at h
    obtain rfl | ⟨p, hp, h⟩ := h
    · exact .inr (.inl rfl)
    · obtain hand | hor | ⟨t, ht, h⟩ := ih p hp h
      · exact .inl hand
      · exact .inr (.inl hor)
      · exact .inr (.inr ⟨t, Predicate.mem_tests_or.mpr ⟨p, hp, ht⟩, h⟩)

theorem names_of_mem_tests (ht : t ∈ p.tests) (h : name ∈ (ofPredicate t).toJson.names) :
    name ∈ (ofPredicate p).toJson.names := by
  induction p using Predicate.of_parts with
  | test p hp =>
    rw [Predicate.tests_of_isTest hp, List.mem_singleton] at ht
    exact ht ▸ h
  | and parts ih =>
    obtain ⟨p, hp, ht⟩ := Predicate.mem_tests_and.mp ht
    exact mem_names_joined.mpr (.inr ⟨p, hp, ih p hp ht⟩)
  | or parts ih =>
    obtain ⟨p, hp, ht⟩ := Predicate.mem_tests_or.mp ht
    exact mem_names_joined.mpr (.inr ⟨p, hp, ih p hp ht⟩)

theorem mem_keys_ofPredicate {key : String} :
    key ∈ (ofPredicate p).keys ↔ ∃ t ∈ p.tests, (ofPredicate t).key? = some key := by
  rw [keys, leaves_ofPredicate, List.filterMap_map, List.mem_filterMap]
  rfl

theorem comparisonName_mem (op : Comparison) : comparisonName op ∈ filterOperators := by
  cases op <;> decide

theorem names_fieldTest (test : FieldTest) : test.toJson.names ⊆ filterOperators := by
  cases test with
  | isNull => exact List.nil_subset _
  | notNull | regex | contains | lacks =>
    simp [FieldTest.toJson, anyCase, operator, Json.names, Json.namesOfMembers, filterOperators]
  | compare op v =>
    simp [FieldTest.toJson, operator, Json.names, Json.namesOfMembers, v.names_toJson,
      comparisonName_mem]
  | oneOf vs | noneOf vs =>
    simp [FieldTest.toJson, operator, Json.names, Json.namesOfMembers, Literal.names_list,
      filterOperators]

/-- A moment is put together by operators, under names of operands without a dollar sign. -/
theorem operators_momentOf (time : RelativeTime) : Operators (momentOf time).toJson.names := by
  obtain ⟨dayStart, offset⟩ := time
  have hstart : Operators ["$dateTrunc", "date", "unit"] := by decide
  have hadd : Operators ["$dateAdd", "startDate", "unit", "amount"] := by decide
  have hboth : Operators
      ["$dateAdd", "startDate", "$dateTrunc", "date", "unit", "unit", "amount"] := by decide
  cases dayStart with
  | false =>
    cases offset with
    | none => exact nofun
    | some => exact hadd
  | true =>
    cases offset with
    | none => exact hstart
    | some => exact hboth

theorem operators_compare {op : Comparison} {left right : Expr}
    (hleft : Operators left.toJson.names) (hright : Operators right.toJson.names) :
    Operators (Expr.compare op left right).toJson.names := by
  simp only [Expr.toJson, operator, Json.names, Json.namesOfMembers, Json.namesOfAll,
    List.append_nil]
  exact List.forall_mem_cons.mpr ⟨fun _ => comparisonName_mem op,
    List.forall_mem_append.mpr ⟨hleft, hright⟩⟩

theorem operators_expr (h : ofPredicate t = .expr e) : Operators e.toJson.names := by
  have hdate : Operators ["$toDate"] := by decide
  cases t with
  | isNull | isNotNull | regex | and | or => cases h
  | compare c op => cases op <;> cases h
  | contains c text negated => cases negated <;> cases h
  | oneOf c values negated => cases negated <;> cases h
  | datetime c op text =>
    obtain rfl := Match.expr.inj h
    exact operators_compare hdate hdate
  | timediff c op time =>
    obtain rfl := Match.expr.inj h
    exact operators_compare hdate (operators_momentOf time)
  | never =>
    obtain rfl := Match.expr.inj h
    exact nofun

theorem names_leaf (ht : t.isTest = true) (hname : name ∈ (ofPredicate t).toJson.names)
    (hs : hasSigil name = true) : name ∈ filterOperators ∨ name ∈ (ofPredicate t).key? := by
  rcases field_or_expr ht with ⟨key, test, hm⟩ | ⟨e, hm⟩ <;> rw [hm] at hname ⊢
  · rw [toJson, Json.names, Json.namesOfMembers, Json.namesOfMembers, List.append_nil,
      List.mem_cons] at hname
    obtain rfl | hname := hname
    · exact .inr rfl
    · exact .inl (names_fieldTest test hname)
  · rw [toJson, operator, Json.names, Json.namesOfMembers, Json.namesOfMembers, List.append_nil,
      List.mem_cons] at hname
    obtain rfl | hname := hname
    · exact .inl (by decide)
    · exact .inl (operators_expr hm name hname hs)

/-- Names with a dollar sign are operators, save for the columns that go by one. -/
theorem names_ofPredicate (hname : name ∈ (ofPredicate p).toJson.names)
    (hs : hasSigil name = true) : name ∈ filterOperators ∨ name ∈ (ofPredicate p).keys := by
  obtain rfl | rfl | ⟨t, ht, h⟩ := mem_names_ofPredicate hname
  · exact .inl (by decide)
  · exact .inl (by decide)
  · have hleaf := names_leaf (Predicate.isTest_of_mem_tests ht) h hs
    exact hleaf.imp_right fun hkey => mem_keys_ofPredicate.mpr ⟨t, ht, hkey⟩

theorem keys_subset_names : (ofPredicate p).keys ⊆ (ofPredicate p).toJson.names := by
  intro key hkey
  obtain ⟨t, ht, hkey⟩ := mem_keys_ofPredicate.mp hkey
  refine names_of_mem_tests ht ?_
  cases hm : ofPredicate t with
  | field key' test =>
    rw [hm] at hkey
    obtain rfl := Option.some.inj hkey
    exact List.mem_cons_self
  | expr | and | or =>
    rw [hm] at hkey
    cases hkey

end Match
end Pipeline
end CostQuery
