import CostQuery.Proofs.Record.Documents

/-! What is left of wrapped decimals where values were unwrapped once. The text of a wrapper is no
wrapper itself, but where it is no decimal it stays a text, and an object around it that held the
wrapper now holds the text. -/

namespace CostQuery.Json
variable {v w : Json} {items : List Json} {members : List (String × Json)} {text : String}

/-- A value is inside another at any depth, the value itself among them. -/
inductive Within (w : Json) : Json → Prop
  | self : Within w w
  | item {v : Json} {items : List Json} (hv : v ∈ items) (h : Within w v) : Within w (.arr items)
  | member {e : String × Json} {members : List (String × Json)} (he : e ∈ members)
      (h : Within w e.2) : Within w (.obj members)

/-- The object that wraps a decimal, where what it holds is a text. -/
def wrapped (content : Json) : Json := .obj [("$numberDecimal", content)]

/-- There are no values in it. -/
def isScalar : Json → Bool
  | .arr _ | .obj _ => false
  | .null | .bool _ | .num _ | .str _ => true

theorem wrapped_ne_scalar {content : Json} (h : v.isScalar = true) : wrapped content ≠ v := by
  rintro rfl
  cases h

section
variable {motive : Json → Prop} (scalar : ∀ v, v.isScalar = true → motive v)
  (wrapper : ∀ text, motive (wrapped (.str text)))
  (arr : ∀ items, (∀ v ∈ items, motive v) → motive (.arr items))
  (obj : ∀ members, (∀ text, .obj members ≠ wrapped (.str text)) →
    (∀ e ∈ members, motive e.2) → motive (.obj members))
include scalar wrapper arr obj

/-- Induction on what holds the values. The objects that are unwrapped are a case of their own. -/
@[elab_as_elim]
theorem of_contents : ∀ v, motive v
  | .arr items => arr items fun v _ => of_contents v
  | .obj members => by
    by_cases h : ∃ text, .obj members = wrapped (.str text)
    · obtain ⟨text, htext⟩ := h
      exact htext ▸ wrapper text
    · exact obj members (not_exists.mp h) fun e _ => of_contents e.2
  | .null => scalar .null rfl
  | .bool b => scalar (.bool b) rfl
  | .num n => scalar (.num n) rfl
  | .str s => scalar (.str s) rfl
termination_by v => sizeOf v
decreasing_by
  · have := List.sizeOf_lt_of_mem ‹_ ∈ items›
    simp
    omega
  · have := List.sizeOf_lt_of_mem ‹_ ∈ members›
    cases e
    simp at this ⊢
    omega

end

theorem within_scalar (h : v.isScalar = true) : w.Within v ↔ w = v := by
  constructor
  · intro hw
    cases hw with
    | self => rfl
    | item | member => cases h
  · rintro rfl
    exact .self

theorem within_arr : w.Within (.arr items) ↔ w = .arr items ∨ ∃ v ∈ items, w.Within v := by
  constructor
  · intro hw
    cases hw with
    | self => exact .inl rfl
    | item hv h => exact .inr ⟨_, hv, h⟩
  · rintro (rfl | ⟨v, hv, h⟩)
    · exact .self
    · exact .item hv h

theorem within_obj : w.Within (.obj members) ↔ w = .obj members ∨ ∃ e ∈ members, w.Within e.2 := by
  constructor
  · intro hw
    cases hw with
    | self => exact .inl rfl
    | member he h => exact .inr ⟨_, he, h⟩
  · rintro (rfl | ⟨e, he, h⟩)
    · exact .self
    · exact .member he h

/-! What each value becomes. -/

theorem unwrapped_scalar (h : v.isScalar = true) : v.unwrapped = v := by
  cases v with
  | null | bool | num | str => rfl
  | arr | obj => cases h

theorem wrappedDecimal?_eq_some :
    wrappedDecimal? members = some text ↔ obj members = wrapped (.str text) := by
  unfold wrappedDecimal? wrapped
  split
  · simp
  · next hother => exact iff_of_false (by simp) fun h => hother text (obj.inj h)

theorem unwrapped_obj (h : ∀ text, obj members ≠ wrapped (.str text)) :
    (obj members).unwrapped = .obj (members.map fun e => (e.1, e.2.unwrapped)) := by
  have hnone : wrappedDecimal? members = none := by
    refine Option.eq_none_iff_forall_not_mem.mpr fun text htext => ?_
    exact h text (wrappedDecimal?_eq_some.mp htext)
  rw [unwrapped, hnone, unwrappedMembers_eq]

theorem isScalar_ofDecimalText (text : String) : (ofDecimalText text).isScalar = true := by
  unfold ofDecimalText decimalToJson ofFloat
  split
  · split <;> rfl
  · rfl

/-- Only a text that is no decimal stays a text. -/
theorem ofDecimalText_eq_str {s : String} :
    ofDecimalText s = .str text ↔ s = text ∧ Decimal.Bounded.ofText? text = none := by
  unfold ofDecimalText
  split
  · next d hd =>
    refine iff_of_false ?_ ?_
    · unfold decimalToJson ofFloat
      split <;> simp
    · rintro ⟨rfl, hnone⟩
      rw [hd] at hnone
      cases hnone
  · next hnone =>
    rw [str.injEq]
    constructor
    · rintro rfl
      exact ⟨rfl, hnone⟩
    · exact And.left

theorem unwrapped_wrapped (text : String) :
    (wrapped (.str text)).unwrapped = ofDecimalText text := rfl

/-- A value becomes a text if it is the text, or wraps it and it is no decimal. -/
theorem unwrapped_eq_str : v.unwrapped = .str text ↔
    v = .str text ∨ v = wrapped (.str text) ∧ Decimal.Bounded.ofText? text = none := by
  induction v using of_contents with
  | scalar v h => simp [unwrapped_scalar h, (wrapped_ne_scalar h).symm]
  | wrapper s =>
    rw [unwrapped_wrapped, ofDecimalText_eq_str]
    simp [wrapped]
  | arr items => simp [unwrapped_arr, wrapped]
  | obj members hother => simp [unwrapped_obj hother, hother text]

theorem map_eq_self_iff {α : Type} {f : α → α} {l : List α} :
    l.map f = l ↔ ∀ a ∈ l, f a = a := by
  simpa using List.map_inj_left (f := f) (g := id) (l := l)

/-- Wrapped texts are what is changed, and nothing else. -/
theorem unwrapped_eq_self_iff : v.unwrapped = v ↔ ∀ text, ¬ (wrapped (.str text)).Within v := by
  induction v using of_contents with
  | scalar v h => simp [unwrapped_scalar h, within_scalar h, wrapped_ne_scalar h]
  | wrapper text =>
    rw [unwrapped_wrapped]
    exact iff_of_false (wrapped_ne_scalar (isScalar_ofDecimalText text)).symm
      fun h => h text .self
  | arr items ih =>
    rw [unwrapped_arr, arr.injEq, map_eq_self_iff]
    simp only [within_arr, wrapped, reduceCtorEq, false_or, not_exists, not_and]
    constructor
    · intro h text v hv
      exact (ih v hv).mp (h v hv) text
    · intro h v hv
      exact (ih v hv).mpr fun text => h text v hv
  | obj members hother ih =>
    rw [unwrapped_obj hother, obj.injEq, map_eq_self_iff]
    simp only [within_obj, not_or, not_exists, not_and, Prod.ext_iff, true_and]
    constructor
    · intro h text
      exact ⟨fun he => hother text he.symm, fun e he => (ih e he).mp (h e he) text⟩
    · intro h e he
      exact (ih e he).mpr fun text => (h text).2 e he

/-- An object that is no wrapper becomes one if it wraps a wrapper of what is no decimal. -/
theorem wrapped_eq_unwrapped (h : ∀ text, obj members ≠ wrapped (.str text)) :
    wrapped (.str text) = (obj members).unwrapped ↔
      Decimal.Bounded.ofText? text = none ∧ wrapped (wrapped (.str text)) = obj members := by
  rw [unwrapped_obj h, wrapped, obj.injEq, eq_comm]
  constructor
  · intro hmap
    obtain ⟨⟨k, v⟩, rfl, he⟩ := List.map_eq_singleton_iff.mp hmap
    obtain ⟨rfl, hv⟩ := Prod.mk.inj he
    rcases unwrapped_eq_str.mp hv with rfl | ⟨rfl, hnone⟩
    · exact absurd rfl (h text)
    · exact ⟨hnone, rfl⟩
  · rintro ⟨hnone, hmembers⟩
    have htext : (wrapped (.str text)).unwrapped = .str text :=
      unwrapped_eq_str.mpr (.inr ⟨rfl, hnone⟩)
    rw [← obj.inj hmembers]
    exact congrArg (fun v => [("$numberDecimal", v)]) htext

/-- A wrapper is left where there were two of them around a text that is no decimal. -/
theorem within_unwrapped_iff : (wrapped (.str text)).Within v.unwrapped ↔
    Decimal.Bounded.ofText? text = none ∧ (wrapped (wrapped (.str text))).Within v := by
  induction v using of_contents with
  | scalar v h => simp [unwrapped_scalar h, within_scalar h, wrapped_ne_scalar h]
  | wrapper s =>
    have hscalar := isScalar_ofDecimalText s
    rw [unwrapped_wrapped, within_scalar hscalar]
    refine iff_of_false (wrapped_ne_scalar hscalar) ?_
    simp [wrapped, within_obj, within_scalar (v := .str s) rfl]
  | arr items ih =>
    rw [unwrapped_arr]
    simp only [within_arr, wrapped, reduceCtorEq, false_or, List.mem_map,
      exists_exists_and_eq_and]
    constructor
    · rintro ⟨v, hv, h⟩
      obtain ⟨hnone, hwithin⟩ := (ih v hv).mp h
      exact ⟨hnone, v, hv, hwithin⟩
    · rintro ⟨hnone, v, hv, h⟩
      exact ⟨v, hv, (ih v hv).mpr ⟨hnone, h⟩⟩
  | obj members hother ih =>
    have hself : wrapped (.str text) = (obj members).unwrapped ↔ _ := wrapped_eq_unwrapped hother
    rw [unwrapped_obj hother] at hself ⊢
    rw [within_obj, within_obj, hself, and_or_left]
    simp only [List.mem_map, exists_exists_and_eq_and]
    refine or_congr_right ⟨?_, ?_⟩
    · rintro ⟨e, he, h⟩
      obtain ⟨hnone, hwithin⟩ := (ih e he).mp h
      exact ⟨hnone, e, he, hwithin⟩
    · rintro ⟨hnone, e, he, h⟩
      exact ⟨e, he, (ih e he).mpr ⟨hnone, h⟩⟩

/-- A wrapper is left exactly where there were two of them around a text that is no decimal. A
value without them has nothing left to unwrap a second time, and any other has. -/
theorem unwrapped_complete_iff (v : Json) :
    (∀ text, (wrapped (.str text)).Within v.unwrapped ↔
      Decimal.Bounded.ofText? text = none ∧ (wrapped (wrapped (.str text))).Within v) ∧
    (v.unwrapped.unwrapped = v.unwrapped ↔
      ∀ text, Decimal.Bounded.ofText? text = none →
        ¬ (wrapped (wrapped (.str text))).Within v) := by
  refine ⟨fun text => within_unwrapped_iff, ?_⟩
  rw [unwrapped_eq_self_iff]
  simp only [within_unwrapped_iff, not_and]

/-- What a store writes for a decimal that is no number, under the name of the wrapper. -/
def nanDocument : Json := wrapped (wrapped (.str "NaN"))

theorem nanDocument_left :
    (wrapped (.str "NaN")).Within nanDocument.unwrapped ∧
      nanDocument.unwrapped.unwrapped ≠ nanDocument.unwrapped := by
  have hnone : Decimal.Bounded.ofText? "NaN" = none := by decide
  have hleft : (wrapped (.str "NaN")).Within nanDocument.unwrapped :=
    within_unwrapped_iff.mpr ⟨hnone, .self⟩
  exact ⟨hleft, fun h => unwrapped_eq_self_iff.mp h "NaN" hleft⟩

end CostQuery.Json
