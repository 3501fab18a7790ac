import CostQuery.Proofs.Column
import CostQuery.Sql.Column

/-! Columns beneath the list that is spread. Their keys are the key of the list, a dot and a rest,
and what is read of an item is exactly that rest. -/

namespace CostQuery.Sql

section
variable {c above : Column} {sub : String}

theorem keyBeneath?_self (h : c.key = above.key) : keyBeneath? c above = none := by
  have hbeyond : Text.after? c.key (above.key.utf8ByteSize + 1) = none := by
    apply Option.eq_none_iff_forall_ne_some.mpr
    intro rest hrest
    obtain ⟨front, hfront, hsize⟩ := Text.after?_eq_some_iff.mp hrest
    have hkey := congrArg String.utf8ByteSize (h.symm.trans hfront)
    rw [String.utf8ByteSize_append] at hkey
    omega
  rw [keyBeneath?, hbeyond, Option.filter_none]

theorem after?_beneath (h : c.key = above.key ++ "." ++ sub) :
    Text.after? c.key (above.key.utf8ByteSize + 1) = some sub :=
  Text.after?_eq_some_iff.mpr ⟨above.key ++ ".", h, by rw [String.utf8ByteSize_append]; rfl⟩

theorem keyBeneath?_dot (h : c.key = above.key ++ ".") : keyBeneath? c above = none := by
  have hcut : Text.after? c.key (above.key.utf8ByteSize + 1) = some "" :=
    after?_beneath (by rw [h, String.append_empty])
  rw [keyBeneath?, hcut]
  rfl

theorem keyBeneath?_sub (h : c.key = above.key ++ "." ++ sub) (hsub : sub ≠ "") :
    keyBeneath? c above = some sub := by
  rw [keyBeneath?, after?_beneath h, Option.filter_some, if_pos (decide_eq_true hsub)]

theorem keyBeneath?_eq_none (h : c.isUnder above = true) :
    keyBeneath? c above = none ↔ c.key = above.key ∨ c.key = above.key ++ "." := by
  constructor
  · intro hnone
    rcases Column.isUnder_iff.mp h with heq | ⟨sub, hkey⟩
    · exact .inl heq
    · by_cases hsub : sub = ""
      · right
        rw [hkey, hsub, String.append_empty]
      · rw [keyBeneath?_sub hkey hsub] at hnone
        cases hnone
  · rintro (heq | hdot)
    · exact keyBeneath?_self heq
    · exact keyBeneath?_dot hdot

end

namespace Reader

/-- What is read of an item by what follows the key of its list: the item itself if that is nothing
or a lone dot, and the value at all that follows the dot otherwise. -/
inductive ReadsItem (r : Reader) (root : String) : String → Expr → Prop
  | bare : ReadsItem r root "" (.column unwoundName)
  | dot : ReadsItem r root "." (.column unwoundName)
  | sub {sub : String} (h : sub ≠ "") :
    ReadsItem r root ("." ++ sub) (r.typed root (.subscript (.column unwoundName) sub) true)

variable {r : Reader} {c above : Column}

theorem column_unwound (hu : r.unwind = some above) (h : c.isUnder above = true) :
    r.column c = .ok (r.unwound c above true) := by
  rw [column, read, hu]
  exact if_pos h

theorem readsItem_unwound (h : c.isUnder above = true) :
    ∃ tail, c.key = above.key ++ tail ∧ r.ReadsItem c.root tail (r.unwound c above true) := by
  rcases Column.isUnder_iff.mp h with heq | ⟨sub, hkey⟩
  · refine ⟨"", by rw [heq, String.append_empty], ?_⟩
    rw [unwound, keyBeneath?_self heq]
    exact .bare
  · refine ⟨"." ++ sub, by rw [hkey, String.append_assoc], ?_⟩
    by_cases hsub : sub = ""
    · subst hsub
      rw [String.append_empty] at hkey ⊢
      rw [unwound, keyBeneath?_dot hkey]
      exact .dot
    · rw [unwound, keyBeneath?_sub hkey hsub]
      exact .sub hsub

end Reader

/-- Columns that were read from keys are partially ordered by what lies beneath what, and each is
read back from its own key. A column beneath the list that is spread is read of its items by exactly
the part of its key that follows the key of the list. -/
theorem prefix_order_read (w : Warehouse) (a b c : String) :
    Column.ofKey (Column.ofKey a).key = Column.ofKey a ∧
      (Column.ofKey a).isUnder (Column.ofKey a) = true ∧
      ((Column.ofKey a).isUnder (Column.ofKey b) = true →
        (Column.ofKey b).isUnder (Column.ofKey c) = true →
        (Column.ofKey a).isUnder (Column.ofKey c) = true) ∧
      ((Column.ofKey a).isUnder (Column.ofKey b) = true →
        (Column.ofKey b).isUnder (Column.ofKey a) = true → Column.ofKey a = Column.ofKey b) ∧
      ((Column.ofKey a).isUnder (Column.ofKey b) = true →
        ∃ tail e, (Column.ofKey a).key = (Column.ofKey b).key ++ tail ∧
          (Reader.mk w (some (Column.ofKey b))).column (Column.ofKey a) = .ok e ∧
          (Reader.mk w (some (Column.ofKey b))).ReadsItem (Column.ofKey a).root tail e) := by
  refine ⟨Column.ofKey_key a, Column.isUnder_refl _, Column.isUnder_trans,
    Column.ofKey_eq_of_isUnder, ?_⟩
  intro hunder
  obtain ⟨tail, hkey, hitem⟩ := Reader.readsItem_unwound hunder
  exact ⟨tail, _, hkey, Reader.column_unwound rfl hunder, hitem⟩

/-- A key that goes on with two dots, beneath a key of more bytes than characters; and a key that
ends with a dot, which is dropped. -/
theorem prefix_order_read_dots :
    (Column.ofKey "tags.größe..é").isUnder (Column.ofKey "tags") = true ∧
      Column.ofKey "tags." = Column.ofKey "tags" ∧
      (Reader.mk {} (some (Column.ofKey "tags.größe"))).column (Column.ofKey "tags.größe..é") =
        .ok (.cast (.subscript (.column unwoundName) ".é") .string) := by
  have hunder : (Column.ofKey "tags.größe..é").isUnder (Column.ofKey "tags.größe") = true := by
    decide
  obtain ⟨-, -, htrans, -, hread⟩ := prefix_order_read {} "tags.größe..é" "tags.größe" "tags"
  obtain ⟨-, -, -, hantisymm, -⟩ := prefix_order_read {} "tags." "tags" "tags"
  refine ⟨htrans hunder (by decide), hantisymm (by decide) (by decide), ?_⟩
  obtain ⟨tail, e, hkey, hcolumn, hitem⟩ := hread hunder
  have hdots : (Column.ofKey "tags.größe..é").key =
      (Column.ofKey "tags.größe").key ++ ("." ++ ".é") := by decide
  rw [hdots, String.append_right_inj] at hkey
  refine hcolumn.trans ?_
  cases hitem with
  | bare => exact absurd hkey (by decide)
  | dot => exact absurd hkey (by decide)
  | sub h =>
    rw [String.append_right_inj] at hkey
    subst hkey
    rfl

end CostQuery.Sql
