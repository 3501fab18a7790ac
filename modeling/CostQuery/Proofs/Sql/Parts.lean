import CostQuery.Proofs.Sql.Windows
import CostQuery.Sql.Text
import Mathlib.Data.List.Infix

/-! Expressions inside expressions, and where in a statement they are written. -/

namespace CostQuery.Sql

namespace Token
variable {t : Token} {ts : List Token} {tss : List (List Token)} {separator : String}

/-- Pieces stand whole between separators. -/
theorem infix_separated (h : ts ∈ tss) : ts <:+: separated separator tss := by
  induction tss with
  | nil => cases h
  | cons a rest ih =>
    cases rest with
    | nil =>
      obtain rfl := List.mem_singleton.mp h
      exact List.infix_rfl
    | cons b rest =>
      change ts <:+: a ++ .plain separator :: separated separator (b :: rest)
      rcases List.mem_cons.mp h with rfl | h
      · exact (List.prefix_append _ _).isInfix
      · exact (ih h).trans ⟨a ++ [.plain separator], [], by simp⟩

theorem mem_separated (h : t ∈ separated separator tss) :
    t = .plain separator ∨ ∃ ts ∈ tss, t ∈ ts := by
  induction tss with
  | nil => cases h
  | cons a rest ih =>
    cases rest with
    | nil => exact Or.inr ⟨a, List.mem_singleton_self a, h⟩
    | cons b rest =>
      rcases List.mem_append.mp h with h | h
      · exact Or.inr ⟨a, List.mem_cons_self, h⟩
      · rcases List.mem_cons.mp h with rfl | h
        · exact Or.inl rfl
        · exact (ih h).imp_right fun ⟨ts, hts, h⟩ => ⟨ts, List.mem_cons_of_mem _ hts, h⟩

end Token

theorem infix_joined {ts : List Token} {tss : List (List Token)} {word neutral : String}
    (h : ts ∈ tss) : ts <:+: joined word neutral tss := by
  unfold joined
  split
  · cases h
  · obtain rfl := List.mem_singleton.mp h
    exact List.infix_rfl
  · exact (Token.infix_separated h).trans ⟨[.plain "("], [.plain ")"], rfl⟩

theorem allTokens_eq (es : List Expr) : allTokens es = es.map Expr.tokens := by
  induction es with
  | nil => rfl
  | cons e rest ih => rw [allTokens, ih, List.map_cons]

theorem slotTokens_eq (slots : List (String × Expr)) : slotTokens slots =
    slots.map fun slot => .quoted slot.1 :: .plain ", " :: slot.2.tokens := by
  induction slots with
  | nil => rfl
  | cons slot rest ih => rw [slotTokens, ih, List.map_cons]

namespace Expr

/-- The expressions right inside an expression. -/
def children : Expr → List Expr
  | .column _ | .literal _ | .star | .now | .today | .never | .interval _ _ => []
  | .subscript e _ | .cast e _ | .isNull e _ | .oneOf e _ _ | .ilike e _ _ | .rlike e _
  | .over e _ => [e]
  | .compare _ a b | .arithmetic _ a b => [a, b]
  | .call _ es | .and es | .or es => es
  | .ifThenElse a b c => [a, b, c]
  | .struct slots => slots.map Prod.snd

variable {e child whole : Expr}

theorem nodes_eq (e : Expr) : e.nodes = e :: e.children.flatMap nodes := by
  cases e <;> simp [nodes, children, nodesOfAll_eq, nodesOfSlots_eq, List.flatMap_map]

theorem mem_nodes_iff :
    e ∈ whole.nodes ↔ e = whole ∨ ∃ child ∈ whole.children, e ∈ child.nodes := by
  rw [nodes_eq, List.mem_cons, List.mem_flatMap]

theorem mem_nodes_self (e : Expr) : e ∈ e.nodes := mem_nodes_iff.mpr (Or.inl rfl)

theorem mem_nodes_of_child (hchild : child ∈ whole.children) (h : e ∈ child.nodes) :
    e ∈ whole.nodes :=
  mem_nodes_iff.mpr (Or.inr ⟨child, hchild, h⟩)

theorem sizeOf_child (h : child ∈ whole.children) :
    SizeOf.sizeOf child < SizeOf.sizeOf whole := by
  cases whole with
  | column | literal | star | now | today | never | interval => cases h
  | subscript | cast | isNull | oneOf | ilike | rlike | «over» =>
    obtain rfl := List.mem_singleton.mp h
    simp <;> omega
  | compare | arithmetic | ifThenElse =>
    simp only [children, List.mem_cons, List.not_mem_nil, or_false] at h
    rcases h with rfl | rfl | rfl <;> simp <;> omega
  | call _ es | and es | or es =>
    have : SizeOf.sizeOf child < SizeOf.sizeOf es := List.sizeOf_lt_of_mem h
    simp
    omega
  | struct slots =>
    obtain ⟨slot, hslot, rfl⟩ := List.mem_map.mp h
    have hslots := List.sizeOf_lt_of_mem hslot
    have hpair : SizeOf.sizeOf slot.2 < SizeOf.sizeOf slot := by
      cases slot
      simp
    simp
    omega

/-- Induction on the expressions inside. -/
@[elab_as_elim]
theorem of_children {motive : Expr → Prop}
    (h : ∀ e, (∀ child ∈ e.children, motive child) → motive e) (e : Expr) : motive e :=
  h e fun child _ => of_children h child
termination_by SizeOf.sizeOf e
decreasing_by exact sizeOf_child ‹_›

/-- An expression is written whole inside what it is part of. -/
theorem infix_of_child (h : child ∈ whole.children) : child.tokens <:+: whole.tokens := by
  cases whole with
  | column | literal | star | now | today | never | interval => cases h
  | subscript | isNull | oneOf | ilike | rlike =>
    obtain rfl := List.mem_singleton.mp h
    exact (List.prefix_append _ _).isInfix
  | «over» value partition =>
    obtain rfl := List.mem_singleton.mp h
    cases partition <;> exact (List.prefix_append _ _).isInfix
  | cast value type =>
    obtain rfl := List.mem_singleton.mp h
    exact ⟨[_], _, rfl⟩
  | compare op a b =>
    simp only [children, List.mem_cons, List.not_mem_nil, or_false] at h
    rcases h with rfl | rfl
    · exact (List.prefix_append _ _).isInfix
    · exact ⟨a.tokens ++ [.plain (comparisonSign op)], [], by simp [tokens]⟩
  | arithmetic op a b =>
    simp only [children, List.mem_cons, List.not_mem_nil, or_false] at h
    rcases h with rfl | rfl
    · exact ⟨[.plain "("], _, rfl⟩
    · exact ⟨.plain "(" :: (a.tokens ++ [.plain (arithmeticSign op)]), [.plain ")"],
        by simp [tokens]⟩
  | ifThenElse test yes no =>
    simp only [children, List.mem_cons, List.not_mem_nil, or_false] at h
    rcases h with rfl | rfl | rfl
    · exact ⟨[.plain "CASE WHEN "], _, rfl⟩
    · exact ⟨.plain "CASE WHEN " :: (test.tokens ++ [.plain " THEN "]),
        .plain " ELSE " :: (no.tokens ++ [.plain " END"]), by simp [tokens]⟩
    · exact ⟨.plain "CASE WHEN " :: (test.tokens ++ .plain " THEN " ::
        (yes.tokens ++ [.plain " ELSE "])), [.plain " END"], by simp [tokens]⟩
  | call f es =>
    rw [tokens, allTokens_eq]
    exact (Token.infix_separated (List.mem_map_of_mem h)).trans ⟨[_], [_], rfl⟩
  | and es | or es =>
    rw [tokens, allTokens_eq]
    exact infix_joined (List.mem_map_of_mem h)
  | struct slots =>
    obtain ⟨slot, hslot, rfl⟩ := List.mem_map.mp h
    rw [tokens, slotTokens_eq]
    refine List.IsInfix.trans ⟨[.quoted slot.1, .plain ", "], [], by simp⟩
      ((Token.infix_separated (List.mem_map_of_mem hslot)).trans ⟨[_], [_], rfl⟩)

/-- So is one at any depth. -/
theorem infix_of_mem_nodes (h : e ∈ whole.nodes) : e.tokens <:+: whole.tokens := by
  induction whole using of_children with
  | h whole ih =>
    rcases mem_nodes_iff.mp h with rfl | ⟨child, hchild, h⟩
    · exact List.infix_rfl
    · exact (ih child hchild h).trans (infix_of_child hchild)

end Expr
end CostQuery.Sql
