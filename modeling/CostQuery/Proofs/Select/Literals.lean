import CostQuery.Pipeline.Text
import CostQuery.Proofs.Pipeline.Compile
import CostQuery.Proofs.Record.Unwrapped
import CostQuery.Proofs.Sql.Parts
import CostQuery.Proofs.Sql.Refusals

/-! The literals of computed columns, from definitions to the expressions of both stores. -/

namespace CostQuery

namespace SelectExpr

/-- A scalar is a literal of a definition, at any depth. -/
inductive LiteralOf : Json → Json → Prop
  | number (n : Number) : LiteralOf (.num n) (.num n)
  | bool (b : Bool) : LiteralOf (.bool b) (.bool b)
  | marked {j : Json} {members : List (String × Json)}
      (mark : Members.get? members "literal" = some j) : LiteralOf j (.obj members)
  | operand {j item : Json} {members : List (String × Json)} {operator : String}
      {items : List Json} (unmarked : Members.get? members "literal" = none)
      (arithmetic : Members.get? members "operator" = some (.str operator))
      (sized : operator ≠ "size") (fields : Members.get? members "fields" = some (.arr items))
      (among : item ∈ items) (within : LiteralOf j item) : LiteralOf j (.obj members)

theorem operandsOfMembers_eq (members : List (String × Json)) :
    operandsOfMembers? members = (Members.get? members "fields").bind operandsOf? := by
  induction members with
  | nil => rfl
  | cons m rest ih =>
    obtain ⟨k, v⟩ := m
    rw [operandsOfMembers?, Members.get?, ih]
    split <;> rfl

theorem exists_operand {items : List Json} {es : List SelectExpr} (h : ofItems? items = some es)
    {item : Json} (hitem : item ∈ items) : ∃ e ∈ es, ofJson? item = some e := by
  induction items generalizing es with
  | nil => cases hitem
  | cons v rest ih =>
    simp only [ofItems?, Option.bind_eq_bind, Option.bind_eq_some_iff, Option.pure_def,
      Option.some.injEq] at h
    obtain ⟨e, he, rest', hrest, rfl⟩ := h
    rcases List.mem_cons.mp hitem with rfl | hitem
    · exact ⟨e, List.mem_cons_self, he⟩
    · obtain ⟨e, hmem, he⟩ := ih hrest hitem
      exact ⟨e, List.mem_cons_of_mem _ hmem, he⟩

/-- Arithmetic that is not marked as a literal is read with all its operands. -/
theorem of_arithmetic {members : List (String × Json)} {operator : String} {items : List Json}
    {e : SelectExpr} (unmarked : Members.get? members "literal" = none)
    (arithmetic : Members.get? members "operator" = some (.str operator))
    (sized : operator ≠ "size") (fields : Members.get? members "fields" = some (.arr items))
    (he : ofJson? (.obj members) = some e) :
    ∃ op operands, ofItems? items = some operands ∧ e = .arithmetic op operands := by
  have hoperator : (Members.get? members "operator").bind Json.asText? = some operator := by
    rw [arithmetic]
    rfl
  rw [ofJson?, unmarked] at he
  simp only [hoperator, Option.bind_eq_bind, Option.bind_some] at he
  rw [ofOperator?, if_neg sized, operandsOfMembers_eq, fields] at he
  simp only [Option.bind_eq_bind, Option.bind_some, Option.bind_eq_some_iff] at he
  obtain ⟨op, -, operands, hoperands, he⟩ := he
  split at he
  · cases he
  · exact ⟨op, operands, hoperands, (Option.some.inj he).symm⟩

end SelectExpr

/-- A literal is in a computed column, at any depth. -/
inductive Computed.Holds (v : Literal) : Computed → Prop
  | literal : Holds v (.literal v)
  | operand {op : Arithmetic} {operands : List Computed} {e : Computed} (among : e ∈ operands)
      (within : Holds v e) : Holds v (.arithmetic op operands)

theorem SelectExpr.exists_holds {j definition : Json} {e : SelectExpr}
    (h : LiteralOf j definition) (he : ofJson? definition = some e) :
    ∃ v, Literal.ofJson? j = some v ∧ (Computed.ofSelect e).Holds v := by
  induction h generalizing e with
  | number n =>
    obtain ⟨v, hv, rfl⟩ := Option.map_eq_some_iff.mp he
    exact ⟨v, hv, .literal⟩
  | bool b =>
    obtain rfl := Option.some.inj he
    exact ⟨.bool b, rfl, .literal⟩
  | marked mark =>
    rw [ofJson?, mark] at he
    obtain ⟨v, hv, rfl⟩ := Option.map_eq_some_iff.mp he
    exact ⟨v, hv, .literal⟩
  | operand unmarked arithmetic sized fields among _ ih =>
    obtain ⟨op, operands, hoperands, rfl⟩ := of_arithmetic unmarked arithmetic sized fields he
    obtain ⟨e, hmem, he⟩ := exists_operand hoperands among
    obtain ⟨v, hv, hholds⟩ := ih he
    rw [Computed.ofSelect, computedOperands_eq]
    exact ⟨v, hv, .operand (List.mem_map_of_mem hmem) hholds⟩

/-! Operands applied from the left. -/

/-- Whatever comes into each result from both sides comes into the last one. -/
theorem foldl_reaches {E : Type} {R : E → E → Prop} {apply : E → E → E} (refl : ∀ e, R e e)
    (trans : ∀ {a b c}, R a b → R b c → R a c) (left : ∀ l r, R l (apply l r))
    (right : ∀ l r, R r (apply l r)) (es : List E) (e : E) :
    ∀ x ∈ e :: es, R x (es.foldl apply e) := by
  induction es generalizing e with
  | nil =>
    rw [List.forall_mem_singleton]
    exact refl e
  | cons first rest ih =>
    obtain ⟨hfirst, hrest⟩ := List.forall_mem_cons.mp (ih (apply e first))
    rw [List.forall_mem_cons, List.forall_mem_cons]
    exact ⟨trans (left e first) hfirst, trans (right e first) hfirst, hrest⟩

theorem Json.Within.trans {a b c : Json} (h : a.Within b) (h' : b.Within c) : a.Within c := by
  induction h' with
  | self => exact h
  | item hv _ ih => exact .item hv ih
  | member he _ ih => exact .member he ih

namespace Pipeline
variable {w : Warehouse} {v : Literal} {c : Computed} {x : Expr}

/-- The documents of operands are in that of the operation. -/
theorem within_operator {name : String} {operands : List Json} {j operand : Json}
    (hmem : operand ∈ operands) (h : j.Within operand) :
    j.Within (operator name (.arr operands)) :=
  .member (List.mem_singleton_self _) (.item hmem h)

theorem within_applied (op : Arithmetic) (l r : Expr) :
    l.toJson.Within (applied op l r).toJson ∧ r.toJson.Within (applied op l r).toJson := by
  cases op with
  | add | subtract | multiply =>
    exact ⟨within_operator List.mem_cons_self .self,
      within_operator (List.mem_cons_of_mem _ List.mem_cons_self) .self⟩
  | divide =>
    have hlast {a b c : Json} : c ∈ [a, b, c] := by simp
    exact ⟨within_operator hlast (within_operator List.mem_cons_self .self),
      within_operator hlast (within_operator (List.mem_cons_of_mem _ List.mem_cons_self) .self)⟩

theorem within_chained {op : Arithmetic} {xs : List Expr} {y : Expr} (h : chained op xs = .ok y)
    (hx : x ∈ xs) : x.toJson.Within y.toJson := by
  cases xs with
  | nil => cases hx
  | cons first rest =>
    obtain rfl := Except.ok.inj h
    exact foldl_reaches (R := fun x y : Expr => x.toJson.Within y.toJson) (fun _ => .self)
      .trans (fun l r => (within_applied op l r).1) (fun l r => (within_applied op l r).2)
      rest first x hx

/-- A literal is kept from being read as an expression. -/
theorem within_computed (h : c.Holds v) (hx : computed w c = .ok x) :
    (operator "$literal" v.toJson).Within x.toJson := by
  induction h generalizing x with
  | literal =>
    obtain rfl := Except.ok.inj hx
    exact .self
  | operand among _ ih =>
    rw [computed, computedAll_eq] at hx
    obtain ⟨xs, hxs, hx⟩ := bind_ok.mp hx
    obtain ⟨y, hy, hey⟩ := exists_of_forall₂ (mapM_ok hxs) among
    exact (ih hey).trans (within_chained hx hy)

end Pipeline

namespace Sql
variable {r : Reader} {v : Literal} {c : Computed} {e child whole : Expr}

theorem Expr.mem_nodes_trans (h : e ∈ child.nodes) (h' : child ∈ whole.nodes) :
    e ∈ whole.nodes := by
  induction whole using of_children with
  | h whole ih =>
    rcases mem_nodes_iff.mp h' with rfl | ⟨part, hpart, h'⟩
    · exact h
    · exact mem_nodes_of_child hpart (ih part hpart h')

theorem mem_nodes_applied (op : Arithmetic) (l r : Expr) :
    l ∈ (applied op l r).nodes ∧ r ∈ (applied op l r).nodes := by
  have hleft (op : Arithmetic) (r : Expr) : l ∈ (Expr.arithmetic op l r).nodes :=
    Expr.mem_nodes_of_child List.mem_cons_self (Expr.mem_nodes_self l)
  have hright (op : Arithmetic) {part : Expr} (h : r ∈ part.nodes) :
      r ∈ (Expr.arithmetic op l part).nodes :=
    Expr.mem_nodes_of_child (List.mem_cons_of_mem _ List.mem_cons_self) h
  cases op with
  | add | subtract | multiply => exact ⟨hleft _ r, hright _ (Expr.mem_nodes_self r)⟩
  | divide =>
    exact ⟨hleft _ _, hright _ (Expr.mem_nodes_of_child List.mem_cons_self (Expr.mem_nodes_self r))⟩

theorem mem_nodes_chained {op : Arithmetic} {es : List Expr} (h : chained op es = .ok whole)
    (he : e ∈ es) : e ∈ whole.nodes := by
  cases es with
  | nil => cases he
  | cons first rest =>
    obtain rfl := Except.ok.inj h
    exact foldl_reaches (R := fun e whole : Expr => e ∈ whole.nodes) Expr.mem_nodes_self
      Expr.mem_nodes_trans (fun l r => (mem_nodes_applied op l r).1)
      (fun l r => (mem_nodes_applied op l r).2) rest first e he

theorem Reader.mem_nodes_computed (h : c.Holds v) (he : r.computed c = .ok e) :
    .literal v ∈ e.nodes := by
  induction h generalizing e with
  | literal =>
    obtain rfl := Except.ok.inj he
    exact Expr.mem_nodes_self _
  | operand among _ ih =>
    rw [computed, r.computedAll_eq] at he
    obtain ⟨es, hes, he⟩ := bind_ok.mp he
    obtain ⟨part, hpart, hcomputed⟩ := exists_of_forall₂ (mapM_ok hes) among
    exact Expr.mem_nodes_trans (ih hcomputed) (mem_nodes_chained he hpart)

end Sql
end CostQuery
