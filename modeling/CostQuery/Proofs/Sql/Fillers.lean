import CostQuery.Proofs.Sql.Parts
import Mathlib.Data.List.Chain

/-! Expressions that are printed without fillers: no list is empty, there is no null, and no truth
value stands in for parts that are not there. -/

namespace CostQuery.Sql

/-! What an expression writes of its own, apart from the expressions inside it. -/

namespace Expr

def ownTokens : Expr → List Token
  | .column n => [.name n]
  | .literal v => [.ofLiteral v]
  | .star => [.plain "*"]
  | .now => [.plain "CURRENT_TIMESTAMP()"]
  | .today => [.plain "CURRENT_DATE()"]
  | .never => [.plain "1=0"]
  | .subscript _ key => [.plain "[", .quoted key, .plain "]"]
  | .call f _ => [.plain f.opening, .plain ", ", .plain ")"]
  | .cast _ type => .plain "CAST(" :: .plain " AS " :: .plain ")" :: type.tokens
  | .compare op _ _ => [.plain (comparisonSign op)]
  | .arithmetic op _ _ => [.plain "(", .plain (arithmeticSign op), .plain ")"]
  | .isNull _ negated => [.plain (if negated then " IS NOT NULL" else " IS NULL")]
  | .oneOf _ items negated =>
    .plain (if negated then " NOT IN (" else " IN (") :: .plain ", " :: .plain ")" ::
      items.map .ofLiteral
  | .ilike _ pattern negated =>
    [.plain (if negated then " NOT ILIKE " else " ILIKE "), .quoted pattern]
  | .rlike _ pattern => [.plain " RLIKE ", .quoted pattern]
  | .and parts =>
    [.plain "(", .plain " AND ", .plain ")"] ++ if parts.isEmpty then [.plain "TRUE"] else []
  | .or parts =>
    [.plain "(", .plain " OR ", .plain ")"] ++ if parts.isEmpty then [.plain "FALSE"] else []
  | .ifThenElse _ _ _ => [.plain "CASE WHEN ", .plain " THEN ", .plain " ELSE ", .plain " END"]
  | .over _ partition =>
    .plain " OVER ()" :: .plain " OVER (PARTITION BY " :: .plain ")" :: names partition
  | .interval amount unit => [.plain "INTERVAL ", .int amount, .plain (unitWord unit)]
  | .struct slots =>
    .plain "NAMED_STRUCT(" :: .plain ", " :: .plain ")" :: slots.map fun slot => .quoted slot.1

variable {e : Expr} {t : Token}

theorem mem_joined {word neutral : String} {tss : List (List Token)}
    (h : t ∈ joined word neutral tss) :
    t ∈ [Token.plain "(", .plain word, .plain ")"] ∨ (tss = [] ∧ t = .plain neutral) ∨
      ∃ ts ∈ tss, t ∈ ts := by
  unfold joined at h
  split at h
  · exact Or.inr (Or.inl ⟨rfl, List.mem_singleton.mp h⟩)
  · exact Or.inr (Or.inr ⟨_, List.mem_singleton_self _, h⟩)
  · rcases List.mem_cons.mp h with rfl | h
    · exact Or.inl List.mem_cons_self
    rcases List.mem_append.mp h with h | h
    · rcases Token.mem_separated h with rfl | hpart
      · exact Or.inl (by simp)
      · exact Or.inr (Or.inr hpart)
    · exact Or.inl (by simp [List.mem_singleton.mp h])

theorem mem_tokens (h : t ∈ e.tokens) :
    t ∈ e.ownTokens ∨ ∃ child ∈ e.children, t ∈ child.tokens := by
  have parts {es : List Expr} {separator : String}
      (h : t ∈ Token.separated separator (allTokens es)) :
      t = .plain separator ∨ ∃ e ∈ es, t ∈ e.tokens := by
    simpa [allTokens_eq] using Token.mem_separated h
  have joins {es : List Expr} {word neutral : String}
      (h : t ∈ joined word neutral (allTokens es)) :
      t ∈ [Token.plain "(", .plain word, .plain ")"] ++
          (if es.isEmpty then [.plain neutral] else []) ∨ ∃ e ∈ es, t ∈ e.tokens := by
    rcases mem_joined h with h | ⟨hnil, rfl⟩ | hpart
    · exact Or.inl (List.mem_append_left _ h)
    · rw [allTokens_eq, List.map_eq_nil_iff] at hnil
      exact Or.inl (List.mem_append_right _ (by simp [hnil]))
    · exact Or.inr (by simpa [allTokens_eq] using hpart)
  cases e with
  | column | literal | star | now | today | never | interval => exact Or.inl h
  | subscript | cast | isNull | ilike | rlike | compare | arithmetic | ifThenElse =>
    simp only [tokens, ownTokens, children, List.mem_append, List.mem_cons] at h ⊢
    grind
  | call f es =>
    simp only [tokens, ownTokens, children, List.mem_append, List.mem_cons] at h ⊢
    grind
  | oneOf value items negated =>
    have hitems (h : t ∈ Token.separated ", " (items.map fun v => [.ofLiteral v])) :
        t = .plain ", " ∨ t ∈ items.map .ofLiteral := by
      simpa [eq_comm] using Token.mem_separated h
    simp only [tokens, ownTokens, children, List.mem_append, List.mem_cons] at h ⊢
    grind
  | and es | or es => exact joins h
  | «over» value partition =>
    cases partition <;>
    · simp only [tokens, ownTokens, children, List.mem_append, List.mem_cons] at h ⊢
      grind
  | struct slots =>
    have hslots (h : t ∈ Token.separated ", " (slotTokens slots)) : t = .plain ", " ∨
        (t ∈ slots.map fun slot => .quoted slot.1) ∨ ∃ e ∈ slots.map Prod.snd, t ∈ e.tokens := by
      rcases Token.mem_separated h with h | ⟨ts, hts, h⟩
      · exact Or.inl h
      · rw [slotTokens_eq] at hts
        obtain ⟨slot, hslot, rfl⟩ := List.mem_map.mp hts
        rcases List.mem_cons.mp h with rfl | h
        · exact Or.inr (Or.inl (List.mem_map_of_mem (f := fun slot => Token.quoted slot.1) hslot))
        rcases List.mem_cons.mp h with rfl | h
        · exact Or.inl rfl
        · exact Or.inr (Or.inr ⟨_, List.mem_map_of_mem hslot, h⟩)
    simp only [tokens, ownTokens, children, List.mem_append, List.mem_cons] at h ⊢
    grind

/-- Every conjunction, disjunction and list in it has something in it, and no null is compared
with. -/
def IsFull : Expr → Prop
  | .literal v => v.isNull = false
  | .oneOf _ items _ => items ≠ [] ∧ ∀ v ∈ items, v.isNull = false
  | .and parts | .or parts => parts ≠ []
  | _ => True

def Full (e : Expr) : Prop := ∀ node ∈ e.nodes, node.IsFull

theorem full_iff : e.Full ↔ e.IsFull ∧ ∀ child ∈ e.children, child.Full := by
  simp only [Full, nodes_eq e, List.forall_mem_cons, List.forall_mem_flatMap]

section
variable {a b : Expr} {es : List Expr} {v : Literal} {vs : List Literal} {n : Name}
  {key pattern : String} {negated : Bool} {op : Comparison} {sign : Arithmetic} {f : Function}
  {type : ColumnType} {amount : Nat} {unit : TimeUnit}

theorem full_leaf (hchildren : e.children = []) : e.Full ↔ e.IsFull := by
  rw [full_iff, hchildren]
  simp

theorem full_single (hchildren : e.children = [a]) (h : e.IsFull) : e.Full ↔ a.Full := by
  rw [full_iff, hchildren]
  simp [h]

theorem full_pair (hchildren : e.children = [a, b]) (h : e.IsFull) :
    e.Full ↔ a.Full ∧ b.Full := by
  rw [full_iff, hchildren]
  simp [h]

@[simp] theorem full_column : (column n).Full := (full_leaf rfl).mpr trivial

@[simp] theorem full_now : now.Full := (full_leaf rfl).mpr trivial

@[simp] theorem full_today : today.Full := (full_leaf rfl).mpr trivial

@[simp] theorem full_never : never.Full := (full_leaf rfl).mpr trivial

@[simp] theorem full_interval : (interval amount unit).Full := (full_leaf rfl).mpr trivial

@[simp] theorem full_literal : (literal v).Full ↔ v.isNull = false := full_leaf rfl

@[simp] theorem full_text : (text key).Full := full_literal.mpr rfl

@[simp] theorem full_int {n : Int} : (int n).Full := full_literal.mpr rfl

@[simp] theorem full_subscript : (subscript a key).Full ↔ a.Full := full_single rfl trivial

@[simp] theorem full_cast : (cast a type).Full ↔ a.Full := full_single rfl trivial

@[simp] theorem full_isNull : (isNull a negated).Full ↔ a.Full := full_single rfl trivial

@[simp] theorem full_ilike : (ilike a pattern negated).Full ↔ a.Full := full_single rfl trivial

@[simp] theorem full_rlike : (rlike a pattern).Full ↔ a.Full := full_single rfl trivial

@[simp] theorem full_compare : (compare op a b).Full ↔ a.Full ∧ b.Full := full_pair rfl trivial

@[simp] theorem full_arithmetic : (arithmetic sign a b).Full ↔ a.Full ∧ b.Full :=
  full_pair rfl trivial

@[simp] theorem full_oneOf : (oneOf a vs negated).Full ↔
    (vs ≠ [] ∧ ∀ v ∈ vs, v.isNull = false) ∧ a.Full :=
  full_iff.trans (and_congr_right fun _ => List.forall_mem_singleton)

@[simp] theorem full_call : (call f es).Full ↔ ∀ e ∈ es, e.Full :=
  full_iff.trans (and_iff_right trivial)

@[simp] theorem full_and : (and es).Full ↔ es ≠ [] ∧ ∀ e ∈ es, e.Full := full_iff

@[simp] theorem full_or : (or es).Full ↔ es ≠ [] ∧ ∀ e ∈ es, e.Full := full_iff

end

/-- A value that is printed for itself, alone or in a list. -/
def Holds (e : Expr) (v : Literal) : Prop :=
  .literal v ∈ e.nodes ∨ ∃ value items negated, .oneOf value items negated ∈ e.nodes ∧ v ∈ items

/-- The words that stand for values, or for parts that are not there. -/
def valueWords : List String := ["NULL", "TRUE", "FALSE"]

/-- Of the words a full expression writes none on its own but for a value. -/
theorem of_ownTokens (h : e.IsFull) {word : String} (hword : word ∈ valueWords)
    (ht : .plain word ∈ e.ownTokens) :
    ∃ v, v.isNull = false ∧ .ofLiteral v = Token.plain word ∧
      (e = .literal v ∨ ∃ value items negated, e = .oneOf value items negated ∧ v ∈ items) := by
  simp only [valueWords, List.mem_cons, List.not_mem_nil, or_false] at hword
  cases e with
  | literal v => exact ⟨v, h, (List.mem_singleton.mp ht).symm, Or.inl rfl⟩
  | oneOf value items negated =>
    have hitem : .plain word ∈ items.map Token.ofLiteral := by
      rcases hword with rfl | rfl | rfl <;> cases negated <;> simpa [ownTokens] using ht
    obtain ⟨v, hv, heq⟩ := List.mem_map.mp hitem
    exact ⟨v, h.2 v hv, heq, Or.inr ⟨value, items, negated, rfl, hv⟩⟩
  | and parts | or parts =>
    have hne : parts ≠ [] := h
    rcases hword with rfl | rfl | rfl <;> simp [ownTokens, hne] at ht
  | «over» value partition =>
    have hnames : .plain word ∉ names partition := by
      intro hmem
      rcases Token.mem_separated hmem with heq | ⟨ts, hts, hmem⟩
      · rcases hword with rfl | rfl | rfl <;> simp at heq
      · obtain ⟨n, -, rfl⟩ := List.mem_map.mp hts
        simp at hmem
    rcases hword with rfl | rfl | rfl <;> simp [ownTokens, hnames] at ht
  | call f =>
    rcases hword with rfl | rfl | rfl <;> cases f <;> simp [ownTokens, Function.opening] at ht
  | cast _ type =>
    rcases hword with rfl | rfl | rfl <;> cases type <;> simp [ownTokens, ColumnType.tokens] at ht
  | compare op =>
    rcases hword with rfl | rfl | rfl <;> cases op <;> simp [ownTokens, comparisonSign] at ht
  | arithmetic op =>
    rcases hword with rfl | rfl | rfl <;> cases op <;> simp [ownTokens, arithmeticSign] at ht
  | isNull _ negated | ilike _ _ negated =>
    rcases hword with rfl | rfl | rfl <;> cases negated <;> simp [ownTokens] at ht
  | interval _ unit =>
    rcases hword with rfl | rfl | rfl <;> cases unit <;> simp [ownTokens, unitWord] at ht
  | column | star | now | today | never | subscript | rlike | ifThenElse | struct =>
    rcases hword with rfl | rfl | rfl <;> simp [ownTokens] at ht

theorem Full.of_word (h : e.Full) {word : String} (hword : word ∈ valueWords)
    (ht : .plain word ∈ e.tokens) :
    ∃ v, v.isNull = false ∧ .ofLiteral v = Token.plain word ∧ e.Holds v := by
  induction e using of_children with
  | h e ih =>
    obtain ⟨hown, hchildren⟩ := full_iff.mp h
    rcases mem_tokens ht with ht | ⟨child, hchild, ht⟩
    · obtain ⟨v, hknown, hv, rfl | ⟨value, items, negated, rfl, hmem⟩⟩ :=
        of_ownTokens hown hword ht
      · exact ⟨v, hknown, hv, Or.inl (mem_nodes_self _)⟩
      · exact ⟨v, hknown, hv, Or.inr ⟨value, items, negated, mem_nodes_self _, hmem⟩⟩
    · obtain ⟨v, hknown, hv, hholds⟩ := ih child hchild (hchildren child hchild) ht
      refine ⟨v, hknown, hv, hholds.imp (mem_nodes_of_child hchild) ?_⟩
      rintro ⟨value, items, negated, hmem, hv⟩
      exact ⟨value, items, negated, mem_nodes_of_child hchild hmem, hv⟩

end Expr

/-! Lists are opened, and something comes before they are closed. -/

def Token.OpensList (t : Token) : Prop := t = .plain " IN (" ∨ t = .plain " NOT IN ("

theorem not_opensList_literal (v : Literal) : ¬ (Token.ofLiteral v).OpensList := by
  cases v with
  | bool b => cases b <;> simp [Token.OpensList, Token.ofLiteral]
  | null | int | float | text => simp [Token.OpensList, Token.ofLiteral]

structure Listed (ts : List Token) : Prop where
  chain : ts.IsChain fun a b => a.OpensList → b ≠ .plain ")"
  last : ∀ t ∈ ts.getLast?, ¬ t.OpensList

namespace Listed
variable {t : Token} {ts ts' : List Token} {tss : List (List Token)} {text : String}

theorem nil : Listed [] := ⟨.nil, by simp⟩

theorem append (h : Listed ts) (h' : Listed ts') : Listed (ts ++ ts') where
  chain := List.isChain_append.mpr
    ⟨h.chain, h'.chain, fun a ha _ _ hopens => absurd hopens (h.last a ha)⟩
  last := by
    rw [List.getLast?_append]
    intro t ht
    cases hlast : ts'.getLast? with
    | none => exact h.last t (by simpa [hlast] using ht)
    | some t' => exact h'.last t (by simpa [hlast] using ht)

theorem single (h : ¬ t.OpensList) : Listed [t] :=
  ⟨.singleton t, fun _ ht => Option.some.inj ht ▸ h⟩

theorem cons (ht : ¬ t.OpensList) (h : Listed ts) : Listed (t :: ts) := (single ht).append h

theorem of_forall (h : ∀ t ∈ ts, ¬ t.OpensList) : Listed ts := by
  induction ts with
  | nil => exact nil
  | cons t ts ih =>
    obtain ⟨ht, hts⟩ := List.forall_mem_cons.mp h
    exact cons ht (ih hts)

theorem separated (h : ∀ ts ∈ tss, Listed ts) (htext : ¬ Token.OpensList (.plain text)) :
    Listed (Token.separated text tss) := by
  induction tss with
  | nil => exact nil
  | cons ts rest ih =>
    obtain ⟨hts, hrest⟩ := List.forall_mem_cons.mp h
    cases rest with
    | nil => exact hts
    | cons ts' rest => exact hts.append (cons htext (ih hrest))

theorem joined {word neutral : String} (h : ∀ ts ∈ tss, Listed ts)
    (hword : ¬ Token.OpensList (.plain word)) (hneutral : ¬ Token.OpensList (.plain neutral)) :
    Listed (Sql.joined word neutral tss) := by
  unfold Sql.joined
  split
  · exact single hneutral
  · exact h _ (List.mem_singleton_self _)
  · exact cons (by simp [Token.OpensList])
      ((separated h hword).append (single (by simp [Token.OpensList])))

/-- What opens a list is followed by its first item. -/
theorem items {vs : List Literal} (hne : vs ≠ []) (hts : Listed ts) (opening : Token) :
    Listed (ts ++ opening ::
      (Token.separated ", " (vs.map fun v => [.ofLiteral v]) ++ [.plain ")"])) := by
  have hbody : Listed (Token.separated ", " (vs.map fun v => [.ofLiteral v]) ++ [.plain ")"]) :=
    (separated (List.forall_mem_map.mpr fun v _ => single (not_opensList_literal v))
      (by simp [Token.OpensList])).append (single (by simp [Token.OpensList]))
  obtain ⟨v, rest, rfl⟩ := List.exists_cons_of_ne_nil hne
  have hhead : ∃ more, Token.separated ", " ((v :: rest).map fun v => [Token.ofLiteral v]) ++
      [.plain ")"] = .ofLiteral v :: more := by
    cases rest <;> exact ⟨_, rfl⟩
  obtain ⟨more, hmore⟩ := hhead
  rw [hmore] at hbody ⊢
  refine hts.append ⟨List.isChain_cons_cons.mpr ⟨fun _ heq => ?_, hbody.chain⟩, ?_⟩
  · cases v with
    | bool b => cases b <;> simp [Token.ofLiteral] at heq
    | null | int | float | text => simp [Token.ofLiteral] at heq
  · rw [List.getLast?_cons_cons]
    exact hbody.last

end Listed

/-- No list is closed right where it is opened. -/
theorem Expr.Full.listed {e : Expr} (h : e.Full) : Listed e.tokens := by
  induction e using of_children with
  | h e ih =>
    obtain ⟨hown, hchildren⟩ := full_iff.mp h
    have hparts : ∀ child ∈ e.children, Listed child.tokens :=
      fun child hchild => ih child hchild (hchildren child hchild)
    have hall : ∀ ts ∈ allTokens e.children, Listed ts := by
      rw [allTokens_eq]
      exact List.forall_mem_map.mpr hparts
    have fixed {text : String} (h : text ≠ " IN (" ∧ text ≠ " NOT IN (") :
        ¬ Token.OpensList (.plain text) := by
      simpa [Token.OpensList] using h
    cases e with
    | literal v => exact .single (not_opensList_literal v)
    | interval amount unit =>
      exact .of_forall (by cases unit <;> simp [Token.OpensList, tokens, unitWord])
    | column | star | now | today | never => exact .of_forall (by simp [tokens, Token.OpensList])
    | oneOf value items negated => exact .items hown.1 (hparts value (List.mem_singleton_self _)) _
    | subscript value | rlike value =>
      exact (hparts value (List.mem_singleton_self _)).append
        (.of_forall (by simp [Token.OpensList]))
    | isNull value negated | ilike value _ negated =>
      exact (hparts value (List.mem_singleton_self _)).append
        (.of_forall (by cases negated <;> simp [Token.OpensList]))
    | «over» value partition =>
      have hvalue := hparts value (List.mem_singleton_self _)
      cases partition with
      | nil => exact hvalue.append (.of_forall (by simp [Token.OpensList]))
      | cons n ns =>
        refine hvalue.append (.cons (fixed (by decide)) (.append (.separated ?_ ?_) (.single ?_)))
        · exact List.forall_mem_map.mpr fun n _ => .single (by simp [Token.OpensList])
        · exact fixed (by decide)
        · exact fixed (by decide)
    | cast value type =>
      refine .cons (fixed (by decide)) ((hparts value (List.mem_singleton_self _)).append ?_)
      exact .of_forall (by cases type <;> simp [Token.OpensList, ColumnType.tokens])
    | compare op a b =>
      refine (hparts a List.mem_cons_self).append (.cons (fixed ?_) (hparts b (by simp [children])))
      cases op <;> decide
    | arithmetic op a b =>
      refine .cons (fixed (by decide)) ((hparts a List.mem_cons_self).append (.cons (fixed ?_)
        ((hparts b (by simp [children])).append (.single (fixed (by decide))))))
      cases op <;> decide
    | ifThenElse a b c =>
      exact .cons (fixed (by decide)) ((hparts a List.mem_cons_self).append
        (.cons (fixed (by decide)) ((hparts b (by simp [children])).append
          (.cons (fixed (by decide)) ((hparts c (by simp [children])).append
            (.single (fixed (by decide))))))))
    | call f es =>
      refine .cons (fixed ?_) ((Listed.separated hall (fixed (by decide))).append
        (.single (fixed (by decide))))
      cases f <;> decide
    | and es | or es => exact .joined hall (fixed (by decide)) (fixed (by decide))
    | struct slots =>
      refine .cons (fixed (by decide)) ((Listed.separated ?_ (fixed (by decide))).append
        (.single (fixed (by decide))))
      rw [slotTokens_eq]
      exact List.forall_mem_map.mpr fun slot hslot => .cons (by simp [Token.OpensList])
        (.cons (fixed (by decide)) (hparts slot.2 (List.mem_map_of_mem hslot)))

/-- What no condition is printed with. -/
structure Expr.Clean (e : Expr) : Prop where
  full : e.Full
  /-- Null is printed in tests for null alone. -/
  no_null : .plain "NULL" ∉ e.tokens
  /-- A truth value is printed where the condition holds it. -/
  truths : ∀ b, .ofLiteral (.bool b) ∈ e.tokens → e.Holds (.bool b)
  lists : ∀ opening ∈ [" IN (", " NOT IN ("], ¬ [.plain opening, .plain ")"] <:+: e.tokens

theorem Expr.Full.clean {e : Expr} (h : e.Full) : e.Clean where
  full := h
  no_null hmem := by
    obtain ⟨v, hknown, hv, -⟩ := h.of_word (by decide) hmem
    cases v with
    | null => cases hknown
    | bool b => cases b <;> simp [Token.ofLiteral] at hv
    | int | float | text => simp [Token.ofLiteral] at hv
  truths b hmem := by
    have hword : ∃ word ∈ valueWords, Token.ofLiteral (.bool b) = .plain word := by
      cases b
      · exact ⟨"FALSE", by decide, rfl⟩
      · exact ⟨"TRUE", by decide, rfl⟩
    obtain ⟨word, hword, heq⟩ := hword
    obtain ⟨v, -, hv, hholds⟩ := h.of_word hword (heq ▸ hmem)
    have hsame : v = .bool b := by
      rw [← heq] at hv
      cases v with
      | bool b' => cases b <;> cases b' <;> first | rfl | simp [Token.ofLiteral] at hv
      | null | int | float | text => cases b <;> simp [Token.ofLiteral] at hv
    exact hsame ▸ hholds
  lists opening hopening hinfix := by
    have hchain := h.listed.chain.infix hinfix
    refine (List.isChain_cons_cons.mp hchain).1 ?_ rfl
    simpa [Token.OpensList] using hopening

end CostQuery.Sql
