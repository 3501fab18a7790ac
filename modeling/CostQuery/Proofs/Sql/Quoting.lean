import CostQuery.Proofs.Outcome
import CostQuery.Proofs.Sql.Tokens
import CostQuery.Service.Prepare

/-! No text of a request gets out of its quotes in SQL. -/

namespace CostQuery.Sql

/-! The texts in a statement, in the order in which they are written: literals, keys of maps, slots
of structs, and patterns. -/

mutual

def Expr.texts : Expr → List String
  | .column _ | .star | .now | .today | .never | .interval _ _ => []
  | .literal l => l.asText?.toList
  | .subscript base key => base.texts ++ [key]
  | .call _ args => allTexts args
  | .cast value _ => value.texts
  | .compare _ left right => left.texts ++ right.texts
  | .arithmetic _ left right => left.texts ++ right.texts
  | .isNull value _ => value.texts
  | .oneOf value items _ => value.texts ++ items.flatMap fun l => l.asText?.toList
  | .ilike value pattern _ => value.texts ++ [pattern]
  | .rlike value pattern => value.texts ++ [pattern]
  | .and parts | .or parts => allTexts parts
  | .ifThenElse test yes no => test.texts ++ (yes.texts ++ no.texts)
  | .over value _ => value.texts
  | .struct slots => slotTexts slots

def allTexts : List Expr → List String
  | [] => []
  | e :: rest => e.texts ++ allTexts rest

def slotTexts : List (String × Expr) → List String
  | [] => []
  | (name, e) :: rest => (name :: e.texts) ++ slotTexts rest

end

def optionTexts : Option Expr → List String
  | some e => e.texts
  | none => []

def Select.texts (s : Select) : List String :=
  s.items.flatMap (·.expr.texts) ++ (optionTexts s.explode ++
    (optionTexts s.filter ++ s.order.flatMap (·.expr.texts)))

def Statement.texts (s : Statement) : List String :=
  s.subqueries.flatMap (·.2.texts) ++ s.body.texts

/-! Fixed text, by the sides on which any token may stand. -/

def isOpener (text : String) : Bool := Token.isFixed text && Token.endsLoose text

def isCloser (text : String) : Bool := Token.isFixed text && Token.beginsLoose text

def isMark (text : String) : Bool := isCloser text && Token.endsLoose text

namespace Prints
variable {ts ts' : List Token} {texts texts' : List String} {text : String}

theorem plain (h : Token.isFixed text = true) : Prints [.plain text] [] :=
  single (Token.sound_plain h)

theorem name (n : Name) : Prints [.name n] [] := single (Token.sound_name n)

theorem int (n : Int) : Prints [.int n] [] := single (Token.sound_int n)

theorem quotes (text : String) : Prints [.quoted text] [text] := single (Token.sound_quoted text)

theorem opened (h : Prints ts texts) (hopen : isOpener text = true) :
    Prints (.plain text :: ts) texts := by
  obtain ⟨hfixed, hends⟩ := Bool.and_eq_true_iff.mp hopen
  refine (plain hfixed).append h fun a ha b hb => ?_
  obtain rfl := Option.some.inj ha
  have hb := h.sound b (List.mem_of_head? hb)
  exact Token.spaced_of_between (Token.after_plain hends) hb.chars_ne

theorem after (h : Prints ts texts) (h' : Prints (.plain text :: ts') texts')
    (hloose : Token.beginsLoose text = true) :
    Prints (ts ++ .plain text :: ts') (texts ++ texts') :=
  h.append h' fun a ha b hb => by
    obtain rfl := Option.some.inj hb
    exact (h.sound a (List.mem_of_getLast? ha)).spaced_plain hloose

theorem closed (h : Prints ts texts) (hclose : isCloser text = true) :
    Prints (ts ++ [.plain text]) texts := by
  obtain ⟨hfixed, hbegins⟩ := Bool.and_eq_true_iff.mp hclose
  have hafter := h.after (plain hfixed) hbegins
  rwa [List.append_nil] at hafter

theorem between (h : Prints ts texts) (h' : Prints ts' texts') (hmark : isMark text = true) :
    Prints (ts ++ .plain text :: ts') (texts ++ texts') := by
  obtain ⟨hclose, hends⟩ := Bool.and_eq_true_iff.mp hmark
  obtain ⟨hfixed, hbegins⟩ := Bool.and_eq_true_iff.mp hclose
  exact h.after (h'.opened (Bool.and_eq_true_iff.mpr ⟨hfixed, hends⟩)) hbegins

/-- What follows has no texts in it. -/
theorem followed (h : Prints ts texts) (h' : Prints ts' []) (hmark : isMark text = true) :
    Prints (ts ++ .plain text :: ts') texts := by
  have hbetween := h.between h' hmark
  rwa [List.append_nil] at hbetween

end Prints

/-- Pieces, each read back by itself. -/
inductive PrintsAll : List (List Token) → List String → Prop
  | nil : PrintsAll [] []
  | cons {ts : List Token} {tss : List (List Token)} {texts texts' : List String}
      (head : Prints ts texts) (tail : PrintsAll tss texts') :
      PrintsAll (ts :: tss) (texts ++ texts')

namespace PrintsAll
variable {tss tss' : List (List Token)} {texts texts' : List String} {text neutral : String}

theorem single {ts : List Token} (h : Prints ts texts) : PrintsAll [ts] texts := by
  have hcons := cons h nil
  rwa [List.append_nil] at hcons

theorem append (h : PrintsAll tss texts) (h' : PrintsAll tss' texts') :
    PrintsAll (tss ++ tss') (texts ++ texts') := by
  induction h with
  | nil => exact h'
  | cons head _ ih =>
    rw [List.append_assoc]
    exact cons head ih

theorem map {α : Type} {f : α → List Token} {g : α → List String} {as : List α}
    (h : ∀ a ∈ as, Prints (f a) (g a)) : PrintsAll (as.map f) (as.flatMap g) := by
  induction as with
  | nil => exact nil
  | cons a as ih =>
    obtain ⟨ha, has⟩ := List.forall_mem_cons.mp h
    exact cons ha (ih has)

theorem opened (h : PrintsAll tss texts) (hopen : isOpener text = true) :
    PrintsAll (tss.map fun ts => .plain text :: ts) texts := by
  induction h with
  | nil => exact nil
  | cons head _ ih => exact cons (head.opened hopen) ih

theorem separated (h : PrintsAll tss texts) (hmark : isMark text = true) :
    Prints (Token.separated text tss) texts := by
  induction h with
  | nil => exact Prints.nil
  | cons head tail ih =>
    cases tail with
    | nil =>
      rw [List.append_nil]
      exact head
    | cons => exact head.between ih hmark

theorem joined (h : PrintsAll tss texts) (hmark : isMark text = true)
    (hneutral : Token.isFixed neutral = true) : Prints (Sql.joined text neutral tss) texts := by
  have hparts : Prints (.plain "(" :: (Token.separated text tss ++ [.plain ")"])) texts :=
    ((h.separated hmark).closed (by decide)).opened (by decide)
  cases h with
  | nil => exact Prints.plain hneutral
  | cons head tail =>
    cases tail with
    | nil =>
      rw [List.append_nil]
      exact head
    | cons => exact hparts

end PrintsAll

theorem prints_ofLiteral (l : Literal) : Prints [.ofLiteral l] l.asText?.toList := by
  cases l with
  | null => exact Prints.plain (by decide)
  | bool b => cases b <;> exact Prints.plain (by decide)
  | int n => exact Prints.int n
  | float x => exact Prints.single (Token.sound_float x)
  | text s => exact Prints.quotes s

theorem prints_names (ns : List Name) : Prints (names ns) [] := by
  have hall : PrintsAll (ns.map fun n => [Token.name n]) (ns.flatMap fun _ => []) :=
    PrintsAll.map fun n _ => Prints.name n
  rw [List.flatMap_eq_nil_iff.mpr fun _ _ => rfl] at hall
  exact hall.separated (by decide)

theorem ColumnType.prints (type : ColumnType) : Prints type.tokens [] := by
  cases type with
  | decimal precision scale =>
    exact ((Prints.int precision).followed ((Prints.int scale).closed (by decide))
      (by decide)).opened (by decide)
  | string | timestamp => exact Prints.plain (by decide)

theorem isOpener_opening (f : Function) : isOpener f.opening = true := by cases f <;> decide

theorem isMark_comparison (op : Comparison) : isMark (comparisonSign op) = true := by
  cases op <;> decide

theorem isMark_arithmetic (op : Arithmetic) : isMark (arithmeticSign op) = true := by
  cases op <;> decide

theorem isCloser_unit (unit : TimeUnit) : isCloser (unitWord unit) = true := by
  cases unit <;> decide

mutual

/-- An expression is read back whatever texts are in it: its parts are, and the fixed text between
them is apart from any token. -/
theorem Expr.prints : (e : Expr) → Prints e.tokens e.texts
  | .column n => Prints.name n
  | .literal l => prints_ofLiteral l
  | .star | .now | .today | .never => Prints.plain (by decide)
  | .subscript base key => base.prints.between ((Prints.quotes key).closed (by decide)) (by decide)
  | .call f args => (((allPrint args).separated (by decide)).closed (by decide)).opened
      (isOpener_opening f)
  | .cast value type =>
    (value.prints.followed (type.prints.closed (by decide)) (by decide)).opened (by decide)
  | .compare op left right => left.prints.between right.prints (isMark_comparison op)
  | .arithmetic op left right =>
    (left.prints.between (right.prints.closed (by decide)) (isMark_arithmetic op)).opened
      (by decide)
  | .isNull value negated => value.prints.closed (by cases negated <;> decide)
  | .oneOf value items negated =>
    value.prints.between
      (((PrintsAll.map fun l _ => prints_ofLiteral l).separated (by decide)).closed (by decide))
      (by cases negated <;> decide)
  | .ilike value pattern negated =>
    value.prints.between (Prints.quotes pattern) (by cases negated <;> decide)
  | .rlike value pattern => value.prints.between (Prints.quotes pattern) (by decide)
  | .and parts => (allPrint parts).joined (by decide) (by decide)
  | .or parts => (allPrint parts).joined (by decide) (by decide)
  | .ifThenElse test yes no =>
    (test.prints.between (yes.prints.between (no.prints.closed (by decide)) (by decide))
      (by decide)).opened (by decide)
  | .over value [] => value.prints.closed (by decide)
  | .over value (n :: ns) =>
    value.prints.followed ((prints_names (n :: ns)).closed (by decide)) (by decide)
  | .interval amount unit =>
    ((Prints.int amount).closed (isCloser_unit unit)).opened (by decide)
  | .struct slots => (((slotsPrint slots).separated (by decide)).closed (by decide)).opened
      (by decide)

theorem allPrint : (es : List Expr) → PrintsAll (allTokens es) (allTexts es)
  | [] => .nil
  | e :: rest => .cons e.prints (allPrint rest)

theorem slotsPrint : (slots : List (String × Expr)) → PrintsAll (slotTokens slots) (slotTexts slots)
  | [] => .nil
  | (name, e) :: rest => .cons ((Prints.quotes name).between e.prints (by decide)) (slotsPrint rest)

end

/-! Statements. -/

theorem Item.prints (i : Item) : Prints i.tokens i.expr.texts := by
  obtain ⟨expr, name⟩ := i
  cases name with
  | none => exact expr.prints
  | some n => exact expr.prints.followed (Prints.name n) (by decide)

theorem prints_dotted (parts : List Name) :
    Prints (Token.separated "." (parts.map fun n => [.name n])) [] := by
  induction parts with
  | nil => exact Prints.nil
  | cons n parts ih =>
    cases parts with
    | nil => exact Prints.name n
    | cons m parts =>
      refine (Prints.name n).append (ih.opened (by decide)) fun a ha b hb => ?_
      obtain rfl := Option.some.inj ha
      obtain rfl := Option.some.inj hb
      exact Token.spaced_of_between (congrArg Prod.snd (Token.run_name n)) (by decide)

theorem Source.prints (s : Source) : Prints s.tokens [] := by
  cases s with
  | table parts => exact prints_dotted parts
  | subquery n => exact Prints.name n

theorem explode_prints (list : Expr) : Prints (explodeTokens list) list.texts :=
  (list.prints.followed ((Prints.name unwindName).followed (Prints.name unwoundName) (by decide))
    (by decide)).opened (by decide)

theorem Grouping.prints (g : Grouping) : PrintsAll g.lines [] := by
  cases g with
  | none => exact .nil
  | all => exact .single (Prints.plain (by decide))
  | keys ns =>
    cases ns with
    | nil => exact .nil
    | cons n ns => exact .single ((prints_names (n :: ns)).opened (by decide))

theorem OrderItem.prints (o : OrderItem) : Prints o.tokens o.expr.texts :=
  o.expr.prints.closed (by cases o.desc <;> decide)

theorem orderLines_print (order : List OrderItem) :
    PrintsAll (orderLines order) (order.flatMap (·.expr.texts)) := by
  cases order with
  | nil => exact .nil
  | cons o order =>
    exact .single (((PrintsAll.map fun o _ => OrderItem.prints o).separated (by decide)).opened
      (by decide))

theorem optional_prints {f : Expr → List Token} (h : ∀ e, Prints (f e) e.texts)
    (e : Option Expr) : PrintsAll (e.map f).toList (optionTexts e) := by
  cases e with
  | none => exact .nil
  | some e => exact .single (h e)

theorem count_prints {text : String} (h : isOpener text = true) (n : Option Nat) :
    PrintsAll (n.map fun m : Nat => [Token.plain text, .int m]).toList [] := by
  cases n with
  | none => exact .nil
  | some n => exact .single ((Prints.int n).opened h)

theorem Select.prints (s : Select) : PrintsAll s.lines s.texts := by
  have hitems : Prints (.plain (if s.distinct then "SELECT DISTINCT " else "SELECT ") ::
      Token.separated ", " (s.items.map Item.tokens)) (s.items.flatMap (·.expr.texts)) :=
    ((PrintsAll.map fun i _ => Item.prints i).separated (by decide)).opened
      (by cases s.distinct <;> decide)
  have hsource : Prints (.plain "FROM " :: s.source.tokens) [] := s.source.prints.opened (by decide)
  have hfilter : PrintsAll (s.filter.map fun e => .plain "WHERE " :: e.tokens).toList
      (optionTexts s.filter) := optional_prints (fun e => e.prints.opened (by decide)) s.filter
  have hlimit : PrintsAll (s.limit.map fun n => [.plain "LIMIT ", .int n]).toList [] :=
    count_prints (by decide) s.limit
  have hoffset : PrintsAll (s.offset.map fun n => [.plain "OFFSET ", .int n]).toList [] :=
    count_prints (by decide) s.offset
  have hlines := (((((PrintsAll.cons hitems (.single hsource)).append
    (optional_prints explode_prints s.explode)).append hfilter).append s.grouping.prints).append
    (orderLines_print s.order)).append hlimit |>.append hoffset
  simpa only [Select.lines, Select.texts, List.append_nil, List.append_assoc] using hlines

theorem subquery_prints (q : Name × Select) : Prints (subqueryTokens q) q.2.texts := by
  have hlines : Prints (Token.separated "\n" (q.2.lines.map fun line => .plain "  " :: line))
      q.2.texts := (q.2.prints.opened (by decide)).separated (by decide)
  exact (Prints.name q.1).between (hlines.closed (by decide)) (by decide)

theorem Statement.prints (s : Statement) : Prints s.tokens s.texts := by
  have hbody : Prints (Token.separated "\n" s.body.lines) s.body.texts :=
    s.body.prints.separated (by decide)
  have hqueries : Prints (Token.separated ", " (s.subqueries.map subqueryTokens))
      (s.subqueries.flatMap (·.2.texts)) :=
    (PrintsAll.map fun q _ => subquery_prints q).separated (by decide)
  rw [Statement.tokens, Statement.texts]
  cases hs : s.subqueries with
  | nil => exact hbody
  | cons q rest =>
    rw [hs] at hqueries
    exact (hqueries.between hbody (by decide)).opened (by decide)

/-- The text of a statement is read as safe words, signs, numbers and names, and as its texts. -/
structure Statement.ReadBack (s : Statement) (ls : List Lexeme) : Prop where
  reads : lex s.text.toList = some ls
  texts : ls.filterMap Lexeme.quoted? = s.texts
  safe : ∀ l ∈ ls, l.isSafe = true

theorem Statement.exists_readBack (s : Statement) : ∃ ls, s.ReadBack ls := by
  obtain ⟨ls, hls, hquoted, hsafe⟩ := s.prints.lex
  exact ⟨ls, by rw [text, Token.text, String.toList_ofList, hls], hquoted, hsafe⟩

end CostQuery.Sql

namespace CostQuery.Request
variable (s : Settings) (r : Request)

/-- Whatever a request and the settings hold, SQL that is made of them is read back: no quote is
left open, what is quoted are the texts of the statement, and the rest is fixed. -/
theorem sql_readBack :
    (∀ plan text, r.analyzeSql s = .ok (plan, text) →
      ∃ statement ls, Sql.Statement.ofAnalyzePlan s.warehouse plan = .ok statement ∧
        text = statement.text ∧ statement.ReadBack ls) ∧
    (∀ plan text, r.searchSql s = .ok (plan, text) →
      ∃ statement ls, Sql.Statement.ofSearchPlan s.warehouse plan = .ok statement ∧
        text = statement.text ∧ statement.ReadBack ls) := by
  constructor
  · intro plan text h
    simp only [analyzeSql, bind_ok, pure_ok, Prod.mk.injEq] at h
    obtain ⟨plan, -, statement, hstatement, rfl, rfl⟩ := h
    obtain ⟨ls, hls⟩ := statement.exists_readBack
    exact ⟨statement, ls, mapError_ok hstatement, rfl, hls⟩
  · intro plan text h
    simp only [searchSql, bind_ok, pure_ok, Prod.mk.injEq] at h
    obtain ⟨query, -, statement, hstatement, rfl, rfl⟩ := h
    obtain ⟨ls, hls⟩ := statement.exists_readBack
    exact ⟨statement, ls, mapError_ok hstatement, rfl, hls⟩

/-- A key and a value that try to leave their quotes. -/
def quoteRequest : Request where
  filter := [⟨"tags.o'clock\\", .str "' OR '1'='1", none⟩]
  only := ["cost"]

theorem sql_readBack_quotes :
    ∃ plan text, ∃ statement : Sql.Statement, ∃ ls,
      quoteRequest.searchSql {} = .ok (plan, text) ∧ text = statement.text ∧
        statement.ReadBack ls ∧
        statement.texts = ["o'clock\\", "' OR '1'='1", "yyyy-MM"] := by
  have h : quoteRequest.searchSql {} = .ok (_, _) := rfl
  obtain ⟨statement, ls, hstatement, htext, hread⟩ := (sql_readBack {} quoteRequest).2 _ _ h
  refine ⟨_, _, statement, ls, h, htext, hread, ?_⟩
  rw [← Except.ok.inj hstatement]
  rfl

end CostQuery.Request
