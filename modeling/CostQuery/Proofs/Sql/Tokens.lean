import CostQuery.Proofs.Sql.Lexer

/-! Tokens read back: each is whole, and names, numbers and texts are what was written. -/

namespace CostQuery.Sql

/-- The fixed words of SQL text. -/
def keywords : List String :=
  ["WITH", "SELECT", "DISTINCT", "FROM", "AS", "LATERAL", "VIEW", "OUTER", "EXPLODE", "WHERE",
    "GROUP", "BY", "ALL", "ORDER", "ASC", "DESC", "LIMIT", "OFFSET", "NULL", "TRUE", "FALSE",
    "CURRENT_TIMESTAMP", "CURRENT_DATE", "CAST", "DECIMAL", "STRING", "TIMESTAMP", "IS", "NOT",
    "IN", "ILIKE", "RLIKE", "AND", "OR", "CASE", "WHEN", "THEN", "ELSE", "END", "OVER",
    "PARTITION", "INTERVAL", "SECOND", "MINUTE", "HOUR", "DAY", "WEEK", "NAMED_STRUCT",
    "SUBSTRING", "COALESCE", "NULLIF", "SIZE", "DATE_FORMAT", "ADD_MONTHS", "DATE_TRUNC", "SUM",
    "AVG", "MAX", "MIN", "COUNT", "ARRAY_AGG", "COLLECT_SET"]

/-- The fixed signs. -/
def signs : List Char := ['(', ')', '[', ']', ',', '.', '*', '=', '!', '<', '>', '+', '-', '/']

namespace Lexeme

/-- Outside quotes there are only fixed words and signs, and decimals; names need no escapes. -/
def isSafe : Lexeme → Bool
  | .word cs => keywords.contains (String.ofList cs)
  | .number cs => Decimal.isDecimal cs
  | .sign c => signs.contains c
  | .name cs => isName cs
  | .quoted _ => true

def quoted? : Lexeme → Option String
  | .quoted cs => some (String.ofList cs)
  | _ => none

end Lexeme

namespace Mode

/-- Characters that a lexeme takes one by one, written in whatever form, are in it at the end. -/
theorem run_flatMap {m : List Char → Mode} {f : Char → List Char} (cs : List Char)
    (h : ∀ ds, ∀ c ∈ cs, run (m ds) (f c) = ([], m (ds ++ [c]))) (ds : List Char) :
    run (m ds) (cs.flatMap f) = ([], m (ds ++ cs)) := by
  induction cs generalizing ds with
  | nil =>
    rw [List.append_nil]
    rfl
  | cons c cs ih =>
    rw [List.flatMap_cons, run_append, h ds c List.mem_cons_self,
      ih fun ds c hc => h ds c (List.mem_cons_of_mem _ hc)]
    simp

theorem run_chars {m : List Char → Mode} (cs : List Char)
    (h : ∀ ds, ∀ c ∈ cs, (m ds).step c = ([], m (ds ++ [c]))) (ds : List Char) :
    run (m ds) cs = ([], m (ds ++ cs)) := by
  have hrun := run_flatMap (m := m) (f := fun c => [c]) cs
    (fun ds c hc => by simp [run, h ds c hc]) ds
  rwa [List.flatMap_singleton'] at hrun

/-- Quotes and backslashes in a text are read as they were before they were doubled. -/
theorem run_quoteChar (ds : List Char) (c : Char) :
    run (.quoted ds) (quoteChar c) = ([], .quoted (ds ++ [c])) := by
  rw [quoteChar]
  split
  · next h =>
    rw [h]
    rfl
  · next hquote =>
    split
    · next h =>
      rw [h]
      rfl
    · next hslash =>
      rw [run, step, if_neg hquote, if_neg hslash]
      rfl

theorem run_quoteChars (cs : List Char) : run .between (quoteChars cs) = ([], .closing cs) := by
  have htext := run_flatMap (m := Mode.quoted) cs (fun ds c _ => run_quoteChar ds c) []
  have hopen : run .between (quoteChars cs) = run (.quoted []) (cs.flatMap quoteChar ++ ['\'']) :=
    rfl
  rw [hopen, run_append, htext]
  rfl

theorem start_digit {c : Char} (h : c.isDigit = true) : start c = ([], .number [c]) := by
  have hne : ∀ {d : Char}, d.isDigit = false → c ≠ d := by
    rintro d hd rfl
    rw [h] at hd
    cases hd
  have halpha : c.isAlpha = false := by
    have hdigit : (c.val ≥ 48 && c.val ≤ 57) = true := h
    change (decide (c.val ≥ 65 ∧ c.val ≤ 90) || (c.val ≥ 97 && c.val ≤ 122)) = false
    grind
  have hblank : c.isWhitespace = false := by simp [Char.isWhitespace, hne]
  have hstart : isNameStart c = false := by simp [isNameStart, halpha, hne]
  rw [start, if_neg (hne rfl), if_neg (hne rfl), hblank, hstart, h]
  rfl

theorem run_decimal {cs : List Char} (h : Decimal.isDecimal cs = true) :
    run .between cs = ([], .number cs) := by
  obtain ⟨c, rest, rfl, hc, hrest⟩ := Decimal.isDecimal_cons h
  have htext := run_chars (m := Mode.number) rest
    (fun ds c hc => if_pos (hrest c hc)) [c]
  rw [run, step, start_digit hc, htext]
  rfl

end Mode

namespace Token

/-- What is being read at the end of a token. -/
def after (t : Token) : Mode := (Mode.run .between t.chars).2

def quoted? : Token → Option String
  | .quoted text => some text
  | _ => none

/-- A token read alone is whole and safe, and is the text it quotes if it quotes one. -/
structure Sound (t : Token) : Prop where
  chars_ne : t.chars ≠ []
  reads : ∃ ls, lex t.chars = some ls ∧ ls.filterMap Lexeme.quoted? = t.quoted?.toList ∧
    ∀ l ∈ ls, l.isSafe = true

/-- What a token is read as by itself. -/
def lexemes (t : Token) : List Lexeme := (lex t.chars).getD []

theorem lexemes_of_lex {t : Token} {ls : List Lexeme} (h : lex t.chars = some ls) :
    t.lexemes = ls := by
  rw [lexemes, h]
  rfl

namespace Sound
variable {t : Token}

theorem lex_chars (h : t.Sound) : lex t.chars = some t.lexemes := by
  obtain ⟨ls, hls, -⟩ := h.reads
  rw [lexemes_of_lex hls, hls]

theorem lexemes_quoted (h : t.Sound) :
    t.lexemes.filterMap Lexeme.quoted? = t.quoted?.toList := by
  obtain ⟨ls, hls, hquoted, -⟩ := h.reads
  rw [lexemes_of_lex hls, hquoted]

theorem lexemes_safe (h : t.Sound) : ∀ l ∈ t.lexemes, l.isSafe = true := by
  obtain ⟨ls, hls, -, hsafe⟩ := h.reads
  rwa [lexemes_of_lex hls]

end Sound

theorem isNameChar_of_isName {cs : List Char} (h : isName cs = true) {c : Char} (hc : c ∈ cs) :
    isNameChar c = true := by
  cases cs with
  | nil => cases hc
  | cons d rest =>
    rw [isName, Bool.and_eq_true, List.all_eq_true] at h
    rcases List.mem_cons.mp hc with rfl | hc
    · have hstart := h.1
      simp only [isNameStart, isNameChar, Char.isAlphanum, Bool.or_eq_true] at hstart ⊢
      exact hstart.imp_left Or.inl
    · exact h.2 c hc

theorem run_name (n : Name) :
    Mode.run .between (chars (.name n)) = ([.name n.text.toList], .between) := by
  have hchars : ∀ c ∈ n.text.toList, c ≠ '\u0060' := by
    rintro c hc rfl
    have hname := isNameChar_of_isName n.valid hc
    revert hname
    decide
  have htext := Mode.run_chars (m := Mode.name) n.text.toList
    (fun ds c hc => if_neg (hchars c hc)) []
  have hopen : Mode.run .between (chars (.name n)) =
      Mode.run (.name []) (n.text.toList ++ ['\u0060']) := rfl
  rw [hopen, Mode.run_append, htext]
  rfl

theorem sound_name (n : Name) : Sound (.name n) where
  chars_ne := List.cons_ne_nil _ _
  reads := by
    refine ⟨[.name n.text.toList], ?_, rfl, List.forall_mem_singleton.mpr n.valid⟩
    rw [lex, run_name]
    rfl

theorem sound_quoted (text : String) : Sound (.quoted text) where
  chars_ne := List.cons_ne_nil _ _
  reads := by
    refine ⟨[.quoted text.toList], ?_, ?_, List.forall_mem_singleton.mpr rfl⟩
    · rw [chars, lex, Mode.run_quoteChars]
      rfl
    · simp [Lexeme.quoted?, quoted?]

theorem lex_decimal {ds : List Char} (h : Decimal.isDecimal ds = true) :
    lex ds = some [.number ds] := by
  rw [lex, Mode.run_decimal h]
  rfl

theorem lex_minus {ds : List Char} (h : Decimal.isDecimal ds = true) :
    lex ('-' :: ds) = some [.sign '-', .number ds] := by
  have hminus : Mode.step .between '-' = ([.sign '-'], .between) := rfl
  rw [lex, Mode.run, hminus, Mode.run_decimal h]
  rfl

/-- A decimal, perhaps after a sign. -/
theorem sound_decimal {t : Token} (hquoted : t.quoted? = none) {ds : List Char}
    (hds : Decimal.isDecimal ds = true) (h : t.chars = ds ∨ t.chars = '-' :: ds) : t.Sound := by
  obtain ⟨d, rest, hcons, -⟩ := Decimal.isDecimal_cons hds
  rcases h with h | h
  · exact ⟨by simp [h, hcons], [.number ds], by rw [h, lex_decimal hds], by rw [hquoted]; rfl,
      List.forall_mem_singleton.mpr hds⟩
  · exact ⟨by simp [h], [.sign '-', .number ds], by rw [h, lex_minus hds], by rw [hquoted]; rfl,
      List.forall_mem_cons.mpr ⟨by decide, List.forall_mem_singleton.mpr hds⟩⟩

theorem sound_float (x : Float) : Sound (.float x) := by
  obtain ⟨ds, hds, h⟩ := Decimal.plain_chars x
  exact sound_decimal rfl hds h

theorem isDecimal_toDigits (m : Nat) : Decimal.isDecimal (Nat.toDigits 10 m) = true :=
  Decimal.isDecimal_of_digits (Decimal.isDigits_toDigits m)

theorem chars_ofNat (m : Nat) : chars (.int (Int.ofNat m)) = Nat.toDigits 10 m := Nat.toList_repr

theorem chars_negSucc (m : Nat) :
    chars (.int (Int.negSucc m)) = '-' :: Nat.toDigits 10 (m + 1) := by
  have hchars : chars (.int (Int.negSucc m)) = ("-" ++ Nat.repr (m + 1)).toList := rfl
  rw [hchars, String.toList_append, Nat.toList_repr]
  rfl

theorem sound_int (n : Int) : Sound (.int n) := by
  cases n with
  | ofNat m => exact sound_decimal rfl (isDecimal_toDigits m) (Or.inl (chars_ofNat m))
  | negSucc m => exact sound_decimal rfl (isDecimal_toDigits (m + 1)) (Or.inr (chars_negSucc m))

/-! Fixed texts. -/

/-- Words, signs and decimals. -/
def isFixed (text : String) : Bool :=
  !text.toList.isEmpty &&
    match lex text.toList with
    | some ls => ls.all fun l => l.isSafe && l.quoted?.isNone
    | none => false

theorem sound_plain {text : String} (h : isFixed text = true) : Sound (.plain text) := by
  rw [isFixed, Bool.and_eq_true] at h
  obtain ⟨hne, h⟩ := h
  refine ⟨by simpa [chars] using hne, ?_⟩
  split at h
  · next ls hls =>
    have hsafe := fun l hl => Bool.and_eq_true_iff.mp (List.all_eq_true.mp h l hl)
    refine ⟨ls, hls, List.filterMap_eq_nil_iff.mpr fun l hl => ?_, fun l hl => (hsafe l hl).1⟩
    simpa using (hsafe l hl).2
  · cases h

/-! Tokens side by side. -/

/-- The second token begins where what is read of the first ends. -/
def Spaced (a b : Token) : Prop := ∃ c ∈ b.chars.head?, a.after.endsAt c = true

/-- Before such a character anything ends. -/
def isLoose (c : Char) : Bool := !isNameChar c && c ≠ '.' && c ≠ '\''

def beginsLoose (text : String) : Bool :=
  match text.toList with
  | [] => false
  | c :: _ => isLoose c

/-- Nothing is being read at its end. -/
def endsLoose (text : String) : Bool :=
  match (Mode.run .between text.toList).2 with
  | .between => true
  | _ => false

theorem endsAt_loose {m : Mode} {c : Char} (hm : m.finish ≠ none) (hc : isLoose c = true) :
    m.endsAt c = true := by
  simp only [isLoose, Bool.and_eq_true, Bool.not_eq_true', decide_eq_true_eq] at hc
  obtain ⟨⟨hchar, hpoint⟩, hquote⟩ := hc
  have hdigit : c.isDigit = false := by
    simp only [isNameChar, Char.isAlphanum, Bool.or_eq_false_iff] at hchar
    exact hchar.1.2
  cases m with
  | between => rfl
  | word ds => simpa [Mode.endsAt] using hchar
  | number ds => simp [Mode.endsAt, hdigit, hpoint]
  | closing ds => simpa [Mode.endsAt] using hquote
  | name | quoted | escaped => exact absurd rfl hm

theorem Sound.spaced_plain {a : Token} {text : String} (ha : a.Sound)
    (h : beginsLoose text = true) : a.Spaced (.plain text) := by
  rw [beginsLoose] at h
  split at h
  · cases h
  · next c cs hcs =>
    refine ⟨c, by rw [chars, hcs]; rfl, endsAt_loose (fun hnone => ?_) h⟩
    obtain ⟨ls, hls, -⟩ := ha.reads
    rw [lex, ← after, hnone] at hls
    cases hls

theorem spaced_of_between {a b : Token} (ha : a.after = .between) (hb : b.chars ≠ []) :
    a.Spaced b := by
  obtain ⟨c, cs, hcs⟩ := List.exists_cons_of_ne_nil hb
  exact ⟨c, by rw [hcs]; rfl, by rw [ha]; rfl⟩

theorem after_plain {text : String} (h : endsLoose text = true) :
    after (.plain text) = .between := by
  rw [endsLoose] at h
  split at h
  · assumption
  · cases h

end Token

/-- Tokens that are read back one by one, and the texts that they quote. -/
structure Prints (ts : List Token) (texts : List String) : Prop where
  sound : ∀ t ∈ ts, t.Sound
  spaced : ts.IsChain Token.Spaced
  quoted : ts.filterMap Token.quoted? = texts

namespace Prints
variable {ts ts' : List Token} {texts texts' : List String} {t : Token} {text : String}

theorem nil : Prints [] [] := ⟨by simp, .nil, rfl⟩

theorem single (h : t.Sound) : Prints [t] t.quoted?.toList where
  sound := List.forall_mem_singleton.mpr h
  spaced := .singleton t
  quoted := by cases hq : t.quoted? <;> simp [hq]

theorem append (h : Prints ts texts) (h' : Prints ts' texts')
    (hspaced : ∀ a ∈ ts.getLast?, ∀ b ∈ ts'.head?, a.Spaced b) :
    Prints (ts ++ ts') (texts ++ texts') where
  sound := List.forall_mem_append.mpr ⟨h.sound, h'.sound⟩
  spaced := List.isChain_append.mpr ⟨h.spaced, h'.spaced, hspaced⟩
  quoted := by rw [List.filterMap_append, h.quoted, h'.quoted]

/-- The lexer reads the tokens back. -/
theorem lex_tokens (h : Prints ts texts) :
    Sql.lex (ts.flatMap Token.chars) = some (ts.flatMap Token.lexemes) := by
  induction ts generalizing texts with
  | nil => rfl
  | cons t ts ih =>
    have hend : ∀ c ∈ (ts.flatMap Token.chars).head?, t.after.endsAt c = true := by
      cases ts with
      | nil => simp
      | cons b ts =>
        obtain ⟨c, hc, hends⟩ := (List.isChain_cons_cons.mp h.spaced).1
        obtain ⟨cs, hcs⟩ := List.head?_eq_some_iff.mp hc
        simpa [hcs] using hends
    rw [List.flatMap_cons, lex_append (h.sound t List.mem_cons_self).lex_chars hend,
      ih ⟨fun t ht => h.sound t (List.mem_cons_of_mem _ ht), h.spaced.tail, rfl⟩]
    rfl

theorem lex (h : Prints ts texts) : ∃ ls, lex (ts.flatMap Token.chars) = some ls ∧
    ls.filterMap Lexeme.quoted? = texts ∧ ∀ l ∈ ls, l.isSafe = true := by
  refine ⟨_, h.lex_tokens, ?_, fun l hl => ?_⟩
  · rw [List.filterMap_flatMap, List.flatMap_congr fun t ht => (h.sound t ht).lexemes_quoted,
      ← List.filterMap_eq_flatMap_toList, h.quoted]
  · obtain ⟨t, ht, hl⟩ := List.mem_flatMap.mp hl
    exact (h.sound t ht).lexemes_safe l hl

end Prints
end CostQuery.Sql
