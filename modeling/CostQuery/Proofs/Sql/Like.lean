import CostQuery.Proofs.Sql.Meaning
import CostQuery.Proofs.Sql.Tokens
import CostQuery.Proofs.Store.Plain
import CostQuery.Sql.Text
import Mathlib.Data.List.Infix

/-! Patterns of `LIKE`, and the texts that have a given text in them. -/

namespace CostQuery.Sql
variable {fold : Char → Char} {c : Char} {cs s : List Char}

/-! What a pattern matches. -/

inductive PatternPart where
  /-- Any text, the empty one too. -/
  | any
  /-- Any character. -/
  | one
  | char (c : Char)

/-- A backslash takes the meaning from the character after it. -/
def patternParts : List Char → List PatternPart
  | [] => []
  | '\\' :: c :: rest => .char c :: patternParts rest
  | c :: rest =>
    (if c = '%' then .any else if c = '_' then .one else .char c) :: patternParts rest

def partsMatch : List PatternPart → List Char → Bool
  | [], s => s.isEmpty
  | .any :: parts, s => s.tails.any (partsMatch parts)
  | .one :: parts, s =>
    match s with
    | [] => false
    | _ :: rest => partsMatch parts rest
  | .char c :: parts, s =>
    match s with
    | [] => false
    | d :: rest => decide (c = d) && partsMatch parts rest

def likeMatches (pattern s : List Char) : Bool := partsMatch (patternParts pattern) s

theorem partsMatch_any {parts : List PatternPart} :
    partsMatch (.any :: parts) s = true ↔ ∃ t, t <:+ s ∧ partsMatch parts t = true := by
  simp [partsMatch, List.mem_tails]

/-- Characters match themselves, at the head of the text. -/
theorem partsMatch_chars {parts : List PatternPart} :
    partsMatch (cs.map .char ++ parts) s = true ↔
      ∃ rest, s = cs ++ rest ∧ partsMatch parts rest = true := by
  induction cs generalizing s with
  | nil => simp
  | cons c cs ih =>
    rw [List.map_cons, List.cons_append]
    cases s with
    | nil => simp [partsMatch]
    | cons d s =>
      simp only [partsMatch, Bool.and_eq_true, decide_eq_true_eq, ih, List.cons_append,
        List.cons.injEq]
      constructor
      · rintro ⟨rfl, rest, hs, hrest⟩
        exact ⟨rest, ⟨rfl, hs⟩, hrest⟩
      · rintro ⟨rest, ⟨rfl, hs⟩, hrest⟩
        exact ⟨rfl, rest, hs, hrest⟩

/-- Between two wildcards characters match wherever they stand side by side. -/
theorem partsMatch_between :
    partsMatch (.any :: (cs.map .char ++ [.any])) s = true ↔ cs <:+: s := by
  have hrest : ∀ rest, partsMatch [.any] rest = true := by
    intro rest
    exact partsMatch_any.mpr ⟨[], List.nil_suffix, rfl⟩
  rw [partsMatch_any]
  simp only [partsMatch_chars, hrest, and_true]
  constructor
  · rintro ⟨t, ⟨before, rfl⟩, rest, rfl⟩
    exact ⟨before, rest, by rw [List.append_assoc]⟩
  · rintro ⟨before, rest, rfl⟩
    exact ⟨cs ++ rest, ⟨before, by rw [List.append_assoc]⟩, rest, rfl⟩

/-! Escaped texts, in either case of letters. -/

/-- Characters are folded one by one, and to the special ones of patterns only these themselves. -/
def KeepsSpecial (fold : Char → Char) : Prop :=
  ∀ special ∈ Text.likeSpecial, ∀ c, fold c = special ↔ c = special

theorem patternParts_plain (h : c ∉ Text.likeSpecial) (rest : List Char) :
    patternParts (c :: rest) = .char c :: patternParts rest := by
  simp only [Text.likeSpecial, List.mem_cons, List.not_mem_nil, or_false, not_or] at h
  obtain ⟨hslash, hany, hone⟩ := h
  rw [patternParts, if_neg hany, if_neg hone]
  intro d rest' hc
  exact absurd hc hslash

/-- The characters of an escaped text stand for themselves, folded or not. -/
theorem patternParts_escape (h : KeepsSpecial fold) (text : String) (rest : List Char) :
    patternParts ((Text.escape Text.likeSpecial text).toList.map fold ++ rest) =
      (text.toList.map fold).map .char ++ patternParts rest := by
  rw [Text.escape, String.toList_ofList]
  induction text.toList with
  | nil => rfl
  | cons c cs ih =>
    rw [List.flatMap_cons, List.map_append, List.append_assoc, List.map_cons, List.map_cons,
      List.cons_append, ← ih]
    by_cases hc : c ∈ Text.likeSpecial
    · have hslash : fold '\\' = '\\' := (h '\\' (by decide) '\\').mpr rfl
      rw [if_pos (by simpa using hc), List.map_cons, List.map_singleton, hslash]
      rfl
    · have hfold : fold c ∉ Text.likeSpecial := by
        intro hmem
        exact hc ((h (fold c) hmem c).mp rfl ▸ hmem)
      rw [if_neg (by simpa using hc), List.map_singleton, List.singleton_append,
        patternParts_plain hfold]

theorem likeMatches_containing (h : KeepsSpecial fold) (text : String) (s : List Char) :
    likeMatches ((containing text).toList.map fold) s = true ↔
      text.toList.map fold <:+: s := by
  have hany : fold '%' = '%' := (h '%' (by decide) '%').mpr rfl
  have hchars : (containing text).toList.map fold =
      '%' :: ((Text.escape Text.likeSpecial text).toList.map fold ++ ['%']) := by
    simp [containing, hany]
  have hparts : patternParts ((containing text).toList.map fold) =
      .any :: ((text.toList.map fold).map .char ++ [.any]) := by
    rw [hchars]
    change .any :: patternParts _ = _
    rw [patternParts_escape h]
    rfl
  rw [likeMatches, hparts, partsMatch_between]

/-! How the test is written, and what it selects. -/

theorem Token.text_append (ts ts' : List Token) : text (ts ++ ts') = text ts ++ text ts' := by
  rw [text, List.flatMap_append, String.ofList_append]
  rfl

theorem lex_quote (text : String) : lex (quote text).toList = some [.quoted text.toList] := by
  rw [quote, String.toList_ofList, lex, Mode.run_quoteChars]
  rfl

theorem Expr.ilike_text (value : Expr) (pattern : String) (negated : Bool) :
    Token.text (ilike value pattern negated).tokens =
      Token.text value.tokens ++ (if negated then " NOT ILIKE " else " ILIKE ") ++
        quote pattern := by
  rw [tokens, Token.text_append, String.append_assoc]
  congr 1
  simp [Token.text, Token.chars, quote, String.ofList_append]

theorem Expr.selects_ilike {g : Engine} {f : Fields} {value : Expr} {pattern t : String}
    {negated : Bool} (h : value.value g f = .text t) :
    (ilike value pattern negated).Selects g f ↔ g.like pattern t = !negated := by
  rw [Selects, Expr.value, Value.ofTruth_eq_true, h, onText]
  cases negated <;> simp [negatedIf, Truth.not]

/-- A test for a part of a text is written as the column, the operator, and the pattern in quotes.
Out of its quotes the pattern matches the texts that have the part in them, and after folding those
whose folding has the folding of the part in it; a negated test selects the others. -/
theorem contains_matches {r : Reader} {c : Column} {text : String} {negated : Bool} {e : Expr}
    (h : r.filter (.contains c text negated) = .ok e) :
    ∃ (value : Expr) (literal : String) (pattern : List Char), r.tested c = .ok value ∧
      Token.text e.tokens = Token.text value.tokens ++
        (if negated then " NOT ILIKE " else " ILIKE ") ++ literal ∧
      lex literal.toList = some [.quoted pattern] ∧
      (∀ s, likeMatches pattern s = true ↔ text.toList <:+: s) ∧
      ∀ fold, KeepsSpecial fold →
        (∀ s : List Char, likeMatches (pattern.map fold) (s.map fold) = true ↔
          text.toList.map fold <:+: s.map fold) ∧
        ∀ (g : Engine) (f : Fields) (t : String),
          (∀ p t, g.like p t = likeMatches (p.toList.map fold) (t.toList.map fold)) →
          value.value g f = .text t →
          (e.Selects g f ↔ if negated then ¬ text.toList.map fold <:+: t.toList.map fold
            else text.toList.map fold <:+: t.toList.map fold) := by
  obtain ⟨value, hvalue, rfl⟩ := bind_pure_ok.mp h
  refine ⟨value, quote (containing text), (containing text).toList, hvalue,
    Expr.ilike_text value _ negated, lex_quote _, fun s => ?_, fun fold hfold => ⟨fun s => ?_, ?_⟩⟩
  · have hplain : KeepsSpecial id := fun special _ c => Iff.rfl
    simpa using likeMatches_containing hplain text s
  · exact likeMatches_containing hfold text _
  · intro g f t hlike ht
    have hmatches := likeMatches_containing hfold text (t.toList.map fold)
    rw [Expr.selects_ilike ht, hlike]
    cases negated with
    | false => simpa using hmatches
    | true => simpa using not_congr hmatches

/-- Capitals are letters, and so are what they are folded to. -/
theorem keepsSpecial_toLower : KeepsSpecial Char.toLower := by
  intro special hspecial c
  have hcode : special.val = 92 ∨ special.val = 37 ∨ special.val = 95 := by
    simp only [Text.likeSpecial, List.mem_cons, List.not_mem_nil, or_false] at hspecial
    rcases hspecial with rfl | rfl | rfl <;> decide
  unfold Char.toLower
  rw [Char.ext_iff, Char.ext_iff]
  split
  · next hupper =>
    have hbounds : 65 ≤ c.val ∧ c.val ≤ 90 := hupper
    grind
  · rfl

/-- The warehouse that reads products in lower case. -/
def lowerEngine : Engine :=
  { Engine.plain 0 with
    like := fun p t => likeMatches (p.toList.map Char.toLower) (t.toList.map Char.toLower) }

theorem contains_matches_discount :
    ∃ e, Reader.filter ⟨{}, none⟩ (.contains ⟨"product", none⟩ "50%_Off'\\" true) = .ok e ∧
      KeepsSpecial Char.toLower ∧
      Token.text e.tokens = "\u0060product\u0060 NOT ILIKE '%50\\\\%\\\\_Off''\\\\\\\\%'" ∧
      ¬ e.Selects lowerEngine (fun _ => .text "now 50%_OFF'\\ only") ∧
      e.Selects lowerEngine (fun _ => .text "now 50 or off'\\ only") := by
  have h : Reader.filter ⟨{}, none⟩ (.contains ⟨"product", none⟩ "50%_Off'\\" true) = .ok _ := rfl
  obtain ⟨value, literal, pattern, hvalue, -, -, -, hfold⟩ := contains_matches h
  obtain rfl := Except.ok.inj hvalue
  obtain ⟨-, hselects⟩ := hfold Char.toLower keepsSpecial_toLower
  have hselects := fun t => hselects lowerEngine (fun _ => .text t) t (fun _ _ => rfl) rfl
  refine ⟨_, h, keepsSpecial_toLower, by decide, fun hs => ?_, ?_⟩
  · exact (hselects _).mp hs (by decide)
  · exact (hselects _).mpr (by decide)

end CostQuery.Sql
