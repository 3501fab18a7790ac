import CostQuery.Json.Text
import CostQuery.Json.Token
import CostQuery.Proofs.Decimal.Exchange

/-! Exchange text tells values apart: it is cut into the texts of its parts in one way only. -/

namespace CostQuery

/-! Numbers. -/

/-- Characters that numbers are written with. -/
def isNumeral (c : Char) : Bool := c.isDigit || ['.', 'e', '-', '+'].contains c

namespace Number

theorem chars_int (n : Int) :
    (int n).chars = (if n < 0 then ['-'] else []) ++ Nat.toDigits 10 n.natAbs := by
  cases n with
  | ofNat m => exact Nat.toList_repr
  | negSucc m =>
    have hchars : (int (Int.negSucc m)).chars = ("-" ++ Nat.repr (m + 1)).toList := rfl
    rw [hchars, String.toList_append, Nat.toList_repr, if_pos (Int.negSucc_lt_zero m)]
    rfl

theorem isDigit_of_mem_int {n : Int} {c : Char} (h : c ∈ (int n).chars) :
    c.isDigit = true ∨ c = '-' := by
  rw [chars_int] at h
  rcases List.mem_append.mp h with hsign | hdigit
  · split at hsign
    · exact .inr (List.mem_singleton.mp hsign)
    · cases hsign
  · exact .inl (Decimal.isDigit_of_mem_toDigits hdigit)

theorem isNumeral_of_mem {n : Number} {c : Char} (h : c ∈ n.chars) : isNumeral c = true := by
  cases n with
  | int n =>
    rcases isDigit_of_mem_int h with hdigit | rfl
    · rw [isNumeral, hdigit, Bool.true_or]
    · rfl
  | float x =>
    obtain ⟨cs, hcs, hchars⟩ := Decimal.exists_form Decimal.exchange x
    rw [chars, hchars] at h
    rcases List.mem_append.mp h with hsign | hbody
    · split at hsign
      · rw [List.mem_singleton.mp hsign]
        rfl
      · cases hsign
    · rcases hcs.mem hbody with hdigit | hmark
      · rw [isNumeral, hdigit, Bool.true_or]
      · rw [isNumeral, List.contains_iff_mem.mpr hmark, Bool.or_true]

theorem chars_ne_nil (n : Number) : n.chars ≠ [] := by
  cases n with
  | int n =>
    rw [chars_int]
    exact List.append_ne_nil_of_right_ne_nil _ Nat.toDigits_ne_nil
  | float x =>
    obtain ⟨cs, hcs, hchars⟩ := Decimal.exists_form Decimal.exchange x
    obtain ⟨d, rest, rfl, -⟩ := hcs.digitFirst
    rw [chars, hchars]
    exact List.append_ne_nil_of_right_ne_nil _ (List.cons_ne_nil _ _)

/-- No whole number is written as a float is. -/
theorem chars_int_ne_float (n : Int) (x : Float) : (int n).chars ≠ (float x).chars := by
  intro h
  obtain ⟨cs, hcs, hchars⟩ := Decimal.exists_form Decimal.exchange x
  obtain ⟨c, hc, hmark⟩ := hcs.exists_mark
  have hmem : c ∈ (float x).chars := by
    rw [chars, hchars]
    exact List.mem_append_right _ hc
  rcases isDigit_of_mem_int (h ▸ hmem) with hdigit | rfl
  · rcases hmark with rfl | rfl <;> cases hdigit
  · rcases hmark with hmark | hmark <;> cases hmark

theorem int_injective {n n' : Int} (h : (int n).chars = (int n').chars) : n = n' := by
  have hsign : ∀ n : Int, ∀ c ∈ (if n < 0 then ['-'] else []), c.isDigit = false := by
    intro n
    split <;> simp
  have hdigits : ∀ n : Int, Decimal.DigitFirst (Nat.toDigits 10 n.natAbs) :=
    fun n => Decimal.digitFirst_of_isDigits (Decimal.isDigits_toDigits _)
  rw [chars_int, chars_int] at h
  obtain ⟨hsame, habs⟩ := Decimal.sign_cancel (hsign n) (hsign n') (hdigits n) (hdigits n') h
  have hnatAbs := Decimal.toDigits_injective habs
  split at hsame <;> split at hsame
  · omega
  · cases hsame
  · cases hsame
  · omega

theorem chars_injective : Function.Injective chars := by
  intro n n' h
  cases n with
  | int n =>
    cases n' with
    | int n' => exact congrArg int (int_injective h)
    | float x => exact absurd h (chars_int_ne_float n x)
  | float x =>
    cases n' with
    | int n' => exact absurd h.symm (chars_int_ne_float n' x)
    | float x' => exact congrArg float (Decimal.exchange.chars_injective h)

end Number

namespace Json

/-! Strings. -/

theorem hexQuad_hexDigit : ∀ n < 32,
    hexQuad? '0' '0' (hexDigit (n / 16)) (hexDigit n) = some n := by
  decide

theorem stringUnits_unescape {c d : Char} (hc : unescape? c = some d) (rest : List Char) :
    stringUnits ('\\' :: c :: rest) =
      (stringUnits rest).map fun read => (d.toNat :: read.1, read.2) := by
  have hu : c ≠ 'u' := by
    rintro rfl
    cases hc
  rw [stringUnits, hc]
  · cases stringUnits rest <;> rfl
  · rintro a b c d rest rfl
    exact absurd rfl hu

/-- An escaped character is read as the character. -/
theorem stringUnits_escapeChar (c : Char) (rest : List Char) :
    stringUnits (escapeChar c ++ rest) =
      (stringUnits rest).map fun read => (c.toNat :: read.1, read.2) := by
  unfold escapeChar
  split_ifs with hquote hslash hn hr ht hb hf hcontrol
  · rw [hquote]
    exact stringUnits_unescape rfl rest
  · rw [hslash]
    exact stringUnits_unescape rfl rest
  · rw [hn]
    exact stringUnits_unescape rfl rest
  · rw [hr]
    exact stringUnits_unescape rfl rest
  · rw [ht]
    exact stringUnits_unescape rfl rest
  · rw [hb]
    exact stringUnits_unescape rfl rest
  · rw [hf]
    exact stringUnits_unescape rfl rest
  · have hquad := hexQuad_hexDigit c.toNat hcontrol
    simp only [List.cons_append, List.nil_append, stringUnits, hquad]
    cases stringUnits rest <;> rfl
  · rw [List.singleton_append, stringUnits, if_neg hcontrol]
    · cases stringUnits rest <;> rfl
    · exact hquote
    · exact fun _ _ _ _ _ h _ => hslash h
    · exact fun _ _ h _ => hslash h

/-- A quoted text is read as the text. -/
theorem stringUnits_quoted (s rest : List Char) :
    stringUnits (s.flatMap escapeChar ++ '"' :: rest) = some (s.map Char.toNat, rest) := by
  induction s with
  | nil => rfl
  | cons c s ih =>
    rw [List.flatMap_cons, List.append_assoc, stringUnits_escapeChar, ih]
    rfl

theorem quoteChars_cancel {s s' r r' : List Char} (h : quoteChars s ++ r = quoteChars s' ++ r') :
    s = s' ∧ r = r' := by
  have hopened : s.flatMap escapeChar ++ '"' :: r = s'.flatMap escapeChar ++ '"' :: r' := by
    simpa [quoteChars] using h
  have hread := stringUnits_quoted s r
  rw [hopened, stringUnits_quoted, Option.some.injEq, Prod.mk.injEq] at hread
  have hinjective : Function.Injective Char.toNat := fun _ _ => Char.toNat_inj.mp
  exact ⟨List.map_injective_iff.mpr hinjective hread.1.symm, hread.2.symm⟩

/-! Texts that follow one another. -/

/-- No number goes on into the text. -/
def Apart (r : List Char) : Prop := ∀ c ∈ r.head?, isNumeral c = false

theorem apart_cons {c : Char} (h : isNumeral c = false) (r : List Char) : Apart (c :: r) := by
  intro d hd
  obtain rfl := Option.some.inj hd
  exact h

/-- Whatever follows, the value can be told from its text. -/
def Cut {α : Type} (f : α → List Char) (a : α) : Prop :=
  ∀ {a' r r'}, Apart r → Apart r' → f a ++ r = f a' ++ r' → a = a' ∧ r = r'

theorem takeWhile_number {r : List Char} (hr : Apart r) (n : Number) :
    (n.chars ++ r).takeWhile isNumeral = n.chars := by
  have hnone : r.takeWhile isNumeral = [] := by
    cases r with
    | nil => rfl
    | cons c r => rw [List.takeWhile_cons_of_neg (by simp [hr c rfl])]
  rw [List.takeWhile_append_of_pos fun c hc => Number.isNumeral_of_mem hc, hnone, List.append_nil]

theorem cut_number (n : Number) : Cut Number.chars n := by
  intro n' r r' hr hr' h
  have hsame : n.chars = n'.chars := by
    rw [← takeWhile_number hr n, h, takeWhile_number hr' n']
  obtain rfl := Number.chars_injective hsame
  exact ⟨rfl, List.append_cancel_left h⟩

theorem commaSeparated_cons (a : List Char) (rest : List (List Char)) :
    commaSeparated (a :: rest) = a ++ rest.flatMap (',' :: ·) := by
  induction rest generalizing a with
  | nil => rw [commaSeparated, List.flatMap_nil, List.append_nil]
  | cons b rest ih =>
    rw [commaSeparated, ih b, List.flatMap_cons, List.cons_append]
    exact List.cons_ne_nil b rest

section
variable {α : Type} {f : α → List Char} {close : Char} {as as' : List α} {r r' : List Char}

theorem apart_flatMap (hclose : isNumeral close = false) (as : List α) (r : List Char) :
    Apart ((as.map f).flatMap (',' :: ·) ++ close :: r) := by
  cases as with
  | nil => exact apart_cons hclose r
  | cons a as => exact apart_cons rfl _

theorem flatMap_cancel (hclose : isNumeral close = false) (hcomma : ',' ≠ close)
    (hf : ∀ a ∈ as, Cut f a)
    (h : (as.map f).flatMap (',' :: ·) ++ close :: r =
      (as'.map f).flatMap (',' :: ·) ++ close :: r') : as = as' ∧ r = r' := by
  induction as generalizing as' with
  | nil =>
    cases as' with
    | nil => exact ⟨rfl, (List.cons.inj h).2⟩
    | cons a' as' => exact absurd (List.cons.inj h).1.symm hcomma
  | cons a as ih =>
    cases as' with
    | nil => exact absurd (List.cons.inj h).1 hcomma
    | cons a' as' =>
      obtain ⟨ha, has⟩ := List.forall_mem_cons.mp hf
      simp only [List.map_cons, List.flatMap_cons, List.cons_append, List.append_assoc,
        List.cons.injEq, true_and] at h
      obtain ⟨rfl, hrest⟩ := ha (apart_flatMap hclose as r) (apart_flatMap hclose as' r') h
      obtain ⟨rfl, hr⟩ := ih has hrest
      exact ⟨rfl, hr⟩

/-- Pieces between commas, closed by a character that begins no piece. -/
theorem commaSeparated_cancel (hclose : isNumeral close = false) (hcomma : ',' ≠ close)
    (hhead : ∀ a r, ∃ c rest, f a ++ r = c :: rest ∧ c ≠ close) (hf : ∀ a ∈ as, Cut f a)
    (h : commaSeparated (as.map f) ++ close :: r = commaSeparated (as'.map f) ++ close :: r') :
    as = as' ∧ r = r' := by
  cases as with
  | nil =>
    cases as' with
    | nil => exact ⟨rfl, (List.cons.inj h).2⟩
    | cons a' as' =>
      rw [List.map_cons, commaSeparated_cons, List.append_assoc] at h
      obtain ⟨c, rest, hc, hne⟩ := hhead a' ((as'.map f).flatMap (',' :: ·) ++ close :: r')
      exact absurd (List.cons.inj (h.trans hc)).1.symm hne
  | cons a as =>
    cases as' with
    | nil =>
      rw [List.map_cons, commaSeparated_cons, List.append_assoc] at h
      obtain ⟨c, rest, hc, hne⟩ := hhead a ((as.map f).flatMap (',' :: ·) ++ close :: r)
      exact absurd (List.cons.inj (hc.symm.trans h)).1 hne
    | cons a' as' =>
      obtain ⟨ha, has⟩ := List.forall_mem_cons.mp hf
      rw [List.map_cons, List.map_cons, commaSeparated_cons, commaSeparated_cons,
        List.append_assoc, List.append_assoc] at h
      obtain ⟨rfl, hrest⟩ := ha (apart_flatMap hclose as r) (apart_flatMap hclose as' r') h
      obtain ⟨rfl, hr⟩ := flatMap_cancel hclose hcomma has hrest
      exact ⟨rfl, hr⟩

end

/-! Values. -/

inductive Kind where
  | null
  | yes
  | no
  | number
  | text
  | list
  | object

def kind : Json → Kind
  | .null => .null
  | .bool true => .yes
  | .bool false => .no
  | .num _ => .number
  | .str _ => .text
  | .arr _ => .list
  | .obj _ => .object

/-- The kind of value that begins with the character. -/
def kindOf? (c : Char) : Option Kind :=
  if isNumeral c then some .number
  else match c with
    | 'n' => some .null
    | 't' => some .yes
    | 'f' => some .no
    | '"' => some .text
    | '[' => some .list
    | '{' => some .object
    | _ => none

theorem exists_cons_chars (v : Json) (r : List Char) :
    ∃ c rest, v.chars ++ r = c :: rest ∧ kindOf? c = some v.kind := by
  cases v with
  | num n =>
    obtain ⟨c, rest, hc⟩ := List.exists_cons_of_ne_nil n.chars_ne_nil
    have hnumeral : isNumeral c = true := Number.isNumeral_of_mem (hc ▸ List.mem_cons_self)
    refine ⟨c, rest ++ r, ?_, if_pos hnumeral⟩
    rw [chars, hc, List.cons_append]
  | bool b => cases b <;> exact ⟨_, _, rfl, rfl⟩
  | _ => exact ⟨_, _, rfl, rfl⟩

/-- A character that begins no value does not begin this one. -/
theorem begins_otherwise (v : Json) (r : List Char) {d : Char} (h : kindOf? d = none) :
    ∃ c rest, v.chars ++ r = c :: rest ∧ c ≠ d := by
  obtain ⟨c, rest, hc, hkind⟩ := exists_cons_chars v r
  refine ⟨c, rest, hc, ?_⟩
  rintro rfl
  cases h.symm.trans hkind

theorem kind_eq {v v' : Json} {r r' : List Char} (h : v.chars ++ r = v'.chars ++ r') :
    v.kind = v'.kind := by
  obtain ⟨c, rest, hc, hkind⟩ := exists_cons_chars v r
  obtain ⟨c', rest', hc', hkind'⟩ := exists_cons_chars v' r'
  obtain ⟨rfl, -⟩ := List.cons.inj (hc.symm.trans (h.trans hc'))
  exact Option.some.inj (hkind.symm.trans hkind')

theorem itemChars_eq (items : List Json) : itemChars items = items.map chars := by
  induction items with
  | nil => rfl
  | cons v rest ih => rw [itemChars, ih, List.map_cons]

/-- A member's name and value. -/
def memberText (m : String × Json) : List Char := quoteChars m.1.toList ++ ':' :: m.2.chars

theorem memberChars_eq (members : List (String × Json)) :
    memberChars members = members.map memberText := by
  induction members with
  | nil => rfl
  | cons m rest ih => rw [memberChars, ih, List.map_cons, memberText]

theorem cut_member {m : String × Json} (h : Cut chars m.2) : Cut memberText m := by
  rintro ⟨k', v'⟩ r r' hr hr' hm
  simp only [memberText, List.append_assoc, List.cons_append] at hm
  obtain ⟨hkey, hvalue⟩ := quoteChars_cancel hm
  obtain ⟨rfl, hrest⟩ := h hr hr' (List.cons.inj hvalue).2
  obtain rfl := String.toList_inj.mp hkey
  exact ⟨rfl, hrest⟩

mutual

theorem cut_chars : (v : Json) → Cut chars v
  | .null, v', r, r', _, _, h => match v', kind_eq h with
    | .null, _ => ⟨rfl, List.append_cancel_left h⟩
  | .bool true, v', r, r', _, _, h => match v', kind_eq h with
    | .bool true, _ => ⟨rfl, List.append_cancel_left h⟩
  | .bool false, v', r, r', _, _, h => match v', kind_eq h with
    | .bool false, _ => ⟨rfl, List.append_cancel_left h⟩
  | .num n, v', r, r', hr, hr', h => match v', kind_eq h with
    | .num n', _ => by
      obtain ⟨rfl, hrest⟩ := cut_number n hr hr' h
      exact ⟨rfl, hrest⟩
  | .str s, v', r, r', _, _, h => match v', kind_eq h with
    | .str s', _ => by
      obtain ⟨hs, hrest⟩ := quoteChars_cancel h
      exact ⟨congrArg str (String.toList_inj.mp hs), hrest⟩
  | .arr items, v', r, r', _, _, h => match v', kind_eq h with
    | .arr items', _ => by
      have hhead : ∀ (v : Json) r, ∃ c rest, v.chars ++ r = c :: rest ∧ c ≠ ']' :=
        fun v r => begins_otherwise v r rfl
      simp only [chars, itemChars_eq, List.cons_append, List.append_assoc, List.nil_append,
        List.cons.injEq, true_and] at h
      obtain ⟨rfl, hrest⟩ := commaSeparated_cancel rfl (by decide) hhead (cut_items items) h
      exact ⟨rfl, hrest⟩
  | .obj members, v', r, r', _, _, h => match v', kind_eq h with
    | .obj members', _ => by
      have hhead : ∀ (m : String × Json) r, ∃ c rest, memberText m ++ r = c :: rest ∧ c ≠ '}' :=
        fun m r => ⟨'"', _, rfl, by decide⟩
      simp only [chars, memberChars_eq, List.cons_append, List.append_assoc, List.nil_append,
        List.cons.injEq, true_and] at h
      obtain ⟨rfl, hrest⟩ := commaSeparated_cancel rfl (by decide) hhead (cut_members members) h
      exact ⟨rfl, hrest⟩

theorem cut_items : (items : List Json) → ∀ v ∈ items, Cut chars v
  | [] => fun _ hv => absurd hv List.not_mem_nil
  | v :: rest => List.forall_mem_cons.mpr ⟨cut_chars v, cut_items rest⟩

theorem cut_members : (members : List (String × Json)) → ∀ m ∈ members, Cut memberText m
  | [] => fun _ hm => absurd hm List.not_mem_nil
  | (_, v) :: rest => List.forall_mem_cons.mpr ⟨cut_member (cut_chars v), cut_members rest⟩

end

theorem text_injective : Function.Injective text := by
  intro v v' h
  have hapart : Apart [] := fun c hc => nomatch hc
  have hchars : v.chars ++ [] = v'.chars ++ [] := by
    rw [String.ofList_injective h]
  exact (cut_chars v hapart hapart hchars).1

end Json
end CostQuery
