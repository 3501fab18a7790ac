import CostQuery.Proofs.Json.Text

/-! Exchange text closes the quotes that it opens, and has an equals sign only between them: a name
and a value that are joined by one can be told from the text of both. -/

namespace CostQuery

/-- Where a reader is, between quotes or not. -/
inductive Quotes where
  | outside
  | inside
  /-- After a backslash, whatever follows. -/
  | escaped
  deriving DecidableEq

namespace Quotes
variable {s t : Quotes} {c : Char} {cs ds : List Char}

def step : Quotes → Char → Option Quotes
  | .outside, c =>
    if c.toNat < 0x20 ∨ c = '\\' ∨ c = '=' then none
    else if c = '"' then some .inside
    else some .outside
  | .inside, c =>
    if c.toNat < 0x20 then none
    else if c = '"' then some .outside
    else if c = '\\' then some .escaped
    else some .inside
  | .escaped, c => if c.toNat < 0x20 then none else some .inside

/-- Nothing, if a character is read that can not be there. -/
def scan (s : Quotes) (cs : List Char) : Option Quotes := cs.foldlM step s

theorem scan_cons : scan s (c :: cs) = (step s c).bind fun t => scan t cs := List.foldlM_cons

theorem scan_append : scan s (cs ++ ds) = (scan s cs).bind fun t => scan t ds :=
  List.foldlM_append

theorem printable_of_step (h : step s c = some t) : ¬ c.toNat < 0x20 := by
  intro hcontrol
  cases s <;> simp [step, hcontrol] at h

theorem printable_of_scan (h : scan s cs = some t) : ∀ c ∈ cs, ¬ c.toNat < 0x20 := by
  induction cs generalizing s with
  | nil => simp
  | cons c cs ih =>
    rw [scan_cons, Option.bind_eq_some_iff] at h
    obtain ⟨u, hstep, hrest⟩ := h
    exact List.forall_mem_cons.mpr ⟨printable_of_step hstep, ih hrest⟩

/-- One reader is between quotes and the other is not. -/
def Opposed (s t : Quotes) : Prop := s = .outside ∧ t = .inside ∨ s = .inside ∧ t = .outside

/-- What is quoted for one reader is not for the other, and a backslash stops one of them. -/
theorem Opposed.step (h : Opposed s t) {s' t' : Quotes} (hs : s.step c = some s')
    (ht : t.step c = some t') : Opposed s' t' := by
  have hpair : ∀ {s' t' : Quotes}, Quotes.step .outside c = some s' →
      Quotes.step .inside c = some t' → Opposed s' t' := by
    intro s' t' hs ht
    by_cases hquote : c = '"'
    · subst hquote
      obtain rfl := Option.some.inj hs
      obtain rfl := Option.some.inj ht
      exact Or.inr ⟨rfl, rfl⟩
    · have hprintable := printable_of_step ht
      by_cases hslash : c = '\\'
      · subst hslash
        cases hs
      · by_cases hequals : c = '='
        · subst hequals
          cases hs
        · simp [Quotes.step, hquote, hslash, hequals, hprintable] at hs ht
          subst hs ht
          exact Or.inl ⟨rfl, rfl⟩
  rcases h with ⟨rfl, rfl⟩ | ⟨rfl, rfl⟩
  · exact hpair hs ht
  · exact (hpair ht hs).symm.imp And.symm And.symm

theorem Opposed.scan (h : Opposed s t) {s' t' : Quotes} (hs : s.scan cs = some s')
    (ht : t.scan cs = some t') : Opposed s' t' := by
  induction cs generalizing s t with
  | nil =>
    obtain rfl := Option.some.inj hs
    obtain rfl := Option.some.inj ht
    exact h
  | cons c cs ih =>
    rw [scan_cons, Option.bind_eq_some_iff] at hs ht
    obtain ⟨s₁, hs₁, hs⟩ := hs
    obtain ⟨t₁, ht₁, ht⟩ := ht
    exact ih (h.step hs₁ ht₁) hs ht

/-- A text that can be read on its own, and leaves the reader where it was. -/
def Closed (cs : List Char) : Prop := scan .outside cs = some .outside

theorem closed_nil : Closed [] := rfl

theorem Closed.append (hc : Closed cs) (hd : Closed ds) : Closed (cs ++ ds) := by
  rw [Closed, scan_append, hc]
  exact hd

theorem Closed.cons (hc : Closed [c]) (hd : Closed ds) : Closed (c :: ds) := Closed.append hc hd

theorem closed_of_forall (h : ∀ c ∈ cs, Closed [c]) : Closed cs := by
  induction cs with
  | nil => exact closed_nil
  | cons c cs ih =>
    obtain ⟨hc, hcs⟩ := List.forall_mem_cons.mp h
    exact hc.cons (ih hcs)

theorem closed_flatMap {α : Type} {f : α → List Char} {as : List α} (h : ∀ a ∈ as, Closed (f a)) :
    Closed (as.flatMap f) := by
  induction as with
  | nil => exact closed_nil
  | cons a as ih =>
    obtain ⟨ha, has⟩ := List.forall_mem_cons.mp h
    rw [List.flatMap_cons]
    exact ha.append (ih has)

/-- A closed text has no equals sign before another closed text. -/
theorem Closed.eq_nil_of_equals (hc : Closed cs) (hd : Closed ds) {m : List Char}
    (h : '=' :: cs = m ++ '=' :: ds) : m = [] := by
  rcases m with _ | ⟨c, m⟩
  · rfl
  · obtain ⟨rfl, rfl⟩ := List.cons.inj h
    rw [List.append_eq, Closed, scan_append, Option.bind_eq_some_iff] at hc
    obtain ⟨s, -, hs⟩ := hc
    rw [scan_cons, Option.bind_eq_some_iff] at hs
    obtain ⟨t, hstep, ht⟩ := hs
    -- The sign is read between quotes, so that what follows would be read between them too.
    have hinside : t = .inside := by
      cases s with
      | outside => cases hstep
      | inside | escaped => exact (Option.some.inj hstep).symm
    subst hinside
    rcases Opposed.scan (Or.inl ⟨rfl, rfl⟩) hd ht with ⟨-, hend⟩ | ⟨hend, -⟩ <;> cases hend

end Quotes

namespace Json
open Quotes

theorem closed_numeral {c : Char} (h : isNumeral c = true) : Closed [c] := by
  rcases (Bool.or_eq_true _ _).mp h with hdigit | hmark
  · have hbounds := (Bool.and_eq_true _ _).mp hdigit
    have hprintable : ¬ c.toNat < 0x20 := by
      have hzero : 48 ≤ c.toNat := of_decide_eq_true hbounds.1
      omega
    have hquote : c ≠ '"' := by
      rintro rfl
      cases hdigit
    have hslash : c ≠ '\\' := by
      rintro rfl
      cases hdigit
    have hequals : c ≠ '=' := by
      rintro rfl
      cases hdigit
    simp [Closed, scan, Quotes.step, hprintable, hquote, hslash, hequals]
  · simp only [List.contains_iff_mem, List.mem_cons, List.not_mem_nil, or_false] at hmark
    rcases hmark with rfl | rfl | rfl | rfl <;> rfl

theorem scan_hexDigit (n : Nat) (cs : List Char) :
    scan .inside (hexDigit n :: cs) = scan .inside cs := by
  have hdigit : ∀ n < 16, Quotes.step .inside (Nat.digitChar n) = some .inside := by decide
  rw [scan_cons, hexDigit, hdigit _ (Nat.mod_lt n (by decide))]
  rfl

theorem scan_escapeChar (c : Char) : scan .inside (escapeChar c) = some .inside := by
  unfold escapeChar
  split_ifs with hquote hslash hn hr ht hb hf hcontrol
  iterate 7 · rfl
  · change scan .inside [hexDigit (c.toNat / 16), hexDigit c.toNat] = _
    rw [scan_hexDigit, scan_hexDigit]
    rfl
  · simp [scan, Quotes.step, hquote, hslash, hcontrol]

theorem closed_quoteChars (s : List Char) : Closed (quoteChars s) := by
  have hinside : scan .inside (s.flatMap escapeChar) = some .inside := by
    induction s with
    | nil => rfl
    | cons c s ih =>
      rw [List.flatMap_cons, scan_append, scan_escapeChar]
      exact ih
  rw [Closed, quoteChars, scan_cons]
  change scan .inside _ = _
  rw [scan_append, hinside]
  rfl

theorem closed_commaSeparated {pieces : List (List Char)} (h : ∀ p ∈ pieces, Closed p) :
    Closed (commaSeparated pieces) := by
  cases pieces with
  | nil => exact closed_nil
  | cons p rest =>
    obtain ⟨hp, hrest⟩ := List.forall_mem_cons.mp h
    rw [commaSeparated_cons]
    exact hp.append (closed_flatMap fun q hq => Closed.cons rfl (hrest q hq))

mutual

theorem closed_chars : (v : Json) → Closed v.chars
  | .null => rfl
  | .bool true => rfl
  | .bool false => rfl
  | .num n => closed_of_forall fun c hc => closed_numeral (Number.isNumeral_of_mem hc)
  | .str s => closed_quoteChars s.toList
  | .arr items => by
    rw [chars, itemChars_eq]
    refine Closed.cons rfl (Closed.append (closed_commaSeparated ?_) rfl)
    exact List.forall_mem_map.mpr (closed_items items)
  | .obj members => by
    rw [chars, memberChars_eq]
    refine Closed.cons rfl (Closed.append (closed_commaSeparated ?_) rfl)
    exact List.forall_mem_map.mpr (closed_members members)

theorem closed_items : (items : List Json) → ∀ v ∈ items, Closed v.chars
  | [] => fun _ hv => absurd hv List.not_mem_nil
  | v :: rest => List.forall_mem_cons.mpr ⟨closed_chars v, closed_items rest⟩

theorem closed_members : (members : List (String × Json)) → ∀ m ∈ members, Closed (memberText m)
  | [] => fun _ hm => absurd hm List.not_mem_nil
  | (k, v) :: rest => List.forall_mem_cons.mpr
      ⟨(closed_quoteChars k.toList).append (Closed.cons rfl (closed_chars v)), closed_members rest⟩

end

/-- A name and a value that are joined by an equals sign are told apart. -/
theorem eq_of_named {k k' : List Char} {v v' : Json}
    (h : k ++ '=' :: v.chars = k' ++ '=' :: v'.chars) : k = k' ∧ v = v' := by
  have hlonger : ∀ {k m : List Char} {v v' : Json},
      k ++ '=' :: v.chars = k ++ m ++ '=' :: v'.chars → m = [] ∧ v = v' := by
    intro k m v v' h
    rw [List.append_assoc] at h
    have hrest := List.append_cancel_left h
    obtain rfl := (closed_chars v).eq_nil_of_equals (closed_chars v') hrest
    have htext : v.text = v'.text := congrArg String.ofList (List.cons.inj hrest).2
    exact ⟨rfl, text_injective htext⟩
  rcases List.append_eq_append_iff.mp h with ⟨m, rfl, -⟩ | ⟨m, rfl, -⟩
  · obtain ⟨rfl, hv⟩ := hlonger h
    exact ⟨(List.append_nil k).symm, hv⟩
  · obtain ⟨rfl, hv⟩ := hlonger h.symm
    exact ⟨List.append_nil k', hv.symm⟩

end Json
end CostQuery
