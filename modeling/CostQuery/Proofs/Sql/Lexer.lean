import CostQuery.Proofs.Decimal.Plain
import CostQuery.Sql.Token
import Mathlib.Data.List.Chain

/-! SQL text as it is read: words, numbers and signs, names in backticks and texts in quotes. -/

namespace CostQuery.Sql

inductive Lexeme where
  | word (cs : List Char)
  /-- Digits and points. -/
  | number (cs : List Char)
  | sign (c : Char)
  | name (cs : List Char)
  /-- A text in quotes, without its escapes. -/
  | quoted (cs : List Char)

/-- What is being read. -/
inductive Mode where
  | between
  | word (cs : List Char)
  | number (cs : List Char)
  | name (cs : List Char)
  | quoted (cs : List Char)
  /-- After a backslash in quotes. -/
  | escaped (cs : List Char)
  /-- After a quote in quotes, the last one unless another follows. -/
  | closing (cs : List Char)

namespace Mode

/-- What is over at the end of the text; a quote that is open never is. -/
def finish : Mode → Option (List Lexeme)
  | .between => some []
  | .word cs => some [.word cs]
  | .number cs => some [.number cs]
  | .closing cs => some [.quoted cs]
  | .name _ | .quoted _ | .escaped _ => none

def start (c : Char) : List Lexeme × Mode :=
  if c = '\'' then ([], .quoted [])
  else if c = '\u0060' then ([], .name [])
  else if c.isWhitespace then ([], .between)
  else if isNameStart c then ([], .word [c])
  else if c.isDigit then ([], .number [c])
  else ([.sign c], .between)

/-- A lexeme is over, and another starts. -/
def restart (l : Lexeme) (c : Char) : List Lexeme × Mode := (l :: (start c).1, (start c).2)

def step : Mode → Char → List Lexeme × Mode
  | .between, c => start c
  | .word cs, c => if isNameChar c then ([], .word (cs ++ [c])) else restart (.word cs) c
  | .number cs, c =>
    if c.isDigit || c = '.' then ([], .number (cs ++ [c])) else restart (.number cs) c
  | .name cs, c => if c = '\u0060' then ([.name cs], .between) else ([], .name (cs ++ [c]))
  | .quoted cs, c =>
    if c = '\'' then ([], .closing cs)
    else if c = '\\' then ([], .escaped cs)
    else ([], .quoted (cs ++ [c]))
  | .escaped cs, c => ([], .quoted (cs ++ [c]))
  | .closing cs, c => if c = '\'' then ([], .quoted (cs ++ [c])) else restart (.quoted cs) c

def run : Mode → List Char → List Lexeme × Mode
  | m, [] => ([], m)
  | m, c :: cs => ((m.step c).1 ++ (run (m.step c).2 cs).1, (run (m.step c).2 cs).2)

/-- What is being read ends before the character. -/
def endsAt : Mode → Char → Bool
  | .between, _ => true
  | .word _, c => !isNameChar c
  | .number _, c => !(c.isDigit || c = '.')
  | .closing _, c => c ≠ '\''
  | .name _, _ | .quoted _, _ | .escaped _, _ => false

end Mode

/-- The lexemes of a text, if no quote is open at its end. -/
def lex (cs : List Char) : Option (List Lexeme) :=
  (Mode.run .between cs).2.finish.map ((Mode.run .between cs).1 ++ ·)

namespace Mode
variable {m : Mode} {c : Char} {cs : List Char}

theorem run_append (m : Mode) (as bs : List Char) :
    m.run (as ++ bs) = ((m.run as).1 ++ ((m.run as).2.run bs).1, ((m.run as).2.run bs).2) := by
  induction as generalizing m with
  | nil => rfl
  | cons c as ih => rw [List.cons_append, run, ih, run, List.append_assoc]

theorem run_of_endsAt (h : m.endsAt c = true) (cs : List Char) :
    ∃ ls, m.finish = some ls ∧
      m.run (c :: cs) = (ls ++ (run .between (c :: cs)).1, (run .between (c :: cs)).2) := by
  have hstep : ∃ ls, m.finish = some ls ∧ m.step c = (ls ++ (start c).1, (start c).2) := by
    cases m with
    | between => exact ⟨[], rfl, rfl⟩
    | word ds => exact ⟨_, rfl, if_neg (by simpa [endsAt] using h)⟩
    | number ds => exact ⟨_, rfl, if_neg (by simpa [endsAt] using h)⟩
    | closing ds => exact ⟨_, rfl, if_neg (by simpa [endsAt] using h)⟩
    | name | quoted | escaped => cases h
  obtain ⟨ls, hfinish, hstep⟩ := hstep
  refine ⟨ls, hfinish, ?_⟩
  rw [run, hstep, run, List.append_assoc]
  rfl

end Mode

/-- Texts are read one after the other, if what is read of the first ends where the second
begins. -/
theorem lex_append {as bs : List Char} {ls : List Lexeme} (h : lex as = some ls)
    (hend : ∀ c ∈ bs.head?, (Mode.run .between as).2.endsAt c = true) :
    lex (as ++ bs) = (lex bs).map (ls ++ ·) := by
  obtain ⟨last, hlast, rfl⟩ := Option.map_eq_some_iff.mp h
  cases bs with
  | nil =>
    rw [List.append_nil, h]
    simp [lex, Mode.run, Mode.finish]
  | cons c bs =>
    obtain ⟨ls, hfinish, hrun⟩ := Mode.run_of_endsAt (hend c rfl) bs
    obtain rfl := Option.some.inj (hlast.symm.trans hfinish)
    rw [lex, Mode.run_append, hrun, lex, Option.map_map]
    exact congrArg (Option.map · _) (funext fun rest => by simp [List.append_assoc])

end CostQuery.Sql
