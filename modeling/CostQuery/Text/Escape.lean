/-! Texts that stand for themselves inside patterns. -/

namespace CostQuery.Text

/-- A backslash before every special character. -/
def escape (special : List Char) (text : String) : String :=
  String.ofList (text.toList.flatMap fun c => if special.contains c then ['\\', c] else [c])

/-- The special characters of regular expressions. -/
def regexSpecial : List Char :=
  ['\\', '.', '+', '*', '?', '(', ')', '|', '[', ']', '{', '}', '^', '$', '#', '&', '-', '~']

/-- The wildcards of `LIKE`, and its escape character. -/
def likeSpecial : List Char := ['\\', '%', '_']

end CostQuery.Text
