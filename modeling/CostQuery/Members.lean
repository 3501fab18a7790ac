/-! Members of an object: names with values, in the order in which the names first came. -/

namespace CostQuery

abbrev Members (α : Type) := List (String × α)

namespace Members
variable {α β : Type}

def get? : Members α → String → Option α
  | [], _ => none
  | (k, v) :: rest, key => if k = key then some v else get? rest key

def keys (m : Members α) : List String := m.map Prod.fst

/-- A name already there keeps its place and takes the new value; a new one goes to the end. -/
def put : Members α → String → α → Members α
  | [], key, value => [(key, value)]
  | (k, v) :: rest, key, value =>
    if k = key then (k, value) :: rest else (k, v) :: put rest key value

/-- Of repeated names the first gives the place and the last the value. -/
def collect (entries : List (String × α)) : Members α :=
  entries.foldl (fun m e => m.put e.1 e.2) []

/-- Put into members kept in ascending order of name. -/
def putSorted : Members α → String → α → Members α
  | [], key, value => [(key, value)]
  | (k, v) :: rest, key, value =>
    if k = key then (k, value) :: rest
    else if key < k then (key, value) :: (k, v) :: rest
    else (k, v) :: putSorted rest key value

/-- Ascending order of name; of repeated names the last gives the value. -/
def collectSorted (entries : List (String × α)) : Members α :=
  entries.foldl (fun m e => m.putSorted e.1 e.2) []

@[simp] theorem get?_nil (key : String) : get? ([] : Members α) key = none := rfl

theorem get?_put_self (m : Members α) (key : String) (value : α) :
    (m.put key value).get? key = some value := by
  induction m with
  | nil => simp [put, get?]
  | cons e rest ih =>
    obtain ⟨k, v⟩ := e
    by_cases h : k = key <;> simp [put, get?, h, ih]

theorem get?_put_of_ne (m : Members α) {key other : String} (value : α) (h : other ≠ key) :
    (m.put key value).get? other = m.get? other := by
  induction m with
  | nil => simp [put, get?, Ne.symm h]
  | cons e rest ih =>
    obtain ⟨k, v⟩ := e
    by_cases hk : k = key
    · subst hk
      simp [put, get?, Ne.symm h]
    · simp [put, get?, hk, ih]

end Members
end CostQuery
