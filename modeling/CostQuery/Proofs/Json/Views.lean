import CostQuery.Json.Basic

/-! Ways to look at values that leave something out of their numbers. -/

namespace CostQuery.Json

/-- A way to look at values that goes through lists and objects. -/
structure Pointwise (f : Json → Json) : Prop where
  arr (items : List Json) : f (.arr items) = .arr (items.map f)
  obj (members : List (String × Json)) :
    f (.obj members) = .obj (members.map fun e => (e.1, f e.2))

theorem pointwise_id : Pointwise id where
  arr items := by rw [List.map_id]; rfl
  obj members := by simp

mutual

/-- Every number is replaced, at any depth. -/
def mapNumbers (g : Number → Json) : Json → Json
  | .num n => g n
  | .arr items => .arr (mapNumbersOfItems g items)
  | .obj members => .obj (mapNumbersOfMembers g members)
  | v => v

def mapNumbersOfItems (g : Number → Json) : List Json → List Json
  | [] => []
  | v :: rest => v.mapNumbers g :: mapNumbersOfItems g rest

def mapNumbersOfMembers (g : Number → Json) : List (String × Json) → List (String × Json)
  | [] => []
  | (k, v) :: rest => (k, v.mapNumbers g) :: mapNumbersOfMembers g rest

end

theorem pointwise_mapNumbers (g : Number → Json) : Pointwise (mapNumbers g) where
  arr items := by
    rw [mapNumbers]
    congr 1
    induction items with
    | nil => rfl
    | cons v rest ih => rw [mapNumbersOfItems, ih, List.map_cons]
  obj members := by
    rw [mapNumbers]
    congr 1
    induction members with
    | nil => rfl
    | cons e rest ih => rw [mapNumbersOfMembers, ih, List.map_cons]

/-- Values as they compare: zero is the same with either sign. -/
def unsignedZeros : Json → Json :=
  mapNumbers fun n => .num (match n with
    | .float x => .float (if x == 0 then 0 else x)
    | .int n => .int n)

theorem pointwise_unsignedZeros : Pointwise unsignedZeros := pointwise_mapNumbers _

theorem unsignedZeros_ofFloat {x : Float} (h : x.isFinite = true) :
    (ofFloat x).unsignedZeros = .num (.float (if x == 0 then 0 else x)) := by
  rw [ofFloat, if_pos h]
  rfl

/-- Values with a null for every float. -/
def withoutFloats : Json → Json :=
  mapNumbers fun n => match n with
    | .float _ => .null
    | .int n => .int n

theorem pointwise_withoutFloats : Pointwise withoutFloats := pointwise_mapNumbers _

theorem withoutFloats_ofFloat (x : Float) : (ofFloat x).withoutFloats = .null := by
  rw [ofFloat]
  split <;> rfl

end CostQuery.Json
