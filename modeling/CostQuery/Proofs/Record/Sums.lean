import CostQuery.Proofs.Members
import CostQuery.Record.Merge
import Mathlib.Algebra.Order.Ring.Int

/-! Sums of values that are whole numbers, or objects that nest them in one shape. While the sums
fit a word, merged values have at each path the sum of what was merged. -/

namespace CostQuery

/-- The value of a member, null if there is none. -/
def Members.valueOf (members : Members Json) (name : String) : Json :=
  (members.get? name).getD .null

/-- Where values hold whole numbers: on top, or beneath the names of an object. -/
inductive Shape where
  | number
  | object (members : String → Shape)

/-- A value with whole numbers where the shape has them. Null may stand anywhere. -/
inductive Shape.Fits : Shape → Json → Prop
  | null (σ : Shape) : Fits σ .null
  | number (n : Int) : Fits .number (.num (.int n))
  | object {shapes : String → Shape} {members : Members Json} (hkeys : members.keys.Nodup)
      (h : ∀ name, Fits (shapes name) (members.valueOf name)) :
      Fits (.object shapes) (.obj members)

/-- The largest whole number of a signed word. -/
def maxAmount : Nat := Nat.pow 2 63 - 1

namespace Json

/-- The whole number at a path. Where there is none, nothing is added to a sum. -/
def amount : Json → List String → Int
  | .num (.int n), [] => n
  | .obj members, name :: path => (Members.valueOf members name).amount path
  | _, _ => 0

def total (path : List String) (vs : List Json) : Int := (vs.map fun v => v.amount path).sum

/-- The sum of the absolute values. -/
def weight (path : List String) (vs : List Json) : Nat :=
  (vs.map fun v => (v.amount path).natAbs).sum

variable {path : List String}

theorem total_cons (v : Json) (vs : List Json) :
    total path (v :: vs) = v.amount path + total path vs := by
  rw [total, List.map_cons, List.sum_cons]
  rfl

theorem weight_cons (v : Json) (vs : List Json) :
    weight path (v :: vs) = (v.amount path).natAbs + weight path vs := by
  rw [weight, List.map_cons, List.sum_cons]
  rfl

theorem total_singleton (v : Json) : total path [v] = v.amount path := by
  rw [total_cons]
  exact Int.add_zero _

theorem weight_singleton (v : Json) : weight path [v] = (v.amount path).natAbs := by
  rw [weight_cons]
  exact Nat.add_zero _

theorem total_append (vs ws : List Json) :
    total path (vs ++ ws) = total path vs + total path ws := by
  rw [total, List.map_append, List.sum_append]
  rfl

theorem weight_append (vs ws : List Json) :
    weight path (vs ++ ws) = weight path vs + weight path ws := by
  rw [weight, List.map_append, List.sum_append]
  rfl

theorem natAbs_total_le (vs : List Json) : (total path vs).natAbs ≤ weight path vs := by
  induction vs with
  | nil => exact Nat.le_refl 0
  | cons v vs ih =>
    rw [total_cons, weight_cons]
    omega

theorem weight_sublist {vs ws : List Json} (h : vs.Sublist ws) :
    weight path vs ≤ weight path ws := by
  induction h with
  | slnil => exact Nat.le_refl _
  | cons v _ ih =>
    rw [weight_cons]
    omega
  | cons_cons v _ ih =>
    rw [weight_cons, weight_cons]
    omega

theorem natAbs_amount_le {v : Json} {vs : List Json} (h : v ∈ vs) :
    (v.amount path).natAbs ≤ weight path vs := by
  have hsub : weight path [v] ≤ weight path vs := weight_sublist (List.singleton_sublist.mpr h)
  rwa [weight_singleton] at hsub

theorem total_perm {vs ws : List Json} (h : vs.Perm ws) : total path vs = total path ws :=
  (h.map _).sum_eq

theorem weight_perm {vs ws : List Json} (h : vs.Perm ws) : weight path vs = weight path ws :=
  (h.map _).sum_eq

end Json

/-- Values of one shape, whose sums fit a word. -/
structure Shape.Summable (σ : Shape) (vs : List Json) : Prop where
  fits : ∀ v ∈ vs, σ.Fits v
  bounded : ∀ path, Json.weight path vs ≤ maxAmount

namespace Members
variable {members others : Members Json} {name key : String} {value : Json}

theorem valueOf_put_self : valueOf (members.put key value) key = value := by
  rw [valueOf, get?_put_self, Option.getD_some]

theorem valueOf_put_of_ne (h : name ≠ key) :
    valueOf (members.put key value) name = members.valueOf name := by
  rw [valueOf, get?_put_of_ne members value h, valueOf]

theorem valueOf_of_notMem (h : name ∉ members.keys) : members.valueOf name = .null := by
  rw [valueOf, get?_of_notMem h, Option.getD_none]

end Members

/-! Merging. -/

theorem Json.null_merge (v : Json) : Json.merge .null v = v := by
  rw [merge]

theorem Json.merge_null (v : Json) : v.merge .null = v := by
  cases v <;> rw [merge] <;> nofun

@[simp] theorem Json.amount_null (path : List String) : Json.null.amount path = 0 := by
  cases path <;> rfl

theorem nodup_mergeMembers {members : Members Json} (h : members.keys.Nodup)
    (others : Members Json) : (mergeMembers members others).keys.Nodup := by
  induction others generalizing members with
  | nil => exact h
  | cons e rest ih => exact ih (Members.nodup_keys_put h _ _)

/-- Objects are merged name by name. -/
theorem valueOf_mergeMembers {others : Members Json} (h : others.keys.Nodup)
    (members : Members Json) (name : String) :
    (mergeMembers members others).valueOf name =
      (members.valueOf name).merge (others.valueOf name) := by
  induction others generalizing members with
  | nil => exact (Json.merge_null _).symm
  | cons e rest ih =>
    obtain ⟨k, v⟩ := e
    obtain ⟨hk, hrest⟩ := List.nodup_cons.mp h
    rw [mergeMembers, ih hrest]
    by_cases hname : name = k
    · subst hname
      rw [Members.valueOf_put_self, Members.valueOf_of_notMem hk, Json.merge_null]
      simp [Members.valueOf, Members.get?]
    · rw [Members.valueOf_put_of_ne hname]
      simp [Members.valueOf, Members.get?, Ne.symm hname]

theorem isSignedWord_of_natAbs_le {n : Int} (h : n.natAbs ≤ maxAmount) :
    isSignedWord n = true := by
  simp only [maxAmount, Nat.pow_eq] at h
  simp only [isSignedWord, Nat.pow_eq, decide_eq_true_eq]
  omega

/-- A sum whose parts fit a word with their absolute values stays whole. -/
theorem Number.add_int {x y : Int} (h : x.natAbs + y.natAbs ≤ maxAmount) :
    Number.add (.int x) (.int y) = .int (x + y) := by
  have hx : isSignedWord x = true := isSignedWord_of_natAbs_le (by omega)
  have hy : isSignedWord y = true := isSignedWord_of_natAbs_le (by omega)
  have hsum : isSignedWord (x + y) = true := isSignedWord_of_natAbs_le (by omega)
  simp only [Number.add, hx, hy, hsum, Bool.and_self, if_true, Json.int]

namespace Shape
variable {σ : Shape} {a b : Json} {vs ws : List Json}

theorem fits_null_merge (hb : σ.Fits b) : σ.Fits (Json.merge .null b) ∧
    ∀ path, (Json.merge .null b).amount path = Json.null.amount path + b.amount path := by
  rw [Json.null_merge]
  exact ⟨hb, fun path => by rw [Json.amount_null, Int.zero_add]⟩

theorem Fits.merge_null (ha : σ.Fits a) : σ.Fits (a.merge .null) ∧
    ∀ path, (a.merge .null).amount path = a.amount path + Json.null.amount path := by
  rw [Json.merge_null]
  exact ⟨ha, fun path => by rw [Json.amount_null, Int.add_zero]⟩

/-- Merged values of one shape add up at every path. -/
theorem Fits.merge (ha : σ.Fits a) (hb : σ.Fits b)
    (h : ∀ path, (a.amount path).natAbs + (b.amount path).natAbs ≤ maxAmount) :
    σ.Fits (a.merge b) ∧ ∀ path, (a.merge b).amount path = a.amount path + b.amount path := by
  induction σ generalizing a b with
  | number =>
    cases ha with
    | null => exact fits_null_merge hb
    | number x =>
      cases hb with
      | null => exact (Fits.number x).merge_null
      | number y =>
        have hadd : Json.merge (.num (.int x)) (.num (.int y)) = .int (x + y) := by
          rw [Json.merge]
          exact Number.add_int (h [])
        rw [hadd]
        refine ⟨.number (x + y), fun path => ?_⟩
        cases path <;> rfl
  | object shapes ih =>
    cases ha with
    | null => exact fits_null_merge hb
    | object hkeys hmembers =>
      cases hb with
      | null => exact (Fits.object hkeys hmembers).merge_null
      | object hkeys' hothers =>
        -- The first name of a path picks the part of the shape that the rest of it leads into.
        have hname := fun name =>
          ih name (hmembers name) (hothers name) fun path => h (name :: path)
        rw [Json.merge]
        refine ⟨.object (nodup_mergeMembers hkeys _) fun name => ?_, fun path => ?_⟩
        · rw [valueOf_mergeMembers hkeys']
          exact (hname name).1
        · cases path with
          | nil => rfl
          | cons name path =>
            simp only [Json.amount]
            rw [valueOf_mergeMembers hkeys']
            exact (hname name).2 path

theorem Summable.of_sublist (h : σ.Summable ws) (hsub : vs.Sublist ws) : σ.Summable vs where
  fits v hv := h.fits v (hsub.subset hv)
  bounded path := Nat.le_trans (Json.weight_sublist hsub) (h.bounded path)

theorem Summable.perm (h : σ.Summable ws) (hperm : vs.Perm ws) : σ.Summable vs where
  fits v hv := h.fits v (hperm.subset hv)
  bounded path := Nat.le_trans (Nat.le_of_eq (Json.weight_perm hperm)) (h.bounded path)

/-- Merged one after the other, values add up to their sum. -/
theorem Summable.merge_all (h : σ.Summable (a :: vs)) : σ.Fits (vs.foldl Json.merge a) ∧
    ∀ path, (vs.foldl Json.merge a).amount path = Json.total path (a :: vs) := by
  induction vs generalizing a with
  | nil =>
    exact ⟨h.fits a (List.mem_singleton_self a), fun path => (Json.total_singleton a).symm⟩
  | cons v vs ih =>
    have hweight : ∀ path, (a.amount path).natAbs +
        ((v.amount path).natAbs + Json.weight path vs) ≤ maxAmount := fun path => by
      rw [← Json.weight_cons, ← Json.weight_cons]
      exact h.bounded path
    obtain ⟨ha, hrest⟩ := List.forall_mem_cons.mp h.fits
    obtain ⟨hv, hvs⟩ := List.forall_mem_cons.mp hrest
    obtain ⟨hfits, hamount⟩ := ha.merge hv fun path => by
      have := hweight path
      omega
    have hsummable : σ.Summable (a.merge v :: vs) := by
      refine ⟨List.forall_mem_cons.mpr ⟨hfits, hvs⟩, fun path => ?_⟩
      have := hweight path
      rw [Json.weight_cons, hamount path]
      omega
    obtain ⟨hall, htotal⟩ := ih hsummable
    refine ⟨hall, fun path => ?_⟩
    rw [List.foldl_cons, htotal path]
    simp only [Json.total_cons, hamount path, Int.add_assoc]

/-- Null before the values changes nothing, so that a merge of them may begin with it. -/
theorem Summable.merge_null_all (h : σ.Summable vs) : σ.Fits (vs.foldl Json.merge .null) ∧
    ∀ path, (vs.foldl Json.merge .null).amount path = Json.total path vs := by
  have hnull : σ.Summable (.null :: vs) := by
    refine ⟨List.forall_mem_cons.mpr ⟨.null σ, h.fits⟩, fun path => ?_⟩
    rw [Json.weight_cons, Json.amount_null, Int.natAbs_zero, Nat.zero_add]
    exact h.bounded path
  obtain ⟨hfits, htotal⟩ := hnull.merge_all
  refine ⟨hfits, fun path => ?_⟩
  rw [htotal path, Json.total_cons, Json.amount_null, Int.zero_add]

end Shape
end CostQuery
