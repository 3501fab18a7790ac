import CostQuery.Proofs.Plan.FacetKeys
import CostQuery.Proofs.Sql.Refusals

/-! Names registered one after another. The first to claim an identifier holds it for good, and the
answer to each name tells which of the names before it was the first. -/

namespace CostQuery
variable {names : List String} {name ident : String}

/-- The first of the names that are written as the identifier. -/
def claimant? (names : List String) (ident : String) : Option String :=
  names.find? fun name => Alias.ofName name = ident

theorem claimant?_concat (names : List String) (name ident : String) :
    claimant? (names ++ [name]) ident =
      (claimant? names ident).or (if Alias.ofName name = ident then some name else none) := by
  simp [claimant?, List.find?_append, List.find?_singleton]

theorem claimant?_eq_none :
    claimant? names ident = none ↔ ∀ other ∈ names, Alias.ofName other ≠ ident := by
  simp [claimant?]

/-- Later names claim nothing that is held. -/
theorem claimant?_concat_of_some {first : String} (h : claimant? names ident = some first) :
    claimant? (names ++ [name]) ident = some first := by
  rw [claimant?_concat, h, Option.some_or]

namespace Registration

def isNew : Registration → Bool
  | .new _ => true
  | _ => false

def isExisting : Registration → Bool
  | .existing _ => true
  | _ => false

def isCollision : Registration → Bool
  | .collision _ => true
  | _ => false

/-- What the first claimant of its identifier answers to a name. -/
def answer (first? : Option String) (name : String) : Registration :=
  match first? with
  | none => .new (Alias.ofName name)
  | some first =>
    if first = name then .existing (Alias.ofName name) else .collision (Alias.ofName name)

variable {first? : Option String}

theorem answer_ident (first? : Option String) (name : String) :
    (answer first? name).ident = Alias.ofName name := by
  cases first? with
  | none => rfl
  | some first =>
    simp only [answer]
    split <;> rfl

theorem answer_isNew : (answer first? name).isNew = true ↔ first? = none := by
  cases first? with
  | none => simp [answer, isNew]
  | some first =>
    simp only [answer]
    split <;> simp [isNew]

theorem answer_isExisting : (answer first? name).isExisting = true ↔ first? = some name := by
  cases first? with
  | none => simp [answer, isExisting]
  | some first =>
    simp only [answer]
    split <;> simp [isExisting, *]

theorem answer_isCollision :
    (answer first? name).isCollision = true ↔ ∃ first, first? = some first ∧ first ≠ name := by
  cases first? with
  | none => simp [answer, isCollision]
  | some first =>
    simp only [answer]
    split <;> simp [isCollision, *]

end Registration

/-- A name that was registered, and the answer to it. -/
abbrev RegisterCall := String × Registration

namespace Registry

/-- Names registered in order, from no names at all. -/
def registerAll (names : List String) : List RegisterCall × Registry :=
  names.foldl (fun (calls, r) name =>
    let (answer, r) := r.register name
    (calls ++ [(name, answer)], r)) ([], {})

theorem registerAll_concat (names : List String) (name : String) :
    registerAll (names ++ [name]) =
      ((registerAll names).1 ++ [(name, ((registerAll names).2.register name).1)],
        ((registerAll names).2.register name).2) := by
  rw [registerAll, List.foldl_concat]
  rfl

/-- The collision of a call: the first claimant keeps the identifier. -/
def Records (names : List String) (call : RegisterCall) (c : Collision) : Prop :=
  call = (c.dropped, .collision c.ident) ∧ claimant? names c.ident = some c.kept

/-- The registry, and the answers, after names have been registered. -/
structure After (names : List String) (calls : List RegisterCall) (r : Registry) : Prop where
  valid : r.Valid
  called : calls.map Prod.fst = names
  owner : ∀ ident, r.ownerOf? ident = (claimant? names ident).map (⟨ident, ·⟩)
  answered : ∀ before name answer after, calls = before ++ (name, answer) :: after →
    answer = .answer (claimant? (before.map Prod.fst) (Alias.ofName name)) name
  recorded : List.Forall₂ (Records names) (calls.filter (·.2.isCollision)) r.collisions

section
variable {calls : List RegisterCall} {r : Registry}

theorem after_nothing : After [] [] {} where
  valid := valid_empty
  called := rfl
  owner _ := rfl
  answered before name answer after h := by cases before <;> cases h
  recorded := .nil

/-- What registering one more name does, by the first claimant of its identifier. -/
theorem After.register_eq (h : After names calls r) (name : String) :
    r.register name = (.answer (claimant? names (Alias.ofName name)) name,
      match claimant? names (Alias.ofName name) with
      | none => { r with entries := r.entries ++ [⟨Alias.ofName name, name⟩] }
      | some first =>
        if first = name then r
        else { r with collisions := r.collisions ++ [⟨Alias.ofName name, first, name⟩] }) := by
  rw [Registry.register, h.owner]
  cases claimant? names (Alias.ofName name) with
  | none => rfl
  | some first =>
    simp only [Option.map_some, Registration.answer]
    split <;> rfl

theorem After.owner_register (h : After names calls r) (name ident : String) :
    (r.register name).2.ownerOf? ident =
      (claimant? (names ++ [name]) ident).map (⟨ident, ·⟩) := by
  rw [h.register_eq]
  cases hfirst : claimant? names (Alias.ofName name) with
  | none =>
    rw [ownerOf?, List.find?_append, ← ownerOf?, h.owner, List.find?_singleton, claimant?_concat]
    by_cases hident : Alias.ofName name = ident
    · subst hident
      simp [hfirst]
    · simp [hident]
  | some first =>
    have hkept : claimant? (names ++ [name]) ident = claimant? names ident := by
      rw [claimant?_concat]
      split
      · next hident => rw [← hident, hfirst, Option.some_or]
      · exact Option.or_none
    rw [hkept, ← h.owner]
    dsimp only
    split <;> rfl

theorem After.recorded_register (h : After names calls r) (name : String) :
    List.Forall₂ (Records (names ++ [name]))
      ((calls ++ [(name, (r.register name).1)]).filter (·.2.isCollision))
      (r.register name).2.collisions := by
  have hearlier : List.Forall₂ (Records (names ++ [name]))
      (calls.filter (·.2.isCollision)) r.collisions :=
    h.recorded.imp fun _ _ hc => ⟨hc.1, claimant?_concat_of_some hc.2⟩
  rw [h.register_eq, List.filter_append]
  cases hfirst : claimant? names (Alias.ofName name) with
  | none => simpa [Registration.answer, Registration.isCollision] using hearlier
  | some first =>
    by_cases hname : first = name
    · simpa [Registration.answer, Registration.isCollision, hname] using hearlier
    · simp only [Registration.answer, hname, if_false]
      exact List.rel_append hearlier
        (.cons ⟨rfl, claimant?_concat_of_some hfirst⟩ .nil)

theorem After.register (h : After names calls r) (name : String) :
    After (names ++ [name]) (calls ++ [(name, (r.register name).1)]) (r.register name).2 where
  valid := h.valid.register name
  called := by rw [List.map_append, h.called]; rfl
  owner := h.owner_register name
  recorded := h.recorded_register name
  answered before other answer after heq := by
    rcases List.eq_nil_or_concat after with rfl | ⟨after, last, rfl⟩
    · obtain ⟨rfl, hlast⟩ := List.append_inj' heq rfl
      obtain ⟨rfl, rfl⟩ := Prod.mk.inj (List.singleton_inj.mp hlast)
      rw [h.register_eq, h.called]
    · rw [List.concat_eq_append, ← List.cons_append, ← List.append_assoc] at heq
      exact h.answered before other answer after (List.append_inj' heq rfl).1

theorem after_registerAll (names : List String) :
    After names (registerAll names).1 (registerAll names).2 := by
  induction names using List.reverseRecOn with
  | nil => exact after_nothing
  | append_singleton names name ih =>
    rw [registerAll_concat]
    exact ih.register name

/-- A name has an identifier exactly if it was the first to claim it. -/
theorem After.identOf_eq (h : After names calls r) (name : String) :
    r.identOf? name =
      if claimant? names (Alias.ofName name) = some name then some (Alias.ofName name)
      else none := by
  refine Option.ext fun ident => ?_
  rw [h.valid.identOf_iff, h.owner]
  by_cases hfirst : claimant? names (Alias.ofName name) = some name
  · rw [if_pos hfirst, Option.some.injEq]
    refine ⟨fun hident => hident.1.symm, ?_⟩
    rintro rfl
    exact ⟨rfl, by rw [hfirst]; rfl⟩
  · rw [if_neg hfirst]
    refine iff_of_false ?_ (Option.some_ne_none _).symm
    rintro ⟨rfl, howner⟩
    obtain ⟨first, hsome, heq⟩ := Option.map_eq_some_iff.mp howner
    obtain rfl := (OutputColumn.mk.inj heq).2
    exact hfirst hsome

end

/-- An identifier that is also a name is held by that name. -/
theorem Valid.eq_of_name_eq_ident {r : Registry} (h : r.Valid) {e e' : OutputColumn}
    (he : e ∈ r.entries) (he' : e' ∈ r.entries) (heq : e.name = e'.ident) : e = e' := by
  refine h.eq_of_ident he he' ?_
  calc e.ident = Alias.ofName e'.ident := by rw [h.made e he, heq]
    _ = Alias.ofName (Alias.ofName e'.name) := by rw [h.made e' he']
    _ = e'.ident := by rw [Alias.ofName_ofName, h.made e' he']

/-- Names registered in any order, any number of times: identifiers and names go together one to
one, and the first to claim an identifier holds it. -/
theorem registerAll_first_wins (names : List String) :
    ∃ calls r, registerAll names = (calls, r) ∧ calls.map Prod.fst = names ∧
      (∀ e ∈ r.entries, e.ident = Alias.ofName e.name ∧
        Sql.isName e.ident.toList = true ∧ Alias.ofName e.ident = e.ident) ∧
      (r.entries.map (·.ident)).Nodup ∧ (r.entries.map (·.name)).Nodup ∧
      (∀ before name answer after, calls = before ++ (name, answer) :: after →
        answer.ident = Alias.ofName name ∧
        (answer.isNew = true ↔ ∀ call ∈ before, Alias.ofName call.1 ≠ Alias.ofName name) ∧
        (answer.isExisting = true ↔
          claimant? (before.map Prod.fst) (Alias.ofName name) = some name) ∧
        (answer.isCollision = true ↔ ∃ first,
          claimant? (before.map Prod.fst) (Alias.ofName name) = some first ∧ first ≠ name)) ∧
      (∀ name, r.identOf? name =
        if claimant? names (Alias.ofName name) = some name then some (Alias.ofName name)
        else none) ∧
      List.Forall₂ (Records names) (calls.filter (·.2.isCollision)) r.collisions ∧
      ∀ e ∈ r.entries, ∀ e' ∈ r.entries, e.name = e'.ident → e = e' := by
  have h := after_registerAll names
  refine ⟨_, _, rfl, h.called, fun e he => ?_, h.valid.idents_nodup, h.valid.names_nodup,
    fun before name answer after hcalls => ?_, h.identOf_eq, h.recorded,
    fun e he e' he' => h.valid.eq_of_name_eq_ident he he'⟩
  · have hmade := h.valid.made e he
    refine ⟨hmade, ?_, ?_⟩
    · rw [hmade]
      exact Sql.isName_ofName e.name
    · rw [hmade, Alias.ofName_ofName]
  · obtain rfl := h.answered before name answer after hcalls
    refine ⟨Registration.answer_ident _ _, ?_, Registration.answer_isExisting,
      Registration.answer_isCollision⟩
    rw [Registration.answer_isNew, claimant?_eq_none, List.forall_mem_map]

/-- Of two names with one identifier the second is refused each time it asks. -/
example : ((registerAll ["tags.Name", "tags_Name", "tags.Name", "tags_Name"]).2.collisions.map
    fun c => (c.kept, c.dropped)) = [("tags.Name", "tags_Name"), ("tags.Name", "tags_Name")] := by
  decide

end Registry
end CostQuery
