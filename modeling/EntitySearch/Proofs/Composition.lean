import EntitySearch.Proofs.Truth
import EntitySearch.Selection
/-!
What a forest of criteria means. Compiling visits the criteria in pre-order and gives each of them
a condition of its own; the condition composed of them has the value of the formula that the
criteria spell, whatever values their tests have.
-/
namespace EntitySearch
open Sql

theorem bind_eq_ok_iff {ε α β : Type} {x : Except ε α} {f : α → Except ε β} {b : β} :
    (x >>= f) = .ok b ↔ ∃ a, x = .ok a ∧ f a = .ok b := by
  cases x <;> simp [bind, Except.bind]

theorem map_eq_ok_iff {ε α β : Type} {x : Except ε α} {f : α → β} {b : β} :
    x.map f = .ok b ↔ ∃ a, x = .ok a ∧ f a = b := by
  cases x <;> simp [Except.map]

theorem Lookup.result_eq_ok_iff {α : Type} {l : Lookup α} {key : String} {a : α} :
    l.result key = .ok a ↔ l.found = .ok a := by
  unfold result
  cases l.found <;> simp [Except.mapError]

/-- A tree of criteria with a value for each of them. -/
inductive Tree (α : Type)
  | node (own : α) (allOf anyOf : List (Tree α))

namespace Tree
variable {α β : Type}

section Formula
variable [Lattice β] [BoundedOrder β] (v : α → β)

mutual
/-- `(own and all of allOf) or any of anyOf`, all the way down. -/
def formula : Tree α → β
  | node a allOf anyOf =>
    (v a ⊓ Junction.all.fold (formulas allOf)) ⊔ Junction.any.fold (formulas anyOf)
def formulas : List (Tree α) → List β
  | [] => []
  | t :: ts => formula t :: formulas ts
end

theorem formulas_eq_map (ts : List (Tree α)) : formulas v ts = ts.map (formula v) := by
  induction ts with
  | nil => rfl
  | cons t ts ih => simp [formulas, ih]

theorem formulas_append (ts us : List (Tree α)) :
    formulas v (ts ++ us) = formulas v ts ++ formulas v us := by
  simp [formulas_eq_map]

end Formula

mutual
/-- The values of a tree: that of the criterion itself, then those of its `allOf` and `anyOf`. -/
def nodes : Tree α → List α
  | node a allOf anyOf => a :: (nodesAll allOf ++ nodesAll anyOf)
def nodesAll : List (Tree α) → List α
  | [] => []
  | t :: ts => nodes t ++ nodesAll ts
end

section Agreement
variable [Lattice β] [BoundedOrder β] {v w : α → β}

mutual
/-- Only the values at a tree's own places matter. -/
theorem formula_congr : (t : Tree α) → (∀ a ∈ t.nodes, v a = w a) → t.formula v = t.formula w
  | node a allOf anyOf, h => by
    rw [nodes] at h
    rw [formula, formula, h a List.mem_cons_self,
      formulas_congr allOf fun b hb => h b (List.mem_cons_of_mem a (List.mem_append_left _ hb)),
      formulas_congr anyOf fun b hb => h b (List.mem_cons_of_mem a (List.mem_append_right _ hb))]
theorem formulas_congr : (ts : List (Tree α)) → (∀ a ∈ nodesAll ts, v a = w a) →
    formulas v ts = formulas w ts
  | [], _ => rfl
  | t :: ts, h => by
    rw [nodesAll] at h
    rw [formulas, formulas, formula_congr t fun a ha => h a (List.mem_append_left _ ha),
      formulas_congr ts fun a ha => h a (List.mem_append_right _ ha)]
end

end Agreement

mutual
/-- The condition composed of the conditions of the criteria. -/
def condition : Tree Condition → Condition
  | node a allOf anyOf => Scope.refine .any (Scope.refine .all a (conditions allOf)) (conditions anyOf)
def conditions : List (Tree Condition) → List Condition
  | [] => []
  | t :: ts => condition t :: conditions ts
end

end Tree

mutual
/-- Each criterion of a tree at its place. -/
def Criterion.tree : Criterion → Tree Criterion
  | ⟨key, operation, operand, allOf, anyOf, label⟩ =>
    .node ⟨key, operation, operand, allOf, anyOf, label⟩ (Forest.trees allOf) (Forest.trees anyOf)
def Forest.trees : List Criterion → List (Tree Criterion)
  | [] => []
  | c :: cs => c.tree :: Forest.trees cs
end

theorem Forest.trees_append (cs ds : Forest) :
    Forest.trees (cs ++ ds) = Forest.trees cs ++ Forest.trees ds := by
  induction cs with
  | nil => rfl
  | cons c cs ih => rw [List.cons_append, trees, trees, ih, List.cons_append]

/-- The criteria of a forest in pre-order. -/
def Forest.nodes (forest : List Criterion) : List Criterion := Tree.nodesAll (Forest.trees forest)

@[simp] theorem Forest.nodes_nil : Forest.nodes [] = [] := rfl

theorem Forest.nodes_cons (c : Criterion) (cs : List Criterion) :
    Forest.nodes (c :: cs) = c :: (nodes c.allOf ++ nodes c.anyOf) ++ nodes cs := by
  obtain ⟨key, operation, operand, allOf, anyOf, label⟩ := c
  rfl

theorem Forest.nodes_append (cs ds : List Criterion) :
    Forest.nodes (cs ++ ds) = nodes cs ++ nodes ds := by
  induction cs with
  | nil => rfl
  | cons c cs ih => simp [nodes_cons, ih]

namespace Scope
variable {s : Scope}

/-- The pass once a criterion is compiled, its children left aside; it does not matter whether that
succeeds. -/
def after (s : Scope) (c : Criterion) (pass : Pass) : Pass :=
  ⟨(pass.joins.follow s.root.table c.label 0 (s.plan c).hops).1,
    pass.subqueries + if (s.plan c).numbered then 1 else 0⟩

/-- The name of the table instance that a criterion's hops end at. -/
def instanceName (s : Scope) (c : Criterion) (pass : Pass) : String :=
  (s.after c pass).joins.nameAt s.root.table
    (pass.joins.follow s.root.table c.label 0 (s.plan c).hops).2

theorem leaf_eq (c : Criterion) (pass : Pass) :
    s.leaf c pass =
      ((s.plan c).condition.map fun f => f (s.instanceName c pass) (s.after c pass).subqueries,
        s.after c pass) := rfl

theorem leaf_eq_ok_iff {c : Criterion} {pass pass' : Pass} {own : Condition} :
    s.leaf c pass = (.ok own, pass') ↔
      pass' = s.after c pass ∧ ∃ f, (s.plan c).condition = .ok f ∧
        f (s.instanceName c pass) (s.after c pass).subqueries = own := by
  rw [leaf_eq, Prod.mk.injEq, map_eq_ok_iff, and_comm, eq_comm]

/-- Compiling criteria one after the other, from one pass to another: each is compiled itself,
then its `allOf`, then its `anyOf`, and the trees hold the conditions that they got themselves. -/
inductive Traverses (s : Scope) :
    List Criterion → Pass → List (Tree Condition) → Pass → Prop
  | nil (pass : Pass) : Traverses s [] pass [] pass
  | cons {c : Criterion} {cs : List Criterion} {own : Condition}
      {allOf anyOf ts : List (Tree Condition)} {p p₁ p₂ p₃ p₄ : Pass} :
      s.leaf c p = (.ok own, p₁) → Traverses s c.allOf p₁ allOf p₂ →
      Traverses s c.anyOf p₂ anyOf p₃ → Traverses s cs p₃ ts p₄ →
      Traverses s (c :: cs) p (.node own allOf anyOf :: ts) p₄

/-- Criteria compiled one after the other, each without its children; one that fails does not stop
the others. -/
def leaves (s : Scope) : List Criterion → Pass → List (Except SearchError Condition) × Pass
  | [], pass => ([], pass)
  | c :: cs, pass =>
    let (own, pass) := s.leaf c pass
    let (owns, pass) := leaves s cs pass
    (own :: owns, pass)

@[simp] theorem leaves_nil (pass : Pass) : s.leaves [] pass = ([], pass) := rfl

theorem leaves_cons (c : Criterion) (cs : List Criterion) (pass : Pass) :
    s.leaves (c :: cs) pass =
      ((s.leaf c pass).1 :: (s.leaves cs (s.after c pass)).1, (s.leaves cs (s.after c pass)).2) := rfl

theorem leaves_append (cs ds : List Criterion) (pass : Pass) :
    s.leaves (cs ++ ds) pass =
      ((s.leaves cs pass).1 ++ (s.leaves ds (s.leaves cs pass).2).1,
        (s.leaves ds (s.leaves cs pass).2).2) := by
  induction cs generalizing pass with
  | nil => rfl
  | cons c cs ih => simp only [List.cons_append, leaves_cons, ih]

/-- Compiling a forest is compiling its criteria one after the other in pre-order. -/
theorem Traverses.leaves_eq {cs : List Criterion} {ts : List (Tree Condition)} {pass pass' : Pass}
    (h : s.Traverses cs pass ts pass') :
    s.leaves (Forest.nodes cs) pass = ((Tree.nodesAll ts).map .ok, pass') := by
  induction h with
  | nil => rfl
  | cons hown _ _ _ ihAll ihAny ihRest =>
    have hpass := (leaf_eq_ok_iff.mp hown).1
    simp only [Forest.nodes_cons, List.cons_append, leaves_cons, leaves_append, hown, ← hpass, ihAll,
      ihAny, ihRest, Tree.nodesAll, Tree.nodes, List.map_cons, List.map_append]

theorem value_refine {α : Type} [Lattice α] [BoundedOrder α] (v : Predicate → α) (j : Junction)
    (own : Condition) (parts : List Condition) :
    (refine j own parts).value v =
      if parts = [] then own.value v
      else j.fold [own.value v, j.fold (parts.map (Condition.value v))] := by
  cases parts <;> simp [refine]

/-- Nothing joined to a condition by AND leaves its value alone. -/
theorem value_refine_all {α : Type} [Lattice α] [BoundedOrder α] (v : Predicate → α)
    (own : Condition) (parts : List Condition) :
    (refine .all own parts).value v =
      own.value v ⊓ Junction.all.fold (parts.map (Condition.value v)) := by
  rw [value_refine]
  split
  next h => simp [h]
  next => simp

theorem value_refine_any {α : Type} [Lattice α] [BoundedOrder α] (v : Predicate → α)
    (own : Condition) (parts : List Condition) :
    (refine .any own parts).value v =
      own.value v ⊔ Junction.any.fold (parts.map (Condition.value v)) := by
  rw [value_refine]
  split
  next h => simp [h]
  next => simp

end Scope

namespace Tree
variable {α : Type} [Lattice α] [BoundedOrder α] (v : Predicate → α)

mutual
/-- The composed condition has the value of the formula that its criteria spell. -/
theorem value_condition : (t : Tree Condition) →
    t.condition.value v = t.formula (Condition.value v)
  | node a allOf anyOf => by
    rw [condition, formula, Scope.value_refine_any, Scope.value_refine_all,
      map_value_conditions allOf, map_value_conditions anyOf]
theorem map_value_conditions : (ts : List (Tree Condition)) →
    (conditions ts).map (Condition.value v) = formulas (Condition.value v) ts
  | [] => rfl
  | t :: ts => by
    rw [conditions, formulas, List.map_cons, value_condition t, map_value_conditions ts]
end

end Tree

namespace Scope
variable {s : Scope}

mutual
theorem exists_traverses_of_criterion : (c : Criterion) → {pass pass' : Pass} →
    {condition : Condition} → s.criterion c pass = (.ok condition, pass') →
    ∃ t, s.Traverses [c] pass [t] pass' ∧ t.condition = condition
  | ⟨key, operation, operand, allOf, anyOf, label⟩, pass, pass', condition, h => by
    rw [criterion] at h
    split at h
    next => simp at h
    next own p₁ hown =>
      split at h
      next => simp at h
      next needed p₂ hneeded =>
        split at h
        next => simp at h
        next others p₃ hothers =>
          obtain ⟨as, has, rfl⟩ := exists_traverses_of_siblings allOf hneeded
          obtain ⟨os, hos, rfl⟩ := exists_traverses_of_siblings anyOf hothers
          obtain ⟨h₁, rfl⟩ := Prod.mk.inj h
          refine ⟨.node own as os, .cons hown has hos (.nil _), ?_⟩
          rw [Tree.condition, Except.ok.inj h₁]
theorem exists_traverses_of_siblings : (cs : List Criterion) → {pass pass' : Pass} →
    {conditions : List Condition} → s.siblings cs pass = (.ok conditions, pass') →
    ∃ ts, s.Traverses cs pass ts pass' ∧ Tree.conditions ts = conditions
  | [], pass, pass', conditions, h => by
    obtain ⟨h₁, rfl⟩ := Prod.mk.inj h
    exact ⟨[], .nil _, Except.ok.inj h₁⟩
  | c :: cs, pass, pass', conditions, h => by
    rw [siblings] at h
    split at h
    next => simp at h
    next condition p₁ hcondition =>
      split at h
      next => simp at h
      next rest p₂ hrest =>
        obtain ⟨t, ht, rfl⟩ := exists_traverses_of_criterion c hcondition
        obtain ⟨ts, hts, rfl⟩ := exists_traverses_of_siblings cs hrest
        obtain ⟨h₁, rfl⟩ := Prod.mk.inj h
        cases ht with
        | cons hown has hos hnil =>
          cases hnil
          exact ⟨_, .cons hown has hos hts, Except.ok.inj h₁⟩
end

/-- Where a traversal exists, compiling does not fail. -/
theorem Traverses.siblings_eq {cs : List Criterion} {ts : List (Tree Condition)}
    {pass pass' : Pass} (h : s.Traverses cs pass ts pass') :
    s.siblings cs pass = (.ok (Tree.conditions ts), pass') := by
  induction h with
  | nil pass => rfl
  | @cons c cs own allOf anyOf ts p p₁ p₂ p₃ p₄ hown _ _ _ ihAll ihAny ihRest =>
    obtain ⟨key, operation, operand, cAllOf, cAnyOf, label⟩ := c
    have hc : s.criterion ⟨key, operation, operand, cAllOf, cAnyOf, label⟩ p =
        (.ok (Tree.node own allOf anyOf).condition, p₃) := by
      simp only [criterion, hown, ihAll, ihAny, Tree.condition]
    simp only [siblings, hc, ihRest, Tree.conditions]

theorem siblings_eq_ok_iff {cs : List Criterion} {pass pass' : Pass} {conditions : List Condition} :
    s.siblings cs pass = (.ok conditions, pass') ↔
      ∃ ts, s.Traverses cs pass ts pass' ∧ Tree.conditions ts = conditions := by
  constructor
  · exact exists_traverses_of_siblings cs
  · rintro ⟨ts, hts, rfl⟩
    exact hts.siblings_eq

end Scope

/-- The condition of several trees joined; no trees have none. -/
def Tree.compose (j : Junction) : List (Tree Condition) → Option Condition
  | [] => none
  | t :: ts => some (.gather j (conditions (t :: ts)))

namespace Scope
variable {s : Scope}

theorem compose_eq_ok_iff {j : Junction} {cs : List Criterion} {pass pass' : Pass}
    {result : Option Condition} :
    s.compose j cs pass = (.ok result, pass') ↔
      ∃ ts, s.Traverses cs pass ts pass' ∧ Tree.compose j ts = result := by
  constructor
  · intro h
    unfold compose at h
    split at h
    next => simp at h
    next p hnil =>
      obtain ⟨ts, hts, hc⟩ := siblings_eq_ok_iff.mp hnil
      obtain ⟨h₁, rfl⟩ := Prod.mk.inj h
      refine ⟨ts, hts, ?_⟩
      cases ts with
      | nil => exact Except.ok.inj h₁
      | cons t ts => simp [Tree.conditions] at hc
    next conditions p hne hok =>
      obtain ⟨ts, hts, rfl⟩ := siblings_eq_ok_iff.mp hok
      obtain ⟨h₁, rfl⟩ := Prod.mk.inj h
      refine ⟨ts, hts, ?_⟩
      cases ts with
      | nil => exact absurd rfl hne
      | cons t ts => exact Except.ok.inj h₁
  · rintro ⟨ts, hts, rfl⟩
    unfold compose
    rw [hts.siblings_eq]
    cases ts <;> rfl

theorem compile_eq_ok_iff {forest : Forest} {selection : Selection} :
    s.compile forest = .ok selection ↔
      ∃ ts pass, s.Traverses forest .empty ts pass ∧
        selection = ⟨Tree.compose .all ts, pass.joins.joins⟩ := by
  unfold compile
  constructor
  · intro h
    split at h
    next => simp at h
    next condition pass hok =>
      obtain ⟨ts, hts, rfl⟩ := compose_eq_ok_iff.mp hok
      exact ⟨ts, pass, hts, (Except.ok.inj h).symm⟩
  · rintro ⟨ts, pass, hts, rfl⟩
    rw [compose_eq_ok_iff.mpr ⟨ts, hts, rfl⟩]

theorem exists_traverses : (cs : Forest) → (p : Pass) →
    (∀ c ∈ Forest.nodes cs, ∃ f, (s.plan c).condition = .ok f) → ∃ ts p', s.Traverses cs p ts p'
  | [], p, _ => ⟨[], p, .nil p⟩
  | ⟨key, operation, operand, allOf, anyOf, label⟩ :: cs, p, h => by
    simp only [Forest.nodes_cons, List.cons_append, List.mem_cons, List.mem_append] at h
    obtain ⟨f, hf⟩ := h _ (Or.inl rfl)
    obtain ⟨as, p₂, has⟩ := exists_traverses allOf (s.after _ p) fun c hc =>
      h c (Or.inr (Or.inl (Or.inl hc)))
    obtain ⟨os, p₃, hos⟩ := exists_traverses anyOf p₂ fun c hc =>
      h c (Or.inr (Or.inl (Or.inr hc)))
    obtain ⟨ts, p₄, hts⟩ := exists_traverses cs p₃ fun c hc => h c (Or.inr (Or.inr hc))
    exact ⟨_, p₄, .cons (leaf_eq_ok_iff.mpr ⟨rfl, f, hf, rfl⟩) has hos hts⟩

/-- Compiling succeeds exactly where every criterion on its own can be planned, whatever was
compiled before. -/
theorem exists_traverses_iff {cs : Forest} {p : Pass} :
    (∃ ts p', s.Traverses cs p ts p') ↔
      ∀ c ∈ Forest.nodes cs, ∃ f, (s.plan c).condition = .ok f := by
  constructor
  · rintro ⟨ts, p', h⟩
    induction h with
    | nil => simp
    | cons hown _ _ _ ihAll ihAny ihRest =>
      obtain ⟨-, f, hf, -⟩ := leaf_eq_ok_iff.mp hown
      intro d hd
      simp only [Forest.nodes_cons, List.cons_append, List.mem_cons, List.mem_append] at hd
      rcases hd with rfl | (hd | hd) | hd
      · exact ⟨f, hf⟩
      · exact ihAll d hd
      · exact ihAny d hd
      · exact ihRest d hd
  · exact exists_traverses cs p

theorem exists_compile_iff {cs : Forest} :
    (∃ sel, s.compile cs = .ok sel) ↔
      ∀ c ∈ Forest.nodes cs, ∃ f, (s.plan c).condition = .ok f := by
  rw [← exists_traverses_iff (p := .empty)]
  constructor
  · rintro ⟨sel, h⟩
    obtain ⟨ts, p', hts, -⟩ := compile_eq_ok_iff.mp h
    exact ⟨ts, p', hts⟩
  · rintro ⟨ts, p', hts⟩
    exact ⟨_, compile_eq_ok_iff.mpr ⟨ts, p', hts, rfl⟩⟩

theorem Traverses.eq_nil_iff {cs : List Criterion} {ts : List (Tree Condition)}
    {pass pass' : Pass} (h : s.Traverses cs pass ts pass') : ts = [] ↔ cs = [] := by
  cases h <;> simp

end Scope

theorem Tree.compose_eq_none_iff {j : Junction} {ts : List (Tree Condition)} :
    compose j ts = none ↔ ts = [] := by
  cases ts <;> simp [compose]

theorem Tree.value_compose {α : Type} [Lattice α] [BoundedOrder α] (v : Predicate → α)
    {j : Junction} {ts : List (Tree Condition)} {condition : Condition}
    (h : compose j ts = some condition) :
    condition.value v = j.fold (ts.map (formula (Condition.value v))) := by
  cases ts with
  | nil => simp [compose] at h
  | cons t ts =>
    obtain rfl := Option.some.inj h
    rw [Condition.value_gather, map_value_conditions, formulas_eq_map]

/-- Composing criteria succeeds with the formula they spell: over trees of the forest's shape that
hold the conditions the criteria got themselves, the condition has the formula's value, whatever
the tests have. Only no criteria make no condition, and only they select everything. -/
theorem Scope.compose_value (s : Scope) (j : Junction) (cs : Forest) (pass pass' : Pass)
    (result : Option Condition) (h : s.compose j cs pass = (.ok result, pass')) :
    (result = none ↔ cs = []) ∧
    (∃ ts, s.Traverses cs pass ts pass' ∧
      ∀ condition, result = some condition →
        ∀ {α : Type} [Lattice α] [BoundedOrder α] (v : Predicate → α),
          condition.value v = j.fold (ts.map (Tree.formula (Condition.value v)))) ∧
    ∀ selection, s.compile cs = .ok selection →
      (selection.isIdentity = true ↔ cs = []) ∧ (selection = .identity ↔ cs = []) := by
  obtain ⟨ts, hts, rfl⟩ := compose_eq_ok_iff.mp h
  refine ⟨Tree.compose_eq_none_iff.trans hts.eq_nil_iff,
    ⟨ts, hts, fun condition hc α _ _ v => Tree.value_compose v hc⟩, ?_⟩
  intro selection hs
  obtain ⟨us, pass₁, hus, rfl⟩ := compile_eq_ok_iff.mp hs
  have hnone : Tree.compose .all us = none ↔ cs = [] :=
    Tree.compose_eq_none_iff.trans hus.eq_nil_iff
  refine ⟨by simpa [Selection.isIdentity] using hnone, ?_⟩
  constructor
  · intro hid
    exact hnone.mp (congrArg Selection.condition hid)
  · rintro rfl
    cases hus
    rfl

/-- Players and their scores, a schema for examples. -/
def playerScope : Scope :=
  let player : Entity := ⟨"player", "players", "id",
    [⟨"age", "age", .integer⟩, ⟨"name", "name", .text⟩, ⟨"tags", "tags", .json⟩],
    [⟨"scores", "score", .hasMany, "id", "player_id"⟩]⟩
  let score : Entity := ⟨"score", "player_scores", "id", [⟨"total", "total", .integer⟩], []⟩
  ⟨⟨[player, score]⟩, player⟩

/-- Adults with some score, or anyone with one of two tags. -/
def taggedPlayers : Forest :=
  [⟨"age", .greaterEquals, .text "18", [⟨"scores.total", .greater, .text "0", [], [], none⟩],
    [⟨"tags", .jsonArrayContainsAny, .list [.text "vip", .text "staff"], [], [], none⟩], none⟩]

theorem compose_value_taggedPlayers :
    ∃ result pass', playerScope.compose .all taggedPlayers .empty = (.ok (some result), pass') ∧
      ∃ ts, playerScope.Traverses taggedPlayers .empty ts pass' ∧
        ∀ v : Predicate → Truth,
          result.value v = Junction.all.fold (ts.map (Tree.formula (Condition.value v))) := by
  refine ⟨_, _, rfl, ?_⟩
  obtain ⟨ts, hts, hv⟩ :=
    (Scope.compose_value playerScope .all taggedPlayers .empty _ (some _) rfl).2.1
  exact ⟨ts, hts, fun v => hv _ rfl v⟩

end EntitySearch
