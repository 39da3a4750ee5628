import EntitySearch.Proofs.Composition
import Mathlib.Logic.Equiv.Defs
/-!
Trees whose siblings stand in another order. A formula over them has the same value, and numbers
given to their places in pre-order are permuted.
-/
namespace EntitySearch.Tree
open Sql
variable {α β γ : Type}

mutual
def map (f : α → β) : Tree α → Tree β
  | node a allOf anyOf => node (f a) (mapAll f allOf) (mapAll f anyOf)
def mapAll (f : α → β) : List (Tree α) → List (Tree β)
  | [] => []
  | t :: ts => map f t :: mapAll f ts
end

mutual
theorem map_map (g : β → γ) (f : α → β) : (t : Tree α) → (t.map f).map g = t.map (g ∘ f)
  | node a allOf anyOf => by
    rw [map, map, map, mapAll_mapAll g f allOf, mapAll_mapAll g f anyOf, Function.comp_apply]
theorem mapAll_mapAll (g : β → γ) (f : α → β) : (ts : List (Tree α)) →
    mapAll g (mapAll f ts) = mapAll (g ∘ f) ts
  | [] => rfl
  | t :: ts => by rw [mapAll, mapAll, mapAll, map_map g f t, mapAll_mapAll g f ts]
end

mutual
theorem nodes_map (f : α → β) : (t : Tree α) → (t.map f).nodes = t.nodes.map f
  | node a allOf anyOf => by
    rw [map, nodes, nodes, nodesAll_mapAll f allOf, nodesAll_mapAll f anyOf, List.map_cons,
      List.map_append]
theorem nodesAll_mapAll (f : α → β) : (ts : List (Tree α)) →
    nodesAll (mapAll f ts) = (nodesAll ts).map f
  | [] => rfl
  | t :: ts => by
    rw [mapAll, nodesAll, nodesAll, nodes_map f t, nodesAll_mapAll f ts, List.map_append]
end

mutual
theorem map_congr {f g : α → β} : (t : Tree α) → (∀ a ∈ t.nodes, f a = g a) → t.map f = t.map g
  | node a allOf anyOf, h => by
    rw [nodes] at h
    rw [map, map, h a List.mem_cons_self,
      mapAll_congr allOf fun b hb => h b (List.mem_cons_of_mem a (List.mem_append_left _ hb)),
      mapAll_congr anyOf fun b hb => h b (List.mem_cons_of_mem a (List.mem_append_right _ hb))]
theorem mapAll_congr {f g : α → β} : (ts : List (Tree α)) → (∀ a ∈ nodesAll ts, f a = g a) →
    mapAll f ts = mapAll g ts
  | [], _ => rfl
  | t :: ts, h => by
    rw [nodesAll] at h
    rw [mapAll, mapAll, map_congr t fun a ha => h a (List.mem_append_left _ ha),
      mapAll_congr ts fun a ha => h a (List.mem_append_right _ ha)]
end

section Formula
variable [Lattice γ] [BoundedOrder γ] (v : β → γ) (f : α → β)

mutual
theorem formula_map : (t : Tree α) → (t.map f).formula v = t.formula (v ∘ f)
  | node a allOf anyOf => by
    rw [map, formula, formula, formulas_mapAll allOf, formulas_mapAll anyOf, Function.comp_apply]
theorem formulas_mapAll : (ts : List (Tree α)) → formulas v (mapAll f ts) = formulas (v ∘ f) ts
  | [] => rfl
  | t :: ts => by rw [mapAll, formulas, formulas, formula_map t, formulas_mapAll ts]
end

end Formula

/-- Lists of trees that differ in the order of siblings only, among themselves and at any depth. -/
inductive Shuffled : List (Tree α) → List (Tree α) → Prop
  | nil : Shuffled [] []
  | cons (a : α) {allOf allOf' anyOf anyOf' ts us : List (Tree α)} : Shuffled allOf allOf' →
      Shuffled anyOf anyOf' → Shuffled ts us →
      Shuffled (node a allOf anyOf :: ts) (node a allOf' anyOf' :: us)
  | swap (t u : Tree α) (ts : List (Tree α)) : Shuffled (t :: u :: ts) (u :: t :: ts)
  | trans {ts us vs : List (Tree α)} : Shuffled ts us → Shuffled us vs → Shuffled ts vs

namespace Shuffled
variable {ts us : List (Tree α)}

theorem mapAll (f : α → β) (h : Shuffled ts us) :
    Shuffled (Tree.mapAll f ts) (Tree.mapAll f us) := by
  induction h with
  | nil => exact .nil
  | cons a _ _ _ ihAll ihAny ihRest => exact .cons (f a) ihAll ihAny ihRest
  | swap t u ts => exact .swap _ _ _
  | trans _ _ ih ih' => exact ih.trans ih'

theorem perm_nodesAll (h : Shuffled ts us) : (nodesAll ts).Perm (nodesAll us) := by
  induction h with
  | nil => exact .nil
  | cons a _ _ _ ihAll ihAny ihRest =>
    simp only [nodesAll, nodes]
    exact ((ihAll.append ihAny).cons a).append ihRest
  | swap t u ts =>
    simp only [nodesAll, ← List.append_assoc]
    exact List.perm_append_comm.append_right _
  | trans _ _ ih ih' => exact ih.trans ih'

/-- AND and OR are commutative. -/
theorem fold_formulas [Lattice β] [BoundedOrder β] (v : α → β) (h : Shuffled ts us)
    (j : Junction) : j.fold (formulas v ts) = j.fold (formulas v us) := by
  induction h generalizing j with
  | nil => rfl
  | cons a _ _ _ ihAll ihAny ihRest =>
    cases j with
    | all => simp only [formulas, formula, Junction.fold_all_cons, ihAll, ihAny, ihRest]
    | any => simp only [formulas, formula, Junction.fold_any_cons, ihAll, ihAny, ihRest]
  | swap t u ts =>
    cases j with
    | all => exact inf_left_comm _ _ _
    | any => exact sup_left_comm _ _ _
  | trans _ _ ih ih' => exact (ih j).trans (ih' j)

end Shuffled

section Numbers
variable (p : α → Bool)

/-- How many places of trees have a property. -/
def count (ts : List (Tree α)) : Nat := (nodesAll ts).countP p

mutual
/-- Numbers the places that have a property in pre-order, from the one after `n` on. Other places
get 0. -/
def number (n : Nat) : Tree α → Tree (α × Nat)
  | node a allOf anyOf =>
    let first := n + if p a then 1 else 0
    node (a, if p a then first else 0) (numberAll first allOf)
      (numberAll (first + count p allOf) anyOf)
def numberAll (n : Nat) : List (Tree α) → List (Tree (α × Nat))
  | [] => []
  | t :: ts => number n t :: numberAll (n + t.nodes.countP p) ts
end

mutual
theorem map_fst_number (n : Nat) : (t : Tree α) → (number p n t).map Prod.fst = t
  | node a allOf anyOf => by
    rw [number, map, mapAll_fst_numberAll _ allOf, mapAll_fst_numberAll _ anyOf]
theorem mapAll_fst_numberAll (n : Nat) : (ts : List (Tree α)) →
    mapAll Prod.fst (numberAll p n ts) = ts
  | [] => rfl
  | t :: ts => by rw [numberAll, mapAll, map_fst_number n t, mapAll_fst_numberAll _ ts]
end

theorem fst_mem_of_mem_numberAll {n : Nat} {ts : List (Tree α)} {x : α × Nat}
    (h : x ∈ nodesAll (numberAll p n ts)) : x.1 ∈ nodesAll ts := by
  rw [← mapAll_fst_numberAll p n ts, nodesAll_mapAll]
  exact List.mem_map_of_mem h

theorem countP_nodes (a : α) (allOf anyOf : List (Tree α)) :
    (node a allOf anyOf).nodes.countP p =
      (if p a then 1 else 0) + count p allOf + count p anyOf := by
  rw [nodes, List.countP_cons, List.countP_append, count, count]
  omega

theorem count_cons (t : Tree α) (ts : List (Tree α)) :
    count p (t :: ts) = t.nodes.countP p + count p ts := by
  rw [count, nodesAll, List.countP_append, count]

variable {p}

theorem Shuffled.count_eq {ts us : List (Tree α)} (h : Shuffled ts us) :
    count p ts = count p us :=
  h.perm_nodesAll.countP_eq p

mutual
theorem number_nodes (n : Nat) : (t : Tree α) → ∀ x ∈ (number p n t).nodes,
    x.2 ≠ 0 → n < x.2 ∧ x.2 ≤ n + t.nodes.countP p
  | node a allOf anyOf, x, hx, hne => by
    rw [countP_nodes]
    simp only [number, nodes, List.mem_cons, List.mem_append] at hx
    rcases hx with rfl | hx | hx
    · split_ifs at hne ⊢ <;> simp at hne ⊢
      omega
    · have := numberAll_nodes _ allOf x hx hne
      omega
    · have := numberAll_nodes _ anyOf x hx hne
      omega
theorem numberAll_nodes (n : Nat) : (ts : List (Tree α)) → ∀ x ∈ nodesAll (numberAll p n ts),
    x.2 ≠ 0 → n < x.2 ∧ x.2 ≤ n + count p ts
  | [], x, hx, _ => by simp [numberAll, nodesAll] at hx
  | t :: ts, x, hx, hne => by
    rw [count_cons]
    rw [numberAll, nodesAll, List.mem_append] at hx
    rcases hx with hx | hx
    · have := number_nodes n t x hx hne
      omega
    · have := numberAll_nodes _ ts x hx hne
      omega
end

mutual
/-- Moving the numbers of a tree on is numbering it from elsewhere. -/
theorem map_number {σ : Nat → Nat} (hzero : σ 0 = 0) {m n : Nat} : (t : Tree α) →
    (∀ i, 0 < i → i ≤ t.nodes.countP p → σ (m + i) = n + i) →
    (number p m t).map (Prod.map id σ) = number p n t
  | node a allOf anyOf, h => by
    rw [countP_nodes] at h
    simp only [number, map]
    congr 1
    · split_ifs with ha
      · have := h 1 (by omega) (by rw [if_pos ha]; omega)
        simpa using this
      · simp [hzero]
    · apply mapAll_numberAll hzero
      intro i hi hle
      have := h ((if p a then 1 else 0) + i) (by omega) (by omega)
      rw [← Nat.add_assoc, ← Nat.add_assoc] at this
      exact this
    · apply mapAll_numberAll hzero
      intro i hi hle
      have := h ((if p a then 1 else 0) + count p allOf + i) (by omega) (by omega)
      rw [← Nat.add_assoc, ← Nat.add_assoc, ← Nat.add_assoc, ← Nat.add_assoc] at this
      exact this
theorem mapAll_numberAll {σ : Nat → Nat} (hzero : σ 0 = 0) {m n : Nat} : (ts : List (Tree α)) →
    (∀ i, 0 < i → i ≤ count p ts → σ (m + i) = n + i) →
    mapAll (Prod.map id σ) (numberAll p m ts) = numberAll p n ts
  | [], _ => rfl
  | t :: ts, h => by
    rw [count_cons] at h
    rw [numberAll, numberAll, mapAll, map_number hzero t fun i hi hle => h i hi (by omega),
      mapAll_numberAll hzero ts]
    intro i hi hle
    have := h (t.nodes.countP p + i) (by omega) (by omega)
    rwa [← Nat.add_assoc, ← Nat.add_assoc] at this
end

/-- Exchanges the `a` numbers after `m` and the `b` numbers after these. -/
def exchange (m a b : Nat) : Equiv.Perm Nat where
  toFun x := if x ≤ m ∨ m + a + b < x then x else if x ≤ m + a then x + b else x - a
  invFun x := if x ≤ m ∨ m + a + b < x then x else if x ≤ m + b then x + a else x - b
  left_inv x := by dsimp only; split_ifs <;> omega
  right_inv x := by dsimp only; split_ifs <;> omega

theorem exchange_apply (m a b x : Nat) : exchange m a b x =
    if x ≤ m ∨ m + a + b < x then x else if x ≤ m + a then x + b else x - a := rfl

/-- A permutation that moves only numbers after `m` up to `n`. -/
def MovesWithin (σ : Equiv.Perm Nat) (m n : Nat) : Prop := ∀ x, σ x ≠ x → m < x ∧ x ≤ n

theorem MovesWithin.fixes {σ : Equiv.Perm Nat} {m n x : Nat} (h : MovesWithin σ m n)
    (hx : x ≤ m ∨ n < x) : σ x = x := by
  by_contra hne
  have := h x hne
  omega

/-- What is moved stays where it is moved within. -/
theorem MovesWithin.apply_mem {σ : Equiv.Perm Nat} {m n x : Nat} (h : MovesWithin σ m n)
    (hx : m < x ∧ x ≤ n) : m < σ x ∧ σ x ≤ n := by
  by_cases hfix : σ x = x
  · rwa [hfix]
  · exact h (σ x) fun hx' => hfix (σ.injective hx')

/-- One permutation after another that moves higher numbers acts as the one on the lower numbers and
as the other on the higher. -/
theorem MovesWithin.trans {σ τ : Equiv.Perm Nat} {m n k : Nat} (hσ : MovesWithin σ m n)
    (hτ : MovesWithin τ n k) (hmn : m ≤ n) (hnk : n ≤ k) :
    MovesWithin (σ.trans τ) m k ∧ (∀ x ≤ n, σ.trans τ x = σ x) ∧ ∀ x, n < x → σ.trans τ x = τ x := by
  have hlow : ∀ x ≤ n, σ.trans τ x = σ x := by
    intro x hx
    apply hτ.fixes
    by_cases hm : m < x
    · exact .inl (hσ.apply_mem ⟨hm, hx⟩).2
    · rw [hσ.fixes (.inl (by omega))]
      exact .inl hx
  have hhigh : ∀ x, n < x → σ.trans τ x = τ x := by
    intro x hx
    rw [Equiv.trans_apply, hσ.fixes (.inr hx)]
  refine ⟨fun x hx => ?_, hlow, hhigh⟩
  by_cases hn : x ≤ n
  · rw [hlow x hn] at hx
    have := hσ x hx
    omega
  · rw [hhigh x (by omega)] at hx
    have := hτ x hx
    omega

theorem movesWithin_exchange (m a b : Nat) : MovesWithin (exchange m a b) m (m + a + b) := by
  intro x hx
  rw [exchange_apply] at hx
  split_ifs at hx <;> omega

/-- Only the numbers that trees have matter. -/
theorem mapAll_numberAll_congr {σ τ : Nat → Nat} {m : Nat} {ts : List (Tree α)}
    (hzero : σ 0 = τ 0) (h : ∀ x, m < x → x ≤ m + count p ts → σ x = τ x) :
    mapAll (Prod.map id σ) (numberAll p m ts) = mapAll (Prod.map id τ) (numberAll p m ts) := by
  apply mapAll_congr
  rintro ⟨a, x⟩ hx
  have hsame : σ x = τ x := by
    by_cases hne : x = 0
    · rw [hne, hzero]
    · obtain ⟨hm, hle⟩ := numberAll_nodes m ts _ hx hne
      exact h x hm hle
  rw [Prod.map_apply, Prod.map_apply, hsame]

/-- The numbers of two trees that change places are exchanged. -/
theorem mapAll_exchange (m : Nat) (t u : Tree α) (ts : List (Tree α)) :
    mapAll (Prod.map id (exchange m (t.nodes.countP p) (u.nodes.countP p)))
        (numberAll p m (t :: u :: ts)) =
      number p (m + u.nodes.countP p) t :: number p m u ::
        numberAll p (m + u.nodes.countP p + t.nodes.countP p) ts := by
  generalize ha : t.nodes.countP p = a
  generalize hb : u.nodes.countP p = b
  have hzero : exchange m a b 0 = 0 := (movesWithin_exchange m a b).fixes (.inl (by omega))
  simp only [numberAll, mapAll, ha, hb]
  congr 1
  · apply map_number hzero
    intro i hi hle
    rw [exchange_apply, if_neg (by omega), if_pos (by omega)]
    omega
  · congr 1
    · apply map_number hzero
      intro i hi hle
      rw [exchange_apply, if_neg (by omega), if_neg (by omega)]
      omega
    · apply mapAll_numberAll hzero
      intro i hi _
      rw [exchange_apply, if_pos (by omega)]
      omega

/-- Permuting the numbers below a place and those after it one by one permutes them together. -/
theorem Shuffled.cons_renumber {a : α} {allOf allOf' anyOf anyOf' ts us : List (Tree α)}
    {m first second third : Nat} (hfirst : first = m + if p a then 1 else 0)
    (hsecond : second = first + count p allOf) (hthird : third = second + count p anyOf)
    (hAll : count p allOf' = count p allOf) (hAny : count p anyOf' = count p anyOf)
    {σ₁ σ₂ σ₃ : Equiv.Perm Nat} (hσ₁ : MovesWithin σ₁ first second)
    (hσ₂ : MovesWithin σ₂ second third) (hσ₃ : MovesWithin σ₃ third (third + count p ts))
    (h₁ : Shuffled (Tree.mapAll (Prod.map id σ₁) (numberAll p first allOf))
      (numberAll p first allOf'))
    (h₂ : Shuffled (Tree.mapAll (Prod.map id σ₂) (numberAll p second anyOf))
      (numberAll p second anyOf'))
    (h₃ : Shuffled (Tree.mapAll (Prod.map id σ₃) (numberAll p third ts)) (numberAll p third us)) :
    ∃ σ : Equiv.Perm Nat, MovesWithin σ m (m + count p (node a allOf anyOf :: ts)) ∧
      Shuffled (Tree.mapAll (Prod.map id σ) (numberAll p m (node a allOf anyOf :: ts)))
        (numberAll p m (node a allOf' anyOf' :: us)) := by
  have hcount := countP_nodes p a allOf anyOf
  have hcount' := countP_nodes p a allOf' anyOf'
  have hnext : m + (node a allOf anyOf).nodes.countP p = third := by omega
  have hnext' : m + (node a allOf' anyOf').nodes.countP p = third := by omega
  obtain ⟨hσ₁₂, hlow, hmid⟩ := hσ₁.trans hσ₂ (by omega) (by omega)
  obtain ⟨hσ, hchildren, hhigh⟩ := hσ₁₂.trans hσ₃ (by omega) (by omega)
  refine ⟨(σ₁.trans σ₂).trans σ₃, ?_, ?_⟩
  · intro x hx
    have := hσ x hx
    rw [count_cons]
    omega
  · generalize (σ₁.trans σ₂).trans σ₃ = σ at hσ hchildren hhigh ⊢
    have hzero : σ 0 = 0 := hσ.fixes (.inl (by omega))
    have hown : σ (if p a then first else 0) = if p a then first else 0 := by
      split_ifs
      · exact hσ.fixes (.inl le_rfl)
      · exact hzero
    simp only [numberAll, number, Tree.mapAll, map, ← hfirst, hAll, ← hsecond, hnext, hnext',
      Prod.map_apply, id, hown]
    refine .cons _ ?_ ?_ ?_
    · rwa [mapAll_numberAll_congr (τ := σ₁)]
      · rw [hzero, hσ₁.fixes (.inl (by omega))]
      · intro x _ hx
        rw [hchildren x (by omega), hlow x (by omega)]
    · rwa [mapAll_numberAll_congr (τ := σ₂)]
      · rw [hzero, hσ₂.fixes (.inl (by omega))]
      · intro x hm hx
        rw [hchildren x (by omega), hmid x hm]
    · rwa [mapAll_numberAll_congr (τ := σ₃)]
      · rw [hzero, hσ₃.fixes (.inl (by omega))]
      · intro x hm _
        exact hhigh x hm

/-- Where siblings stand in another order the numbers are permuted, and no others are. -/
theorem Shuffled.exists_renumber {ts us : List (Tree α)} (h : Shuffled ts us) (m : Nat) :
    ∃ σ : Equiv.Perm Nat, MovesWithin σ m (m + count p ts) ∧
      Shuffled (Tree.mapAll (Prod.map id σ) (numberAll p m ts)) (numberAll p m us) := by
  induction h generalizing m with
  | nil => exact ⟨.refl Nat, fun x hx => absurd rfl hx, .nil⟩
  | @cons a allOf allOf' anyOf anyOf' ts us hAll hAny _ ihAll ihAny ihRest =>
    -- counts are kept, so the three parts are numbered from the same numbers on in both orders
    obtain ⟨σ₁, hσ₁, h₁⟩ := ihAll (m + if p a then 1 else 0)
    obtain ⟨σ₂, hσ₂, h₂⟩ := ihAny ((m + if p a then 1 else 0) + count p allOf)
    obtain ⟨σ₃, hσ₃, h₃⟩ :=
      ihRest ((m + if p a then 1 else 0) + count p allOf + count p anyOf)
    exact cons_renumber rfl rfl rfl hAll.count_eq.symm hAny.count_eq.symm hσ₁ hσ₂ hσ₃ h₁ h₂ h₃
  | swap t u ts =>
    refine ⟨exchange m (t.nodes.countP p) (u.nodes.countP p), ?_, ?_⟩
    · intro x hx
      have := movesWithin_exchange _ _ _ x hx
      rw [count_cons, count_cons]
      omega
    · rw [mapAll_exchange]
      exact .swap _ _ _
  | @trans ts us vs hts _ ih ih' =>
    obtain ⟨σ, hσ, hshuffled⟩ := ih m
    obtain ⟨τ, hτ, hshuffled'⟩ := ih' m
    rw [← hts.count_eq] at hτ
    refine ⟨σ.trans τ, ?_, ?_⟩
    · intro x hx
      by_cases hfix : σ x = x
      · exact hτ x (by rwa [Equiv.trans_apply, hfix] at hx)
      · exact hσ x hfix
    · have := (hshuffled.mapAll (Prod.map id τ)).trans hshuffled'
      rwa [mapAll_mapAll] at this

end Numbers
end EntitySearch.Tree
