import EntitySearch.Sql.Condition
import Mathlib.Order.BoundedOrder.Lattice
/-!
Truth values of conditions. Once every elementary test has a value in a bounded lattice, so has
every condition: AND is the meet and OR the join. `Bool` gives the two-valued reading and `Truth`
the reading of SQL.
-/
namespace EntitySearch.Sql

/-- The truth values of SQL: AND takes the lesser of two, OR the greater. -/
inductive Truth
  | no | unknown | yes
  deriving DecidableEq, Repr

namespace Truth

def rank : Truth → Nat
  | no => 0
  | unknown => 1
  | yes => 2

theorem rank_injective : Function.Injective rank := by
  intro a b h
  cases a <;> cases b <;> first | rfl | simp [rank] at h

instance : LinearOrder Truth := LinearOrder.lift' rank rank_injective

instance : BoundedOrder Truth where
  top := yes
  le_top a := by cases a <;> decide
  bot := no
  bot_le a := by cases a <;> decide

theorem top_eq : (⊤ : Truth) = yes := rfl

def ofBool (b : Bool) : Truth := if b then yes else no

@[simp] theorem ofBool_eq_yes {b : Bool} : ofBool b = yes ↔ b = true := by cases b <;> simp [ofBool]

@[simp] theorem inf_eq_yes {a b : Truth} : a ⊓ b = yes ↔ a = yes ∧ b = yes := inf_eq_top_iff

end Truth

section Lattice
variable {α : Type} [Lattice α] [BoundedOrder α]

/-- The values joined; nothing joined by AND is true and by OR is false. -/
def Junction.fold : Junction → List α → α
  | all, xs => xs.foldr (· ⊓ ·) ⊤
  | any, xs => xs.foldr (· ⊔ ·) ⊥

namespace Junction

@[simp] theorem fold_singleton (j : Junction) (x : α) : j.fold [x] = x := by
  cases j <;> simp [fold]

@[simp] theorem fold_all_nil : all.fold ([] : List α) = ⊤ := rfl

@[simp] theorem fold_any_nil : any.fold ([] : List α) = ⊥ := rfl

@[simp] theorem fold_all_cons (x : α) (xs : List α) : all.fold (x :: xs) = x ⊓ all.fold xs := rfl

@[simp] theorem fold_any_cons (x : α) (xs : List α) : any.fold (x :: xs) = x ⊔ any.fold xs := rfl

@[simp] theorem fold_all_append (xs ys : List α) :
    all.fold (xs ++ ys) = all.fold xs ⊓ all.fold ys := by
  induction xs with
  | nil => simp
  | cons x xs ih => simp [ih, inf_assoc]

@[simp] theorem fold_any_append (xs ys : List α) :
    any.fold (xs ++ ys) = any.fold xs ⊔ any.fold ys := by
  induction xs with
  | nil => simp
  | cons x xs ih => simp [ih, sup_assoc]

end Junction

namespace Condition
variable (v : Predicate → α)

mutual
/-- The value of a condition whose tests have the values `v`. -/
def value : Condition → α
  | test p => v p
  | group j parts => j.fold (values parts)
def values : List Condition → List α
  | [] => []
  | c :: cs => value c :: values cs
end

theorem values_eq_map (cs : List Condition) : values v cs = cs.map (value v) := by
  induction cs with
  | nil => rfl
  | cons c cs ih => simp [values, ih]

@[simp] theorem value_test (p : Predicate) : (test p).value v = v p := by simp [value]

@[simp] theorem value_group (j : Junction) (parts : List Condition) :
    (group j parts).value v = j.fold (parts.map (value v)) := by
  rw [value, values_eq_map]

/-- Taking the part of a group of one leaves the value alone, whatever joins the group. -/
@[simp] theorem value_unwrap (c : Condition) : c.unwrap.value v = c.value v := by
  unfold unwrap
  split <;> simp

@[simp] theorem value_gather (j : Junction) (cs : List Condition) :
    (gather j cs).value v = j.fold (cs.map (value v)) := by
  simp [gather, Function.comp_def]

@[simp] theorem value_ofPredicate (p : Predicate) : (ofPredicate p).value v = v p := by
  simp [ofPredicate]

/-- Two conditions at once are true, false or unknown as their meet is. -/
@[simp] theorem value_both (c d : Condition) : (c.both d).value v = c.value v ⊓ d.value v := by
  match c, d with
  | group .all ps, group .all qs => simp [both]
  | group .all ps, group .any qs => simp [both]
  | group .all ps, test q => simp [both]
  | group .any ps, d | test p, d => simp [both]

end Condition
end Lattice
end EntitySearch.Sql
