import EntitySearch.Sql.Predicate
/-!
Conditions: tests joined by AND and OR.
-/
namespace EntitySearch.Sql

inductive Junction | all | any
  deriving DecidableEq, Repr

inductive Condition
  | test (p : Predicate)
  | group (j : Junction) (parts : List Condition)

namespace Condition

/-- A group of one is as good as its part. -/
def unwrap : Condition → Condition
  | group _ [c] => c
  | c => c

def gather (j : Junction) (cs : List Condition) : Condition := group j (cs.map unwrap)

def ofPredicate (p : Predicate) : Condition := group .all [test p]

/-- Two conditions at once. What is already joined by AND takes up more of it. -/
def both : Condition → Condition → Condition
  | group .all ps, group .all qs => group .all (ps ++ qs)
  | group .all ps, d => group .all (ps ++ [d.unwrap])
  | c, d => gather .all [c, d]

/-- The number of parts of a group. -/
def width : Condition → Nat
  | test _ => 1
  | group _ parts => parts.length

end Condition

def Junction.keyword : Junction → String
  | all => " AND "
  | any => " OR "

/-- How an expression stands as an operand of AND or OR: without parentheses, within them, or
within them unless it is the left operand of the same word. -/
inductive Binding | loose | tight | joined (j : Junction)
  deriving DecidableEq

structure Expression where
  binding : Binding
  fragment : Fragment

namespace Expression

def parenthesized (e : Expression) : Fragment := .text "(" :: e.fragment ++ [.text ")"]

def asLeft (j : Junction) (e : Expression) : Fragment :=
  match e.binding with
  | .tight => e.fragment
  | .joined i => if i = j then e.fragment else e.parenthesized
  | .loose => e.parenthesized

def asRight (e : Expression) : Fragment :=
  match e.binding with
  | .tight => e.fragment
  | _ => e.parenthesized

def join (j : Junction) (a b : Expression) : Expression :=
  ⟨.joined j, a.asLeft j ++ .text j.keyword :: b.asRight⟩

/-- Joins from the left; nothing joined by AND is true and by OR is false. -/
def joinAll (j : Junction) : List Expression → Expression
  | [] => ⟨.tight, [.text (match j with | .all => "TRUE" | .any => "FALSE")]⟩
  | e :: es => es.foldl (join j) e

end Expression

def Predicate.binding : Predicate → Binding
  | .constant _ | .column .. => .tight
  | .document .. | .noneRelated _ => .loose

namespace Condition
variable (backend : Backend)

mutual
def expression : Condition → Expression
  | test p => ⟨p.binding, p.fragment backend⟩
  | group j parts => Expression.joinAll j (expressions parts)
def expressions : List Condition → List Expression
  | [] => []
  | c :: cs => expression c :: expressions cs
end

def fragment (c : Condition) : Fragment := (c.expression backend).fragment

end Condition
end EntitySearch.Sql
