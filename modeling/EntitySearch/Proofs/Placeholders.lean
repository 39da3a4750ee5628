import EntitySearch.Proofs.Composition
import EntitySearch.Sql.Select
/-!
Operands, paths inside documents and labels do not reach the text of a statement. Two forests that
differ in nothing else give the same joins and the same text with placeholders.
-/
namespace EntitySearch
namespace Sql

/-- A piece with its bound value forgotten. -/
def Piece.blank : Piece → Piece
  | text s => text s
  | bind _ => bind (.bool false)

namespace Fragment

def blank (f : Fragment) : Fragment := f.map Piece.blank

@[simp] theorem blank_nil : blank [] = [] := rfl

@[simp] theorem blank_text (s : String) (f : Fragment) :
    blank (.text s :: f) = .text s :: f.blank := rfl

@[simp] theorem blank_bind (v : Value) (f : Fragment) :
    blank (.bind v :: f) = .bind (.bool false) :: f.blank := rfl

@[simp] theorem blank_append (f g : Fragment) : (f ++ g).blank = f.blank ++ g.blank :=
  List.map_append

theorem placeholdersFrom_append (backend : Backend) (n : Nat) (f g : Fragment) :
    (f ++ g).placeholdersFrom backend n =
      f.placeholdersFrom backend n ++ g.placeholdersFrom backend (n + f.values.length) := by
  induction f generalizing n with
  | nil => simp [placeholdersFrom]
  | cons p f ih => cases p <;> simp [placeholdersFrom, ih, String.append_assoc, Nat.add_assoc,
      Nat.add_comm 1]

theorem placeholdersFrom_blank (backend : Backend) (n : Nat) (f : Fragment) :
    f.blank.placeholdersFrom backend n = f.placeholdersFrom backend n := by
  induction f generalizing n with
  | nil => rfl
  | cons p f ih => cases p <;> simp [placeholdersFrom, ih]

theorem length_values_blank (f : Fragment) : f.blank.values.length = f.values.length := by
  induction f with
  | nil => rfl
  | cons p f ih => cases p <;> simp [ih]

theorem text_prepare_of_blank_eq {backend : Backend} {f g : Fragment} (h : f.blank = g.blank) :
    (f.prepare backend).text = (g.prepare backend).text := by
  dsimp only [prepare]
  rw [← placeholdersFrom_blank, h, placeholdersFrom_blank]

theorem length_values_of_blank_eq {f g : Fragment} (h : f.blank = g.blank) :
    f.values.length = g.values.length := by
  rw [← length_values_blank, h, length_values_blank]

theorem blank_joined (sep : String) (fs : List Fragment) :
    (joined sep fs).blank = joined sep (fs.map blank) := by
  induction fs with
  | nil => rfl
  | cons f fs ih =>
    cases fs with
    | nil => rfl
    | cons g gs => simpa [joined] using ih

end Fragment

/-- A test with its operands forgotten; only their number is left. -/
def ColumnTest.skeleton : ColumnTest → ColumnTest
  | compare op _ => compare op (.bool false)
  | within vs => within (vs.map fun _ => .bool false)
  | outside vs => outside (vs.map fun _ => .bool false)
  | like _ => like ""

def DocumentTest.skeleton : DocumentTest → DocumentTest
  | holdsText _ => holdsText ""
  | holdsValue _ => holdsValue ""
  | holdsElement _ => holdsElement ""

def Predicate.skeleton : Predicate → Predicate
  | constant truth => constant truth
  | column c test => column c test.skeleton
  | document c _ test => document c [] test.skeleton
  | noneRelated r => noneRelated { r with test := r.test.skeleton }

theorem bindList_skeleton (vs : List Value) :
    (bindList (vs.map fun _ => .bool false)).blank = (bindList vs).blank := by
  simp [bindList, Fragment.blank_joined, Function.comp_def]

variable (backend : Backend)

theorem ColumnTest.blank_fragment_skeleton (c : Column) (test : ColumnTest) :
    (test.skeleton.fragment backend c).blank = (test.fragment backend c).blank := by
  cases test with
  | compare op v => rfl
  | within vs | outside vs =>
    simp only [skeleton, fragment, Fragment.blank_append, Fragment.blank_text, bindList_skeleton]
  | like pattern => rfl

theorem DocumentTest.blank_fragment_skeleton (c : Column) (path : List String)
    (test : DocumentTest) :
    (test.skeleton.fragment backend c []).blank = (test.fragment backend c path).blank := by
  cases test <;> cases backend <;> simp [skeleton, fragment]

theorem Predicate.blank_fragment_skeleton (p : Predicate) :
    (p.skeleton.fragment backend).blank = (p.fragment backend).blank := by
  cases p with
  | constant truth => rfl
  | column c test => exact test.blank_fragment_skeleton backend c
  | document c path test => exact test.blank_fragment_skeleton backend c path
  | noneRelated r =>
    simp [skeleton, fragment, Related.fragment, ColumnTest.blank_fragment_skeleton]

theorem Predicate.binding_skeleton (p : Predicate) : p.skeleton.binding = p.binding := by
  cases p <;> rfl

namespace Expression

def blank (e : Expression) : Expression := ⟨e.binding, e.fragment.blank⟩

theorem blank_join (j : Junction) (a b : Expression) :
    (join j a b).blank = join j a.blank b.blank := by
  obtain ⟨i, f⟩ := a
  obtain ⟨k, g⟩ := b
  cases i <;> cases k <;> simp [join, blank, asLeft, asRight, parenthesized] <;> split <;> simp

theorem blank_joinAll (j : Junction) (es : List Expression) :
    (joinAll j es).blank = joinAll j (es.map blank) := by
  cases es with
  | nil => rfl
  | cons e es =>
    simp only [joinAll, List.map_cons]
    induction es generalizing e with
    | nil => rfl
    | cons d es ih => rw [List.foldl_cons, ih, blank_join]; rfl

end Expression

namespace Condition

mutual
def skeleton : Condition → Condition
  | test p => test p.skeleton
  | group j parts => group j (skeletons parts)
def skeletons : List Condition → List Condition
  | [] => []
  | c :: cs => skeleton c :: skeletons cs
end

@[simp] theorem skeletons_eq_map (cs : List Condition) : skeletons cs = cs.map skeleton := by
  induction cs with
  | nil => rfl
  | cons c cs ih => simp [skeletons, ih]

theorem skeleton_unwrap (c : Condition) : c.unwrap.skeleton = c.skeleton.unwrap := by
  match c with
  | test p => rfl
  | group j [] => rfl
  | group j [c] => simp [unwrap, skeleton]
  | group j (c :: d :: cs) => simp [unwrap, skeleton]

theorem skeleton_gather (j : Junction) (cs : List Condition) :
    (gather j cs).skeleton = gather j (cs.map skeleton) := by
  simp [gather, skeleton, skeleton_unwrap, Function.comp_def]

theorem skeleton_both (c d : Condition) : (c.both d).skeleton = c.skeleton.both d.skeleton := by
  match c, d with
  | group .all ps, group .all qs => simp [both, skeleton]
  | group .all ps, group .any qs =>
    have hunwrap := skeleton_unwrap (group .any qs)
    simp only [both, skeleton, skeletons_eq_map, List.map_append, List.map_singleton] at hunwrap ⊢
    rw [hunwrap]
  | group .all ps, test q => simp [both, skeleton, unwrap]
  | group .any ps, d | test p, d => simp [both, skeleton, skeleton_gather]

mutual
theorem blank_expression_skeleton : (c : Condition) →
    (c.skeleton.expression backend).blank = (c.expression backend).blank
  | test p => by
    simp only [skeleton, expression, Expression.blank, Predicate.binding_skeleton,
      Predicate.blank_fragment_skeleton]
  | group j parts => by
    rw [skeleton, expression, expression, Expression.blank_joinAll, Expression.blank_joinAll,
      map_blank_expressions_skeletons parts]
theorem map_blank_expressions_skeletons : (cs : List Condition) →
    (expressions backend (skeletons cs)).map Expression.blank =
      (expressions backend cs).map Expression.blank
  | [] => rfl
  | c :: cs => by
    rw [skeletons, expressions, expressions, List.map_cons, List.map_cons,
      blank_expression_skeleton c, map_blank_expressions_skeletons cs]
end

theorem blank_fragment_skeleton (c : Condition) :
    (c.skeleton.fragment backend).blank = (c.fragment backend).blank :=
  congrArg Expression.fragment (c.blank_expression_skeleton backend)

end Condition

/-- Statements over one query whose selections have equal joins and conditions of one skeleton
differ in their bound values only. -/
theorem Select.blank_fragment_restrict (q : Select) {a b : Selection} (hjoins : a.joins = b.joins)
    (hcondition : a.condition.map Condition.skeleton = b.condition.map Condition.skeleton) :
    ((q.restrict a).fragment backend).blank = ((q.restrict b).fragment backend).blank := by
  have hclause (c : Option Condition) :
      (clause " WHERE " (Condition.fragment backend) c).blank =
        (clause " WHERE " (Condition.fragment backend) (c.map Condition.skeleton)).blank := by
    cases c <;> simp [clause, Condition.blank_fragment_skeleton]
  have hmerge (c : Option Condition) :
      (Option.merge Condition.both q.condition c).map Condition.skeleton =
        Option.merge Condition.both (q.condition.map Condition.skeleton)
          (c.map Condition.skeleton) := by
    cases q.condition <;> cases c <;> simp [Condition.skeleton_both]
  have hwhere := hclause (Option.merge Condition.both q.condition a.condition)
  rw [hmerge, hcondition, ← hmerge, ← hclause] at hwhere
  simp [fragment, restrict, hjoins, hwhere]

end Sql

/-- What the condition of a selection binds, in order. -/
def Selection.values (backend : Backend) (sel : Selection) : List Sql.Value :=
  sel.condition.elim [] fun condition => (condition.fragment backend).values

end EntitySearch
