import EntitySearch.Proofs.ForestLaws
import EntitySearch.Proofs.Placeholders
import EntitySearch.Proofs.Statements
/-!
The text of the statements that count and fetch, clause by clause, and what they bind. Only the
condition, the limit and the offset bind anything, so the other clauses have a text of their own.
-/
namespace EntitySearch
open Sql

namespace Sql

namespace Fragment
variable {backend : Backend} {f g : Fragment} {a b : String}

/-- A fragment that binds nothing, and so has one text wherever it stands. -/
structure Writes (backend : Backend) (f : Fragment) (text : String) : Prop where
  values_eq : f.values = []
  text_eq : ∀ n, f.placeholdersFrom backend n = text

namespace Writes

theorem nil : Writes backend [] "" := ⟨rfl, fun _ => rfl⟩

theorem cons (hf : Writes backend f a) (s : String) : Writes backend (.text s :: f) (s ++ a) where
  values_eq := hf.values_eq
  text_eq n := by rw [placeholdersFrom, hf.text_eq]

theorem text (s : String) : Writes backend [.text s] s := by
  simpa using (nil : Writes backend [] "").cons s

theorem append (hf : Writes backend f a) (hg : Writes backend g b) :
    Writes backend (f ++ g) (a ++ b) where
  values_eq := by rw [values_append, hf.values_eq, hg.values_eq, List.nil_append]
  text_eq n := by rw [placeholdersFrom_append, hf.text_eq, hg.text_eq]

variable {α : Type} {fragment : α → Fragment} {written : α → String}

theorem flatMap (h : ∀ x, Writes backend (fragment x) (written x)) (xs : List α) :
    Writes backend (xs.flatMap fragment) (String.join (xs.map written)) := by
  induction xs with
  | nil => exact nil
  | cons x xs ih =>
    rw [List.flatMap_cons, List.map_cons, String.join_cons]
    exact (h x).append ih

theorem joined (h : ∀ x, Writes backend (fragment x) (written x)) (sep : String) (xs : List α) :
    Writes backend (Fragment.joined sep (xs.map fragment))
      (sep.intercalate (xs.map written)) := by
  induction xs with
  | nil => exact nil
  | cons x xs ih =>
    cases xs with
    | nil => simpa [Fragment.joined] using h x
    | cons y ys =>
      have hsplit : sep.intercalate ((x :: y :: ys).map written) =
          written x ++ (sep ++ sep.intercalate ((y :: ys).map written)) := by
        simp [String.intercalate_cons_cons, String.append_assoc]
      rw [hsplit]
      exact (h x).append (ih.cons sep)

/-- What follows starts with the first placeholder. -/
theorem prepare_append (hf : Writes backend f a) (g : Fragment) :
    (f ++ g).prepare backend = ⟨a ++ (g.prepare backend).text, g.values⟩ := by
  simp [prepare, placeholdersFrom_append, hf.text_eq, hf.values_eq]

end Writes
end Fragment

variable (backend : Backend)

/-- A column, with the table instance that it is of. -/
def columnText (c : Column) : String := quoteName backend c.table ++ "." ++ quoteName backend c.name

/-- A table joined under a name, its rows linked to those of the parent. -/
def joinText (j : Join) : String :=
  " INNER JOIN " ++ quoteName backend j.table ++ " AS " ++ quoteName backend j.name ++ " ON " ++
    columnText backend ⟨j.parentName, j.relationship.source⟩ ++ " = " ++
    columnText backend ⟨j.name, j.relationship.destination⟩

/-- An order, the first column first; no order is not written. -/
def orderText (ordering : List ColumnOrder) : String :=
  if ordering = [] then "" else
    " ORDER BY " ++ ", ".intercalate (ordering.map fun o => columnText backend o.column ++
      match o.direction with
      | .ascending => " ASC"
      | .descending => " DESC")

/-- A limit and an offset, bound after `n` other values. -/
def limitText (n : Nat) : String :=
  let mark (k : Nat) : String := if backend = .postgres then "$" ++ toString k else "?"
  " LIMIT " ++ mark (n + 1) ++ " OFFSET " ++ mark (n + 2)

namespace Fragment

theorem writes_column (c : Column) : Writes backend (c.fragment backend) (columnText backend c) :=
  .text _

theorem writes_join (j : Join) :
    Writes backend (Select.joinFragment backend j) (joinText backend j) := by
  have hlink := (writes_column backend j.link.1).append
    ((writes_column backend j.link.2).cons " = ")
  have hjoin := hlink.cons (" INNER JOIN " ++ quoteName backend j.table ++ " AS " ++
    quoteName backend j.name ++ " ON ")
  rwa [← String.append_assoc, ← String.append_assoc] at hjoin

theorem writes_order (ordering : List ColumnOrder) :
    Writes backend (if ordering.isEmpty then [] else
      .text " ORDER BY " :: joined ", " (ordering.map (Select.orderFragment backend)))
      (orderText backend ordering) := by
  have hcolumn (o : ColumnOrder) : Writes backend (Select.orderFragment backend o)
      (columnText backend o.column ++ match o.direction with
        | .ascending => " ASC"
        | .descending => " DESC") := by
    obtain ⟨c, direction⟩ := o
    cases direction <;> exact (writes_column backend c).append (.text _)
  cases ordering with
  | nil => exact .nil
  | cons o os => exact (Writes.joined hcolumn ", " (o :: os)).cons " ORDER BY "

theorem placeholdersFrom_limit (n : Nat) (limit offset : UInt64) :
    placeholdersFrom backend (1 + n)
      [.text " LIMIT ", .bind (.uint64 limit), .text " OFFSET ", .bind (.uint64 offset)] =
      limitText backend n := by
  cases backend <;>
    simp [placeholdersFrom, placeholder, limitText, String.append_assoc, Nat.add_comm 1 n]

end Fragment
end Sql

namespace RecordTable
variable (backend : Backend) (t : RecordTable) (s : Selection) (ordering : List ColumnOrder)
  (r : PageRequest)

/-- What both statements say: the columns of the table for its rows, each once where there are
joins, that the condition holds of. -/
def selectText : String :=
  (if s.joins = [] then "SELECT " else "SELECT DISTINCT ") ++
    ", ".intercalate (t.columns.map fun c => columnText backend ⟨t.name, c⟩) ++
    " FROM " ++ quoteName backend t.name ++ String.join (s.joins.map (joinText backend)) ++
    s.condition.elim "" fun c => " WHERE " ++ ((c.fragment backend).prepare backend).text

theorem fragment_selecting : (t.selecting s).fragment backend =
    [.text (if s.joins = [] then "SELECT " else "SELECT DISTINCT ")] ++
      Fragment.joined ", " (t.columns.map fun c => (⟨t.name, c⟩ : Column).fragment backend) ++
      [.text " FROM "] ++ [.text (quoteName backend t.name)] ++
      s.joins.flatMap (Select.joinFragment backend) ++
      Select.clause " WHERE " (Condition.fragment backend) s.condition := by
  have hdistinct : (if (t.selecting s).distinct then "SELECT DISTINCT " else "SELECT ") =
      if s.joins = [] then "SELECT " else "SELECT DISTINCT " := by
    by_cases hjoins : s.joins = [] <;>
      simp [selecting, Select.restrict, Select.ofTable, hjoins]
  have hitems : (t.selecting s).items.map (Select.itemFragment backend) =
      t.columns.map fun c => (⟨t.name, c⟩ : Column).fragment backend := by
    rw [show (t.selecting s).items = t.columns.map fun c => .column ⟨t.name, c⟩ from rfl,
      List.map_map]
    rfl
  rw [Select.fragment, hdistinct, hitems, joins_selecting, condition_selecting]
  simp [Select.clause, selecting, Select.ofTable, Select.restrict]

theorem prepare_selecting : ((t.selecting s).fragment backend).prepare backend =
    ⟨t.selectText backend s, s.values backend⟩ := by
  have hcolumns := Fragment.Writes.joined
    (fun c => Fragment.writes_column backend ⟨t.name, c⟩) ", " t.columns
  have hjoins := Fragment.Writes.flatMap (Fragment.writes_join backend) s.joins
  have hverb : Fragment.Writes backend _ _ :=
    .text (if s.joins = [] then "SELECT " else "SELECT DISTINCT ")
  have hhead := (((hverb.append hcolumns).append (.text " FROM ")).append
    (.text (quoteName backend t.name))).append hjoins
  rw [fragment_selecting, hhead.prepare_append, selectText, Selection.values]
  cases s.condition with
  | none => rfl
  | some c => rfl

/-- The page's statement goes on where the other one ends. -/
theorem fragment_page : (t.pageStatement s ordering r).fragment backend =
    (t.selecting s).fragment backend ++ ((if ordering.isEmpty then [] else
      .text " ORDER BY " :: Fragment.joined ", " (ordering.map (Select.orderFragment backend))) ++
      [.text " LIMIT ", .bind (.uint64 r.size), .text " OFFSET ", .bind (.uint64 r.offset)]) := by
  simp [pageStatement, Statement.fragment, Select.fragment, Select.clause, selecting,
    Select.ofTable, Select.restrict]

theorem prepare_count : ((t.countStatement s).fragment backend).prepare backend =
    ⟨"SELECT COUNT(*) AS num_items FROM (" ++ t.selectText backend s ++ ") AS " ++
      quoteName backend "sub_query", s.values backend⟩ := by
  obtain ⟨htext, hvalues⟩ := Prepared.mk.inj (prepare_selecting backend t s)
  rw [countStatement, Statement.fragment, Fragment.prepare, Fragment.placeholdersFrom_append,
    Fragment.values_append, Fragment.placeholdersFrom, htext]
  simp [Fragment.placeholdersFrom, hvalues, String.append_assoc]

theorem prepare_page : ((t.pageStatement s ordering r).fragment backend).prepare backend =
    ⟨t.selectText backend s ++ orderText backend ordering ++
      limitText backend (s.values backend).length,
      s.values backend ++ [.uint64 r.size, .uint64 r.offset]⟩ := by
  obtain ⟨htext, hvalues⟩ := Prepared.mk.inj (prepare_selecting backend t s)
  have horder := Fragment.writes_order backend ordering
  rw [fragment_page, Fragment.prepare, Fragment.placeholdersFrom_append, htext,
    Fragment.placeholdersFrom_append, horder.text_eq, Fragment.values_append, hvalues,
    Fragment.values_append, horder.values_eq, List.length_nil, Nat.add_zero,
    Fragment.placeholdersFrom_limit, String.append_assoc]
  rfl

/-- A page of the players with a score above 5 or one below 8, and without one of 7 or 9. -/
example : ∃ sel, playerScope.compile [{ ownScore with anyOf := [anyScore] },
      ⟨"scores.total", .excludeIn, .list [.text "7", .text "9"], [], [], none⟩] = .ok sel ∧
    ((RecordTable.mk "players" ["id"]).selectText .postgres sel ++
      orderText .postgres [⟨⟨"players", "name"⟩, .descending⟩, ⟨⟨"players", "id"⟩, .ascending⟩] ++
      limitText .postgres (sel.values .postgres).length =
    "SELECT DISTINCT \"players\".\"id\" FROM \"players\"" ++
      " INNER JOIN \"player_scores\" AS \"scores_1\"" ++
      " ON \"players\".\"id\" = \"scores_1\".\"player_id\"" ++
      " INNER JOIN \"player_scores\" AS \"scores_2\"" ++
      " ON \"players\".\"id\" = \"scores_2\".\"player_id\"" ++
      " WHERE (\"scores_1\".\"total\" > $1 OR \"scores_2\".\"total\" < $2)" ++
      " AND (NOT EXISTS(SELECT $3 FROM \"player_scores\" AS \"scores_sub1\"" ++
      " WHERE \"scores_sub1\".\"player_id\" = \"players\".\"id\"" ++
      " AND \"scores_sub1\".\"total\" IN ($4, $5)))" ++
      " ORDER BY \"players\".\"name\" DESC, \"players\".\"id\" ASC LIMIT $6 OFFSET $7") :=
  ⟨_, rfl, by decide +kernel⟩

end RecordTable

end EntitySearch
