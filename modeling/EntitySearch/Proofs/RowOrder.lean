import EntitySearch.Proofs.Counting
import Mathlib.Data.List.Sort
/-!
The order that statements put their records in, and what becomes of pages that are fetched one by
one. Values are ordered as a database sees fit and may tie; how it orders rows that tie in every
column that it was told to order by is left to it, for each statement anew.
-/
namespace EntitySearch
open Sql

namespace Sql

/-- How a database orders the values of each column, NULL among them. Values may tie. -/
structure Collation (κ : Type) where
  le : Column → Option κ → Option κ → Prop
  total : ∀ c x y, le c x y ∨ le c y x
  trans : ∀ c x y z, le c x y → le c y z → le c x z

/-- The value of a column in the rows that the table instances have. -/
def Column.value {κ : Type} (c : Column) (a : String → Row κ) : Option κ := a c.table c.name

namespace Collation
variable {κ : Type} (C : Collation κ) {o : ColumnOrder} {ordering : List ColumnOrder}
  {key c : Column} {a a' b b' : String → Row κ} {rows : List (Row κ)} {row row' : Row κ}

def Tied (c : Column) (x y : Option κ) : Prop := C.le c x y ∧ C.le c y x

/-- The values of a column may come in this order. -/
def Follows (o : ColumnOrder) (a b : String → Row κ) : Prop :=
  match o.direction with
  | .ascending => C.le o.column (o.column.value a) (o.column.value b)
  | .descending => C.le o.column (o.column.value b) (o.column.value a)

/-- Rows may come in this order: a column decides between them if all columns before it tie. -/
def Precedes : List ColumnOrder → (String → Row κ) → (String → Row κ) → Prop
  | [], _, _ => True
  | o :: ordering, a, b => C.Follows o a b ∧ (C.Follows o b a → Precedes ordering a b)

/-- No two of the rows of a table have the same key. -/
def Identifies (key : Column) (rows : List (Row κ)) : Prop :=
  rows.Pairwise fun row row' => ¬ C.Tied key (row key.name) (row' key.name)

/-- Rows that tie in every column of the ordering have the same key. -/
def Decides (ordering : List ColumnOrder) (key : Column) (rows : List (Row κ)) : Prop :=
  ∀ row ∈ rows, ∀ row' ∈ rows,
    (∀ o ∈ ordering, C.Tied o.column (row o.column.name) (row' o.column.name)) →
      C.Tied key (row key.name) (row' key.name)

variable {C}

theorem tied_self (c : Column) (x : Option κ) : C.Tied c x x := by
  have h := or_self_iff.mp (C.total c x x)
  exact ⟨h, h⟩

theorem Tied.symm {x y : Option κ} (h : C.Tied c x y) : C.Tied c y x := And.symm h

theorem tied_iff_follows : C.Tied o.column (o.column.value a) (o.column.value b) ↔
    C.Follows o a b ∧ C.Follows o b a := by
  unfold Tied Follows
  cases o.direction with
  | ascending => rfl
  | descending => exact and_comm

theorem follows_total (o : ColumnOrder) (a b : String → Row κ) :
    C.Follows o a b ∨ C.Follows o b a := by
  unfold Follows
  cases o.direction <;> exact C.total ..

theorem Follows.trans {d : String → Row κ} (h : C.Follows o a b) (h' : C.Follows o b d) :
    C.Follows o a d := by
  unfold Follows at *
  cases hdirection : o.direction with
  | ascending =>
    rw [hdirection] at h h'
    exact C.trans _ _ _ _ h h'
  | descending =>
    rw [hdirection] at h h'
    exact C.trans _ _ _ _ h' h

theorem precedes_total (ordering : List ColumnOrder) (a b : String → Row κ) :
    C.Precedes ordering a b ∨ C.Precedes ordering b a := by
  induction ordering with
  | nil => exact .inl trivial
  | cons o ordering ih =>
    by_cases hab : C.Follows o a b
    · by_cases hba : C.Follows o b a
      · exact ih.imp (fun h => ⟨hab, fun _ => h⟩) fun h => ⟨hba, fun _ => h⟩
      · exact .inl ⟨hab, fun h => absurd h hba⟩
    · exact .inr ⟨(follows_total o a b).resolve_left hab, fun h => absurd h hab⟩

theorem Precedes.trans {d : String → Row κ} (h : C.Precedes ordering a b)
    (h' : C.Precedes ordering b d) : C.Precedes ordering a d := by
  induction ordering with
  | nil => trivial
  | cons o ordering ih =>
    obtain ⟨hab, hrest⟩ := h
    obtain ⟨hbd, hrest'⟩ := h'
    -- a column that ties at the two ends ties at each step
    exact ⟨hab.trans hbd, fun hda => ih (hrest (hbd.trans hda)) (hrest' (hda.trans hab))⟩

/-- Rows that may come in either order tie everywhere. -/
theorem Precedes.antisymm (h : C.Precedes ordering a b) (h' : C.Precedes ordering b a) :
    ∀ o ∈ ordering, C.Tied o.column (o.column.value a) (o.column.value b) := by
  induction ordering with
  | nil => exact List.forall_mem_nil _
  | cons o ordering ih =>
    obtain ⟨hab, hrest⟩ := h
    obtain ⟨hba, hrest'⟩ := h'
    exact List.forall_mem_cons.mpr
      ⟨tied_iff_follows.mpr ⟨hab, hba⟩, ih (hrest hba) (hrest' hab)⟩

theorem precedes_of_tied
    (h : ∀ o ∈ ordering, C.Tied o.column (o.column.value a) (o.column.value b)) :
    C.Precedes ordering a b := by
  induction ordering with
  | nil => trivial
  | cons o ordering ih =>
    obtain ⟨ho, hrest⟩ := List.forall_mem_cons.mp h
    exact ⟨(tied_iff_follows.mp ho).1, fun _ => ih hrest⟩

/-- Only the columns of the ordering count. -/
theorem Precedes.congr (ha : ∀ o ∈ ordering, o.column.value a = o.column.value a')
    (hb : ∀ o ∈ ordering, o.column.value b = o.column.value b') (h : C.Precedes ordering a b) :
    C.Precedes ordering a' b' := by
  induction ordering with
  | nil => trivial
  | cons o ordering ih =>
    obtain ⟨ha, harest⟩ := List.forall_mem_cons.mp ha
    obtain ⟨hb, hbrest⟩ := List.forall_mem_cons.mp hb
    simp only [Precedes, Follows, ha, hb] at h ⊢
    exact ⟨h.1, fun hback => ih harest hbrest (h.2 hback)⟩

theorem decides_of_mem (ho : o ∈ ordering) : C.Decides ordering o.column rows :=
  fun _ _ _ _ htied => htied o ho

theorem Identifies.eq_of_tied (h : C.Identifies key rows) (hrow : row ∈ rows) (hrow' : row' ∈ rows)
    (htied : C.Tied key (row key.name) (row' key.name)) : row = row' := by
  have hsymm : Std.Symm fun row row' : Row κ => ¬ C.Tied key (row key.name) (row' key.name) :=
    ⟨fun _ _ hne htied => hne htied.symm⟩
  by_contra hne
  exact h.forall hrow hrow' hne htied

/-- Among all tables that a key identifies the rows of, an ordering decides exactly if it has the
key among its columns. -/
theorem forall_decides_iff (htable : ∀ o ∈ ordering, o.column.table = key.table)
    (hdistinguishes : ∃ x y, ¬ C.Tied key x y) :
    (∀ rows, C.Identifies key rows → C.Decides ordering key rows) ↔
      ∃ o ∈ ordering, o.column = key := by
  constructor
  · intro h
    obtain ⟨x, y, hxy⟩ := hdistinguishes
    by_contra hnone
    -- two rows that differ in their key only
    let row (x : Option κ) : Row κ := fun name => if name = key.name then x else none
    have hkey (x : Option κ) : row x key.name = x := if_pos rfl
    have hidentifies : C.Identifies key [row x, row y] :=
      List.pairwise_pair.mpr (by rwa [hkey, hkey])
    have htied := h _ hidentifies (row x) (by simp) (row y) (by simp) fun o ho => by
      have hother : o.column.name ≠ key.name := fun hname =>
        hnone ⟨o, ho, by rw [Column.mk.injEq]; exact ⟨htable o ho, hname⟩⟩
      simp only [row, if_neg hother]
      exact tied_self ..
    rw [hkey, hkey] at htied
    exact hxy htied
  · rintro ⟨o, ho, rfl⟩ rows -
    exact decides_of_mem ho

end Collation

namespace Select
variable {κ : Type} (C : Collation κ) (e : Engine κ) (db : Tables κ) (q : Select)

/-- The rows that are put together and pass the condition. -/
def passing : List (Frame κ) :=
  ((q.start db).flatMap (Frame.joined e db q.joins)).filter (q.passes e db)

def record (f : Frame κ) : List (Cell κ) := q.items.map (Item.cell f)

/-- Rows that have the records of a statement, none of them before one that it has to follow. -/
structure Arranges [DecidableEq κ] (frames : List (Frame κ)) : Prop where
  subperm : frames.Subperm (q.passing e db)
  records_perm : (frames.map q.record).Perm (q.records e db)
  pairwise : frames.Pairwise fun f g => C.Precedes q.order f.row g.row

/-- What a statement may yield where it says in what order: the records of rows that are arranged,
or a part of them. -/
def YieldsInOrder [DecidableEq κ] (out : List (List (Cell κ))) : Prop :=
  ∃ frames, q.Arranges C e db frames ∧ out = q.window (frames.map q.record)

variable {C e db q} [DecidableEq κ] {frames frames' : List (Frame κ)} {out : List (List (Cell κ))}

/-- An order is a choice among what may be yielded without one. -/
theorem YieldsInOrder.yields (h : q.YieldsInOrder C e db out) : q.Yields e db out := by
  obtain ⟨frames, hframes, rfl⟩ := h
  exact ⟨_, hframes.records_perm, rfl⟩

/-- Every statement has something to yield, in any order. -/
theorem exists_arranges (C : Collation κ) (e : Engine κ) (db : Tables κ) (q : Select) :
    ∃ frames, q.Arranges C e db frames := by
  classical
  have hsublist : (q.records e db).Sublist ((q.passing e db).map q.record) := by
    rw [records]
    split
    · exact List.dedup_sublist _
    · exact List.Sublist.refl _
  obtain ⟨frames, hframes, hrecords⟩ := List.sublist_map_iff.mp hsublist
  let before (f g : Frame κ) : Prop := C.Precedes q.order f.row g.row
  have htotal : Std.Total before := ⟨fun f g => C.precedes_total q.order f.row g.row⟩
  have htrans : IsTrans (Frame κ) before := ⟨fun _ _ _ => Collation.Precedes.trans⟩
  have hperm := List.perm_insertionSort before frames
  exact ⟨frames.insertionSort before, hperm.subperm.trans hframes.subperm,
    (hperm.map q.record).trans (hrecords ▸ .refl _), List.pairwise_insertionSort before frames⟩

/-- Where rows that tie have the same record, and rows of the same record tie, there is one order
only. -/
theorem Arranges.map_record_eq (h : q.Arranges C e db frames) (h' : q.Arranges C e db frames')
    (hrecord : ∀ f ∈ q.passing e db, ∀ g ∈ q.passing e db, q.record f = q.record g →
      ∀ o ∈ q.order, o.column.value f.row = o.column.value g.row)
    (htied : ∀ f ∈ q.passing e db, ∀ g ∈ q.passing e db,
      (∀ o ∈ q.order, C.Tied o.column (o.column.value f.row) (o.column.value g.row)) →
        q.record f = q.record g) :
    frames.map q.record = frames'.map q.record := by
  let before (r r' : List (Cell κ)) : Prop := ∃ f ∈ q.passing e db, ∃ g ∈ q.passing e db,
    q.record f = r ∧ q.record g = r' ∧ C.Precedes q.order f.row g.row
  have hordered {frames : List (Frame κ)} (h : q.Arranges C e db frames) :
      (frames.map q.record).Pairwise before := by
    refine List.pairwise_map.mpr (h.pairwise.imp_of_mem fun hf hg hprecedes => ?_)
    exact ⟨_, h.subperm.subset hf, _, h.subperm.subset hg, rfl, rfl, hprecedes⟩
  refine List.Perm.eq_of_pairwise ?_ (hordered h) (hordered h')
    (h.records_perm.trans h'.records_perm.symm)
  rintro _ _ - - ⟨f, hf, g, hg, rfl, rfl, hfg⟩ ⟨g', hg', f', hf', hgrecord, hfrecord, hgf⟩
  have hback := hgf.congr (hrecord g' hg' g hg hgrecord) (hrecord f' hf' f hf hfrecord)
  exact htied f hf g hg (hfg.antisymm hback)

end Select
end Sql

/-- The statement that has all records, in order. -/
def RecordTable.ordered (t : RecordTable) (s : Selection) (ordering : List ColumnOrder) : Select :=
  { t.selecting s with order := ordering }

namespace RecordTable
variable {κ : Type} {C : Collation κ} {e : Engine κ} {db : Tables κ} {t : RecordTable}
  {s : Selection} {ordering : List ColumnOrder} {pk : String}

/-- Frames that pass are read off rows that match. -/
theorem exists_row_of_passing {f : Frame κ} (hf : f ∈ (t.ordered s ordering).passing e db) :
    ∃ row ∈ (db t.name).filter (s.matches e db t.name), f.row t.name = row ∧
      (t.ordered s ordering).record f = t.record row := by
  obtain ⟨hjoined, hpasses⟩ := List.mem_filter.mp hf
  obtain ⟨start, hstart, hf⟩ := List.mem_flatMap.mp hjoined
  obtain ⟨row, hrow, rfl⟩ := List.mem_map.mp hstart
  have hmatches : s.matches e db t.name row = true := matches_iff.mpr ⟨f, hf, hpasses⟩
  exact ⟨row, List.mem_filter.mpr ⟨hrow, hmatches⟩, Frame.row_root hf, items_selecting hf⟩

section Deciding
variable [DecidableEq κ] (htable : ∀ o ∈ ordering, o.column.table = t.name) (hpk : pk ∈ t.columns)
  (hidentifies : C.Identifies ⟨t.name, pk⟩ (db t.name))
  (hdecides : C.Decides ordering ⟨t.name, pk⟩ ((db t.name).filter (s.matches e db t.name)))
include htable hpk hidentifies hdecides

/-- Where the ordering decides, the records have one order only. -/
theorem map_record_eq {frames frames' : List (Frame κ)}
    (h : (t.ordered s ordering).Arranges C e db frames)
    (h' : (t.ordered s ordering).Arranges C e db frames') :
    frames.map (t.ordered s ordering).record = frames'.map (t.ordered s ordering).record := by
  have hvalue (o) (ho : o ∈ ordering) (f : Frame κ) :
      o.column.value f.row = f.row t.name o.column.name := by
    rw [Column.value, htable o ho]
  refine h.map_record_eq h' (fun f hf g hg hrecord o ho => ?_) fun f hf g hg htied => ?_
  · obtain ⟨row, hrow, hfrow, hfrecord⟩ := exists_row_of_passing hf
    obtain ⟨row', hrow', hgrow, hgrecord⟩ := exists_row_of_passing hg
    have hcells := List.map_inj_left.mp ((hfrecord.symm.trans hrecord).trans hgrecord) pk hpk
    have heq := hidentifies.eq_of_tied (List.mem_of_mem_filter hrow) (List.mem_of_mem_filter hrow')
      (Cell.value.inj hcells ▸ Collation.tied_self _ _)
    rw [hvalue o ho, hvalue o ho, hfrow, hgrow, heq]
  · obtain ⟨row, hrow, hfrow, hfrecord⟩ := exists_row_of_passing hf
    obtain ⟨row', hrow', hgrow, hgrecord⟩ := exists_row_of_passing hg
    have hkey := hdecides row hrow row' hrow' fun o ho => by
      have hcolumn := htied o ho
      rwa [hvalue o ho, hvalue o ho, hfrow, hgrow] at hcolumn
    rw [hfrecord, hgrecord, hidentifies.eq_of_tied (List.mem_of_mem_filter hrow)
      (List.mem_of_mem_filter hrow') hkey]

/-- Where the ordering decides there is one answer to the whole statement, and each page of it is
the same part of this answer, whenever it is fetched. -/
theorem exists_answer : ∃ all, all.Perm (t.matching e db s) ∧ all.Nodup ∧
    (∀ out, (t.ordered s ordering).YieldsInOrder C e db out ↔ out = all) ∧
    ∀ r q out, t.pageStatement s ordering r = .rows q → q.YieldsInOrder C e db out →
      out = (all.drop r.offset.toNat).take r.size.toNat := by
  obtain ⟨frames, hframes⟩ := Select.exists_arranges C e db (t.ordered s ordering)
  have hdiffer : (db t.name).Pairwise fun row row' => ∃ c ∈ t.columns, row c ≠ row' c :=
    hidentifies.imp fun hne => ⟨pk, hpk, fun heq => hne (heq ▸ Collation.tied_self _ _)⟩
  have hperm : (frames.map (t.ordered s ordering).record).Perm (t.matching e db s) :=
    hframes.records_perm.trans (records_perm hdiffer)
  have hunique {frames'} (h : (t.ordered s ordering).Arranges C e db frames') :=
    map_record_eq htable hpk hidentifies hdecides h hframes
  refine ⟨_, hperm, hperm.nodup_iff.mpr (nodup_matching hdiffer), fun out => ⟨?_, ?_⟩, ?_⟩
  · rintro ⟨frames', hframes', rfl⟩
    exact hunique hframes'
  · rintro rfl
    exact ⟨frames, hframes, rfl⟩
  · rintro r q out hq ⟨frames', hframes', rfl⟩
    obtain rfl := Statement.rows.inj hq
    exact congrArg (fun all => (all.drop r.offset.toNat).take r.size.toNat)
      (hunique ⟨hframes'.subperm, hframes'.records_perm, hframes'.pairwise⟩)

end Deciding

section Tied
variable [DecidableEq κ] (htable : ∀ o ∈ ordering, o.column.table = t.name) {row row' : Row κ}
  (hrows : [row, row'].Perm (db t.name))
  (htied : ∀ o ∈ ordering, C.Tied o.column (row o.column.name) (row' o.column.name))
include htable hrows htied

/-- Rows that tie everywhere may come in any order. -/
theorem arranges_of_tied :
    (t.ordered .identity ordering).Arranges C e db [[(t.name, row)], [(t.name, row')]] := by
  have hpassing : (t.ordered .identity ordering).passing e db =
      (db t.name).map fun row => [(t.name, row)] := by
    have hstart : (t.ordered .identity ordering).start db =
        (db t.name).map fun row => [(t.name, row)] := rfl
    have hjoined : Frame.joined e db (t.ordered .identity ordering).joins = fun f => [f] := rfl
    rw [Select.passing, hstart, hjoined, List.flatMap_singleton']
    exact List.filter_eq_self.mpr fun _ _ => rfl
  have hframes := hrows.map fun row => [(t.name, row)]
  rw [← hpassing] at hframes
  refine ⟨hframes.subperm, hframes.map _, List.pairwise_pair.mpr ?_⟩
  refine Collation.precedes_of_tied fun o ho => ?_
  rw [Column.value, Column.value, htable o ho, Frame.row_cons_self, Frame.row_cons_self]
  exact htied o ho

/-- Each page may be of another order: the first of two rows may be on both pages, and the second
one on neither. -/
theorem yields_of_tied (sort : List SortOrder) : ∀ page < Page.pageCount 2 1, ∀ q,
    t.pageStatement .identity ordering ⟨page, 1, sort⟩ = .rows q →
      q.YieldsInOrder C e db [t.record row] := by
  have hfirst := arranges_of_tied (e := e) htable hrows htied
  have hsecond := arranges_of_tied (e := e) htable ((List.Perm.swap row row' []).trans hrows)
    fun o ho => (htied o ho).symm
  have hrecord : (t.ordered .identity ordering).record [(t.name, row)] = t.record row := by
    have hself : [(t.name, row)] ∈ Frame.joined e db Selection.identity.joins [(t.name, row)] :=
      List.mem_singleton_self _
    exact items_selecting hself
  intro page hpage q hq
  obtain rfl := Statement.rows.inj hq
  have hcount : (Page.pageCount 2 1).toNat = 2 := rfl
  have hnumber : page.toNat = 0 ∨ page.toNat = 1 := by
    have hlt := UInt64.lt_iff_toNat_lt.mp hpage
    omega
  rcases hnumber with hzero | hone
  · obtain rfl : page = 0 := UInt64.toNat_inj.mp hzero
    refine ⟨_, ⟨hfirst.subperm, hfirst.records_perm, hfirst.pairwise⟩, ?_⟩
    exact congrArg (fun record => [record]) hrecord.symm
  · obtain rfl : page = 1 := UInt64.toNat_inj.mp hone
    refine ⟨_, ⟨hsecond.subperm, hsecond.records_perm, hsecond.pairwise⟩, ?_⟩
    exact congrArg (fun record => [record]) hrecord.symm

end Tied

end RecordTable

namespace Entity
variable {e : Entity} {sort : List SortOrder} {ordering : List ColumnOrder}

/-- The column that the rows of an entity are known by. -/
def key (e : Entity) : Column := ⟨e.table, e.primaryKey⟩

/-- Nothing is asked for, which the primary key stands in for, or it is asked for among others. -/
def OrdersKey (e : Entity) (sort : List SortOrder) : Prop :=
  sort = [] ∨ ∃ o ∈ sort, ∃ a, e.attribute? o.property = some a ∧ a.column = e.primaryKey

theorem Orders.table_eq (h : e.Orders sort ordering) :
    ∀ o ∈ ordering, o.column.table = e.table := by
  cases sort with
  | nil =>
    obtain rfl := h
    exact List.forall_mem_singleton.mpr rfl
  | cons o sort =>
    intro c hc
    obtain ⟨o, -, a, -, rfl⟩ := exists_of_mem_forall₂ h hc
    rfl

theorem Orders.exists_key_iff (h : e.Orders sort ordering) :
    (∃ o ∈ ordering, o.column = e.key) ↔ e.OrdersKey sort := by
  cases sort with
  | nil =>
    obtain rfl := h
    simp [OrdersKey, key]
  | cons o sort =>
    rw [OrdersKey, or_iff_right (List.cons_ne_nil o sort)]
    refine (exists_mem_iff_of_forall₂ h ?_).symm
    rintro o _ ⟨a, hattribute, rfl⟩
    simp [key, hattribute]

end Entity

/-- Whatever the table, rows that tie in every column of the ordering have the same primary key if
and only if no order is asked for or some order names the primary key. Wherever they do, by the
orders asked for or by what the table holds, the rows that match have one order, and pages of it
that are fetched one by one have each of them once. -/
theorem Scope.pages_stable (s : Scope) {sort : List SortOrder} {ordering : List ColumnOrder}
    (h : s.ordering sort = .ok ordering) :
    (∀ {κ : Type} (C : Collation κ), (∃ x y, ¬ C.Tied s.root.key x y) →
      ((∀ rows, C.Identifies s.root.key rows → C.Decides ordering s.root.key rows) ↔
        s.root.OrdersKey sort)) ∧
    ∀ {κ : Type} [DecidableEq κ] (C : Collation κ) (e : Engine κ) (db : Tables κ) (t : RecordTable)
      (sel : Selection), t.name = s.root.table → s.root.primaryKey ∈ t.columns →
      C.Identifies s.root.key (db t.name) →
      s.root.OrdersKey sort ∨
        C.Decides ordering s.root.key ((db t.name).filter (sel.matches e db t.name)) →
      ∃ all, all.Perm (t.matching e db sel) ∧ all.Nodup ∧
        (∀ out, (t.ordered sel ordering).YieldsInOrder C e db out ↔ out = all) ∧
        ∀ (total size max : UInt64) (fetched : UInt64 → List (List (Cell κ))),
          total.toNat = all.length → total.toNat ≤ 2 ^ 63 - 1 → PageRequest.Sized size max →
          (∀ page < Page.pageCount total size, ∀ q,
            t.pageStatement sel ordering ⟨page, size, sort⟩ = .rows q →
              q.YieldsInOrder C e db (fetched page)) →
          ((List.range (Page.pageCount total size).toNat).flatMap fun page =>
            fetched (UInt64.ofNat page)) = all := by
  have horders := Scope.ordering_eq_ok_iff.mp h
  constructor
  · intro κ C hdistinguishes
    rw [Collation.forall_decides_iff horders.table_eq hdistinguishes]
    exact horders.exists_key_iff
  · intro κ _ C e db t sel htable hpk hidentifies hstable
    have hkey : s.root.key = ⟨t.name, s.root.primaryKey⟩ := by rw [htable]; rfl
    have hdecides :
        C.Decides ordering s.root.key ((db t.name).filter (sel.matches e db t.name)) := by
      refine hstable.elim (fun hsort => ?_) id
      obtain ⟨o, ho, hcolumn⟩ := horders.exists_key_iff.mpr hsort
      exact hcolumn ▸ Collation.decides_of_mem ho
    have hcolumns : ∀ o ∈ ordering, o.column.table = t.name := by
      rw [htable]
      exact horders.table_eq
    rw [hkey] at hidentifies hdecides
    obtain ⟨all, hperm, hnodup, hwhole, hpages⟩ :=
      RecordTable.exists_answer hcolumns hpk hidentifies hdecides
    refine ⟨all, hperm, hnodup, hwhole, ?_⟩
    intro total size max fetched htotal hlimit hsized hfetched
    refine Page.flatMap_pages hsized htotal fun page hpage => ?_
    have hreachable := Page.reachable_of_lt_pageCount hsized hlimit hpage
    have hoffset := PageRequest.toNat_offset (r := ⟨page, size, sort⟩) hreachable
    rw [hpages _ _ _ rfl (hfetched page hpage _ rfl), hoffset]

/-- Texts by their characters, NULL before all of them, a collation for examples. -/
def Sql.Collation.texts : Collation String where
  le _ x y := x.all (fun a => y.any (a ≤ ·)) = true
  total _ x y := by
    rcases x with _ | x <;> rcases y with _ | y <;> simp [String.le_total]
  trans _ x y z h h' := by
    rcases x with _ | x <;> rcases y with _ | y <;> rcases z with _ | z <;> simp at h h' ⊢
    exact String.le_trans h h'

instance (c : Column) (x y : Option String) : Decidable (Collation.texts.Tied c x y) :=
  inferInstanceAs (Decidable (_ = true ∧ _ = true))

def byName : List SortOrder := [⟨"name", .descending⟩]

def byNameColumns : List ColumnOrder := [⟨⟨"players", "name"⟩, .descending⟩]

/-- By name Bob comes before Ann, and there is no third page. -/
theorem pages_stable_byName :
    playerScope.ordering byName = .ok byNameColumns ∧
    ¬ Collation.texts.Tied playerScope.root.key (some "1") (some "2") ∧
    Collation.texts.Identifies playerScope.root.key (annScoredTwice "players") ∧
    Collation.texts.Decides byNameColumns playerScope.root.key (annScoredTwice "players") ∧
    (¬ ∀ rows, Collation.texts.Identifies playerScope.root.key rows →
      Collation.texts.Decides byNameColumns playerScope.root.key rows) ∧
    ∀ fetched : UInt64 → List (List (Cell String)),
      (∀ page < Page.pageCount 2 1, ∀ q,
        playerTable.pageStatement .identity byNameColumns ⟨page, 1, byName⟩ = .rows q →
          q.YieldsInOrder .texts .texts annScoredTwice (fetched page)) →
      fetched 0 ++ fetched 1 = [playerTable.record bobRow, playerTable.record annRow] := by
  have hordering : playerScope.ordering byName = .ok byNameColumns := rfl
  have hkeys : ¬ Collation.texts.Tied playerScope.root.key (some "1") (some "2") := by decide
  have hidentifies : Collation.texts.Identifies playerScope.root.key (annScoredTwice "players") :=
    List.pairwise_pair.mpr (by decide)
  have hdecides : Collation.texts.Decides byNameColumns playerScope.root.key
      (annScoredTwice "players") := by
    unfold Collation.Decides
    decide
  have hsort : ¬ playerScope.root.OrdersKey byName := by
    rintro (hnil | ⟨o, ho, a, ha, hcolumn⟩)
    · cases hnil
    · obtain rfl := List.mem_singleton.mp ho
      obtain rfl := Option.some.inj ha
      exact absurd hcolumn (by decide)
  obtain ⟨hall, hpages⟩ := playerScope.pages_stable hordering
  obtain ⟨all, -, -, hwhole, hfetched⟩ := hpages .texts .texts annScoredTwice playerTable .identity
    rfl (by decide) hidentifies (.inr hdecides)
  have hbob : (playerTable.ordered .identity byNameColumns).Arranges .texts .texts annScoredTwice
      [[("players", bobRow)], [("players", annRow)]] :=
    ⟨(List.Perm.swap _ _ _).subperm, List.Perm.swap _ _ _,
      List.pairwise_pair.mpr ⟨(rfl : _ = true), fun _ => trivial⟩⟩
  obtain rfl := (hwhole _).mp ⟨_, hbob, rfl⟩
  refine ⟨hordering, hkeys, hidentifies, hdecides,
    mt (hall .texts ⟨_, _, hkeys⟩).mp hsort, fun fetched h => ?_⟩
  have hboth := hfetched 2 1 100 fetched rfl (by decide) (by decide) h
  rw [← List.append_nil (fetched 1)]
  exact hboth

def otherAnnRow : Row String := .of [("id", "3"), ("name", "Ann")]

def twoAnns : Tables String
  | "players" => [annRow, otherAnnRow]
  | _ => []

/-- Two players of one name may come in either order. A database that chooses one order for the
first page and the other one for the second yields one of them twice and the other one never. -/
theorem pages_unstable_byName :
    playerScope.ordering byName = .ok byNameColumns ∧
    Collation.texts.Identifies playerScope.root.key (twoAnns "players") ∧
    ¬ Collation.texts.Decides byNameColumns playerScope.root.key (twoAnns "players") ∧
    playerTable.matching .texts twoAnns .identity =
      [playerTable.record annRow, playerTable.record otherAnnRow] ∧
    playerTable.record annRow ≠ playerTable.record otherAnnRow ∧
    ∀ page < Page.pageCount 2 1, ∀ q,
      playerTable.pageStatement .identity byNameColumns ⟨page, 1, byName⟩ = .rows q →
        q.YieldsInOrder .texts .texts twoAnns [playerTable.record annRow] := by
  have htied : ∀ o ∈ byNameColumns,
      Collation.texts.Tied o.column (annRow o.column.name) (otherAnnRow o.column.name) := by decide
  refine ⟨rfl, List.pairwise_pair.mpr (by decide), fun hdecides => ?_, rfl, by decide, ?_⟩
  · have hkey := hdecides annRow (by simp [twoAnns]) otherAnnRow (by simp [twoAnns]) htied
    exact absurd hkey (by decide)
  · exact RecordTable.yields_of_tied (by decide) (.refl _) htied byName

end EntitySearch
