import EntitySearch.Proofs.Meaning
import EntitySearch.Proofs.Scoping
import EntitySearch.Storage
import Mathlib.Data.List.Dedup
/-!
What statements yield. Tables are joined row by row, in the order of the statement; where there are
joins, records that repeat count once. How a database orders rows is left to it.
-/
namespace EntitySearch
open Sql

namespace Sql

/-- The rows that are put together so far, each under the name of its table instance. -/
abbrev Frame (κ : Type) := List (String × Row κ)

/-- The row that goes by a name, the first if there are several; only NULL if there is none. -/
def Frame.row {κ : Type} (f : Frame κ) (name : String) : Row κ := (f.lookup name).getD fun _ => none

/-- What a record has for an item of its statement. -/
inductive Cell (κ : Type)
  | one
  | value (x : Option κ)
  deriving DecidableEq

def Item.cell {κ : Type} (f : Frame κ) : Item → Cell κ
  | one => .one
  | column c => .value (f.row c.table c.name)

end Sql

section Reading
variable {κ : Type} (e : Engine κ) (db : Tables κ)

/-- A frame with one more row, for each row of the joined table that is linked to the frame. -/
def Join.extend (j : Join) (f : Frame κ) : List (Frame κ) :=
  ((db j.table).map fun row => f ++ [(j.name, row)]).filter fun f =>
    e.linked (f.row j.link.1.table j.link.1.name) (f.row j.link.2.table j.link.2.name) = .yes

/-- A frame with a row for each of some joins. -/
def Sql.Frame.joined : List Join → Frame κ → List (Frame κ)
  | [], f => [f]
  | j :: js, f => (j.extend e db f).flatMap (Frame.joined js)

namespace Sql.Select
variable (q : Select)

def start : List (Frame κ) :=
  match q.table with
  | none => [[]]
  | some t => (db t).map fun row => [(t, row)]

def passes (f : Frame κ) : Bool :=
  q.condition.all fun c => c.value (Predicate.truth e db f.row) = .yes

/-- The records that joining and testing give, repetitions included. -/
def found : List (List (Cell κ)) :=
  (((q.start db).flatMap (Frame.joined e db q.joins)).filter (q.passes e db)).map fun f =>
    q.items.map (Item.cell f)

/-- The records of a statement before any limit. -/
def records [DecidableEq κ] : List (List (Cell κ)) :=
  if q.distinct then (q.found e db).dedup else q.found e db

/-- The records that are left by the limit and the offset. -/
def window {α : Type} (xs : List α) : List α :=
  let rest := xs.drop (q.offset.elim 0 UInt64.toNat)
  q.limit.elim rest fun n => rest.take n.toNat

/-- What a statement may yield: its records in an order that the database sees fit, or a part. -/
def Yields [DecidableEq κ] (out : List (List (Cell κ))) : Prop :=
  ∃ sorted, sorted.Perm (q.records e db) ∧ out = q.window sorted

/-- What counting around a statement may yield. -/
def Counts [DecidableEq κ] (n : Nat) : Prop := ∃ out, q.Yields e db out ∧ n = out.length

end Sql.Select

/-- A row of the root table for which some rows for the joins pass the condition. -/
def Selection.matches (s : Selection) (root : String) (row : Row κ) : Bool :=
  (Frame.joined e db s.joins [(root, row)]).any fun f =>
    s.condition.all fun c => c.value (Predicate.truth e db f.row) = .yes

/-- A row as a record of its table. -/
def RecordTable.record (t : RecordTable) (row : Row κ) : List (Cell κ) :=
  t.columns.map fun c => .value (row c)

/-- The records of the rows that match. -/
def RecordTable.matching (t : RecordTable) (s : Selection) : List (List (Cell κ)) :=
  ((db t.name).filter (s.matches e db t.name)).map t.record

theorem Selection.holds_iff_all {s : Selection} {a : String → Row κ} : s.Holds e db a ↔
    (s.condition.all fun c => c.value (Predicate.truth e db a) = .yes) = true := by
  unfold Holds
  cases s.condition <;> simp

end Reading

section Frames
variable {κ : Type} {e : Engine κ} {db : Tables κ} {f g : Frame κ} {js : List Join} {root : String}
  {row : Row κ}

theorem Sql.Frame.row_cons_self (f : Frame κ) (name : String) (row : Row κ) :
    Frame.row ((name, row) :: f) name = row := by
  simp [Frame.row]

theorem Sql.Frame.mem_joined_cons {j : Join} :
    g ∈ Frame.joined e db (j :: js) f ↔ ∃ row ∈ db j.table,
      e.linked (Frame.row (f ++ [(j.name, row)]) j.link.1.table j.link.1.name)
        (Frame.row (f ++ [(j.name, row)]) j.link.2.table j.link.2.name) = .yes ∧
      g ∈ Frame.joined e db js (f ++ [(j.name, row)]) := by
  simp only [joined, Join.extend, List.mem_flatMap, List.mem_filter, List.mem_map,
    decide_eq_true_eq]
  constructor
  · rintro ⟨_, ⟨⟨row, hrow, rfl⟩, hlinked⟩, hg⟩
    exact ⟨row, hrow, hlinked, hg⟩
  · rintro ⟨row, hrow, hlinked, hg⟩
    exact ⟨_, ⟨⟨row, hrow, rfl⟩, hlinked⟩, hg⟩

/-- Joins add rows to a frame and take none away. -/
theorem Sql.Frame.prefix_of_mem_joined (h : g ∈ Frame.joined e db js f) : f <+: g := by
  induction js generalizing f with
  | nil =>
    obtain rfl := List.mem_singleton.mp h
    exact List.prefix_rfl
  | cons j js ih =>
    obtain ⟨row, -, -, hg⟩ := mem_joined_cons.mp h
    exact (List.prefix_append f _).trans (ih hg)

theorem Sql.Frame.row_root (h : g ∈ Frame.joined e db js [(root, row)]) : g.row root = row := by
  obtain ⟨rest, rfl⟩ := prefix_of_mem_joined h
  exact row_cons_self rest root row

/-- The row of a name does not change when rows are added. -/
theorem Sql.Frame.row_of_prefix (h : f <+: g) {name : String} (hname : name ∈ f.map Prod.fst) :
    g.row name = f.row name := by
  obtain ⟨rest, rfl⟩ := h
  have hsome : (f.lookup name).isSome := by
    simpa [List.lookup_isSome_iff] using hname
  obtain ⟨x, hx⟩ := Option.isSome_iff_exists.mp hsome
  simp [Frame.row, List.lookup_append, hx]

theorem Sql.Frame.row_append {name : String} (hname : name ∉ f.map Prod.fst) (row : Row κ) :
    Frame.row (f ++ [(name, row)]) name = row := by
  have hnone : f.lookup name = none := by
    rw [List.lookup_eq_none_iff]
    intro p hp
    have hne : name ≠ p.1 := fun heq => hname (heq ▸ List.mem_map_of_mem hp)
    simpa using hne
  simp [Frame.row, List.lookup_append, hnone]

end Frames

/-- Joins that can be made one after the other: each is linked to what is there and has a name of
its own. -/
def Join.Scoped : List String → List Join → Prop
  | _, [] => True
  | names, j :: js =>
    j.link.1.table ∈ names ∧ j.name ∉ names ∧ Scoped (names ++ [j.name]) js

section Scoped
variable {κ : Type} {e : Engine κ} {db : Tables κ} {js : List Join}

theorem Join.scoped_of_split {names : List String}
    (h : ∀ before j after, js = before ++ j :: after →
      j.link.1.table ∈ names ++ before.map Join.name ∧ j.name ∉ names ++ before.map Join.name) :
    Scoped names js := by
  induction js generalizing names with
  | nil => trivial
  | cons j js ih =>
    have hj := h [] j js rfl
    rw [List.map_nil, List.append_nil] at hj
    refine ⟨hj.1, hj.2, ih fun before j' after hjs => ?_⟩
    have hlater := h (j :: before) j' after (by rw [hjs]; rfl)
    simpa using hlater

/-- The rows of a frame fit the joins that it was put together for. -/
theorem Join.fits_of_mem_joined {f g : Frame κ} (h : Join.Scoped (f.map Prod.fst) js)
    (hg : g ∈ Frame.joined e db js f) : ∀ j ∈ js, j.Fits e db g.row := by
  induction js generalizing f with
  | nil => simp
  | cons j js ih =>
    obtain ⟨hlink, hname, hjs⟩ := h
    obtain ⟨row, hrow, hlinked, hrest⟩ := Frame.mem_joined_cons.mp hg
    have hnames : (f ++ [(j.name, row)]).map Prod.fst = f.map Prod.fst ++ [j.name] := by simp
    have hsame {name : String} (hmem : name ∈ f.map Prod.fst ++ [j.name]) :
        g.row name = Frame.row (f ++ [(j.name, row)]) name :=
      Frame.row_of_prefix (Frame.prefix_of_mem_joined hrest) (hnames ▸ hmem)
    have hown : j.Fits e db g.row := by
      refine ⟨?_, ?_⟩
      · rwa [hsame (by simp), Frame.row_append hname]
      · rwa [hsame (List.mem_append_left _ hlink), hsame (by simp [Join.link])]
    exact List.forall_mem_cons.mpr ⟨hown, ih (hnames ▸ hjs) hrest⟩

/-- Rows that fit joins make a frame for them. -/
theorem Join.exists_mem_joined {f : Frame κ} {a : String → Row κ}
    (h : Join.Scoped (f.map Prod.fst) js) (hf : ∀ name ∈ f.map Prod.fst, f.row name = a name)
    (hfits : ∀ j ∈ js, j.Fits e db a) :
    ∃ g ∈ Frame.joined e db js f,
      ∀ name ∈ f.map Prod.fst ++ js.map Join.name, g.row name = a name := by
  induction js generalizing f with
  | nil => exact ⟨f, List.mem_singleton_self f, by simpa using hf⟩
  | cons j js ih =>
    obtain ⟨hlink, hname, hjs⟩ := h
    obtain ⟨hown, hrest⟩ := List.forall_mem_cons.mp hfits
    have hnames : (f ++ [(j.name, a j.name)]).map Prod.fst = f.map Prod.fst ++ [j.name] := by simp
    have hagree : ∀ name ∈ (f ++ [(j.name, a j.name)]).map Prod.fst,
        Frame.row (f ++ [(j.name, a j.name)]) name = a name := by
      rw [hnames]
      intro name hmem
      rcases List.mem_append.mp hmem with hold | hnew
      · rw [Frame.row_of_prefix (List.prefix_append f _) hold, hf name hold]
      · obtain rfl := List.mem_singleton.mp hnew
        exact Frame.row_append hname _
    obtain ⟨g, hg, hsame⟩ := ih (hnames ▸ hjs) hagree hrest
    refine ⟨g, Frame.mem_joined_cons.mpr ⟨a j.name, hown.1, ?_, hg⟩, ?_⟩
    · rw [hagree _ (by rw [hnames]; exact List.mem_append_left _ hlink),
        hagree _ (by simp [Join.link])]
      exact hown.2
    · rw [hnames] at hsame
      simpa using hsame

end Scoped

namespace Scope
variable {s : Scope} {cs : Forest} {sel : Selection} {κ : Type} {e : Engine κ} {db : Tables κ}

theorem Realizes.scoped {rs : List Route} (h : s.Realizes cs sel rs)
    (hroot : s.root.table ∉ sel.names) : Join.Scoped [s.root.table] sel.joins := by
  have hnodup : (sel.joins.map Join.name).Nodup := by
    rw [h.joins_eq, names_ofRoutes]
    refine h.rooted.nodup.map_on fun r hr r' _ => Route.name_inj hr
  apply Join.scoped_of_split
  intro before j after hjoins
  obtain ⟨hlink, -⟩ := h.rooted.link_scoped (h.joins_eq ▸ hjoins)
  refine ⟨hlink, fun hmem => ?_⟩
  rw [hjoins, List.map_append, List.map_cons] at hnodup
  rcases List.mem_cons.mp hmem with heq | hbefore
  · apply hroot
    apply List.mem_append_left
    rw [hjoins, ← heq]
    exact List.mem_map_of_mem (by simp)
  · exact (List.nodup_append.mp hnodup).2.2 _ hbefore _ List.mem_cons_self rfl

/-- Joining row by row finds the root rows that a compiled selection is said to select. -/
theorem matches_iff_selects (h : s.compile cs = .ok sel) (hroot : s.root.table ∉ sel.names)
    {row : Row κ} (hrow : row ∈ db s.root.table) :
    sel.matches e db s.root.table row = true ↔ sel.Selects e db s.root.table row := by
  obtain ⟨rs, hrs⟩ := exists_realizes h
  have hscoped : Join.Scoped ([(s.root.table, row)].map Prod.fst) sel.joins := hrs.scoped hroot
  simp only [Selection.matches, List.any_eq_true, ← Selection.holds_iff_all]
  constructor
  · rintro ⟨f, hf, hpasses⟩
    refine ⟨hrow, f.row, ⟨Frame.row_root hf, Join.fits_of_mem_joined hscoped hf⟩, hpasses⟩
  · rintro ⟨-, a, ⟨hroot_eq, hfits⟩, hholds⟩
    have hstart : ∀ name ∈ [(s.root.table, row)].map Prod.fst,
        Frame.row [(s.root.table, row)] name = a name := by
      simp [Frame.row_cons_self, hroot_eq]
    obtain ⟨f, hf, hsame⟩ := Join.exists_mem_joined hscoped hstart hfits
    refine ⟨f, hf, ?_⟩
    -- the frame has the rows of `a` at the names of the selection only; the condition needs no more
    have hagree : s.truth e db (a ∘ Route.name s.root.table rs) cs =
        s.truth e db (f.row ∘ Route.name s.root.table rs) cs := by
      apply truth_congr
      intro o ho
      have hroutes : ∀ r ∈ o, r ∈ rs := fun r hr => (hrs.mem_iff r).mpr (ho r hr)
      have hmem : Route.name s.root.table rs o ∈ s.root.table :: sel.joins.map Join.name := by
        rw [hrs.joins_eq]
        exact Rooted.name_scoped hroutes
      exact (hsame _ hmem).symm
    rw [hrs.holds_iff hroot, ← hagree, ← hrs.holds_iff hroot]
    exact hholds

end Scope

namespace Sql.Select
variable {κ : Type} [DecidableEq κ] {e : Engine κ} {db : Tables κ} {q : Select}
  {rows out : List (List (Cell κ))}

/-- An order, a limit and an offset leave alone which records there are. -/
theorem yields_page_iff (h : (q.records e db).Perm rows) (ordering : List ColumnOrder)
    (size offset : UInt64) :
    { q with order := ordering, limit := some size, offset := some offset }.Yields e db out ↔
      ∃ sorted : List (List (Cell κ)), sorted.Perm rows ∧
        out = (sorted.drop offset.toNat).take size.toNat :=
  exists_congr fun _ => and_congr_left' ⟨fun hsorted => hsorted.trans h,
    fun hsorted => hsorted.trans h.symm⟩

theorem yields_unlimited_iff (h : (q.records e db).Perm rows) (hlimit : q.limit = none)
    (hoffset : q.offset = none) (ordering : List ColumnOrder) :
    { q with order := ordering }.Yields e db out ↔ out.Perm rows := by
  have hwindow : ∀ xs : List (List (Cell κ)), { q with order := ordering }.window xs = xs := by
    simp [window, hlimit, hoffset]
  constructor
  · rintro ⟨sorted, hsorted, rfl⟩
    rw [hwindow]
    exact hsorted.trans h
  · exact fun hout => ⟨out, hout.trans h.symm, (hwindow out).symm⟩

theorem counts_iff (h : (q.records e db).Perm rows) (hlimit : q.limit = none)
    (hoffset : q.offset = none) {n : Nat} : q.Counts e db n ↔ n = rows.length := by
  have hyields (out : List (List (Cell κ))) : q.Yields e db out ↔ out.Perm rows :=
    yields_unlimited_iff h hlimit hoffset q.order
  simp only [Counts, hyields]
  constructor
  · rintro ⟨out, hout, rfl⟩
    exact hout.length_eq
  · rintro rfl
    exact ⟨rows, .refl rows, rfl⟩

end Sql.Select

namespace RecordTable
variable {κ : Type} {e : Engine κ} {db : Tables κ} {t : RecordTable} {s : Selection}

theorem joins_selecting : (t.selecting s).joins = s.joins := rfl

theorem condition_selecting : (t.selecting s).condition = s.condition := by
  simp [selecting, Select.restrict, Select.ofTable]

theorem distinct_selecting : (t.selecting s).distinct = true ↔ s.joins ≠ [] := by
  simp [selecting, Select.restrict, Select.ofTable]

theorem matches_iff {row : Row κ} : s.matches e db t.name row = true ↔
    ∃ f ∈ Frame.joined e db s.joins [(t.name, row)], (t.selecting s).passes e db f = true := by
  simp only [Selection.matches, Select.passes, condition_selecting, List.any_eq_true]

/-- A frame yields the record of its root row. -/
theorem items_selecting {f : Frame κ} {row : Row κ}
    (h : f ∈ Frame.joined e db s.joins [(t.name, row)]) :
    (t.selecting s).items.map (Item.cell f) = t.record row := by
  have hitems : (t.selecting s).items = t.columns.map fun c => .column ⟨t.name, c⟩ := rfl
  rw [hitems, List.map_map, record]
  apply List.map_congr_left
  intro c _
  simp only [Function.comp_apply, Item.cell, Frame.row_root h]

theorem mem_matching {record : List (Cell κ)} : record ∈ t.matching e db s ↔
    ∃ row ∈ db t.name, s.matches e db t.name row = true ∧ t.record row = record := by
  simp [matching, and_assoc]

/-- Records are found for the rows that match, each as often as there are frames. -/
theorem mem_found {record : List (Cell κ)} :
    record ∈ (t.selecting s).found e db ↔ record ∈ t.matching e db s := by
  have hstart : (t.selecting s).start db = (db t.name).map fun row => [(t.name, row)] := rfl
  simp only [mem_matching, matches_iff, Select.found, hstart, joins_selecting, List.mem_map,
    List.mem_filter, List.mem_flatMap]
  constructor
  · rintro ⟨f, ⟨⟨_, ⟨row, hrow, rfl⟩, hf⟩, hpasses⟩, rfl⟩
    exact ⟨row, hrow, ⟨f, hf, hpasses⟩, (items_selecting hf).symm⟩
  · rintro ⟨row, hrow, ⟨f, hf, hpasses⟩, rfl⟩
    exact ⟨f, ⟨⟨_, ⟨row, hrow, rfl⟩, hf⟩, hpasses⟩, items_selecting hf⟩

/-- Without joins there is one frame a row. -/
theorem found_of_no_joins (h : s.joins = []) :
    (t.selecting s).found e db = t.matching e db s := by
  have hstart : (t.selecting s).start db = (db t.name).map fun row => [(t.name, row)] := rfl
  have hframes : (t.selecting s).start db = ((t.selecting s).start db).flatMap
      (Frame.joined e db (t.selecting s).joins) := by
    simp only [joins_selecting, h, Frame.joined, List.flatMap_singleton']
  have hmatches : s.matches e db t.name =
      (t.selecting s).passes e db ∘ fun row => [(t.name, row)] := by
    funext row
    rw [Bool.eq_iff_iff, matches_iff, h]
    simp [Frame.joined]
  rw [Select.found, ← hframes, hstart, List.filter_map, List.map_map, matching, hmatches]
  apply List.map_congr_left
  intro row _
  have hself : [(t.name, row)] ∈ Frame.joined e db s.joins [(t.name, row)] := by
    simp [h, Frame.joined]
  exact items_selecting hself

/-- Rows that differ in a column of the table are different records. -/
theorem nodup_matching
    (h : (db t.name).Pairwise fun row row' => ∃ c ∈ t.columns, row c ≠ row' c) :
    (t.matching e db s).Nodup := by
  refine List.pairwise_map.mpr ((h.filter _).imp ?_)
  rintro row row' ⟨c, hc, hdiffer⟩ heq
  have hcells := List.map_inj_left.mp heq c hc
  exact hdiffer (Cell.value.inj hcells)

/-- Every row that matches is there once, whatever it is joined with. -/
theorem records_perm [DecidableEq κ]
    (h : (db t.name).Pairwise fun row row' => ∃ c ∈ t.columns, row c ≠ row' c) :
    ((t.selecting s).records e db).Perm (t.matching e db s) := by
  unfold Select.records
  split
  -- a row is found once for each frame that passes, and DISTINCT leaves one of these
  · rw [List.perm_ext_iff_of_nodup (List.nodup_dedup _) (nodup_matching h)]
    intro record
    rw [List.mem_dedup, mem_found]
  next hdistinct =>
    have hjoins : s.joins = [] := by
      by_contra hne
      exact hdistinct (distinct_selecting.mpr hne)
    rw [found_of_no_joins hjoins]

end RecordTable
end EntitySearch
