import EntitySearch.Proofs.FirstFailure
import EntitySearch.Service
import Mathlib.Data.List.Forall2
/-!
When a search reaches the repository. A repository answers as it likes, also by what it was asked
before; a search asks it once, for what the restricted criteria compile to, or not at all.
-/
namespace EntitySearch
open Sql

section Lists
variable {ε α β : Type} {f : α → Except ε β}

theorem mapM_eq_ok_iff {xs : List α} {ys : List β} :
    xs.mapM f = .ok ys ↔ List.Forall₂ (fun x y => f x = .ok y) xs ys := by
  induction xs generalizing ys with
  | nil => simp [pure, Except.pure, eq_comm]
  | cons x xs ih =>
    rw [List.mapM_cons, bind_eq_ok_iff, List.forall₂_cons_left_iff]
    simp only [bind_eq_ok_iff, ih]
    constructor
    · rintro ⟨y, hy, ys', hys, h⟩
      obtain rfl := Except.ok.inj h
      exact ⟨y, ys', hy, hys, rfl⟩
    · rintro ⟨y, ys', hy, hys, rfl⟩
      exact ⟨y, hy, ys', hys, rfl⟩

theorem exists_mapM_iff {xs : List α} :
    (∃ ys, xs.mapM f = .ok ys) ↔ ∀ x ∈ xs, ∃ y, f x = .ok y := by
  simp only [mapM_eq_ok_iff]
  induction xs with
  | nil => simp
  | cons x xs ih => simp [List.forall₂_cons_left_iff, ← ih]

theorem exists_of_mem_forall₂ {R : α → β → Prop} {xs : List α} {ys : List β}
    (h : List.Forall₂ R xs ys) {y : β} (hy : y ∈ ys) : ∃ x ∈ xs, R x y := by
  induction h with
  | nil => cases hy
  | cons hfirst _ ih =>
    rcases List.mem_cons.mp hy with rfl | hrest
    · exact ⟨_, List.mem_cons_self, hfirst⟩
    · obtain ⟨x, hx, hxy⟩ := ih hrest
      exact ⟨x, List.mem_cons_of_mem _ hx, hxy⟩

theorem exists_mem_iff_of_forall₂ {R : α → β → Prop} {P : α → Prop} {Q : β → Prop} {xs : List α}
    {ys : List β} (h : List.Forall₂ R xs ys) (hR : ∀ x y, R x y → (P x ↔ Q y)) :
    (∃ x ∈ xs, P x) ↔ ∃ y ∈ ys, Q y := by
  induction h with
  | nil => simp
  | cons hxy _ ih => simp only [List.exists_mem_cons_iff, hR _ _ hxy, ih]

theorem exists_of_mem_mapM {xs : List α} {ys : List β} (h : xs.mapM f = .ok ys) {y : β}
    (hy : y ∈ ys) : ∃ x ∈ xs, f x = .ok y :=
  exists_of_mem_forall₂ (mapM_eq_ok_iff.mp h) hy

/-- The first error is the error of the whole. -/
theorem exists_of_mapM_eq_error {xs : List α} {e : ε} (h : xs.mapM f = .error e) :
    ∃ x ∈ xs, f x = .error e := by
  induction xs with
  | nil => simp [pure, Except.pure] at h
  | cons x xs ih =>
    rw [List.mapM_cons] at h
    cases hx : f x with
    | error e' =>
      rw [hx] at h
      obtain rfl := Except.error.inj h
      exact ⟨x, List.mem_cons_self, hx⟩
    | ok y =>
      cases hxs : xs.mapM f with
      | error e' =>
        rw [hx, hxs] at h
        obtain rfl := Except.error.inj h
        obtain ⟨x', hmem, hx'⟩ := ih hxs
        exact ⟨x', List.mem_cons_of_mem _ hmem, hx'⟩
      | ok ys =>
        rw [hx, hxs] at h
        cases h

end Lists

/-- The columns that sort orders name; the primary key where there are none. -/
def Entity.Orders (e : Entity) : List SortOrder → List ColumnOrder → Prop
  | [], columns => columns = [⟨⟨e.table, e.primaryKey⟩, .ascending⟩]
  | sort, columns => List.Forall₂ (fun o c => ∃ a, e.attribute? o.property = some a ∧
      c = ⟨⟨e.table, a.column⟩, o.direction⟩) sort columns

namespace Scope
variable {s : Scope} {sort : List SortOrder}

/-- The column for one sort order. -/
def columnOf (s : Scope) (o : SortOrder) : Except SearchError ColumnOrder :=
  match s.root.attribute? o.property with
  | some a => .ok ⟨⟨s.root.table, a.column⟩, o.direction⟩
  | none => .error (.unresolved o.property (.notSortable o.property s.root.name))

theorem ordering_cons (o : SortOrder) : s.ordering (o :: sort) = (o :: sort).mapM s.columnOf := rfl

theorem columnOf_eq_ok_iff {o : SortOrder} {c : ColumnOrder} : s.columnOf o = .ok c ↔
    ∃ a, s.root.attribute? o.property = some a ∧ c = ⟨⟨s.root.table, a.column⟩, o.direction⟩ := by
  unfold columnOf
  cases s.root.attribute? o.property <;> simp [eq_comm]

theorem ordering_eq_ok_iff {columns : List ColumnOrder} :
    s.ordering sort = .ok columns ↔ s.root.Orders sort columns := by
  cases sort with
  | nil => simp [ordering, Entity.Orders, eq_comm]
  | cons o sort => simp only [ordering_cons, mapM_eq_ok_iff, columnOf_eq_ok_iff, Entity.Orders]

theorem exists_ordering_iff : (∃ columns, s.ordering sort = .ok columns) ↔
    ∀ o ∈ sort, ∃ a, s.root.attribute? o.property = some a := by
  cases sort with
  | nil => simp [ordering]
  | cons o sort =>
    rw [ordering_cons, exists_mapM_iff]
    simp only [columnOf_eq_ok_iff]
    simp

theorem unresolved_of_ordering {e : SearchError} (h : s.ordering sort = .error e) :
    ∃ key fault, e = .unresolved key fault := by
  cases sort with
  | nil => simp [ordering] at h
  | cons o sort =>
    obtain ⟨o', -, ho'⟩ := exists_of_mapM_eq_error (ordering_cons o ▸ h)
    unfold columnOf at ho'
    split at ho'
    · cases ho'
    · exact ⟨_, _, (Except.error.inj ho').symm⟩

theorem names_of_compile {forest : Forest} {e : SearchError} (h : s.compile forest = .error e) :
    ∃ c ∈ Forest.nodes forest, e.Names c := by
  obtain ⟨c, hmem, hc⟩ := List.exists_of_findSome?_eq_some (compile_eq_error_iff.mp h)
  exact ⟨c, hmem, s.owns_plan c e (fault?_eq_some_iff.mp hc)⟩

theorem ofEntity?_eq_ok_iff {g : Registry} {name : String} :
    ofEntity? g name = .ok s ↔ ∃ root, g.get? name = some root ∧ s = ⟨g, root⟩ := by
  unfold ofEntity?
  cases g.get? name <;> simp [eq_comm]

end Scope

/-- What a repository is asked for. -/
structure Call where
  selection : Selection
  ordering : List ColumnOrder
  request : PageRequest

/-- A repository that answers in any way whatever by the calls up to the present one, all of which
are kept. -/
def Repository.answering {ρ : Type} (answer : List Call → Except StorageError (Page ρ)) :
    Repository (StateM (List Call)) ρ where
  findAll selection ordering r := do
    modify (· ++ [⟨selection, ordering, r⟩])
    return answer (← get)

theorem Repository.run_answering {ρ : Type} (answer : List Call → Except StorageError (Page ρ))
    (call : Call) (calls : List Call) :
    ((answering answer).findAll call.selection call.ordering call.request).run calls =
      (answer (calls ++ [call]), calls ++ [call]) := rfl

/-- An empty page has no totals. -/
theorem Page.empty_eq {α : Type} (r : PageRequest) :
    (empty r : Page α) = ⟨[], 0, 0, r.page, r.size⟩ := by
  have hcount : pageCount 0 r.size = 0 := by
    have hdiv : (max r.size.toNat 1 - 1) / max r.size.toNat 1 = 0 := Nat.div_eq_of_lt (by omega)
    simp [pageCount, hdiv]
  rw [empty, of, hcount]

namespace Resource
variable {ρ δ : Type} (s : Resource ρ δ) (forest : Forest) (r : PageRequest)

/-- What a search executes: the criteria that the restriction makes of those of the caller,
compiled, in the order asked for, and the page asked for. -/
def Executes (call : Call) : Prop :=
  ∃ restricted root, s.restrict forest r = some restricted ∧
    s.registry.get? s.entity = some root ∧
    Scope.compile ⟨s.registry, root⟩ restricted = .ok call.selection ∧
    root.Orders r.sort call.ordering ∧ call.request = r

/-- Why a search that the restriction lets pass is not executed: its entity is not registered, its
criteria do not compile or its order names what is no attribute. The first of these counts. -/
def Refuses (e : SearchError) : Prop :=
  ∃ restricted, s.restrict forest r = some restricted ∧
    ((s.registry.get? s.entity = none ∧ e = .unresolved s.entity .unregisteredRoot) ∨
      ∃ root, s.registry.get? s.entity = some root ∧
        (Scope.compile ⟨s.registry, root⟩ restricted = .error e ∨
          (∃ selection, Scope.compile ⟨s.registry, root⟩ restricted = .ok selection) ∧
            Scope.ordering ⟨s.registry, root⟩ r.sort = .error e))

/-- What a search makes of the repository's answer: one presentation a record, in their order. -/
def shown : Except StorageError (Page ρ) → Except SearchError (Page δ)
  | .error e => .error (.storage e)
  | .ok page => .ok ⟨page.content.map s.present, page.totalElements, page.totalPages, page.page,
      page.size⟩

variable {s forest r}

theorem prepare_eq_ok_iff {restricted : Forest} {selection : Selection}
    {ordering : List ColumnOrder} : s.prepare restricted r = .ok (selection, ordering) ↔
      ∃ root, s.registry.get? s.entity = some root ∧
        Scope.compile ⟨s.registry, root⟩ restricted = .ok selection ∧
        root.Orders r.sort ordering := by
  unfold prepare
  simp only [bind_eq_ok_iff, Scope.ofEntity?_eq_ok_iff, Scope.ordering_eq_ok_iff]
  constructor
  · rintro ⟨_, ⟨root, hroot, rfl⟩, _, hcompile, _, hsort, h⟩
    obtain ⟨rfl, rfl⟩ := Prod.mk.inj (Except.ok.inj h)
    exact ⟨root, hroot, hcompile, hsort⟩
  · rintro ⟨root, hroot, hcompile, hsort⟩
    exact ⟨_, ⟨root, hroot, rfl⟩, _, hcompile, _, hsort, rfl⟩

theorem prepare_of_refuses {restricted : Forest} (h : s.restrict forest r = some restricted)
    {e : SearchError} (he : s.Refuses forest r e) : s.prepare restricted r = .error e := by
  obtain ⟨restricted', h', hcase⟩ := he
  obtain rfl : restricted = restricted' := Option.some.inj (h.symm.trans h')
  unfold prepare Scope.ofEntity?
  rcases hcase with ⟨hroot, rfl⟩ | ⟨root, hroot, hcompile | ⟨⟨selection, hcompile⟩, hsort⟩⟩
  · rw [hroot]
    rfl
  · rw [hroot]
    simp [bind, Except.bind, hcompile]
  · rw [hroot]
    simp [bind, Except.bind, hcompile, hsort]

/-- A search is refused by the restriction, refused for an error of its own, or executed. -/
theorem hides_or_refuses_or_executes (s : Resource ρ δ) (forest : Forest) (r : PageRequest) :
    s.restrict forest r = none ∨ (∃ e, s.Refuses forest r e) ∨
      ∃ call, s.Executes forest r call := by
  cases hrestrict : s.restrict forest r with
  | none => exact .inl rfl
  | some restricted =>
    right
    cases hroot : s.registry.get? s.entity with
    | none => exact .inl ⟨_, restricted, hrestrict, .inl ⟨hroot, rfl⟩⟩
    | some root =>
      cases hcompile : Scope.compile ⟨s.registry, root⟩ restricted with
      | error e => exact .inl ⟨e, restricted, hrestrict, .inr ⟨root, hroot, .inl hcompile⟩⟩
      | ok selection =>
        cases hsort : Scope.ordering ⟨s.registry, root⟩ r.sort with
        | error e =>
          exact .inl ⟨e, restricted, hrestrict, .inr ⟨root, hroot, .inr ⟨⟨_, hcompile⟩, hsort⟩⟩⟩
        | ok ordering =>
          exact .inr ⟨⟨selection, ordering, r⟩, restricted, root, hrestrict, hroot, hcompile,
            Scope.ordering_eq_ok_iff.mp hsort, rfl⟩

theorem exists_executes_iff : (∃ call, s.Executes forest r call) ↔
    ∃ restricted root selection, s.restrict forest r = some restricted ∧
      s.registry.get? s.entity = some root ∧
      Scope.compile ⟨s.registry, root⟩ restricted = .ok selection ∧
      ∀ o ∈ r.sort, ∃ a, root.attribute? o.property = some a := by
  constructor
  · rintro ⟨call, restricted, root, hrestrict, hroot, hcompile, hsort, -⟩
    have hordering := Scope.ordering_eq_ok_iff (s := ⟨s.registry, root⟩).mpr hsort
    exact ⟨restricted, root, _, hrestrict, hroot, hcompile,
      Scope.exists_ordering_iff.mp ⟨_, hordering⟩⟩
  · rintro ⟨restricted, root, selection, hrestrict, hroot, hcompile, hattributes⟩
    obtain ⟨ordering, hordering⟩ :=
      Scope.exists_ordering_iff (s := ⟨s.registry, root⟩).mpr hattributes
    exact ⟨⟨selection, ordering, r⟩, restricted, root, hrestrict, hroot, hcompile,
      Scope.ordering_eq_ok_iff.mp hordering, rfl⟩

theorem Refuses.not_executes {e : SearchError} (h : s.Refuses forest r e) :
    ¬ ∃ call, s.Executes forest r call := by
  rintro ⟨call, restricted, root, hrestrict, hroot, hcompile, hsort, -⟩
  have hok := prepare_eq_ok_iff.mpr ⟨root, hroot, hcompile, hsort⟩
  have herror := prepare_of_refuses hrestrict h
  rw [hok] at herror
  cases herror

theorem not_executes_of_hidden (h : s.restrict forest r = none) :
    ¬ ∃ call, s.Executes forest r call := by
  rintro ⟨call, restricted, root, hrestrict, -⟩
  rw [h] at hrestrict
  cases hrestrict

/-- A refused search is told of a criterion of its own, or of a name that leads nowhere. -/
theorem Refuses.names_or_unresolved {e : SearchError} (h : s.Refuses forest r e) :
    (∃ c, e.Names c) ∨ ∃ key fault, e = .unresolved key fault := by
  obtain ⟨restricted, -, ⟨-, rfl⟩ | ⟨root, -, hcompile | ⟨-, hsort⟩⟩⟩ := h
  · exact .inr ⟨_, _, rfl⟩
  · obtain ⟨c, -, hc⟩ := Scope.names_of_compile hcompile
    exact .inl ⟨c, hc⟩
  · exact .inr (Scope.unresolved_of_ordering hsort)

theorem Refuses.isClientError {e : SearchError} (h : s.Refuses forest r e) :
    e.isClientError = true := by
  obtain ⟨c, hc⟩ | ⟨key, fault, rfl⟩ := h.names_or_unresolved
  · exact hc.isClientError
  · rfl

section Running
variable {m : Type → Type} [Monad m] {repository : Repository m ρ}

theorem findAll_of_hidden (h : s.restrict forest r = none) :
    s.findAll repository forest r = pure (.ok (.empty r)) := by
  simp only [findAll, h]

theorem findAll_of_refuses {e : SearchError} (h : s.Refuses forest r e) :
    s.findAll repository forest r = pure (.error e) := by
  obtain ⟨restricted, hrestrict, -⟩ := id h
  simp only [findAll, hrestrict, prepare_of_refuses hrestrict h]

/-- An executed search asks the repository for just what it executes. -/
theorem findAll_of_executes [LawfulMonad m] {call : Call} (h : s.Executes forest r call) :
    s.findAll repository forest r =
      s.shown <$> repository.findAll call.selection call.ordering call.request := by
  obtain ⟨restricted, root, hrestrict, hroot, hcompile, hsort, rfl⟩ := h
  have hprepare := prepare_eq_ok_iff.mpr ⟨root, hroot, hcompile, hsort⟩
  simp only [findAll, hrestrict, hprepare, map_eq_pure_bind]
  apply bind_congr
  rintro (e | page) <;> rfl

end Running

/-- Whatever the repository does, it is asked at most once, and if and only if the restriction lets
the criteria pass, the entity is registered, the restricted criteria compile and the order names
attributes only. It is asked for just what these give, and its answer is passed on record by record
with its totals. A search that the restriction refuses gives an empty page; any other one fails for
an error of the caller. -/
theorem findAll_executes (s : Resource ρ δ) (answer : List Call → Except StorageError (Page ρ))
    (earlier : List Call) (forest : Forest) (r : PageRequest) :
    ∃ result calls,
      (s.findAll (.answering answer) forest r).run earlier = (result, earlier ++ calls) ∧
      calls.length ≤ 1 ∧
      (calls ≠ [] ↔ ∃ restricted root selection, s.restrict forest r = some restricted ∧
        s.registry.get? s.entity = some root ∧
        Scope.compile ⟨s.registry, root⟩ restricted = .ok selection ∧
        ∀ o ∈ r.sort, ∃ a, root.attribute? o.property = some a) ∧
      (∀ call ∈ calls, s.Executes forest r call ∧ result = s.shown (answer (earlier ++ [call]))) ∧
      (s.restrict forest r = none → result = .ok ⟨[], 0, 0, r.page, r.size⟩) ∧
      (calls = [] → s.restrict forest r ≠ none →
        ∃ e, s.Refuses forest r e ∧ result = .error e ∧ e.isClientError = true) := by
  rw [← exists_executes_iff]
  rcases s.hides_or_refuses_or_executes forest r with
    hhidden | ⟨e, hrefuses⟩ | ⟨call, hexecutes⟩
  · refine ⟨.ok ⟨[], 0, 0, r.page, r.size⟩, [], ?_, by simp, ?_, by simp, fun _ => rfl, ?_⟩
    · rw [findAll_of_hidden hhidden, Page.empty_eq, List.append_nil]
      rfl
    · simpa using not_executes_of_hidden hhidden
    · exact fun _ hpasses => absurd hhidden hpasses
  · refine ⟨.error e, [], ?_, by simp, ?_, by simp, ?_, ?_⟩
    · rw [findAll_of_refuses hrefuses, List.append_nil]
      rfl
    · simpa using hrefuses.not_executes
    · obtain ⟨restricted, hrestrict, -⟩ := hrefuses
      simp [hrestrict]
    · exact fun _ _ => ⟨e, hrefuses, rfl, hrefuses.isClientError⟩
  · refine ⟨s.shown (answer (earlier ++ [call])), [call], ?_, by simp, ?_, ?_, ?_, by simp⟩
    · rw [findAll_of_executes hexecutes, StateT.run_map, Repository.run_answering]
      rfl
    · simpa using ⟨call, hexecutes⟩
    · exact List.forall_mem_singleton.mpr ⟨hexecutes, rfl⟩
    · exact fun hhidden => absurd ⟨call, hexecutes⟩ (not_executes_of_hidden hhidden)

end Resource
end EntitySearch
