import EntitySearch.Proofs.Path
/-!
The problems that are found in a body. Every problem of every criterion is reported, once and at its
place, in the order of the body; what is wrong with one criterion changes no report on another.
-/
namespace EntitySearch

/-- What can be wrong at a place. -/
inductive Fault
  | missing
  | blankKey
  | unknownOperation (name : String)
  | objectValue
  | compoundElement
  deriving DecidableEq, Repr

def Fault.message : Fault → String
  | missing => "This field is required"
  | blankKey => "Key must not be blank"
  | unknownOperation name => "Unknown operation '" ++ name ++ "'"
  | objectValue => "Objects are not supported as filter values"
  | compoundElement => "Array elements must be strings, numbers or booleans"

/-- What is at the place of a fault, if anything. -/
def Fault.Describes : Fault → Option Json → Prop
  | missing, x => x = none ∨ x = some .null
  | blankKey, x => ∃ s, x = some (.text s) ∧ Text.blank s = true
  | unknownOperation name, x => x = some (.text name) ∧ ∀ o : Operation, o.name ≠ name
  | objectValue, x => ∃ members, x = some (.object members)
  | compoundElement, x =>
    (∃ items, x = some (.array items)) ∨ ∃ members, x = some (.object members)

namespace Json

/-- Nothing is sent under a name, or null. -/
def Lacks (v : Json) (name : String) : Prop :=
  v.at? [.member name] = none ∨ v.at? [.member name] = some .null

/-- What is wrong with a criterion as sent, those below it left aside, and where. -/
@[mk_iff]
inductive Wrong (v : Json) : Path → Fault → Prop
  | keyMissing (h : v.Lacks "key") : Wrong v [.member "key"] .missing
  | keyBlank (s : String) (h : v.at? [.member "key"] = some (.text s))
      (blank : Text.blank s = true) : Wrong v [.member "key"] .blankKey
  | operationMissing (h : v.Lacks "operation") : Wrong v [.member "operation"] .missing
  | operationUnknown (s : String) (h : v.at? [.member "operation"] = some (.text s))
      (unknown : ∀ o : Operation, o.name ≠ s) :
      Wrong v [.member "operation"] (.unknownOperation s)
  | valueMissing (h : v.Lacks "value") : Wrong v [.member "value"] .missing
  | valueObject (members : List (String × Json))
      (h : v.at? [.member "value"] = some (.object members)) :
      Wrong v [.member "value"] .objectValue
  | elementNull (i : Nat) (h : v.at? [.member "value", .element i] = some .null) :
      Wrong v [.member "value", .element i] .missing
  | elementArray (i : Nat) (items : List Json)
      (h : v.at? [.member "value", .element i] = some (.array items)) :
      Wrong v [.member "value", .element i] .compoundElement
  | elementObject (i : Nat) (members : List (String × Json))
      (h : v.at? [.member "value", .element i] = some (.object members)) :
      Wrong v [.member "value", .element i] .compoundElement

/-- The paths from a criterion to those below it, and to itself. -/
inductive Descends : Path → Prop
  | here : Descends []
  | child (name : String) (h : name = "and" ∨ name = "or") (i : Nat) {p : Path} (hp : Descends p) :
      Descends (.member name :: .element i :: p)

/-- What is wrong with a criterion as sent or with one below it. -/
def WrongWithin (v : Json) (path : Path) (fault : Fault) : Prop :=
  ∃ node own w, path = node ++ own ∧ Descends node ∧ v.at? node = some w ∧ w.Wrong own fault

end Json
open Json

/-- What may be wrong, and where. -/
abbrev Problems := Path → Fault → Prop

/-- Some issues report just these problems, each once and in order, where the paths of problems go
on from a place. -/
def Reports (issues : List Issue) (place : String) (problems : Problems) : Prop :=
  ∃ found : List (Path × Fault),
    issues = found.map (fun x => ⟨place ++ x.1.text, x.2.message⟩) ∧
    found.Pairwise (fun x y => x.1.Before y.1) ∧
    ∀ path fault, (path, fault) ∈ found ↔ problems path fault

/-- The problems of values that stand one after the other, the first with the index `i`. -/
def ofElements (problems : Json → Problems) (i : Nat) (vs : List Json) : Problems :=
  fun path fault =>
    ∃ k w rest, vs[k]? = some w ∧ path = .element (i + k) :: rest ∧ problems w rest fault

namespace Reports
variable {issues more : List Issue} {place : String} {ps qs : Problems} {fault : Fault}

theorem congr (h : Reports issues place ps) (hiff : ∀ path fault, ps path fault ↔ qs path fault) :
    Reports issues place qs := by
  obtain ⟨found, hissues, hsorted, hmem⟩ := h
  exact ⟨found, hissues, hsorted, fun path fault => (hmem path fault).trans (hiff path fault)⟩

theorem nil (h : ∀ path fault, ¬ ps path fault) : Reports [] place ps :=
  ⟨[], rfl, .nil, fun path fault => by simp [h]⟩

theorem single (fault : Fault) (h : ∀ path f, ps path f ↔ path = [] ∧ f = fault) :
    Reports [⟨place, fault.message⟩] place ps :=
  ⟨[([], fault)], by simp [Path.text], List.pairwise_singleton _ _, fun path f => by simp [h]⟩

/-- What is reported after something else comes after it. -/
theorem append (h : Reports issues place ps) (h' : Reports more place qs)
    (horder : ∀ p f q g, ps p f → qs q g → Path.Before p q) :
    Reports (issues ++ more) place fun path fault => ps path fault ∨ qs path fault := by
  obtain ⟨found, rfl, hsorted, hmem⟩ := h
  obtain ⟨found', rfl, hsorted', hmem'⟩ := h'
  refine ⟨found ++ found', List.map_append.symm, ?_, fun path fault => ?_⟩
  · refine List.pairwise_append.mpr ⟨hsorted, hsorted', ?_⟩
    rintro ⟨p, f⟩ hp ⟨q, g⟩ hq
    exact horder p f q g ((hmem p f).mp hp) ((hmem' q g).mp hq)
  · rw [List.mem_append, hmem, hmem']

/-- A report on a part is a report on the whole, at the place of the part. -/
theorem step {s : Step} (h : Reports issues (place ++ s.text) ps) :
    Reports issues place fun path fault => ∃ rest, path = s :: rest ∧ ps rest fault := by
  obtain ⟨found, rfl, hsorted, hmem⟩ := h
  refine ⟨found.map fun x => (s :: x.1, x.2), ?_, ?_, fun path fault => ?_⟩
  · simp [Path.text, String.append_assoc, Function.comp_def]
  · exact List.pairwise_map.mpr (hsorted.imp fun hbefore => Path.before_cons hbefore s)
  · simp only [List.mem_map, Prod.mk.injEq, Prod.exists, ← hmem]
    constructor
    · rintro ⟨rest, f, hrest, rfl, rfl⟩
      exact ⟨rest, rfl, hrest⟩
    · rintro ⟨rest, rfl, hrest⟩
      exact ⟨rest, fault, hrest, rfl, rfl⟩

theorem elements_nil {problems : Json → Problems} {i : Nat} :
    Reports [] place (ofElements problems i []) :=
  nil fun path fault => by simp [ofElements]

theorem elements_cons {problems : Json → Problems} {i : Nat} {v : Json} {vs : List Json}
    (h : Reports issues s!"{place}[{i}]" (problems v))
    (h' : Reports more place (ofElements problems (i + 1) vs)) :
    Reports (issues ++ more) place (ofElements problems i (v :: vs)) := by
  rw [← Step.append_text_element] at h
  refine (h.step.append h' ?_).congr fun path fault => ?_
  · rintro _ f _ g ⟨rest, rfl, -⟩ ⟨k, w, rest', -, rfl, -⟩
    have hbefore : (Step.element i).Before (.element (i + 1 + k)) := by
      rw [Step.Before]
      omega
    exact Path.before_of_step hbefore rest rest'
  · constructor
    · rintro (⟨rest, rfl, hrest⟩ | ⟨k, w, rest, hw, rfl, hrest⟩)
      · exact ⟨0, v, rest, rfl, rfl, hrest⟩
      · exact ⟨k + 1, w, rest, hw, by rw [Nat.add_assoc, Nat.add_comm 1 k], hrest⟩
    · rintro ⟨k, w, rest, hw, rfl, hrest⟩
      cases k with
      | zero =>
        obtain rfl := Option.some.inj hw
        exact .inl ⟨rest, rfl, hrest⟩
      | succ k => exact .inr ⟨k, w, rest, hw, by rw [Nat.add_assoc, Nat.add_comm 1 k], hrest⟩

/-- The reports on some members, one after the other in the order of a criterion's fields. -/
theorem members {parts : List (String × List Issue × Problems)}
    (h : ∀ x ∈ parts, Reports x.2.1 (place ++ "." ++ x.1) x.2.2)
    (hsorted : (parts.map Prod.fst).Pairwise fun m n => fieldNames.idxOf m < fieldNames.idxOf n) :
    Reports (parts.flatMap fun x => x.2.1) place fun path fault =>
      ∃ x ∈ parts, ∃ rest, path = .member x.1 :: rest ∧ x.2.2 rest fault := by
  induction parts with
  | nil => exact nil fun path fault => by simp
  | cons x parts ih =>
    obtain ⟨hx, hparts⟩ := List.forall_mem_cons.mp h
    obtain ⟨hfirst, hrest⟩ := List.pairwise_cons.mp hsorted
    rw [List.forall_mem_map] at hfirst
    have hstep := step (s := .member x.1) (String.append_assoc ▸ hx)
    refine (hstep.append (ih hparts hrest) ?_).congr fun path fault => by simp
    rintro _ f _ g ⟨rest, rfl, -⟩ ⟨y, hy, rest', rfl, -⟩
    have hbefore : (Step.member x.1).Before (.member y.1) := hfirst y hy
    exact Path.before_of_step hbefore rest rest'

end Reports
namespace Operand

/-- What is wrong with an element of a list. -/
def itemProblems (v : Json) : Problems := fun path fault =>
  path = [] ∧ ((v = .null ∧ fault = .missing) ∨
    ((∃ items, v = .array items) ∨ ∃ members, v = .object members) ∧ fault = .compoundElement)

/-- What is wrong with a value. -/
def problems : Json → Problems
  | .array items => ofElements itemProblems 0 items
  | .null => fun path fault => path = [] ∧ fault = .missing
  | .object _ => fun path fault => path = [] ∧ fault = .objectValue
  | .text _ | .number _ | .bool _ => fun _ _ => False

theorem reports_checkItem (place : String) (v : Json) :
    Reports (checkItem place v).1 place (itemProblems v) := by
  cases v with
  | null => exact .single .missing fun path f => by simp [itemProblems]
  | array items => exact .single .compoundElement fun path f => by simp [itemProblems]
  | object members => exact .single .compoundElement fun path f => by simp [itemProblems]
  | text | number | bool => exact .nil fun path f => by simp [itemProblems]

theorem reports_checkItems (place : String) (i : Nat) (vs : List Json) :
    Reports (checkItems place i vs).1 place (ofElements itemProblems i vs) := by
  induction vs generalizing i with
  | nil => exact .elements_nil
  | cons v vs ih => exact .elements_cons (reports_checkItem _ v) (ih (i + 1))

theorem reports_check (place : String) (v : Json) :
    Reports (check place v).1 place (problems v) := by
  cases v with
  | array items => exact reports_checkItems place 0 items
  | null => exact .single .missing fun path f => Iff.rfl
  | object members => exact .single .objectValue fun path f => Iff.rfl
  | text | number | bool => exact .nil fun path f => id

end Operand

namespace Draft

def keyProblems (key : Option String) : Problems := fun path fault =>
  path = [] ∧ ((key = none ∧ fault = .missing) ∨
    ∃ s, key = some s ∧ Text.blank s = true ∧ fault = .blankKey)

def operationProblems (operation : Option String) : Problems := fun path fault =>
  path = [] ∧ ((operation = none ∧ fault = .missing) ∨
    ∃ s, operation = some s ∧ (∀ o : Operation, o.name ≠ s) ∧ fault = .unknownOperation s)

def valueProblems : Option Json → Problems
  | none => fun path fault => path = [] ∧ fault = .missing
  | some v => Operand.problems v

theorem reports_checkKey (place : String) (key : Option String) :
    Reports (checkKey place key).1 place (keyProblems key) := by
  cases key with
  | none => exact .single .missing fun path f => by simp [keyProblems]
  | some s =>
    rw [checkKey]
    split
    next hblank => exact .single .blankKey fun path f => by simp [keyProblems, hblank]
    next hblank => exact .nil fun path f => by simp [keyProblems, hblank]

theorem reports_checkOperation (place : String) (operation : Option String) :
    Reports (checkOperation place operation).1 place (operationProblems operation) := by
  cases operation with
  | none => exact .single .missing fun path f => by simp [operationProblems]
  | some s =>
    rw [checkOperation]
    split
    next o ho =>
      have hname := Operation.ofName?_eq_some_iff.mp ho
      refine .nil fun path f => ?_
      rintro ⟨-, ⟨h, -⟩ | ⟨s', hs, hunknown, -⟩⟩
      · cases h
      · exact hunknown o (hname.trans (Option.some.inj hs))
    next ho =>
      have hunknown : ∀ o : Operation, o.name ≠ s := by
        rintro o rfl
        simp [Operation.ofName?_name] at ho
      refine .single (.unknownOperation s) fun path f => ?_
      simp only [operationProblems, reduceCtorEq, false_and, false_or, Option.some.injEq,
        exists_eq_left']
      simp [hunknown]

theorem reports_checkValue (place : String) (value : Option Json) :
    Reports (checkValue place value).1 place (valueProblems value) := by
  cases value with
  | none => exact .single .missing fun path f => Iff.rfl
  | some v => exact Operand.reports_check place v

end Draft
namespace Json
variable {v : Json} {path : Path} {fault : Fault}

section Object
variable (h : ∃ members, v = .object members)
include h

theorem said_eq_of_object (name : String) :
    v.said name = (v.at? [.member name]).bind Draft.present := by
  obtain ⟨members, rfl⟩ := h
  rw [at?_singleton]
  rfl

theorem said_eq_none_iff {name : String} : v.said name = none ↔ v.Lacks name := by
  rw [said_eq_of_object h, Lacks]
  cases v.at? [.member name] with
  | none => simp
  | some w => cases w <;> simp [Draft.present]

theorem said_eq_some_iff (name : String) (w : Json) :
    v.said name = some w ↔ v.at? [.member name] = some w ∧ w ≠ .null := by
  rw [said_eq_of_object h]
  cases v.at? [.member name] with
  | none => simp
  | some u => cases u <;> simp [Draft.present] <;> rintro rfl <;> simp

theorem getElem?_listed_eq_some_iff (name : String) (i : Nat) (w : Json) :
    (listed (v.said name))[i]? = some w ↔ v.at? [.member name, .element i] = some w := by
  have hsplit := v.at?_append [.member name] [.element i]
  rw [said_eq_of_object h,
    show [Step.member name, .element i] = [.member name] ++ [.element i] from rfl, hsplit]
  cases v.at? [.member name] with
  | none => simp [listed]
  | some u => cases u <;> simp [Draft.present, listed, step?]

end Object

theorem wrongWithin_iff : v.WrongWithin path fault ↔ v.Wrong path fault ∨
    ∃ name, (name = "and" ∨ name = "or") ∧ ∃ i w rest, v.at? [.member name, .element i] = some w ∧
      path = .member name :: .element i :: rest ∧ w.WrongWithin rest fault := by
  constructor
  · rintro ⟨node, own, w, rfl, hnode, hw, hwrong⟩
    cases hnode with
    | here =>
      obtain rfl := Option.some.inj hw
      exact .inl hwrong
    | child name hname i hp =>
      rename_i p
      have hsplit := v.at?_append [.member name, .element i] p
      obtain ⟨u, hu, hp'⟩ := Option.bind_eq_some_iff.mp (hsplit.symm.trans hw)
      exact .inr ⟨name, hname, i, u, p ++ own, hu, rfl, p, own, w, rfl, hp, hp', hwrong⟩
  · rintro (hwrong | ⟨name, hname, i, u, rest, hu, rfl, node, own, w, rfl, hnode, hw, hwrong⟩)
    · exact ⟨[], path, v, rfl, .here, rfl, hwrong⟩
    · refine ⟨.member name :: .element i :: node, own, w, rfl, .child name hname i hnode, ?_,
        hwrong⟩
      have hsplit := v.at?_append [.member name, .element i] node
      rw [hu] at hsplit
      exact hsplit.trans hw

end Json
namespace Draft
variable {d : Draft} {v : Json} {path : Path} {fault : Fault}

/-- What is wrong with a value, in terms of the value alone. -/
theorem valueProblems_iff {x : Option Json} (hx : x ≠ some .null) : valueProblems x path fault ↔
    (path = [] ∧ x = none ∧ fault = .missing) ∨
      (path = [] ∧ (∃ members, x = some (.object members)) ∧ fault = .objectValue) ∨
      ∃ i w rest, (listed x)[i]? = some w ∧ path = .element i :: rest ∧
        Operand.itemProblems w rest fault := by
  cases x with
  | none => simp [valueProblems, listed]
  | some w =>
    cases w with
    | null => exact absurd rfl hx
    | array items => simp [valueProblems, Operand.problems, ofElements, listed]
    | object members => simp [valueProblems, Operand.problems, listed]
    | text | number | bool => simp [valueProblems, Operand.problems, listed]

section Fields
variable (h : ∃ members, v = .object members)
include h

/-- What is read of a text field, and what is at its place. -/
theorem text_field {name : String} {x : Option String} (hx : v.said name = x.map .text) :
    (x = none ↔ v.Lacks name) ∧
      ∀ s, x = some s ↔ v.at? [.member name] = some (.text s) := by
  constructor
  · rw [← said_eq_none_iff h, hx, Option.map_eq_none_iff]
  · intro s
    have hsaid := said_eq_some_iff h name (.text s)
    simpa [hx] using hsaid

theorem value_field {x : Option Json} (hx : v.said "value" = x) :
    x ≠ some .null ∧ (x = none ↔ v.Lacks "value") ∧
      ∀ members, x = some (.object members) ↔ v.at? [.member "value"] = some (.object members) := by
  subst hx
  refine ⟨fun hnull => ((said_eq_some_iff h "value" .null).mp hnull).2 rfl, said_eq_none_iff h,
    fun members => ?_⟩
  simpa using said_eq_some_iff h "value" (.object members)

/-- What is wrong with a criterion is what is wrong with its fields. -/
theorem wrong_iff_fields (hreads : d.Reads v.said) : v.Wrong path fault ↔
    (∃ rest, path = .member "key" :: rest ∧ keyProblems d.key rest fault) ∨
      (∃ rest, path = .member "operation" :: rest ∧ operationProblems d.operation rest fault) ∨
      ∃ rest, path = .member "value" :: rest ∧ valueProblems d.value rest fault := by
  obtain ⟨hkey, hkeyText⟩ := text_field h hreads.key
  obtain ⟨hoperation, hoperationText⟩ := text_field h hreads.operation
  obtain ⟨hvalue, hlacks, hobject⟩ := value_field h hreads.value
  have helement (i : Nat) (w : Json) := getElem?_listed_eq_some_iff h "value" i w
  rw [hreads.value] at helement
  simp only [valueProblems_iff hvalue, keyProblems, operationProblems, hkey, hkeyText, hoperation,
    hoperationText, hlacks, hobject, helement]
  constructor
  · intro hwrong
    cases hwrong with
    | keyMissing hmissing => exact .inl ⟨[], rfl, rfl, .inl ⟨hmissing, rfl⟩⟩
    | keyBlank s hs hblank => exact .inl ⟨[], rfl, rfl, .inr ⟨s, hs, hblank, rfl⟩⟩
    | operationMissing hmissing => exact .inr (.inl ⟨[], rfl, rfl, .inl ⟨hmissing, rfl⟩⟩)
    | operationUnknown s hs hunknown =>
      exact .inr (.inl ⟨[], rfl, rfl, .inr ⟨s, hs, hunknown, rfl⟩⟩)
    | valueMissing hmissing => exact .inr (.inr ⟨[], rfl, .inl ⟨rfl, hmissing, rfl⟩⟩)
    | valueObject members hmembers =>
      exact .inr (.inr ⟨[], rfl, .inr (.inl ⟨rfl, ⟨members, hmembers⟩, rfl⟩)⟩)
    | elementNull i hi =>
      exact .inr (.inr ⟨_, rfl, .inr (.inr ⟨i, _, [], hi, rfl, rfl, .inl ⟨rfl, rfl⟩⟩)⟩)
    | elementArray i items hi =>
      exact .inr (.inr ⟨_, rfl, .inr (.inr ⟨i, _, [], hi, rfl, rfl,
        .inr ⟨.inl ⟨items, rfl⟩, rfl⟩⟩)⟩)
    | elementObject i members hi =>
      exact .inr (.inr ⟨_, rfl, .inr (.inr ⟨i, _, [], hi, rfl, rfl,
        .inr ⟨.inr ⟨members, rfl⟩, rfl⟩⟩)⟩)
  · rintro (⟨_, rfl, rfl, ⟨hmissing, rfl⟩ | ⟨s, hs, hblank, rfl⟩⟩ |
      ⟨_, rfl, rfl, ⟨hmissing, rfl⟩ | ⟨s, hs, hunknown, rfl⟩⟩ |
      ⟨_, rfl, ⟨rfl, hmissing, rfl⟩ | ⟨rfl, ⟨members, hmembers⟩, rfl⟩ |
        ⟨i, w, _, hi, rfl, rfl, ⟨rfl, rfl⟩ | ⟨⟨items, rfl⟩ | ⟨members, rfl⟩, rfl⟩⟩⟩)
    · exact .keyMissing hmissing
    · exact .keyBlank s hs hblank
    · exact .operationMissing hmissing
    · exact .operationUnknown s hs hunknown
    · exact .valueMissing hmissing
    · exact .valueObject members hmembers
    · exact .elementNull i hi
    · exact .elementArray i items hi
    · exact .elementObject i members hi

/-- What is wrong with a criterion or below it, field by field. -/
theorem wrongWithin_iff_fields (hreads : d.Reads v.said) : v.WrongWithin path fault ↔
    (∃ rest, path = .member "key" :: rest ∧ keyProblems d.key rest fault) ∨
      (∃ rest, path = .member "operation" :: rest ∧ operationProblems d.operation rest fault) ∨
      (∃ rest, path = .member "value" :: rest ∧ valueProblems d.value rest fault) ∨
      (∃ rest, path = .member "and" :: rest ∧
        ofElements WrongWithin 0 (listed (v.said "and")) rest fault) ∨
      ∃ rest, path = .member "or" :: rest ∧
        ofElements WrongWithin 0 (listed (v.said "or")) rest fault := by
  have hbelow (name : String) : (∃ rest, path = .member name :: rest ∧
      ofElements WrongWithin 0 (listed (v.said name)) rest fault) ↔
      ∃ i w rest, v.at? [.member name, .element i] = some w ∧
        path = .member name :: .element i :: rest ∧ w.WrongWithin rest fault := by
    simp only [ofElements, getElem?_listed_eq_some_iff h, Nat.zero_add]
    constructor
    · rintro ⟨_, rfl, i, w, rest, hw, rfl, hwrong⟩
      exact ⟨i, w, rest, hw, rfl, hwrong⟩
    · rintro ⟨i, w, rest, hw, rfl, hwrong⟩
      exact ⟨_, rfl, i, w, rest, hw, rfl, hwrong⟩
  rw [wrongWithin_iff, wrong_iff_fields h hreads, hbelow, hbelow]
  simp only [or_and_right, exists_or, exists_eq_left, or_assoc]

end Fields

mutual
/-- Checking a criterion reports what is wrong with it or below it, at paths that go on from its
place. -/
theorem reports_check (place : String) : ∀ (d : Draft) {v : Json}, ofJson v = .ok d →
    (∀ u ∈ v.nodes, ∃ members, u = .object members) →
    Reports (check place d).1 place v.WrongWithin
  | ⟨key, operation, value, allOf, anyOf, label⟩, v, h, hobjects => by
    have hreads := reads_of_ofJson h
    obtain ⟨hobject, hand, hor⟩ := forall_mem_nodes.mp hobjects
    let parts : List (String × List Issue × Problems) :=
      [("key", (checkKey (place ++ ".key") key).1, keyProblems key),
        ("operation", (checkOperation (place ++ ".operation") operation).1,
          operationProblems operation),
        ("value", (checkValue (place ++ ".value") value).1, valueProblems value),
        ("and", (checkChildren (place ++ ".and") allOf).1,
          ofElements WrongWithin 0 (listed (v.said "and"))),
        ("or", (checkChildren (place ++ ".or") anyOf).1,
          ofElements WrongWithin 0 (listed (v.said "or")))]
    have hparts : ∀ x ∈ parts, Reports x.2.1 (place ++ "." ++ x.1) x.2.2 := by
      simp only [parts, List.forall_mem_cons, String.append_assoc]
      exact ⟨reports_checkKey _ key, reports_checkOperation _ operation, reports_checkValue _ value,
        reports_checkChildren _ allOf hreads.allOf hand,
        reports_checkChildren _ anyOf hreads.anyOf hor, List.forall_mem_nil _⟩
    have hsorted : ["key", "operation", "value", "and", "or"].Pairwise fun m n =>
        fieldNames.idxOf m < fieldNames.idxOf n := by decide
    have hissues : (check place ⟨key, operation, value, allOf, anyOf, label⟩).1 =
        parts.flatMap fun x => x.2.1 := by simp [parts, check]
    rw [hissues]
    -- a fault in one field keeps no other field from being checked
    refine (Reports.members hparts hsorted).congr fun path fault => ?_
    rw [wrongWithin_iff_fields hobject hreads]
    simp [parts]
theorem reports_checkChildren (place : String) : ∀ (ds : Option (List Draft)) {vs : List Json},
    ofList vs = .ok (ds.getD []) →
    (∀ u ∈ vs.flatMap nodes, ∃ members, u = .object members) →
    Reports (checkChildren place ds).1 place (ofElements WrongWithin 0 vs)
  | none, vs, h, hobjects => reports_checkList place 0 [] h hobjects
  | some ds, vs, h, hobjects => reports_checkList place 0 ds h hobjects
theorem reports_checkList (place : String) (i : Nat) : ∀ (ds : List Draft) {vs : List Json},
    ofList vs = .ok ds → (∀ u ∈ vs.flatMap nodes, ∃ members, u = .object members) →
    Reports (checkList place i ds).1 place (ofElements WrongWithin i vs)
  | [], vs, h, _ => by
    obtain rfl := ofList_eq_nil h
    exact .elements_nil
  | d :: ds, vs, h, hobjects => by
    obtain ⟨w, ws, rfl, hd, hds⟩ := ofList_eq_cons h
    obtain ⟨hw, hws⟩ := List.forall_mem_append.mp (List.flatMap_cons ▸ hobjects)
    exact .elements_cons (reports_check _ d hd hw) (reports_checkList place (i + 1) ds hds hws)
end

end Draft
namespace Json

theorem Wrong.describes {v : Json} {path : Path} {fault : Fault} (h : v.Wrong path fault) :
    fault.Describes (v.at? path) := by
  cases h with
  | keyMissing h | operationMissing h | valueMissing h => exact h
  | keyBlank s h blank => exact ⟨s, h, blank⟩
  | operationUnknown s h unknown => exact ⟨h, unknown⟩
  | valueObject members h => exact ⟨members, h⟩
  | elementNull i h => exact .inr h
  | elementArray i items h => exact .inl ⟨items, h⟩
  | elementObject i members h => exact .inr ⟨members, h⟩

/-- The names on the way to a problem are those of a criterion's fields. -/
theorem Wrong.plain {v : Json} {path : Path} {fault : Fault} (h : v.Wrong path fault) :
    ∀ s ∈ path, s.isPlain = true := by
  have hname : ∃ name ∈ fieldNames, path = [.member name] ∨
      ∃ i, path = [.member name, .element i] := by
    cases h <;> simp [fieldNames]
  obtain ⟨name, hmem, rfl | ⟨i, rfl⟩⟩ := hname
  · exact List.forall_mem_singleton.mpr (Step.isPlain_of_mem_fieldNames hmem)
  · exact List.forall_mem_cons.mpr ⟨Step.isPlain_of_mem_fieldNames hmem,
      List.forall_mem_singleton.mpr rfl⟩

theorem Descends.plain {path : Path} (h : Descends path) : ∀ s ∈ path, s.isPlain = true := by
  induction h with
  | here => exact List.forall_mem_nil _
  | child name h i _ ih =>
    have hmem : name ∈ fieldNames := by
      rcases h with rfl | rfl <;> decide
    exact List.forall_mem_cons.mpr ⟨Step.isPlain_of_mem_fieldNames hmem,
      List.forall_mem_cons.mpr ⟨rfl, ih⟩⟩

end Json

namespace Forest

theorem ofJson_eq_error_iff {items : List Json} {drafts : List Draft}
    (h : Draft.ofList items = .ok drafts) (issues : List Issue) :
    ofJson (.array items) = .error issues ↔
      (Draft.checkList "" 0 drafts).1 ≠ [] ∧ issues = (Draft.checkList "" 0 drafts).1 := by
  simp only [ofJson, Draft.ofBody, h, ofDrafts]
  cases hcheck : Draft.checkList "" 0 drafts with
  | mk found forest => cases found <;> simp [eq_comm]

/-- Where the criteria of a body are written as objects, the issues are the problems of all of them,
each once, at its place and in the order of the body. Whether something is a problem at a place is
up to the criterion there alone. The field of an issue can be read back as a path, and no two are
the same; it leads to what is wrong. -/
theorem ofJson_reports (items : List Json)
    (hdecodes : ∃ drafts, Draft.ofBody (.array items) = .ok drafts)
    (hobjects : ∀ v ∈ items.flatMap Json.nodes, ∃ members, v = .object members) :
    ∃ problems : List (Path × Fault),
      (∀ issues, ofJson (.array items) = .error issues ↔
        problems ≠ [] ∧ issues = problems.map fun x => ⟨x.1.text, x.2.message⟩) ∧
      (∀ path fault, (path, fault) ∈ problems ↔
        ∃ i node own v, path = .element i :: (node ++ own) ∧ Descends node ∧
          (Json.array items).at? (.element i :: node) = some v ∧ v.Wrong own fault) ∧
      problems.Pairwise (fun x y => x.1.Before y.1) ∧
      (problems.map fun x => x.1.text).Nodup ∧
      ∀ x ∈ problems, Path.read? x.1.text = some x.1 ∧
        x.2.Describes ((Json.array items).at? x.1) := by
  obtain ⟨drafts, hdrafts⟩ := hdecodes
  obtain ⟨problems, hissues, hsorted, hmem⟩ :=
    Draft.reports_checkList "" 0 drafts hdrafts hobjects
  have hplaces : ∀ path fault, (path, fault) ∈ problems ↔
      ∃ i node own v, path = .element i :: (node ++ own) ∧ Descends node ∧
        (Json.array items).at? (.element i :: node) = some v ∧ v.Wrong own fault := by
    intro path fault
    have hfirst (k : Nat) (node : Path) : (Json.array items).at? (.element k :: node) =
        items[k]?.bind fun w => w.at? node := rfl
    rw [hmem]
    simp only [hfirst, Option.bind_eq_some_iff]
    constructor
    · rintro ⟨k, w, _, hw, rfl, node, own, v, rfl, hnode, hv, hwrong⟩
      exact ⟨k, node, own, v, by rw [Nat.zero_add], hnode, ⟨w, hw, hv⟩, hwrong⟩
    · rintro ⟨k, node, own, v, rfl, hnode, ⟨w, hw, hv⟩, hwrong⟩
      exact ⟨k, w, _, hw, by rw [Nat.zero_add], node, own, v, rfl, hnode, hv, hwrong⟩
  have hread : ∀ x ∈ problems, Path.read? x.1.text = some x.1 := by
    rintro ⟨path, fault⟩ hx
    obtain ⟨i, node, own, v, rfl, hnode, -, hwrong⟩ := (hplaces path fault).mp hx
    apply Path.read?_text
    exact List.forall_mem_cons.mpr ⟨rfl, List.forall_mem_append.mpr
      ⟨hnode.plain, hwrong.plain⟩⟩
  refine ⟨problems, ?_, hplaces, hsorted, ?_, fun x hx => ⟨hread x hx, ?_⟩⟩
  · intro issues
    rw [ofJson_eq_error_iff hdrafts, hissues]
    simp
  · refine List.pairwise_map.mpr (hsorted.imp_of_mem fun {x y} hx hy hbefore htext => ?_)
    have hsame : some x.1 = some y.1 := by rw [← hread x hx, htext, hread y hy]
    exact Path.Before.irrefl y.1 (Option.some.inj hsame ▸ hbefore)
  · obtain ⟨i, node, own, v, hx', -, hv, hwrong⟩ := (hplaces x.1 x.2).mp hx
    have hsplit := (Json.array items).at?_append (.element i :: node) own
    rw [hx', ← List.cons_append, hsplit, hv]
    exact hwrong.describes

end Forest
/-- The outer criterion has a blank key and an unknown operation, an element of its value is null
and another one an array; the one below it has no key, and an object for its value. -/
def brokenItems : List Json :=
  [.object [("and", .array [.object [("operation", .text "EQUALS"), ("value", .object [])]]),
    ("key", .text " "), ("operation", .text "BETWEEN"),
    ("value", .array [.text "a", .null, .array []])]]

def brokenIssues : List Issue :=
  [⟨"[0].key", "Key must not be blank"⟩, ⟨"[0].operation", "Unknown operation 'BETWEEN'"⟩,
    ⟨"[0].value[1]", "This field is required"⟩,
    ⟨"[0].value[2]", "Array elements must be strings, numbers or booleans"⟩,
    ⟨"[0].and[0].key", "This field is required"⟩,
    ⟨"[0].and[0].value", "Objects are not supported as filter values"⟩]

theorem ofJson_reports_broken :
    (∃ drafts, Draft.ofBody (.array brokenItems) = .ok drafts) ∧
    (∀ v ∈ brokenItems.flatMap Json.nodes, ∃ members, v = .object members) ∧
    Forest.ofJson (.array brokenItems) = .error brokenIssues ∧
    (brokenIssues.map Issue.field).Nodup ∧
    ∀ issue ∈ brokenIssues, ∃ path, ∃ fault : Fault, Path.read? issue.field = some path ∧
      fault.message = issue.message ∧ fault.Describes ((Json.array brokenItems).at? path) := by
  have hdecodes : ∃ drafts, Draft.ofBody (.array brokenItems) = .ok drafts := ⟨_, rfl⟩
  have hobjects : ∀ v ∈ brokenItems.flatMap Json.nodes, ∃ members, v = .object members := by
    simp [brokenItems, nodes_eq, said, Json.members, Draft.present, listed, List.lookup_cons]
  have herror : Forest.ofJson (.array brokenItems) = .error brokenIssues := by rfl
  obtain ⟨problems, hissues, -, -, hnodup, hread⟩ :=
    Forest.ofJson_reports brokenItems hdecodes hobjects
  obtain ⟨-, heq⟩ := (hissues brokenIssues).mp herror
  refine ⟨hdecodes, hobjects, herror, ?_, ?_⟩
  · rw [heq, List.map_map]
    exact hnodup
  · rw [heq, List.forall_mem_map]
    intro x hx
    exact ⟨x.1, x.2, (hread x hx).1, rfl, (hread x hx).2⟩

end EntitySearch
