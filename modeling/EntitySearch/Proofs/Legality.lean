import EntitySearch.Criterion.Check
import EntitySearch.Proofs.Composition
import Mathlib.Data.List.Forall2
import Mathlib.Logic.Function.Basic
import Mathlib.Tactic.MkIffOfInductiveProp
/-!
Legal request bodies. What a body says is read off its JSON alone; checking accepts the legal bodies
and no others, and the criteria it gives mirror the body node by node.
-/
namespace EntitySearch

namespace Json

/-- The fields of a criterion, in the order in which an array gives them. -/
def fieldNames : List String := ["key", "operation", "value", "and", "or", "alias"]

def members : Json → List (String × Json)
  | object members => members
  | array items => fieldNames.zip items
  | _ => []

/-- A criterion is sent as an object or as an array of all its fields. -/
def hasFields : Json → Prop
  | object _ => True
  | array items => items.length = fieldNames.length
  | _ => False

/-- Whether the fields of a criterion as sent, and of those below it, are of their types. A field
may be null, and of a value anything may be sent. -/
inductive Typed : Json → Prop
  | node (v : Json) (fields : v.hasFields)
      (texts : ∀ m ∈ v.members, m.1 ∈ ["key", "operation", "alias"] →
        m.2 = null ∨ ∃ s, m.2 = text s)
      (lists : ∀ m ∈ v.members, m.1 ∈ ["and", "or"] → m.2 = null ∨ ∃ items, m.2 = array items)
      (below : ∀ m ∈ v.members, m.1 ∈ ["and", "or"] → ∀ items, m.2 = array items →
        ∀ w ∈ items, Typed w) : Typed v

/-- What a criterion as sent says under a name: of two members of that name the later counts, and
null says nothing. -/
def said (v : Json) (name : String) : Option Json :=
  (v.members.reverse.lookup name).bind Draft.present

/-- The elements of an array, and none where nothing is said. -/
def listed : Option Json → List Json
  | some (array items) => items
  | _ => []

/-- The criteria sent below a criterion, those of `and` before those of `or`. -/
def children (v : Json) : List Json := listed (v.said "and") ++ listed (v.said "or")

theorem mem_members_of_said {v w : Json} {name : String} (h : v.said name = some w) :
    ∃ m ∈ v.members, m.2 = w := by
  obtain ⟨u, hu, huw⟩ := Option.bind_eq_some_iff.mp h
  have hw : u = w := by
    cases u <;> simp_all [Draft.present]
  obtain ⟨l₁, l₂, hl, -⟩ := List.lookup_eq_some_iff.mp hu
  refine ⟨(name, u), ?_, hw⟩
  rw [← List.mem_reverse, hl]
  simp

theorem sizeOf_lt_of_mem_members {v : Json} {m : String × Json} (h : m ∈ v.members) :
    sizeOf m.2 < sizeOf v := by
  cases v with
  | object members =>
    have := List.sizeOf_lt_of_mem (show m ∈ members from h)
    cases m
    simp only [Prod.mk.sizeOf_spec, object.sizeOf_spec] at this ⊢
    omega
  | array items =>
    have := List.sizeOf_lt_of_mem (List.of_mem_zip (show m ∈ fieldNames.zip items from h)).2
    simp only [array.sizeOf_spec]
    omega
  | null | bool | number | text => simp [members] at h

theorem sizeOf_lt_of_mem_listed {v w : Json} {name : String} (h : w ∈ listed (v.said name)) :
    sizeOf w < sizeOf v := by
  cases hs : v.said name with
  | none => simp [hs, listed] at h
  | some u =>
    cases u with
    | array items =>
      obtain ⟨m, hm, hmu⟩ := mem_members_of_said hs
      have outer := sizeOf_lt_of_mem_members hm
      have inner := List.sizeOf_lt_of_mem (show w ∈ items by simpa [hs, listed] using h)
      simp only [hmu, array.sizeOf_spec] at outer
      omega
    | null | bool | number | text | object => simp [hs, listed] at h

/-- All criteria of a tree as sent, each before those below it. -/
def nodes (v : Json) : List Json :=
  v :: v.children.attach.flatMap fun w => nodes w.1
termination_by sizeOf v
decreasing_by
  rcases List.mem_append.mp w.2 with h | h <;> exact sizeOf_lt_of_mem_listed h

theorem nodes_eq (v : Json) :
    v.nodes =
      v :: ((listed (v.said "and")).flatMap nodes ++ (listed (v.said "or")).flatMap nodes) := by
  rw [nodes, List.flatMap_subtype (g := nodes) fun _ _ => rfl, List.unattach_attach, children,
    List.flatMap_append]

theorem forall_mem_nodes {v : Json} {p : Json → Prop} :
    (∀ u ∈ v.nodes, p u) ↔ p v ∧ (∀ u ∈ (listed (v.said "and")).flatMap nodes, p u) ∧
      ∀ u ∈ (listed (v.said "or")).flatMap nodes, p u := by
  rw [nodes_eq, List.forall_mem_cons, List.forall_mem_append]

/-- Values that criteria may have as an element of a list. -/
def isScalar : Json → Bool
  | text _ | number _ | bool _ => true
  | _ => false

def isLiteral : Json → Bool
  | array items => items.all isScalar
  | v => v.isScalar

/-- Whether a criterion as sent is complete and correct, apart from those below it. -/
@[mk_iff]
structure Legal (v : Json) : Prop where
  key : ∃ key, v.said "key" = some (.text key) ∧ Text.blank key = false
  operation : ∃ o : Operation, v.said "operation" = some (.text o.name)
  value : ∃ w, v.said "value" = some w ∧ w.isLiteral = true

end Json
open Json

namespace Operand

def SpellsItem : Operand → Json → Prop
  | text s, .text t => s = t
  | number n, .number m => n = m
  | bool a, .bool b => a = b
  | _, _ => False

/-- An operand and the value it was read from. -/
def Spells (x : Operand) : Json → Prop
  | .array vs => ∃ items, x = list items ∧ List.Forall₂ SpellsItem items vs
  | v => x.SpellsItem v

end Operand

namespace Criterion

mutual
/-- Criteria and what they were read from, field by field and node by node. -/
def Mirrors : Criterion → Json → Prop
  | ⟨key, operation, operand, allOf, anyOf, label⟩, v =>
    v.said "key" = some (.text key) ∧
    v.said "operation" = some (.text operation.name) ∧
    (∃ w, v.said "value" = some w ∧ operand.Spells w) ∧
    MirrorsAll allOf (listed (v.said "and")) ∧
    MirrorsAll anyOf (listed (v.said "or")) ∧
    ∀ a, label = some a ↔ v.said "alias" = some (.text a) ∧ Text.blank a = false
def MirrorsAll : List Criterion → List Json → Prop
  | [], [] => True
  | c :: cs, v :: vs => Mirrors c v ∧ MirrorsAll cs vs
  | _, _ => False
end

mutual
theorem Mirrors.size_eq : ∀ (c : Criterion) {v : Json}, c.Mirrors v → c.size = v.nodes.length
  | ⟨_, _, _, allOf, anyOf, _⟩, v, ⟨_, _, _, hall, hany, _⟩ => by
    rw [size, MirrorsAll.sizeAll_eq allOf hall, MirrorsAll.sizeAll_eq anyOf hany, nodes_eq]
    simp only [List.length_cons, List.length_append]
    omega
theorem MirrorsAll.sizeAll_eq : ∀ (cs : List Criterion) {vs : List Json}, MirrorsAll cs vs →
    sizeAll cs = (vs.flatMap nodes).length
  | [], [], _ => rfl
  | c :: cs, v :: vs, ⟨first, rest⟩ => by
    rw [sizeAll, Mirrors.size_eq c first, MirrorsAll.sizeAll_eq cs rest]
    simp
end

end Criterion

/-- A part of a body has a problem exactly if it is not legal, so that nothing is passed over in
silence; the value of a legal part is what it should be. -/
structure Checked.Exact {α : Type} (c : Checked α) (legal : Prop) (faithful : α → Prop) : Prop where
  issues_eq_nil_iff : c.1 = [] ↔ legal
  faithful : legal → faithful c.2

namespace Operand

theorem checkItem_exact (place : String) (v : Json) :
    (checkItem place v).Exact (v.isScalar = true) fun x => ∃ o, x = some o ∧ o.SpellsItem v := by
  cases v <;> exact ⟨by simp [checkItem, isScalar], by simp [checkItem, isScalar, SpellsItem]⟩

theorem checkItems_exact (place : String) (i : Nat) (vs : List Json) :
    (checkItems place i vs).Exact (vs.all isScalar = true) fun xs =>
      List.Forall₂ SpellsItem xs vs := by
  induction vs generalizing i with
  | nil => exact ⟨by simp [checkItems], fun _ => .nil⟩
  | cons v vs ih =>
    have first := checkItem_exact s!"{place}[{i}]" v
    have rest := ih (i + 1)
    constructor
    · simp only [checkItems, List.append_eq_nil_iff, first.issues_eq_nil_iff,
        rest.issues_eq_nil_iff, List.all_cons, Bool.and_eq_true]
    · intro h
      obtain ⟨hv, hvs⟩ := Bool.and_eq_true_iff.mp (List.all_cons ▸ h)
      obtain ⟨o, ho, hov⟩ := first.faithful hv
      simp only [checkItems, ho, Option.toList_some, List.singleton_append]
      exact .cons hov (rest.faithful hvs)

theorem check_exact (place : String) (v : Json) :
    (check place v).Exact (v.isLiteral = true) fun x => ∃ o, x = some o ∧ o.Spells v := by
  cases v with
  | array items =>
    have items := checkItems_exact place 0 items
    exact ⟨items.issues_eq_nil_iff, fun h => ⟨_, rfl, _, rfl, items.faithful h⟩⟩
  | object members => exact ⟨by simp [check, isLiteral, isScalar], by simp [isLiteral, isScalar]⟩
  | null => exact checkItem_exact place .null
  | bool b => exact checkItem_exact place (.bool b)
  | number n => exact checkItem_exact place (.number n)
  | text s => exact checkItem_exact place (.text s)

end Operand

namespace Draft

theorem checkKey_exact (place : String) (key : Option String) :
    (checkKey place key).Exact (∃ k, key = some k ∧ Text.blank k = false) fun x => x = key := by
  cases key with
  | none => exact ⟨by simp [checkKey], by simp⟩
  | some k => cases hk : Text.blank k <;> exact ⟨by simp [checkKey, hk], by simp [checkKey, hk]⟩

theorem checkOperation_exact (place : String) (name : Option String) :
    (checkOperation place name).Exact (∃ o : Operation, name = some o.name) fun x =>
      ∃ o, x = some o ∧ name = some o.name := by
  cases name with
  | none => exact ⟨by simp [checkOperation], by simp⟩
  | some n =>
    cases ho : Operation.ofName? n with
    | some o =>
      have named := (Operation.ofName?_eq_some_iff.mp ho).symm
      exact ⟨by simpa [checkOperation, ho] using ⟨o, named⟩, by simp [checkOperation, ho, ← named]⟩
    | none =>
      have unknown : ∀ o : Operation, n ≠ o.name := by
        rintro o rfl
        simp [Operation.ofName?_name] at ho
      exact ⟨by simp [checkOperation, ho, unknown], by simp [unknown]⟩

theorem checkValue_exact (place : String) (value : Option Json) :
    (checkValue place value).Exact (∃ w, value = some w ∧ w.isLiteral = true) fun x =>
      ∃ o w, x = some o ∧ value = some w ∧ o.Spells w := by
  cases value with
  | none => exact ⟨by simp [checkValue], by simp⟩
  | some w =>
    have checked := Operand.check_exact place w
    constructor
    · simpa [checkValue] using checked.issues_eq_nil_iff
    · rintro ⟨_, hv, hw⟩
      obtain rfl := Option.some.inj hv
      obtain ⟨o, ho, how⟩ := checked.faithful hw
      exact ⟨o, w, ho, rfl, how⟩

theorem exists_text_iff {v : Json} :
    (∃ x, Json.optional asText v = .ok x) ↔ v = .null ∨ ∃ s, v = .text s := by
  cases v <;> simp [Json.optional, asText, Except.map]

theorem exists_children_iff {v : Json} : (∃ x, children v = .ok x) ↔
    v = .null ∨ ∃ items, v = .array items ∧ ∃ ds, ofList items = .ok ds := by
  cases v <;> simp [children, map_eq_ok_iff]

/-- An array of criteria can be read if each of them can. -/
theorem exists_ofList_iff {vs : List Json} :
    (∃ ds, ofList vs = .ok ds) ↔ ∀ v ∈ vs, ∃ d, ofJson v = .ok d := by
  induction vs with
  | nil => simp [ofList]
  | cons v vs ih =>
    rw [List.forall_mem_cons, ← ih]
    simp [ofList, bind_eq_ok_iff]

/-- Whether a member can be read: members of other names are passed over. -/
def Readable (m : String × Json) : Prop :=
  (m.1 ∈ ["key", "operation", "alias"] → ∃ x, Json.optional asText m.2 = .ok x) ∧
    (m.1 ∈ ["and", "or"] → ∃ x, children m.2 = .ok x)

/-- Members are taken one after the other. -/
theorem ofMembers_cons (name : String) (v : Json) (rest : List (String × Json)) (d : Draft) :
    ofMembers ((name, v) :: rest) d = ofMembers [(name, v)] d >>= ofMembers rest := by
  simp only [ofMembers]
  split_ifs <;> first | rfl | (simp only [bind_assoc]; rfl)

theorem exists_ofMember_iff (name : String) (v : Json) (draft : Draft) :
    (∃ d, ofMembers [(name, v)] draft = .ok d) ↔ Readable (name, v) := by
  simp only [ofMembers, Readable]
  split_ifs with hkey hoperation hvalue hand hor hlabel <;> simp [bind_eq_ok_iff, *]

theorem exists_ofMembers_iff {members : List (String × Json)} {draft : Draft} :
    (∃ d, ofMembers members draft = .ok d) ↔ ∀ m ∈ members, Readable m := by
  induction members generalizing draft with
  | nil => simp [ofMembers]
  | cons m rest ih =>
    obtain ⟨name, v⟩ := m
    rw [List.forall_mem_cons, ← exists_ofMember_iff name v draft, ofMembers_cons]
    constructor
    · rintro ⟨d, h⟩
      obtain ⟨draft', first, h⟩ := bind_eq_ok_iff.mp h
      exact ⟨⟨draft', first⟩, ih.mp ⟨d, h⟩⟩
    · rintro ⟨⟨draft', first⟩, h⟩
      obtain ⟨d, h⟩ := ih.mpr h
      exact ⟨d, bind_eq_ok_iff.mpr ⟨draft', first, h⟩⟩

theorem ofItems_eq_ok {items : List Json} {d : Draft} (h : ofItems items = .ok d) :
    ∃ key operation value allOf anyOf label,
      items = [key, operation, value, allOf, anyOf, label] ∧
        Json.optional asText key = .ok d.key ∧ Json.optional asText operation = .ok d.operation ∧
        present value = d.value ∧ children allOf = .ok d.allOf ∧ children anyOf = .ok d.anyOf ∧
        Json.optional asText label = .ok d.label := by
  unfold ofItems at h
  split at h
  case h_7 key operation value allOf anyOf label rest =>
    obtain ⟨k, hk, h⟩ := bind_eq_ok_iff.mp h
    obtain ⟨o, ho, h⟩ := bind_eq_ok_iff.mp h
    obtain ⟨as, has, h⟩ := bind_eq_ok_iff.mp h
    obtain ⟨bs, hbs, h⟩ := bind_eq_ok_iff.mp h
    obtain ⟨l, hl, h⟩ := bind_eq_ok_iff.mp h
    split_ifs at h with hrest
    cases h
    obtain rfl := List.isEmpty_iff.mp hrest
    exact ⟨key, operation, value, allOf, anyOf, label, rfl, hk, ho, rfl, has, hbs, hl⟩
  all_goals simp [bind_eq_ok_iff] at h

theorem exists_ofItems_iff {items : List Json} : (∃ d, ofItems items = .ok d) ↔
    (array items).hasFields ∧ ∀ m ∈ (array items).members, Readable m := by
  constructor
  · rintro ⟨d, h⟩
    obtain ⟨key, operation, value, allOf, anyOf, label, rfl, hk, ho, -, has, hbs, hl⟩ :=
      ofItems_eq_ok h
    simp [hasFields, members, fieldNames, Readable, *]
  · rintro ⟨fields, readable⟩
    match items, fields with
    | [key, operation, value, allOf, anyOf, label], _ =>
      obtain ⟨⟨k, hk⟩, ⟨o, ho⟩, ⟨as, has⟩, ⟨bs, hbs⟩, ⟨l, hl⟩⟩ :
          (∃ x, Json.optional asText key = .ok x) ∧ (∃ x, Json.optional asText operation = .ok x) ∧
            (∃ x, children allOf = .ok x) ∧ (∃ x, children anyOf = .ok x) ∧
            ∃ x, Json.optional asText label = .ok x := by
        simpa [members, fieldNames, Readable] using readable
      exact ⟨⟨k, o, present value, as, bs, l⟩, by simp [ofItems, bind_eq_ok_iff, *]⟩

theorem exists_ofJson_iff {v : Json} : (∃ d, ofJson v = .ok d) ↔
    v.hasFields ∧ ∀ m ∈ v.members, Readable m := by
  cases v with
  | object members =>
    rw [ofJson, exists_ofMembers_iff]
    simp [hasFields, Json.members]
  | array items => exact exists_ofItems_iff
  | null | bool | number | text => simp [ofJson, hasFields]

theorem exists_ofJson_of_typed {v : Json} (h : v.Typed) : ∃ d, ofJson v = .ok d := by
  induction h with
  | node v fields texts lists below ih =>
    refine exists_ofJson_iff.mpr ⟨fields, fun m hm => ⟨?_, ?_⟩⟩
    · intro hname
      exact exists_text_iff.mpr (texts m hm hname)
    · intro hname
      rw [exists_children_iff]
      refine (lists m hm hname).imp_right ?_
      rintro ⟨items, hitems⟩
      exact ⟨items, hitems, exists_ofList_iff.mpr (ih m hm hname items hitems)⟩

theorem typed_of_ofJson {v : Json} (h : ∃ d, ofJson v = .ok d) : v.Typed := by
  obtain ⟨fields, readable⟩ := exists_ofJson_iff.mp h
  have lists (m : String × Json) (hm : m ∈ v.members) (hname : m.1 ∈ ["and", "or"]) :=
    exists_children_iff.mp ((readable m hm).2 hname)
  refine .node v fields (fun m hm hname => exists_text_iff.mp ((readable m hm).1 hname)) ?_ ?_
  · intro m hm hname
    refine (lists m hm hname).imp_right ?_
    rintro ⟨items, hitems, -⟩
    exact ⟨items, hitems⟩
  · intro m hm hname items hitems w hw
    rcases lists m hm hname with hnull | ⟨items', hitems', hds⟩
    · simp [hnull] at hitems
    · obtain rfl : items = items' := by simpa [hitems] using hitems'
      exact typed_of_ofJson (exists_ofList_iff.mp hds w hw)
termination_by sizeOf v
decreasing_by
  have outer := sizeOf_lt_of_mem_members hm
  have inner := List.sizeOf_lt_of_mem hw
  simp only [hitems, array.sizeOf_spec] at outer
  omega

/-- The bodies that can be decoded, whether their criteria are legal or not. -/
theorem exists_ofBody_iff {body : Json} : (∃ drafts, ofBody body = .ok drafts) ↔
    ∃ items, body = .array items ∧ ∀ v ∈ items, v.Typed := by
  cases body with
  | array items =>
    constructor
    · intro h
      exact ⟨items, rfl, fun v hv => typed_of_ofJson (exists_ofList_iff.mp h v hv)⟩
    · rintro ⟨items', h, typed⟩
      obtain rfl : items = items' := by simpa using h
      exact exists_ofList_iff.mpr fun v hv => exists_ofJson_of_typed (typed v hv)
  | null | bool | number | text | object => simp [ofBody]

/-- A draft and what it was read from, up to the drafts below it. -/
structure Reads (d : Draft) (said : String → Option Json) : Prop where
  key : said "key" = d.key.map .text
  operation : said "operation" = d.operation.map .text
  value : said "value" = d.value
  allOf : ofList (listed (said "and")) = .ok (d.allOf.getD [])
  anyOf : ofList (listed (said "or")) = .ok (d.anyOf.getD [])
  label : said "alias" = d.label.map .text

theorem reads_empty : empty.Reads fun _ => none := by
  constructor <;> rfl

theorem present_of_optional {v : Json} {x : Option String} (h : Json.optional asText v = .ok x) :
    present v = x.map .text := by
  cases v <;> cases h <;> rfl

theorem ofList_of_children {v : Json} {x : Option (List Draft)} (h : children v = .ok x) :
    ofList (listed (present v)) = .ok (x.getD []) := by
  cases v with
  | null => cases h; rfl
  | array items =>
    cases hd : ofList items with
    | error e => simp [children, hd, Except.map] at h
    | ok drafts =>
      simp only [children, hd, Except.map, Except.ok.injEq] at h
      simp [present, listed, hd, ← h]
  | bool | number | text | object => cases h

/-- What a member says replaces what was said under its name. -/
theorem Reads.member {d d' : Draft} {said : String → Option Json} {name : String} {v : Json}
    (hd : d.Reads said) (h : ofMembers [(name, v)] d = .ok d') :
    d'.Reads (Function.update said name (present v)) := by
  obtain ⟨key, operation, value, allOf, anyOf, label⟩ := hd
  simp only [ofMembers] at h
  split_ifs at h with hkey hoperation hvalue hand hor hlabel
  · obtain ⟨x, hx, h⟩ := bind_eq_ok_iff.mp h
    have := present_of_optional hx
    cases h
    constructor <;> simp [*]
  · obtain ⟨x, hx, h⟩ := bind_eq_ok_iff.mp h
    have := present_of_optional hx
    cases h
    constructor <;> simp [*]
  · cases h
    constructor <;> simp [*]
  · obtain ⟨x, hx, h⟩ := bind_eq_ok_iff.mp h
    have := ofList_of_children hx
    cases h
    constructor <;> simp [*]
  · obtain ⟨x, hx, h⟩ := bind_eq_ok_iff.mp h
    have := ofList_of_children hx
    cases h
    constructor <;> simp [*]
  · obtain ⟨x, hx, h⟩ := bind_eq_ok_iff.mp h
    have := present_of_optional hx
    cases h
    constructor <;> simp [*]
  · cases h
    have other : ∀ n ∈ fieldNames, Function.update said name (present v) n = said n := by
      intro n hn
      refine Function.update_of_ne ?_ _ _
      rintro rfl
      simp_all [fieldNames]
    constructor <;> rw [other _ (by decide)] <;> assumption

/-- Of two members of one name the later counts. -/
theorem reads_of_ofMembers {members : List (String × Json)} {draft d : Draft}
    {said : String → Option Json} (hd : draft.Reads said)
    (h : ofMembers members draft = .ok d) :
    d.Reads fun n => ((members.reverse.lookup n).map present).getD (said n) := by
  induction members generalizing draft said with
  | nil =>
    cases h
    simpa using hd
  | cons m rest ih =>
    obtain ⟨name, v⟩ := m
    rw [ofMembers_cons] at h
    obtain ⟨draft', first, h⟩ := bind_eq_ok_iff.mp h
    convert ih (hd.member first) h using 2 with n
    rw [List.reverse_cons, List.lookup_append]
    cases rest.reverse.lookup n with
    | some w => simp
    | none =>
      by_cases hn : n = name
      · simp [hn]
      · simp [List.lookup_cons, hn, beq_eq_false_iff_ne.mpr hn]

theorem reads_of_ofItems {items : List Json} {d : Draft} (h : ofItems items = .ok d) :
    d.Reads (array items).said := by
  obtain ⟨key, operation, value, allOf, anyOf, label, rfl, hk, ho, hv, has, hbs, hl⟩ :=
    ofItems_eq_ok h
  exact ⟨present_of_optional hk, present_of_optional ho, hv, ofList_of_children has,
    ofList_of_children hbs, present_of_optional hl⟩

theorem reads_of_ofJson {v : Json} {d : Draft} (h : ofJson v = .ok d) : d.Reads v.said := by
  cases v with
  | object members =>
    convert reads_of_ofMembers reads_empty h using 2 with n
    change (members.reverse.lookup n).bind present = _
    cases members.reverse.lookup n <;> rfl
  | array items => exact reads_of_ofItems h
  | null | bool | number | text => cases h

theorem ofList_eq_nil {vs : List Json} (h : ofList vs = .ok []) : vs = [] := by
  cases vs with
  | nil => rfl
  | cons w ws => simp [ofList, bind_eq_ok_iff] at h

theorem ofList_eq_cons {vs : List Json} {d : Draft} {ds : List Draft}
    (h : ofList vs = .ok (d :: ds)) :
    ∃ w ws, vs = w :: ws ∧ ofJson w = .ok d ∧ ofList ws = .ok ds := by
  cases vs with
  | nil => cases h
  | cons w ws =>
    obtain ⟨d', hd, h⟩ := bind_eq_ok_iff.mp h
    obtain ⟨ds', hds, h⟩ := bind_eq_ok_iff.mp h
    cases h
    exact ⟨w, ws, rfl, hd, hds⟩

theorem Reads.legal_iff {d : Draft} {v : Json} (h : d.Reads v.said) :
    v.Legal ↔ (∃ k, d.key = some k ∧ Text.blank k = false) ∧
      (∃ o : Operation, d.operation = some o.name) ∧
      ∃ w, d.value = some w ∧ w.isLiteral = true := by
  rw [Json.legal_iff, h.key, h.operation, h.value]
  simp

mutual
theorem check_exact (place : String) : ∀ (d : Draft) {v : Json}, ofJson v = .ok d →
    (check place d).Exact (∀ u ∈ v.nodes, u.Legal) fun x => ∃ c, x = some c ∧ c.Mirrors v
  | ⟨key, operation, value, allOf, anyOf, label⟩, v, h => by
    have reads := reads_of_ofJson h
    have hkey := checkKey_exact (place ++ ".key") key
    have hoperation := checkOperation_exact (place ++ ".operation") operation
    have hvalue := checkValue_exact (place ++ ".value") value
    have hallOf := checkChildren_exact (place ++ ".and") allOf reads.allOf
    have hanyOf := checkChildren_exact (place ++ ".or") anyOf reads.anyOf
    rw [forall_mem_nodes]
    constructor
    · rw [reads.legal_iff]
      simp only [check, List.append_eq_nil_iff, hkey.issues_eq_nil_iff,
        hoperation.issues_eq_nil_iff, hvalue.issues_eq_nil_iff, hallOf.issues_eq_nil_iff,
        hanyOf.issues_eq_nil_iff, and_assoc]
    · rintro ⟨hv, hand, hor⟩
      obtain ⟨lkey, loperation, lvalue⟩ := reads.legal_iff.mp hv
      have fkey := hkey.faithful lkey
      obtain ⟨o, foperation, ho⟩ := hoperation.faithful loperation
      obtain ⟨x, w, fvalue, hw, spells⟩ := hvalue.faithful lvalue
      obtain ⟨k, hk, -⟩ := lkey
      have checked : (check place ⟨key, operation, value, allOf, anyOf, label⟩).2 =
          some ⟨k, o, x, (checkChildren (place ++ ".and") allOf).2,
            (checkChildren (place ++ ".or") anyOf).2, label.filter fun a => !Text.blank a⟩ := by
        simp only [check, fkey.trans hk, foperation, fvalue]
      refine ⟨_, checked, ?_, ?_, ⟨w, reads.value.trans hw, spells⟩, hallOf.faithful hand,
        hanyOf.faithful hor, ?_⟩
      · rw [reads.key, hk, Option.map_some]
      · rw [reads.operation, ho, Option.map_some]
      · intro a
        rw [reads.label]
        simp [Option.filter_eq_some_iff]
theorem checkChildren_exact (place : String) : ∀ (ds : Option (List Draft)) {vs : List Json},
    ofList vs = .ok (ds.getD []) →
    (checkChildren place ds).Exact (∀ u ∈ vs.flatMap nodes, u.Legal) fun cs =>
      Criterion.MirrorsAll cs vs
  | none, vs, h => checkList_exact place 0 [] h
  | some ds, vs, h => checkList_exact place 0 ds h
theorem checkList_exact (place : String) (i : Nat) : ∀ (ds : List Draft) {vs : List Json},
    ofList vs = .ok ds →
    (checkList place i ds).Exact (∀ u ∈ vs.flatMap nodes, u.Legal) fun cs =>
      Criterion.MirrorsAll cs vs
  | [], vs, h => by
    obtain rfl := ofList_eq_nil h
    exact ⟨by simp [checkList], fun _ => trivial⟩
  | d :: ds, vs, h => by
    obtain ⟨w, ws, rfl, hd, hds⟩ := ofList_eq_cons h
    have first := check_exact s!"{place}[{i}]" d hd
    have rest := checkList_exact place (i + 1) ds hds
    constructor
    · simp only [checkList, List.append_eq_nil_iff, first.issues_eq_nil_iff,
        rest.issues_eq_nil_iff, List.flatMap_cons, List.forall_mem_append]
    · intro h
      obtain ⟨hw, hws⟩ := List.forall_mem_append.mp (List.flatMap_cons ▸ h)
      obtain ⟨c, hc, mirrors⟩ := first.faithful hw
      simp only [checkList, hc, Option.toList_some, List.singleton_append]
      exact ⟨mirrors, rest.faithful hws⟩
end

end Draft

namespace Forest

theorem ofJson_eq_ok_iff {items : List Json} {drafts : List Draft}
    (h : Draft.ofList items = .ok drafts) (forest : Forest) :
    ofJson (.array items) = .ok forest ↔ Draft.checkList "" 0 drafts = ([], forest) := by
  simp only [ofJson, Draft.ofBody, h, ofDrafts]
  split <;> simp_all

/-- The bodies that can be decoded are the arrays of criteria with fields of their types. Of these,
the bodies without an illegal criterion at any depth are accepted and no others; the forest mirrors
the body, no criterion being dropped, merged or moved. -/
theorem ofJson_exact (body : Json) :
    ((∃ drafts, Draft.ofBody body = .ok drafts) ↔
      ∃ items, body = .array items ∧ ∀ v ∈ items, v.Typed) ∧
    ∀ items, body = .array items → (∀ v ∈ items, v.Typed) →
      ((∃ forest, ofJson body = .ok forest) ↔ ∀ v ∈ items.flatMap Json.nodes, v.Legal) ∧
      ∀ forest, ofJson body = .ok forest →
        Criterion.MirrorsAll forest items ∧
        Criterion.sizeAll forest = (items.flatMap Json.nodes).length := by
  refine ⟨Draft.exists_ofBody_iff, ?_⟩
  rintro items rfl typed
  obtain ⟨drafts, h⟩ := Draft.exists_ofBody_iff.mpr ⟨items, rfl, typed⟩
  have checked := Draft.checkList_exact "" 0 drafts h
  refine ⟨⟨?_, ?_⟩, ?_⟩
  · rintro ⟨forest, accepted⟩
    have issues := congrArg Prod.fst ((ofJson_eq_ok_iff h forest).mp accepted)
    exact checked.issues_eq_nil_iff.mp issues
  · intro legal
    have issues := checked.issues_eq_nil_iff.mpr legal
    exact ⟨_, (ofJson_eq_ok_iff h _).mpr (Prod.ext issues rfl)⟩
  · intro forest accepted
    have result := (ofJson_eq_ok_iff h forest).mp accepted
    have legal := checked.issues_eq_nil_iff.mp (congrArg Prod.fst result)
    have mirrors := checked.faithful legal
    rw [result] at mirrors
    exact ⟨mirrors, Criterion.MirrorsAll.sizeAll_eq forest mirrors⟩

end Forest

/-- The inner criterion is sent as an array; the outer one's label is blank. -/
def nestedItems : List Json :=
  [.object [("alias", .text " "), ("and", .array [.array [.text "score", .text "GREATER",
      .number (.whole 3 (by decide)), .null, .array [], .text "best"]]),
    ("key", .text "team.name"), ("operation", .text "IN"),
    ("value", .array [.text "Reds", .bool true])]]

theorem ofJson_exact_nested : (∀ v ∈ nestedItems, v.Typed) ∧
    (∀ v ∈ nestedItems.flatMap Json.nodes, v.Legal) ∧
    ∃ forest, Forest.ofJson (.array nestedItems) = .ok forest ∧
      Criterion.MirrorsAll forest nestedItems ∧ Criterion.sizeAll forest = 2 := by
  obtain ⟨decoded, checked⟩ := Forest.ofJson_exact (.array nestedItems)
  have typed : ∀ v ∈ nestedItems, v.Typed := by
    obtain ⟨items, h, typed⟩ := decoded.mp ⟨_, rfl⟩
    cases h
    exact typed
  obtain ⟨accepted, mirrors⟩ := checked nestedItems rfl typed
  exact ⟨typed, accepted.mp ⟨_, rfl⟩, _, rfl, (mirrors _ rfl).1, rfl⟩

end EntitySearch
