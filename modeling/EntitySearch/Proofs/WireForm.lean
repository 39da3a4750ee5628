import EntitySearch.Criterion.Wire
import EntitySearch.Proofs.Legality
/-!
The wire form of criteria read back. It gives the criteria again, points in time and members of
enumerations as their text, and blank labels dropped; criteria that were read from a body are
not changed by it.
-/
namespace EntitySearch

/-- An operation goes under the name that it is read by. -/
theorem Operation.wireName_eq_name (o : Operation) : o.wireName = o.name := by
  cases o <;> decide

namespace Operand

mutual
/-- An operand with text for whatever goes as text. -/
def plain : Operand → Operand
  | text s | enumerant s => text s
  | number n => number n
  | bool b => bool b
  | instant t => text t.text
  | list items => list (plainAll items)
def plainAll : List Operand → List Operand
  | [] => []
  | v :: vs => plain v :: plainAll vs
end

/-- An element of a list is not a list. -/
def Flat (x : Operand) : Prop := ∀ items, x = list items → ∀ v ∈ items, v.isList = false

theorem checkItem_toJson {v : Operand} (h : v.isList = false) (place : String) :
    checkItem place v.toJson = ([], some v.plain) := by
  cases v with
  | list items => cases h
  | text | number | bool | instant | enumerant => rfl

theorem checkItems_toJsonList {vs : List Operand} (h : ∀ v ∈ vs, v.isList = false)
    (place : String) (i : Nat) : checkItems place i (toJsonList vs) = ([], plainAll vs) := by
  induction vs generalizing i with
  | nil => rfl
  | cons v vs ih =>
    obtain ⟨hv, hvs⟩ := List.forall_mem_cons.mp h
    simp [toJsonList, checkItems, checkItem_toJson hv, ih hvs, plainAll]

theorem check_toJson {x : Operand} (h : x.Flat) (place : String) :
    check place x.toJson = ([], some x.plain) := by
  cases x with
  | list items => simp [toJson, check, checkItems_toJsonList (h items rfl), plain]
  | text | number | bool | instant | enumerant => rfl

/-- An operand goes as a value that is not taken for an absent one. -/
theorem present_toJson (x : Operand) : Draft.present x.toJson = some x.toJson := by
  cases x <;> rfl

theorem SpellsItem.isList_eq_false {x : Operand} {v : Json} (h : x.SpellsItem v) :
    x.isList = false := by
  cases x with
  | list items => simp [SpellsItem] at h
  | text | number | bool | instant | enumerant => rfl

theorem SpellsItem.plain_eq {x : Operand} {v : Json} (h : x.SpellsItem v) : x.plain = x := by
  cases x with
  | text | number | bool => rfl
  | instant | enumerant | list => simp [SpellsItem] at h

theorem plainAll_eq_of_spells {xs : List Operand} {vs : List Json}
    (h : List.Forall₂ SpellsItem xs vs) : plainAll xs = xs := by
  induction h with
  | nil => rfl
  | cons first _ ih => rw [plainAll, first.plain_eq, ih]

theorem Spells.plain_eq {x : Operand} {v : Json} (h : x.Spells v) : x.plain = x := by
  cases v with
  | array vs =>
    obtain ⟨items, rfl, spells⟩ := h
    rw [plain, plainAll_eq_of_spells spells]
  | null | bool | number | text | object => exact SpellsItem.plain_eq h

theorem Spells.flat {x : Operand} {v : Json} (h : x.Spells v) : x.Flat := by
  rintro items rfl w hw
  cases v with
  | array vs =>
    obtain ⟨_, hitems, spells⟩ := h
    cases hitems
    obtain ⟨i, hi, rfl⟩ := List.mem_iff_getElem.mp hw
    exact (spells.get hi (spells.length_eq ▸ hi)).isList_eq_false
  | null | bool | number | text | object => exact absurd h (by simp [Spells, SpellsItem])

end Operand

theorem Forest.forall_mem_nodes_cons {p : Criterion → Prop} {c : Criterion} {cs : Forest} :
    (∀ d ∈ nodes (c :: cs), p d) ↔
      p c ∧ (∀ d ∈ nodes c.allOf, p d) ∧ (∀ d ∈ nodes c.anyOf, p d) ∧ ∀ d ∈ nodes cs, p d := by
  rw [nodes_cons, List.cons_append, List.forall_mem_cons, List.forall_mem_append,
    List.forall_mem_append, and_assoc]

namespace Criterion

/-- What a criterion must be for its wire form to be legal, its children left aside. -/
structure Portable (c : Criterion) : Prop where
  key : Text.blank c.key = false
  operand : c.operand.Flat

/-- A criterion that is no other once it has travelled, its children left aside. -/
structure Plain (c : Criterion) : Prop where
  operand : c.operand.plain = c.operand
  label : ∀ a, c.label = some a → Text.blank a = false

mutual
/-- A criterion as it is once it has travelled. -/
def plain : Criterion → Criterion
  | ⟨key, operation, operand, allOf, anyOf, label⟩ =>
    ⟨key, operation, operand.plain, plainAll allOf, plainAll anyOf,
      label.filter fun a => !Text.blank a⟩
def plainAll : List Criterion → List Criterion
  | [] => []
  | c :: cs => plain c :: plainAll cs
end

/-- Lists that are empty are not sent. -/
def sent : List Draft → Option (List Draft)
  | [] => none
  | drafts => some drafts

mutual
/-- What the wire form of a criterion is decoded to. -/
def draft : Criterion → Draft
  | ⟨key, operation, operand, allOf, anyOf, label⟩ =>
    ⟨some key, some operation.wireName, some operand.toJson, sent (drafts allOf), sent (drafts anyOf),
      label⟩
def drafts : List Criterion → List Draft
  | [] => []
  | c :: cs => draft c :: drafts cs
end

end Criterion

namespace Draft
open Criterion

/-- A list of criteria that is left out is read as one that is absent. -/
theorem ofMembers_listMember {name : String} {items : List Json} {ds : List Draft}
    {rest : List (String × Json)} {d : Draft} (put : Option (List Draft) → Draft)
    (absent : put none = d)
    (read : ∀ v, ofMembers ((name, v) :: rest) d = children v >>= fun x => ofMembers rest (put x))
    (h : ofList items = .ok ds) :
    ofMembers (listMember name items ++ rest) d = ofMembers rest (put (sent ds)) := by
  cases ds with
  | nil =>
    obtain rfl := ofList_eq_nil h
    rw [sent, absent]
    rfl
  | cons e es =>
    obtain ⟨w, ws, rfl, -⟩ := ofList_eq_cons h
    have decoded : children (.array (w :: ws)) = .ok (sent (e :: es)) := by
      rw [children, h]
      rfl
    rw [listMember, List.singleton_append, read, decoded]
    · rfl
    · simp

theorem ofMembers_label (label : Option String) (rest : List (String × Json)) :
    ofMembers (member "alias" (label.map .text) ++ rest) empty =
      ofMembers rest ⟨none, none, none, none, none, label⟩ := by
  cases label <;> rfl

mutual
theorem ofJson_toJson : ∀ c : Criterion, ofJson c.toJson = .ok c.draft
  | ⟨key, operation, operand, allOf, anyOf, label⟩ => by
    calc ofJson (toJson ⟨key, operation, operand, allOf, anyOf, label⟩)
      _ = ofMembers (listMember "and" (toJsonAll allOf) ++
            ([("key", .text key), ("operation", .text operation.wireName)] ++
              (listMember "or" (toJsonAll anyOf) ++ [("value", operand.toJson)])))
            ⟨none, none, none, none, none, label⟩ := by
        simp only [toJson, ofJson, List.append_assoc]
        rw [ofMembers_label]
      _ = ofMembers (listMember "or" (toJsonAll anyOf) ++ [("value", operand.toJson)])
            ⟨some key, some operation.wireName, none, sent (drafts allOf), none, label⟩ := by
        rw [ofMembers_listMember (fun x => ⟨none, none, none, x, none, label⟩) rfl (fun _ => rfl)
          (ofList_toJsonAll allOf)]
        rfl
      _ = ofMembers [("value", operand.toJson)] ⟨some key, some operation.wireName, none,
            sent (drafts allOf), sent (drafts anyOf), label⟩ :=
        ofMembers_listMember
          (fun x => ⟨some key, some operation.wireName, none, sent (drafts allOf), x, label⟩) rfl
          (fun _ => rfl) (ofList_toJsonAll anyOf)
      _ = .ok (draft ⟨key, operation, operand, allOf, anyOf, label⟩) := by
        rw [draft, ← operand.present_toJson]
        rfl
theorem ofList_toJsonAll : ∀ cs : List Criterion, ofList (toJsonAll cs) = .ok (drafts cs)
  | [] => rfl
  | c :: cs => by
    rw [toJsonAll, ofList, ofJson_toJson c, ofList_toJsonAll cs]
    rfl
end

theorem checkChildren_sent (place : String) (ds : List Draft) :
    checkChildren place (sent ds) = checkList place 0 ds := by
  cases ds <;> rfl

theorem checkKey_some {key : String} (h : Text.blank key = false) (place : String) :
    checkKey place (some key) = ([], some key) := by
  simp [checkKey, h]

theorem checkOperation_wireName (place : String) (o : Operation) :
    checkOperation place (some o.wireName) = ([], some o) := by
  simp [checkOperation, o.wireName_eq_name, Operation.ofName?_name]

theorem checkList_drafts (place : String) (i : Nat) : ∀ cs : Forest,
    (∀ c ∈ Forest.nodes cs, c.Portable) → checkList place i (drafts cs) = ([], plainAll cs)
  | [], _ => rfl
  | ⟨key, operation, operand, allOf, anyOf, label⟩ :: cs, h => by
    obtain ⟨own, hall, hany, hrest⟩ := Forest.forall_mem_nodes_cons.mp h
    simp only [drafts, draft, checkList, check, checkKey_some own.key, checkOperation_wireName,
      checkValue, Operand.check_toJson own.operand, checkChildren_sent,
      checkList_drafts _ 0 allOf hall, checkList_drafts _ 0 anyOf hany,
      checkList_drafts place (i + 1) cs hrest, List.append_nil, plainAll, plain,
      Option.toList_some, List.singleton_append]

end Draft

namespace Criterion

/-- Each criterion of a forest mirrors a criterion as sent. -/
theorem MirrorsAll.exists_mem : ∀ (cs : Forest) {vs : List Json}, MirrorsAll cs vs →
    ∀ c ∈ Forest.nodes cs, ∃ v ∈ vs.flatMap Json.nodes, c.Mirrors v
  | [], _, _ => by simp
  | ⟨key, operation, operand, allOf, anyOf, label⟩ :: cs, v :: vs, ⟨first, rest⟩ => by
    have ⟨_, _, _, hall, hany, _⟩ := first
    have ihAll := MirrorsAll.exists_mem allOf hall
    have ihAny := MirrorsAll.exists_mem anyOf hany
    have ihRest := MirrorsAll.exists_mem cs rest
    simp only [List.flatMap_cons, Json.nodes_eq, List.mem_append, List.mem_cons]
    refine Forest.forall_mem_nodes_cons.mpr ⟨⟨v, .inl (.inl rfl), first⟩, ?_, ?_, ?_⟩
    · intro c hc
      obtain ⟨u, hu, mirrors⟩ := ihAll c hc
      exact ⟨u, .inl (.inr (.inl hu)), mirrors⟩
    · intro c hc
      obtain ⟨u, hu, mirrors⟩ := ihAny c hc
      exact ⟨u, .inl (.inr (.inr hu)), mirrors⟩
    · intro c hc
      obtain ⟨u, hu, mirrors⟩ := ihRest c hc
      exact ⟨u, .inr hu, mirrors⟩

theorem Mirrors.portable {c : Criterion} {v : Json} (h : c.Mirrors v) (legal : v.Legal) :
    c.Portable := by
  obtain ⟨key, operation, operand, allOf, anyOf, label⟩ := c
  obtain ⟨hkey, _, ⟨w, _, spells⟩, _⟩ := h
  obtain ⟨k, hk, notBlank⟩ := legal.key
  rw [hkey] at hk
  cases hk
  exact ⟨notBlank, spells.flat⟩

theorem Mirrors.plain {c : Criterion} {v : Json} (h : c.Mirrors v) : c.Plain := by
  obtain ⟨key, operation, operand, allOf, anyOf, label⟩ := c
  obtain ⟨_, _, ⟨w, _, spells⟩, _, _, hlabel⟩ := h
  exact ⟨spells.plain_eq, fun a ha => ((hlabel a).mp ha).2⟩

theorem plainAll_eq_self : ∀ cs : Forest, (∀ c ∈ Forest.nodes cs, c.Plain) → plainAll cs = cs
  | [], _ => rfl
  | ⟨key, operation, operand, allOf, anyOf, label⟩ :: cs, h => by
    obtain ⟨own, hall, hany, hrest⟩ := Forest.forall_mem_nodes_cons.mp h
    have hlabel : (label.filter fun a => !Text.blank a) = label := by
      cases label with
      | none => rfl
      | some a => simp [Option.filter, own.label a rfl]
    rw [plainAll, Criterion.plain, own.operand, plainAll_eq_self allOf hall,
      plainAll_eq_self anyOf hany, plainAll_eq_self cs hrest, hlabel]

end Criterion

namespace Forest

theorem ofJson_toJson_eq {forest : Forest} (h : ∀ c ∈ nodes forest, c.Portable) :
    ofJson (toJson forest) = .ok (Criterion.plainAll forest) :=
  (ofJson_eq_ok_iff (Draft.ofList_toJsonAll forest) _).mpr (Draft.checkList_drafts "" 0 forest h)

/-- The criteria of a forest read from a body mirror legal criteria as sent. -/
theorem exists_mirrors_of_ofJson {body : Json} {forest : Forest} (h : ofJson body = .ok forest) :
    ∀ c ∈ nodes forest, ∃ v : Json, v.Legal ∧ c.Mirrors v := by
  cases hdrafts : Draft.ofBody body with
  | error e => simp [ofJson, hdrafts] at h
  | ok drafts =>
    obtain ⟨items, rfl, -⟩ := Draft.exists_ofBody_iff.mp ⟨drafts, hdrafts⟩
    have checked := Draft.checkList_exact "" 0 drafts hdrafts
    have result := (ofJson_eq_ok_iff hdrafts forest).mp h
    have legal := checked.issues_eq_nil_iff.mp (congrArg Prod.fst result)
    have mirrors := checked.faithful legal
    rw [result] at mirrors
    intro c hc
    obtain ⟨v, hv, hcv⟩ := Criterion.MirrorsAll.exists_mem forest mirrors c hc
    exact ⟨v, legal v hv, hcv⟩

/-- The wire form of a forest without blank keys and without lists in lists is legal, and what is
read from it is the forest with points in time and members of enumerations as text and without
blank labels. A forest that was read from a body is read from its wire form again. -/
theorem toJson_roundTrip :
    (∀ forest : Forest, (∀ c ∈ nodes forest, c.Portable) →
      ofJson (toJson forest) = .ok (Criterion.plainAll forest)) ∧
    ∀ (body : Json) (forest : Forest), ofJson body = .ok forest →
      ofJson (toJson forest) = .ok forest := by
  refine ⟨fun forest => ofJson_toJson_eq, ?_⟩
  intro body forest h
  have mirrors := exists_mirrors_of_ofJson h
  have portable : ∀ c ∈ nodes forest, c.Portable := by
    intro c hc
    obtain ⟨v, legal, hcv⟩ := mirrors c hc
    exact hcv.portable legal
  have plain : ∀ c ∈ nodes forest, c.Plain := by
    intro c hc
    obtain ⟨v, -, hcv⟩ := mirrors c hc
    exact hcv.plain
  rw [ofJson_toJson_eq portable, Criterion.plainAll_eq_self forest plain]

end Forest

/-- A point in time, a member of an enumeration in a list, and a blank label. -/
def sinceEpoch : Forest :=
  [⟨"scores.since", .greater, .instant ⟨0, 0, by decide⟩, [],
    [⟨"team.kind", .inList, .list [.enumerant "club", .bool true], [], [], some " "⟩], some "best"⟩]

def sinceEpochPlain : Forest :=
  [⟨"scores.since", .greater, .text "1970-01-01T00:00:00Z", [],
    [⟨"team.kind", .inList, .list [.text "club", .bool true], [], [], none⟩], some "best"⟩]

theorem toJson_roundTrip_sinceEpoch : (∀ c ∈ Forest.nodes sinceEpoch, c.Portable) ∧
    Forest.ofJson (Forest.toJson sinceEpoch) = .ok sinceEpochPlain ∧
    Forest.ofJson (Forest.toJson sinceEpochPlain) = .ok sinceEpochPlain := by
  have portable : ∀ c ∈ Forest.nodes sinceEpoch, c.Portable := by
    refine Forest.forall_mem_nodes_cons.mpr ⟨⟨by decide, ?_⟩, by simp, ?_, by simp⟩
    · rintro items ⟨⟩
    · refine Forest.forall_mem_nodes_cons.mpr ⟨⟨by decide, ?_⟩, by simp, by simp, by simp⟩
      rintro items ⟨⟩
      simp [Operand.isList]
  obtain ⟨accepted, again⟩ := Forest.toJson_roundTrip
  have first : Forest.ofJson (Forest.toJson sinceEpoch) = .ok sinceEpochPlain :=
    accepted sinceEpoch portable
  exact ⟨portable, first, again _ _ first⟩

end EntitySearch
