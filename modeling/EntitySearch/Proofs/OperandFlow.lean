import EntitySearch.Proofs.Placeholders
import EntitySearch.Proofs.Planning
import Mathlib.Logic.Equiv.Basic
/-!
What callers choose freely stays out of statements: operands, paths inside documents and the
spelling of labels reach bound values only. Two runs over forests that differ in nothing else pass
through equal joins and give conditions of one skeleton.
-/
namespace EntitySearch
open Sql

/-- The part of a key that is looked up among the registered entities. -/
def Key.base : Key → Key
  | chain segments => chain segments
  | document column _ => document column []

/-- Two operands are single values of any kind or lists of one length. -/
def Operand.SameLength (v w : Operand) : Prop :=
  ∀ xs ys, v.items? = some xs → w.items? = some ys → xs.length = ys.length

/-- Forests of one tree shape with equal operations and equal looked up parts of keys, whose labels
are renamed by `f`. -/
inductive Alike (f : Option String → Option String) : Forest → Forest → Prop
  | nil : Alike f [] []
  | cons {c d : Criterion} {cs ds : Forest} :
      c.operation = d.operation → (Key.ofText c.key).base = (Key.ofText d.key).base →
      c.operand.SameLength d.operand → d.label = f c.label →
      Alike f c.allOf d.allOf → Alike f c.anyOf d.anyOf → Alike f cs ds →
      Alike f (c :: cs) (d :: ds)

section Relabel
variable (f : Option String → Option String)

def JoinEntry.relabel (e : JoinEntry) : JoinEntry := { e with label := f e.label }

def JoinTable.relabel (t : JoinTable) : JoinTable := ⟨t.entries.map (JoinEntry.relabel f)⟩

def Pass.relabel (p : Pass) : Pass := { p with joins := p.joins.relabel f }

namespace JoinTable
variable {f}

@[simp] theorem joins_relabel (t : JoinTable) : (t.relabel f).joins = t.joins := by
  simp [joins, relabel, Function.comp_def, JoinEntry.relabel]

@[simp] theorem size_relabel (t : JoinTable) : (t.relabel f).size = t.size := by
  simp [size, relabel]

@[simp] theorem nameAt_relabel (root : String) (t : JoinTable) (place : Place) :
    (t.relabel f).nameAt root place = t.nameAt root place := by
  cases place with
  | zero => rfl
  | succ n =>
    simp only [nameAt, relabel, List.getElem?_map]
    cases t.entries[n]? <;> rfl

/-- Labels are compared for equality only, so renaming them injectively finds the same entry. -/
theorem find?_relabel (hf : Function.Injective f) (t : JoinTable) (parent : Place)
    (relationship : String) (label : Option String) :
    (t.relabel f).find? parent relationship (f label) =
      (t.find? parent relationship label).map (JoinEntry.relabel f) := by
  have hlabel (e : JoinEntry) : (f e.label == f label) = (e.label == label) := by
    rw [Bool.eq_iff_iff, beq_iff_eq, beq_iff_eq, hf.eq_iff]
  simp [find?, relabel, List.find?_map, Function.comp_def, JoinEntry.relabel, hlabel]

theorem cross_relabel (hf : Function.Injective f) (root : String) (label : Option String)
    (t : JoinTable) (place : Place) (hop : Hop) :
    (t.relabel f).cross root (f label) place hop =
      ((t.cross root label place hop).1.relabel f, (t.cross root label place hop).2) := by
  unfold cross
  rw [find?_relabel hf]
  cases t.find? place hop.relationship.name label with
  | some e => rfl
  | none =>
    rw [size_relabel, nameAt_relabel]
    simp [relabel, JoinEntry.relabel]

theorem follow_relabel (hf : Function.Injective f) (root : String) (label : Option String)
    (t : JoinTable) (place : Place) (hops : List Hop) :
    (t.relabel f).follow root (f label) place hops =
      ((t.follow root label place hops).1.relabel f, (t.follow root label place hops).2) := by
  induction hops generalizing t place with
  | nil => rfl
  | cons hop hops ih => simp only [follow, cross_relabel hf, ih]

end JoinTable
end Relabel

/-- A spot with the path inside its document forgotten. -/
def Spot.base (p : Spot) : Spot := { p with path := p.path.map fun _ => [] }

namespace Scope
variable (s : Scope)

theorem spot_of_base_eq {k l : String} (h : (Key.ofText k).base = (Key.ofText l).base) :
    (s.spot k).hops = (s.spot l).hops ∧
      ∀ p q, (s.spot k).found = .ok p → (s.spot l).found = .ok q → p.base = q.base := by
  unfold spot
  cases hk : Key.ofText k with
  | chain segments =>
    cases hl : Key.ofText l with
    | chain segments' =>
      rw [hk, hl] at h
      obtain rfl := Key.chain.inj h
      refine ⟨rfl, fun p q hp hq => ?_⟩
      rw [Except.ok.inj (hp.symm.trans hq)]
    | document column path => simp [hk, hl, Key.base] at h
  | document column path =>
    cases hl : Key.ofText l with
    | chain segments => simp [hk, hl, Key.base] at h
    | document column' path' =>
      rw [hk, hl] at h
      obtain ⟨rfl, -⟩ := Key.document.inj h
      refine ⟨rfl, fun p q hp hq => ?_⟩
      have hbase (path : List String) (p : Spot) (hp : s.documentSpot column path = .ok p) :
          ∃ a, s.root.find column = .ok a ∧ p = ⟨a.column, a.type, false, some path⟩ := by
        unfold documentSpot at hp
        split at hp
        · simp at hp
        · obtain ⟨a, ha, hp⟩ := bind_eq_ok_iff.mp hp
          split at hp
          · simp at hp
          · exact ⟨a, ha, (Except.ok.inj hp).symm⟩
      obtain ⟨a, ha, rfl⟩ := hbase path p hp
      obtain ⟨b, hb, rfl⟩ := hbase path' q hq
      obtain rfl := Except.ok.inj (ha.symm.trans hb)
      rfl

theorem collection_of_base_eq {k l : String} (h : (Key.ofText k).base = (Key.ofText l).base) :
    s.collection k = s.collection l := by
  unfold collection
  cases hk : Key.ofText k with
  | chain segments =>
    cases hl : Key.ofText l with
    | chain segments' =>
      rw [hk, hl] at h
      rw [Key.chain.inj h]
    | document column path => simp [hk, hl, Key.base] at h
  | document column path =>
    cases hl : Key.ofText l with
    | chain segments => simp [hk, hl, Key.base] at h
    | document column' path' => rfl

end Scope

theorem length_of_mapM_eq_ok {ε α β : Type} {f : α → Except ε β} {xs : List α} {ys : List β}
    (h : xs.mapM f = .ok ys) : ys.length = xs.length := by
  induction xs generalizing ys with
  | nil =>
    obtain rfl := Except.ok.inj h
    rfl
  | cons x xs ih =>
    rw [List.mapM_cons] at h
    obtain ⟨y, -, h⟩ := bind_eq_ok_iff.mp h
    obtain ⟨zs, hzs, h⟩ := bind_eq_ok_iff.mp h
    obtain rfl := Except.ok.inj h
    simp [ih hzs]

theorem Criterion.length_listValues {c : Criterion} {vs : List Value} (h : c.listValues = .ok vs) :
    ∃ items, c.operand.items? = some items ∧ vs.length = items.length := by
  unfold listValues at h
  split at h
  next => simp at h
  next items hitems => exact ⟨items, hitems, length_of_mapM_eq_ok h⟩

/-- Where both plans have conditions, these are built alike over equal hops. -/
def Plan.Alike (p q : Plan) : Prop :=
  ∀ f g, p.condition = .ok f → q.condition = .ok g →
    p.hops = q.hops ∧ p.numbered = q.numbered ∧
      ∀ name n, (f name n).skeleton = (g name n).skeleton

theorem Plan.alike_refuse {e : SearchError} {q : Plan} : (Plan.refuse e).Alike q :=
  fun _ _ h => by simp [refuse] at h

theorem Plan.alike_of_refuse {e : SearchError} {p : Plan} : p.Alike (Plan.refuse e) :=
  fun _ _ _ h => by simp [refuse] at h

namespace Scope
variable (s : Scope) {c d : Criterion}

theorem onSpot_alike (hkey : (Key.ofText c.key).base = (Key.ofText d.key).base)
    {build build' : Spot → Except SearchError (Column → Condition)}
    (hbuild : ∀ p q f g, p.base = q.base → build p = .ok f → build' q = .ok g →
      ∀ column, (f column).skeleton = (g column).skeleton) :
    (s.onSpot c build).Alike (s.onSpot d build') := by
  intro f g hf hg
  obtain ⟨hhops, hfound⟩ := s.spot_of_base_eq hkey
  obtain ⟨p, hp, hf⟩ := bind_eq_ok_iff.mp hf
  obtain ⟨f', hf', hf⟩ := bind_eq_ok_iff.mp hf
  obtain ⟨q, hq, hg⟩ := bind_eq_ok_iff.mp hg
  obtain ⟨g', hg', hg⟩ := bind_eq_ok_iff.mp hg
  obtain rfl := Except.ok.inj hf
  obtain rfl := Except.ok.inj hg
  have hbase := hfound p q (Lookup.result_eq_ok_iff.mp hp) (Lookup.result_eq_ok_iff.mp hq)
  have hcolumn : p.column = q.column := (Spot.mk.inj hbase).1
  refine ⟨hhops, rfl, fun name n => ?_⟩
  rw [hbuild p q f' g' hbase hf' hg', hcolumn]

theorem planColumn_alike (hkey : (Key.ofText c.key).base = (Key.ofText d.key).base)
    {build build' : Spot → Except SearchError ColumnTest}
    (hbuild : ∀ p q t u, build p = .ok t → build' q = .ok u → t.skeleton = u.skeleton) :
    (s.planColumn c build).Alike (s.planColumn d build') := by
  apply s.onSpot_alike hkey
  intro p q f g _ hf hg column
  obtain ⟨t, ht, hf⟩ := bind_eq_ok_iff.mp hf
  obtain ⟨u, hu, hg⟩ := bind_eq_ok_iff.mp hg
  obtain rfl := Except.ok.inj hf
  obtain rfl := Except.ok.inj hg
  simp [Condition.ofPredicate, Condition.skeleton, Predicate.skeleton, hbuild p q t u ht hu]

theorem planComparison_alike (hkey : (Key.ofText c.key).base = (Key.ofText d.key).base)
    (value value' : Spot → Except SearchError Value) (op : Comparison) :
    (s.planComparison c value op).Alike (s.planComparison d value' op) := by
  apply s.planColumn_alike hkey
  intro p q t u ht hu
  obtain ⟨v, -, rfl⟩ := map_eq_ok_iff.mp ht
  obtain ⟨w, -, rfl⟩ := map_eq_ok_iff.mp hu
  rfl

theorem planPattern_alike (hkey : (Key.ofText c.key).base = (Key.ofText d.key).base)
    (pattern : String → String) : (s.planPattern c pattern).Alike (s.planPattern d pattern) := by
  unfold planPattern
  cases c.textValue with
  | error e => exact Plan.alike_refuse
  | ok v =>
    cases d.textValue with
    | error e => exact Plan.alike_of_refuse
    | ok w =>
      apply s.planColumn_alike hkey
      intro p q t u ht hu
      obtain rfl := Except.ok.inj ht
      obtain rfl := Except.ok.inj hu
      rfl

theorem length_listValues_eq (hlength : c.operand.SameLength d.operand) {vs ws : List Value}
    (hv : c.listValues = .ok vs) (hw : d.listValues = .ok ws) : vs.length = ws.length := by
  obtain ⟨xs, hxs, hvs⟩ := Criterion.length_listValues hv
  obtain ⟨ys, hys, hws⟩ := Criterion.length_listValues hw
  rw [hvs, hws, hlength xs ys hxs hys]

theorem planList_alike (hkey : (Key.ofText c.key).base = (Key.ofText d.key).base)
    (hlength : c.operand.SameLength d.operand) {test : List Value → ColumnTest}
    (htest : ∀ vs ws, vs.length = ws.length → (test vs).skeleton = (test ws).skeleton)
    (ifEmpty : Bool) : (s.planList c test ifEmpty).Alike (s.planList d test ifEmpty) := by
  unfold planList
  cases hv : c.listValues with
  | error e => exact Plan.alike_refuse
  | ok vs =>
    cases hw : d.listValues with
    | error e => exact Plan.alike_of_refuse
    | ok ws =>
      have hvw := length_listValues_eq hlength hv hw
      apply s.onSpot_alike hkey
      intro p q f g _ hf hg column
      obtain rfl := Except.ok.inj hf
      obtain rfl := Except.ok.inj hg
      cases vs with
      | nil =>
        obtain rfl := List.length_eq_zero_iff.mp hvw.symm
        rfl
      | cons v vs =>
        cases ws with
        | nil => simp at hvw
        | cons w ws =>
          simp [Condition.ofPredicate, Condition.skeleton, Predicate.skeleton, htest _ _ hvw]

theorem planAbsence_alike (hkey : (Key.ofText c.key).base = (Key.ofText d.key).base)
    {test test' : Except SearchError (Option ColumnTest)}
    (htest : ∀ t u, test = .ok t → test' = .ok u →
      t.map ColumnTest.skeleton = u.map ColumnTest.skeleton) :
    (s.planAbsence c test).Alike (s.planAbsence d test') := by
  intro f g hf hg
  have hcollection := s.collection_of_base_eq hkey
  obtain ⟨related, hrelated, hf⟩ := bind_eq_ok_iff.mp hf
  obtain ⟨t, ht, hf⟩ := bind_eq_ok_iff.mp hf
  obtain ⟨related', hrelated', hg⟩ := bind_eq_ok_iff.mp hg
  obtain ⟨u, hu, hg⟩ := bind_eq_ok_iff.mp hg
  rw [Lookup.result_eq_ok_iff] at hrelated hrelated'
  rw [← hcollection, hrelated] at hrelated'
  obtain rfl := Except.ok.inj hrelated'
  obtain rfl := Except.ok.inj hf
  obtain rfl := Except.ok.inj hg
  refine ⟨congrArg Lookup.hops hcollection, ?_, fun owner n => ?_⟩
  · exact congrArg (fun l => l.found.isOk) hcollection
  · have htu := htest t u ht hu
    cases t <;> cases u <;> simp at htu
    · rfl
    · simp [Condition.ofPredicate, Condition.skeleton, Predicate.skeleton, htu]

theorem planDocumentTest_alike (hkey : (Key.ofText c.key).base = (Key.ofText d.key).base)
    {test test' : Except SearchError DocumentTest}
    (htest : ∀ t u, test = .ok t → test' = .ok u → t.skeleton = u.skeleton) :
    (s.planDocumentTest c test).Alike (s.planDocumentTest d test') := by
  apply s.onSpot_alike hkey
  intro p q f g _ hf hg column
  obtain ⟨path, -, hf⟩ := bind_eq_ok_iff.mp hf
  obtain ⟨t, ht, hf⟩ := bind_eq_ok_iff.mp hf
  obtain ⟨path', -, hg⟩ := bind_eq_ok_iff.mp hg
  obtain ⟨u, hu, hg⟩ := bind_eq_ok_iff.mp hg
  obtain rfl := Except.ok.inj hf
  obtain rfl := Except.ok.inj hg
  simp [Condition.ofPredicate, Condition.skeleton, Predicate.skeleton, htest t u ht hu]

/-- The tests of the elements of a list differ in the elements only. -/
theorem skeleton_elementTests (column : Column) (path : List String) (needles : List String) :
    (Condition.group .any (needles.map fun needle =>
      .test (.document column path (.holdsElement needle)))).skeleton =
      .group .any (List.replicate needles.length
        (.test (.document column [] (.holdsElement "")))) := by
  simp [Condition.skeleton, Function.comp_def, Predicate.skeleton, DocumentTest.skeleton,
    List.map_const']

theorem planElements_alike (hkey : (Key.ofText c.key).base = (Key.ofText d.key).base)
    (hlength : c.operand.SameLength d.operand) : (s.planElements c).Alike (s.planElements d) := by
  apply s.onSpot_alike hkey
  intro p q f g _ hf hg column
  unfold Criterion.elementTests at hf hg
  unfold Operand.SameLength at hlength
  cases hc : c.operand.items? with
  | none => simp [hc] at hf
  | some xs =>
    cases hd : d.operand.items? with
    | none => simp [hd] at hg
    | some ys =>
      have hxy := hlength xs ys hc hd
      rw [hc] at hf
      rw [hd] at hg
      cases xs with
      | nil =>
        obtain rfl := List.length_eq_zero_iff.mp hxy.symm
        obtain rfl := Except.ok.inj hf
        obtain rfl := Except.ok.inj hg
        rfl
      | cons x xs =>
        cases ys with
        | nil => simp at hxy
        | cons y ys =>
          obtain ⟨needles, hneedles, hf⟩ := bind_eq_ok_iff.mp hf
          obtain ⟨needles', hneedles', hg⟩ := bind_eq_ok_iff.mp hg
          obtain rfl := Except.ok.inj hf
          obtain rfl := Except.ok.inj hg
          rw [skeleton_elementTests, skeleton_elementTests, length_of_mapM_eq_ok hneedles,
            length_of_mapM_eq_ok hneedles', hxy]

/-- Criteria of one operation that address one column are planned alike, whatever their operands
and the paths in documents are. -/
theorem plan_alike (hoperation : c.operation = d.operation)
    (hkey : (Key.ofText c.key).base = (Key.ofText d.key).base)
    (hlength : c.operand.SameLength d.operand) : (s.plan c).Alike (s.plan d) := by
  have hwithin (vs ws : List Value) (h : vs.length = ws.length) :
      (ColumnTest.within vs).skeleton = (ColumnTest.within ws).skeleton := by
    simp [ColumnTest.skeleton, List.map_const', h]
  have houtside (vs ws : List Value) (h : vs.length = ws.length) :
      (ColumnTest.outside vs).skeleton = (ColumnTest.outside ws).skeleton := by
    simp [ColumnTest.skeleton, List.map_const', h]
  rw [plan_eq, plan_eq]
  rw [← hoperation]
  by_cases hc : c.operand.hasShape c.operation.shape = true
  case neg =>
    rw [if_neg hc]
    exact Plan.alike_refuse
  case pos =>
    by_cases hd : d.operand.hasShape c.operation.shape = true
    case neg =>
      rw [if_neg hd]
      exact Plan.alike_of_refuse
    case pos =>
      rw [if_pos hc, if_pos hd]
      clear hc hd hoperation
      cases c.operation with
      | greater | less | greaterEquals | lessEquals | equals | notEqual =>
        exact s.planComparison_alike hkey _ _ _
      | like | likeStart | likeEnd => exact s.planPattern_alike hkey _
      | inList => exact s.planList_alike hkey hlength hwithin _
      | notInList => exact s.planList_alike hkey hlength houtside _
      | excludeIn =>
        apply s.planAbsence_alike hkey
        intro t u ht hu
        obtain ⟨vs, hvs, rfl⟩ := map_eq_ok_iff.mp ht
        obtain ⟨ws, hws, rfl⟩ := map_eq_ok_iff.mp hu
        have hvw := length_listValues_eq hlength hvs hws
        cases vs <;> cases ws <;> simp at hvw ⊢
        exact hwithin _ _ (by simpa using hvw)
      | excludeLike =>
        apply s.planAbsence_alike hkey
        intro t u ht hu
        obtain ⟨v, -, rfl⟩ := map_eq_ok_iff.mp ht
        obtain ⟨w, -, rfl⟩ := map_eq_ok_iff.mp hu
        rfl
      | jsonLike =>
        apply s.planDocumentTest_alike hkey
        intro t u ht hu
        obtain ⟨v, -, rfl⟩ := map_eq_ok_iff.mp ht
        obtain ⟨w, -, rfl⟩ := map_eq_ok_iff.mp hu
        rfl
      | jsonContains =>
        apply s.planDocumentTest_alike hkey
        intro t u ht hu
        split at ht
        next v _ =>
          split at hu
          next w _ =>
            obtain rfl := Except.ok.inj ht
            obtain rfl := Except.ok.inj hu
            rfl
          next => simp at hu
        next => simp at ht
      | jsonArrayContainsAny => exact s.planElements_alike hkey hlength

theorem follow_after_relabel {f : Option String → Option String} (hf : Function.Injective f)
    (hlabel : d.label = f c.label) (hhops : (s.plan c).hops = (s.plan d).hops)
    (hnumbered : (s.plan c).numbered = (s.plan d).numbered) (pass : Pass) :
    s.after d (pass.relabel f) = (s.after c pass).relabel f ∧
      s.instanceName d (pass.relabel f) = s.instanceName c pass := by
  simp [after, instanceName, Pass.relabel, hlabel, ← hhops, ← hnumbered,
    JoinTable.follow_relabel hf]

/-- One step of two runs: from passes that differ in labels only to such passes. -/
theorem leaf_alike {f : Option String → Option String} (hf : Function.Injective f)
    (hoperation : c.operation = d.operation)
    (hkey : (Key.ofText c.key).base = (Key.ofText d.key).base)
    (hlength : c.operand.SameLength d.operand) (hlabel : d.label = f c.label)
    {p p' q' : Pass} {own own' : Condition} (hc : s.leaf c p = (.ok own, p'))
    (hd : s.leaf d (p.relabel f) = (.ok own', q')) :
    q' = p'.relabel f ∧ own.skeleton = own'.skeleton := by
  obtain ⟨rfl, g, hg, rfl⟩ := leaf_eq_ok_iff.mp hc
  obtain ⟨rfl, g', hg', rfl⟩ := leaf_eq_ok_iff.mp hd
  obtain ⟨hhops, hnumbered, hbuilt⟩ := s.plan_alike hoperation hkey hlength g g' hg hg'
  obtain ⟨hafter, hname⟩ := s.follow_after_relabel hf hlabel hhops hnumbered p
  refine ⟨hafter, ?_⟩
  rw [hbuilt, hafter, hname]
  rfl

theorem skeleton_refine (j : Junction) (own : Condition) (parts : List Condition) :
    (refine j own parts).skeleton = refine j own.skeleton (parts.map Condition.skeleton) := by
  cases parts <;> simp [refine, Condition.skeleton_gather]

/-- The whole run: what holds of the first passes holds of the last ones. -/
theorem Traverses.alike {s : Scope} {f : Option String → Option String}
    (hf : Function.Injective f) {F G : Forest} (h : Alike f F G) {p p' q' : Pass}
    {ts us : List (Tree Condition)} (hF : s.Traverses F p ts p')
    (hG : s.Traverses G (p.relabel f) us q') :
    q' = p'.relabel f ∧
      (Tree.conditions ts).map Condition.skeleton = (Tree.conditions us).map Condition.skeleton := by
  induction h generalizing p p' q' ts us with
  | nil =>
    cases hF
    cases hG
    exact ⟨rfl, rfl⟩
  | cons hoperation hkey hlength hlabel _ _ _ ihAll ihAny ihRest =>
    cases hF with
    | cons hown hall hany hrest =>
      cases hG with
      | cons hown' hall' hany' hrest' =>
        obtain ⟨rfl, hs⟩ := s.leaf_alike hf hoperation hkey hlength hlabel hown hown'
        obtain ⟨rfl, hsAll⟩ := ihAll hall hall'
        obtain ⟨rfl, hsAny⟩ := ihAny hany hany'
        obtain ⟨rfl, hsRest⟩ := ihRest hrest hrest'
        refine ⟨rfl, ?_⟩
        simp only [Tree.conditions, Tree.condition, List.map_cons, skeleton_refine, hs, hsAll,
          hsAny, hsRest]

end Scope

theorem Tree.skeleton_compose {j : Junction} {ts us : List (Tree Condition)}
    (h : (conditions ts).map Condition.skeleton = (conditions us).map Condition.skeleton) :
    (compose j ts).map Condition.skeleton = (compose j us).map Condition.skeleton := by
  cases ts with
  | nil =>
    cases us with
    | nil => rfl
    | cons u us => simp [conditions] at h
  | cons t ts =>
    cases us with
    | nil => simp [conditions] at h
    | cons u us => simp only [compose, Option.map_some, Condition.skeleton_gather, h]

/-- Forests that differ only in operands, in paths inside documents and in an injective renaming
of labels select through the same joins with the same text, over any query: all else is bound. -/
theorem Scope.text_eq_of_alike (s : Scope) (f : Option String → Option String)
    (hf : Function.Injective f) (F G : Forest) (h : Alike f F G) (a b : Selection)
    (ha : s.compile F = .ok a) (hb : s.compile G = .ok b) :
    a.joins = b.joins ∧
    ∀ (backend : Backend) (q : Select),
      let first := ((q.restrict a).fragment backend).prepare backend
      let second := ((q.restrict b).fragment backend).prepare backend
      first.text = second.text ∧ first.values.length = second.values.length := by
  obtain ⟨ts, p, hts, hselA⟩ := compile_eq_ok_iff.mp ha
  obtain ⟨us, q, hus, hselB⟩ := compile_eq_ok_iff.mp hb
  obtain ⟨rfl, hskeleton⟩ := Traverses.alike hf h hts hus
  have hjoins : a.joins = b.joins := by
    rw [hselA, hselB]
    exact (JoinTable.joins_relabel _).symm
  have hcondition : a.condition.map Condition.skeleton = b.condition.map Condition.skeleton := by
    rw [hselA, hselB]
    exact Tree.skeleton_compose hskeleton
  refine ⟨hjoins, fun backend query => ?_⟩
  have hblank := Select.blank_fragment_restrict backend query hjoins hcondition
  constructor
  · exact Fragment.text_prepare_of_blank_eq hblank
  · exact Fragment.length_values_of_blank_eq hblank

/-- Labels are swapped with their absence, one path is spelled longer and an operand changes its
kind. -/
theorem text_eq_of_alike_players :
    let f := Equiv.swap none (some "s")
    let F : Forest := [⟨"scores.total", .equals, .text "7", [],
      [⟨"tags->team", .jsonLike, .text "a", [], [], some "s"⟩], none⟩]
    let G : Forest := [⟨"scores.total", .equals, .bool true, [],
      [⟨"tags->club.name", .jsonLike, .text "%", [], [], none⟩], some "s"⟩]
    Function.Injective f ∧ Alike f F G ∧
      ∃ a b, playerScope.compile F = .ok a ∧ playerScope.compile G = .ok b ∧
        a.joins = b.joins ∧
        ∀ (backend : Backend) (q : Select),
          (((q.restrict a).fragment backend).prepare backend).text =
            (((q.restrict b).fragment backend).prepare backend).text := by
  intro f F G
  have hf : Function.Injective f := (Equiv.swap none (some "s")).injective
  have hsame (v w : Operand) (h : v.items? = none) : v.SameLength w := by
    intro xs ys hx
    simp [h] at hx
  have h : Alike f F G := .cons rfl rfl (hsame _ _ rfl) (by decide) .nil
    (.cons rfl (by decide) (hsame _ _ rfl) (by decide) .nil .nil .nil) .nil
  refine ⟨hf, h, _, _, rfl, rfl, ?_⟩
  have := Scope.text_eq_of_alike playerScope f hf F G h _ _ rfl rfl
  exact ⟨this.1, fun backend q => (this.2 backend q).1⟩

end EntitySearch
