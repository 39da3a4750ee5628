import EntitySearch.Proofs.Exclusion
import EntitySearch.Proofs.FirstFailure
import EntitySearch.Proofs.KeyGrammar
/-!
Equality and membership. An equality over an attribute of the root reads its operand as a value of
the attribute's type, while membership takes the elements of a list as they are. Over one element
the two agree as long as that reading changes nothing.
-/
namespace EntitySearch
open Sql

namespace AttributeType

/-- Whether an operand has to be read as a value of the type before it is bound. -/
def reads : AttributeType → Operand → Bool
  | enum _, .text _ | enum _, .enumerant _ | uuid, .text _ | timestamp, .text _ => true
  | _, _ => false

/-- Whether reading binds something else than the operand itself. -/
def replaces : AttributeType → Operand → Bool
  | uuid, .text _ | timestamp, .text _ => true
  | _, _ => false

/-- The value that a single operand has as a value of the type. -/
inductive Reads : AttributeType → Operand → Value → Prop
  | member {e : EnumType} {s : String} : s ∈ e.members → Reads (.enum e) (.text s) (.text s)
  | enumerant {e : EnumType} {s : String} :
      s ∈ e.members → Reads (.enum e) (.enumerant s) (.text s)
  | uuid {s : String} {u : Uuid} : Uuid.read? s = some u → Reads .uuid (.text s) (.uuid u)
  | instant {s : String} {t : Instant} :
      Instant.read? s = some t → Reads .timestamp (.text s) (.instant t)
  | verbatim {type : AttributeType} {v : Operand} {x : Value} :
      type.reads v = false → Value.ofOperand? v = some x → Reads type v x

/-- A reading that replaces nothing binds what membership binds. -/
theorem Reads.eq_of_ofOperand? {type : AttributeType} {v : Operand} {x y : Value}
    (h : type.Reads v x) (hreplaces : type.replaces v = false) (hy : Value.ofOperand? v = some y) :
    x = y := by
  cases h with
  | member => exact Option.some.inj hy
  | enumerant => exact Option.some.inj hy
  | uuid => simp [replaces] at hreplaces
  | instant => simp [replaces] at hreplaces
  | verbatim _ hx => exact Option.some.inj (hx.symm.trans hy)

end AttributeType

theorem EnumType.member?_eq_some_iff {e : EnumType} {s m : String} :
    e.member? s = some m ↔ s ∈ e.members ∧ m = s := by
  constructor
  · intro h
    obtain rfl : m = s := by simpa using List.find?_some h
    exact ⟨List.mem_of_find?_eq_some h, rfl⟩
  · rintro ⟨hmem, rfl⟩
    cases h : e.member? m with
    | none =>
      have hnone := List.find?_eq_none.mp h m hmem
      simp at hnone
    | some n =>
      obtain rfl : n = m := by simpa using List.find?_some h
      rfl

namespace Criterion
variable {c : Criterion}

theorem instantOf_eq_ok_iff {s : String} {x : Value} :
    c.instantOf s = .ok x ↔ ∃ t, Instant.read? s = some t ∧ x = .instant t := by
  unfold instantOf
  cases Instant.read? s <;> simp [eq_comm]

theorem typedValue_eq_ok_iff {type : AttributeType} {x : Value} :
    c.typedValue type = .ok x ↔ type.Reads c.operand x := by
  obtain ⟨key, operation, operand, allOf, anyOf, label⟩ := c
  dsimp only [typedValue]
  constructor
  · intro h
    split at h
    case h_1 e s =>
      split at h
      next member hmember =>
        obtain ⟨hs, rfl⟩ := EnumType.member?_eq_some_iff.mp hmember
        obtain rfl := Except.ok.inj h
        exact .member hs
      next => simp at h
    case h_2 e s =>
      split at h
      next member hmember =>
        obtain ⟨hs, rfl⟩ := EnumType.member?_eq_some_iff.mp hmember
        obtain rfl := Except.ok.inj h
        exact .enumerant hs
      next => simp at h
    case h_3 s =>
      obtain ⟨t, ht, rfl⟩ := instantOf_eq_ok_iff.mp h
      exact .instant ht
    case h_4 s =>
      split at h
      next u hu =>
        obtain rfl := Except.ok.inj h
        exact .uuid hu
      next => simp at h
    case h_5 henum henumerant htimestamp huuid =>
      split at h
      next y hy =>
        obtain rfl := Except.ok.inj h
        refine .verbatim ?_ hy
        unfold AttributeType.reads
        split
        · exact (henum _ _ rfl rfl).elim
        · exact (henumerant _ _ rfl rfl).elim
        · exact (huuid _ rfl rfl).elim
        · exact (htimestamp _ rfl rfl).elim
        · rfl
      next => simp at h
  · intro h
    cases h with
    | member hs => simp [EnumType.member?_eq_some_iff.mpr ⟨hs, rfl⟩]
    | enumerant hs => simp [EnumType.member?_eq_some_iff.mpr ⟨hs, rfl⟩]
    | uuid hu => simp [hu]
    | instant ht => exact instantOf_eq_ok_iff.mpr ⟨_, ht, rfl⟩
    | verbatim hreads hx =>
      split
      case h_5 => rw [hx]
      all_goals simp [AttributeType.reads] at hreads

end Criterion

/-- Conditions that have the same value on all rows select the same rows. -/
theorem Selection.selects_congr {κ : Type} {e : Engine κ} {db : Tables κ} {A B : Condition}
    {joins : List Join} {root : String} {row : Row κ}
    (h : ∀ a, A.value (Predicate.truth e db a) = B.value (Predicate.truth e db a)) :
    (Selection.mk (some A) joins).Selects e db root row ↔
      (Selection.mk (some B) joins).Selects e db root row := by
  refine and_congr_right fun _ => exists_congr fun a => ?_
  rw [holds_some, holds_some, h]
  exact and_congr_left fun _ =>
    ⟨fun hfits => ⟨hfits.root_eq, hfits.joins⟩, fun hfits => ⟨hfits.root_eq, hfits.joins⟩⟩

/-- An operation on one value with its test, and the operation on lists that makes the same test of
each element. -/
inductive Operation.Extends :
    Operation → (Value → ColumnTest) → Operation → (List Value → ColumnTest) → Prop
  | equality : Extends .equals (.compare .equal) .inList .within
  | inequality : Extends .notEqual (.compare .notEqual) .notInList .outside

namespace Scope
variable {s : Scope} {c d : Criterion} {p : Spot}

theorem spot_of_root {key : String} (hspot : (s.spot key).found = .ok p)
    (hroot : p.isRootAttribute = true) : s.spot key = ⟨[], .ok p⟩ := by
  have htraversed : p.traversed = false := by
    simp only [Spot.isRootAttribute, Bool.and_eq_true, Bool.not_eq_true'] at hroot
    exact hroot.1
  obtain ⟨relationships, hreads⟩ := exists_reads_iff.mpr hspot
  have hnone : relationships = [] := by
    cases hreads with
    | field => simpa using htraversed
    | document => rfl
  have hhops : (s.spot key).hops = [] := List.map_eq_nil_iff.mp (hreads.names.trans hnone)
  rw [← hhops, ← hspot]

theorem planColumn_eq {build : Spot → Except SearchError ColumnTest} {hops : List Hop}
    (hfield : s.spot c.key = ⟨hops, .ok p⟩) :
    s.planColumn c build = ⟨hops, false, (build p).map fun test =>
      (OwnTest.column p.column test).condition⟩ := by
  simp only [planColumn, onSpot, hfield, Lookup.result, Except.mapError, bind, Except.bind]
  cases build p <;> rfl

/-- Without hops the table instance tested is that of the root. -/
theorem leaf_of_hops_nil {pass : Pass} (hhops : (s.plan c).hops = []) :
    (s.leaf c pass).1 = (s.plan c).condition.map fun f =>
      f s.root.table (s.after c pass).subqueries := by
  have hname : s.instanceName c pass = s.root.table := by
    simp only [instanceName, hhops, JoinTable.follow, JoinTable.nameAt]
  rw [leaf_eq, hname]

/-- The test of a root attribute, as the condition of a criterion. -/
def rootTest (s : Scope) (p : Spot) (test : ColumnTest) : Condition :=
  .ofPredicate (.column ⟨s.root.table, p.column⟩ test)

section Pair
variable {one : Value → ColumnTest} {many : List Value → ColumnTest} {o : Operation}

/-- On a root attribute an equality reads its operand by the attribute's type. -/
theorem plan_one (hspot : (s.spot c.key).found = .ok p) (hroot : p.isRootAttribute = true)
    (hsingle : c.operand.isList = false) (hpair : c.operation.Extends one o many) :
    s.plan c = ⟨[], false, (c.typedValue p.type).map fun x =>
      (OwnTest.column p.column (one x)).condition⟩ := by
  have hvalue : c.equalityValue p = c.typedValue p.type := by
    rw [Criterion.equalityValue, hroot, Bool.true_or, if_pos rfl]
  have hplan : s.plan c = s.planColumn c fun p => (c.equalityValue p).map one := by
    rw [plan_eq]
    generalize c.operation = first at hpair ⊢
    cases hpair <;> exact if_pos (by simp [Operation.shape, Operand.hasShape, hsingle])
  rw [hplan, planColumn_eq (spot_of_root hspot hroot), hvalue]
  cases c.typedValue p.type <;> rfl

/-- Membership in a list of one takes the element as it is. -/
theorem plan_many (hspot : (s.spot d.key).found = .ok p) (hroot : p.isRootAttribute = true)
    {v : Operand} (hoperand : d.operand = .list [v]) (hsingle : v.isList = false) {y : Value}
    (hy : Value.ofOperand? v = some y) (hpair : o.Extends one d.operation many) :
    s.plan d = ⟨[], false, .ok (OwnTest.column p.column (many [y])).condition⟩ := by
  have hvalues : d.listValues = .ok [y] := by
    rw [Criterion.listValues_list hoperand (List.forall_mem_singleton.mpr hsingle)]
    simp [hy]
  obtain ⟨ifEmpty, hplan⟩ : ∃ ifEmpty, s.plan d = s.planList d many ifEmpty := by
    rw [plan_eq, hoperand]
    generalize d.operation = second at hpair ⊢
    cases hpair <;> exact ⟨_, if_pos rfl⟩
  rw [hplan, planList_eq hvalues (spot_of_root hspot hroot)]
  rfl

/-- A test of one value holds of the same rows as the test of the list of that value. -/
theorem truth_one_many {o' : Operation} (hpair : o.Extends one o' many) (x : Value) {κ : Type}
    (e : Engine κ) (k : Option κ) : (one x).truth e k = (many [x]).truth e k := by
  cases hpair <;> simp [ColumnTest.truth]

theorem values_one_many {o' : Operation} (hpair : o.Extends one o' many) (x : Value)
    (backend : Backend) :
    ((s.rootTest p (one x)).fragment backend).values = [x] ∧
      ((s.rootTest p (many [x])).fragment backend).values = [x] := by
  cases hpair <;> exact ⟨rfl, rfl⟩

end Pair

theorem compile_rootTest {test : ColumnTest} (hleaf : c.isLeaf = true)
    (hhops : (s.plan c).hops = []) (h : (s.leaf c .empty).1 = .ok (s.rootTest p test)) :
    s.compile [c] = .ok ⟨some (s.rootTest p test), []⟩ := by
  obtain ⟨key, operation, operand, allOf, anyOf, label⟩ := c
  simp only [Criterion.isLeaf, Bool.and_eq_true, List.isEmpty_iff] at hleaf
  obtain ⟨rfl, rfl⟩ := hleaf
  have hafter : (s.after ⟨key, operation, operand, [], [], label⟩ .empty).joins = .empty := by
    simp only [after, hhops, JoinTable.follow, Pass.empty]
  refine compile_eq_ok_iff.mpr ⟨[.node (s.rootTest p test) [] []], _,
    .cons (Prod.ext h rfl) (.nil _) (.nil _) (.nil _), ?_⟩
  rw [leaf_eq, hafter]
  rfl

/-- On an attribute of the root, membership in a list of one always compiles, and equality compiles
where the operand has a value of the attribute's type. Both test one column; unless the reading
replaces the operand, they bind the same value and select the same rows. -/
theorem equality_of_one (s : Scope) (c d : Criterion) (p : Spot) (one : Value → ColumnTest)
    (many : List Value → ColumnTest) (hpair : c.operation.Extends one d.operation many)
    (hkey : d.key = c.key) (hoperand : d.operand = .list [c.operand])
    (hsingle : c.operand.isList = false) (hspot : (s.spot c.key).found = .ok p)
    (hroot : p.isRootAttribute = true) :
    (∀ pass, ∃ own, (s.leaf d pass).1 = .ok own) ∧
    (∀ pass, (∃ own, (s.leaf c pass).1 = .ok own) ↔ ∃ x, p.type.Reads c.operand x) ∧
    ∀ pass pass' own own', (s.leaf c pass).1 = .ok own → (s.leaf d pass').1 = .ok own' →
      ∃ x y, p.type.Reads c.operand x ∧ Value.ofOperand? c.operand = some y ∧
        own = s.rootTest p (one x) ∧ own' = s.rootTest p (many [y]) ∧
        (∀ backend, (own.fragment backend).values = [x] ∧
          (own'.fragment backend).values = [y]) ∧
        (p.type.replaces c.operand = false → x = y ∧
          ∀ {κ : Type} (e : Engine κ) (db : Tables κ),
            (∀ a, own.value (Predicate.truth e db a) = own'.value (Predicate.truth e db a)) ∧
            (c.isLeaf = true → d.isLeaf = true → ∃ f g, s.compile [c] = .ok f ∧
              s.compile [d] = .ok g ∧ ∀ row, f.Selects e db s.root.table row ↔
                g.Selects e db s.root.table row)) := by
  obtain ⟨y, hy⟩ := Criterion.exists_ofOperand? hsingle
  have hplan := plan_one hspot hroot hsingle hpair
  have hplan' := plan_many (hkey ▸ hspot) hroot hoperand hsingle hy hpair
  have hone (pass : Pass) : (s.leaf c pass).1 =
      (c.typedValue p.type).map fun x => s.rootTest p (one x) := by
    rw [leaf_of_hops_nil (by rw [hplan]), hplan]
    cases c.typedValue p.type <;> rfl
  have hmany (pass : Pass) : (s.leaf d pass).1 = .ok (s.rootTest p (many [y])) := by
    rw [leaf_of_hops_nil (by rw [hplan']), hplan']
    rfl
  refine ⟨fun pass => ⟨_, hmany pass⟩, ?_, ?_⟩
  · intro pass
    rw [hone pass]
    constructor
    · rintro ⟨own, hown⟩
      obtain ⟨x, hx, -⟩ := map_eq_ok_iff.mp hown
      exact ⟨x, Criterion.typedValue_eq_ok_iff.mp hx⟩
    · rintro ⟨x, hx⟩
      exact ⟨_, map_eq_ok_iff.mpr ⟨x, Criterion.typedValue_eq_ok_iff.mpr hx, rfl⟩⟩
  · intro pass pass' own own' hown hown'
    rw [hone pass] at hown
    rw [hmany pass'] at hown'
    obtain ⟨x, hx, rfl⟩ := map_eq_ok_iff.mp hown
    obtain rfl := Except.ok.inj hown'
    have hreads := Criterion.typedValue_eq_ok_iff.mp hx
    refine ⟨x, y, hreads, hy, rfl, rfl, fun backend =>
      ⟨(values_one_many hpair x backend).1, (values_one_many hpair y backend).2⟩, ?_⟩
    intro hreplaces
    obtain rfl := hreads.eq_of_ofOperand? hreplaces hy
    refine ⟨rfl, fun e db => ?_⟩
    have hvalue (a : String → Row _) : (s.rootTest p (one x)).value (Predicate.truth e db a) =
        (s.rootTest p (many [x])).value (Predicate.truth e db a) := by
      simp only [rootTest, Condition.value_ofPredicate]
      exact truth_one_many hpair x e _
    refine ⟨hvalue, fun hc hd => ?_⟩
    have hf := compile_rootTest hc (by rw [hplan]) (by rw [hone, hx]; rfl)
    have hg := compile_rootTest hd (by rw [hplan']) (hmany .empty)
    exact ⟨_, _, hf, hg, fun row => Selection.selects_congr hvalue⟩

end Scope

/-- Players with a status and an identifier from outside. -/
def statusScope : Scope :=
  let player : Entity := ⟨"player", "players", "id",
    [⟨"age", "age", .integer⟩, ⟨"externalId", "external_id", .uuid⟩,
      ⟨"status", "status", .enum ⟨"PlayerStatus", ["ACTIVE", "BANNED"]⟩⟩], []⟩
  ⟨⟨[player]⟩, player⟩

/-- A status that is a member is bound as it is. -/
theorem equality_of_one_status :
    ∃ f g, statusScope.compile [⟨"status", .equals, .text "ACTIVE", [], [], none⟩] = .ok f ∧
      statusScope.compile [⟨"status", .inList, .list [.text "ACTIVE"], [], [], some "s"⟩] = .ok g ∧
      ∀ row, f.Selects .texts annUnscored "players" row ↔
        g.Selects .texts annUnscored "players" row := by
  obtain ⟨-, -, h⟩ := statusScope.equality_of_one ⟨"status", .equals, .text "ACTIVE", [], [], none⟩
    ⟨"status", .inList, .list [.text "ACTIVE"], [], [], some "s"⟩
    ⟨"status", .enum ⟨"PlayerStatus", ["ACTIVE", "BANNED"]⟩, false, none⟩ _ _ .equality rfl rfl rfl
    rfl rfl
  obtain ⟨x, y, -, -, -, -, -, hsame⟩ := h .empty .empty _ _ rfl rfl
  exact ((hsame rfl).2 .texts annUnscored).2 rfl rfl

def outsideId : String := "67e55044-10b1-426f-9247-bb680e5fe0c8"

/-- An equality refuses a status that is no member, which membership takes; and it binds an
identifier where membership binds the text that spells it. -/
theorem membership_unread :
    (statusScope.leaf ⟨"status", .equals, .text "BOGUS", [], [], none⟩ .empty).1 =
      .error (.wrongType "status" "PlayerStatus" "BOGUS") ∧
    (∃ own, (statusScope.leaf ⟨"status", .inList, .list [.text "BOGUS"], [], [], none⟩ .empty).1 =
      .ok own) ∧
    ∃ own own' u,
      (statusScope.leaf ⟨"externalId", .equals, .text outsideId, [], [], none⟩ .empty).1 = .ok own ∧
      (statusScope.leaf ⟨"externalId", .inList, .list [.text outsideId], [], [], none⟩ .empty).1 =
        .ok own' ∧
      (own.fragment .sqlite).values = [.uuid u] ∧
      (own'.fragment .sqlite).values = [.text outsideId] := by
  refine ⟨rfl, ⟨_, rfl⟩, ?_⟩
  obtain ⟨u, hu⟩ : ∃ u, Uuid.read? outsideId = some u :=
    Option.isSome_iff_exists.mp (by decide +kernel)
  let c : Criterion := ⟨"externalId", .equals, .text outsideId, [], [], none⟩
  let p : Spot := ⟨"external_id", .uuid, false, none⟩
  have hspot : (statusScope.spot "externalId").found = .ok p := rfl
  have hplan : statusScope.plan c = _ := Scope.plan_one hspot rfl rfl .equality
  have hread : c.typedValue .uuid = .ok (.uuid u) := Criterion.typedValue_eq_ok_iff.mpr (.uuid hu)
  refine ⟨statusScope.rootTest p (.compare .equal (.uuid u)), _, u, ?_, rfl, rfl, rfl⟩
  rw [Scope.leaf_of_hops_nil (by rw [hplan]), hplan, hread]
  rfl

end EntitySearch
