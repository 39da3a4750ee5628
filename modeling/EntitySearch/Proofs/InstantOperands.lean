import EntitySearch.Proofs.Timestamps
import EntitySearch.Proofs.TypedOperands
/-!
Operands that are compared with a timestamp. A point in time can be given as such or by any of its
timestamps, at any offset: what is compiled depends only on the point in time, which is bound in
universal time.
-/
namespace EntitySearch
open Sql

/-- The comparison that an operation makes with a single value. -/
def Operation.comparison? : Operation → Option Comparison
  | greater => some .greater
  | less => some .less
  | greaterEquals => some .greaterEqual
  | lessEquals => some .lessEqual
  | equals => some .equal
  | notEqual => some .notEqual
  | _ => none

/-- The operands that stand for a point in time where one is read. -/
inductive Operand.Denotes : Operand → Instant → Prop
  | instant (t : Instant) : Denotes (.instant t) t
  | text {t : Instant} {offset : Int} {text : String} :
      t.WrittenAt offset text → Denotes (.text text) t

namespace Criterion
variable {c : Criterion} {t : Instant} {text : String}

theorem instantOf_of_writtenAt {offset : Int} (h : t.WrittenAt offset text) :
    c.instantOf text = .ok (.instant t) :=
  instantOf_eq_ok_iff.mpr ⟨t, Instant.read?_eq_some_iff.mpr ⟨offset, h⟩, rfl⟩

/-- The texts that are refused spell no date and time of day. -/
theorem instantOf_of_not_spelled
    (h : ∀ l : Instant.Local, l.valid = true → ¬ l.Spelled text.toList) :
    c.instantOf text = .error (.wrongType c.key "RFC 3339 timestamp" text) := by
  rw [instantOf, Instant.read?_eq_none_iff.mpr h]

/-- The criterion with another operand. -/
def against (c : Criterion) (v : Operand) : Criterion := { c with operand := v }

end Criterion

namespace Scope
variable {s : Scope} {c d : Criterion} {p : Spot} {op : Comparison} {t : Instant} {v w : Operand}

/-- A criterion that compares a timestamp, one of the searched entity or one behind
relationships. -/
structure ComparesInstants (s : Scope) (c : Criterion) (p : Spot) (op : Comparison) : Prop where
  reads : ∃ relationships, s.Reads c.key relationships p
  type : p.type = .timestamp
  operation : c.operation.comparison? = some op

namespace ComparesInstants

/-- Ordering and equality read an operand alike, wherever the timestamp is. -/
theorem plan_eq (h : s.ComparesInstants c p op) (hsingle : c.operand.isList = false)
    {x : Except SearchError Value} (hordering : c.orderingValue .timestamp = x)
    (htyped : c.typedValue .timestamp = x) :
    s.plan c = ⟨(s.spot c.key).hops, false, x.map fun x =>
      (OwnTest.column p.column (.compare op x)).condition⟩ := by
  have hspot : s.spot c.key = ⟨(s.spot c.key).hops, .ok p⟩ := by
    rw [← exists_reads_iff.mp h.reads]
  have hequality : c.equalityValue p = x := by
    simp [Criterion.equalityValue, h.type, htyped]
  -- orderings and equalities have readers of their own, which agree on this operand
  obtain ⟨value, hplan, hvalue⟩ :
      ∃ value, s.plan c = s.planComparison c value op ∧ value p = x := by
    have hop := h.operation
    have hshape (hscalar : c.operation.shape = .scalar) :
        c.operand.hasShape c.operation.shape = true := by
      simp [hscalar, Operand.hasShape, hsingle]
    rw [Scope.plan_eq]
    generalize c.operation = operation at hop hshape ⊢
    cases operation <;> cases hop
    case greater | less | greaterEquals | lessEquals =>
      exact ⟨_, if_pos (hshape rfl), by simp only [h.type, hordering]⟩
    case equals | notEqual => exact ⟨_, if_pos (hshape rfl), hequality⟩
  rw [hplan, planComparison, planColumn_eq hspot, hvalue]
  cases x <;> rfl

/-- Every operand that stands for a point in time has one plan. -/
theorem plan_against (h : s.ComparesInstants c p op) (hv : v.Denotes t) :
    s.plan (c.against v) = ⟨(s.spot c.key).hops, false,
      .ok (OwnTest.column p.column (.compare op (.instant t))).condition⟩ := by
  have hcompares : s.ComparesInstants (c.against v) p op := ⟨h.reads, h.type, h.operation⟩
  cases hv with
  | instant =>
    have hvalue : (c.against (.instant t)).typedValue .timestamp = .ok (.instant t) := rfl
    exact hcompares.plan_eq rfl rfl hvalue
  | @text t offset text hwritten =>
    have hvalue := (c.against (.text text)).instantOf_of_writtenAt hwritten
    exact hcompares.plan_eq rfl hvalue hvalue

theorem leaf_against (h : s.ComparesInstants c p op) (hv : v.Denotes t) (pass : Pass) :
    s.leaf (c.against v) pass =
      (.ok (.ofPredicate (.column ⟨(s.place c.label (s.spot c.key) pass.joins).1, p.column⟩
        (.compare op (.instant t)))),
      ⟨(s.place c.label (s.spot c.key) pass.joins).2, pass.subqueries⟩) := by
  rw [leaf, h.plan_against hv]
  rfl

theorem plan_refused (h : s.ComparesInstants c p op) {text : String}
    (htext : ∀ l : Instant.Local, l.valid = true → ¬ l.Spelled text.toList) :
    (s.plan (c.against (.text text))).condition =
      .error (.wrongType c.key "RFC 3339 timestamp" text) := by
  have hcompares : s.ComparesInstants (c.against (.text text)) p op :=
    ⟨h.reads, h.type, h.operation⟩
  have hvalue := (c.against (.text text)).instantOf_of_not_spelled htext
  rw [hcompares.plan_eq rfl hvalue hvalue]
  rfl

end ComparesInstants

/-- Two forests that differ only in how they write points in time that are compared with
timestamps. -/
inductive Restates (s : Scope) : Forest → Forest → Prop
  | nil : Restates s [] []
  | cons {c d : Criterion} {cs ds : Forest} : d.key = c.key → d.operation = c.operation →
      d.label = c.label →
      d.operand = c.operand ∨ (∃ p op t, s.ComparesInstants c p op ∧ c.operand.Denotes t ∧
        d.operand.Denotes t) →
      Restates s c.allOf d.allOf → Restates s c.anyOf d.anyOf → Restates s cs ds →
      Restates s (c :: cs) (d :: ds)

theorem plan_congr (hkey : d.key = c.key) (hoperation : d.operation = c.operation)
    (hoperand : d.operand = c.operand) : s.plan d = s.plan c := by
  obtain ⟨key, operation, operand, allOf, anyOf, label⟩ := c
  obtain ⟨_, _, _, allOf', anyOf', label'⟩ := d
  obtain rfl := hkey
  obtain rfl := hoperation
  obtain rfl := hoperand
  rfl

theorem criterion_congr (hleaf : s.leaf c = s.leaf d)
    (hall : s.siblings c.allOf = s.siblings d.allOf)
    (hany : s.siblings c.anyOf = s.siblings d.anyOf) : s.criterion c = s.criterion d := by
  obtain ⟨key, operation, operand, allOf, anyOf, label⟩ := c
  obtain ⟨key', operation', operand', allOf', anyOf', label'⟩ := d
  funext pass
  simp only [criterion, hleaf, hall, hany]

namespace Restates

theorem leaf_eq (hkey : d.key = c.key) (hoperation : d.operation = c.operation)
    (hlabel : d.label = c.label)
    (hoperand : d.operand = c.operand ∨ ∃ p op t, s.ComparesInstants c p op ∧
      c.operand.Denotes t ∧ d.operand.Denotes t) : s.leaf c = s.leaf d := by
  have hplan : s.plan c = s.plan d := by
    rcases hoperand with hsame | ⟨p, op, t, hcompares, hc, hd⟩
    · exact (plan_congr hkey hoperation hsame).symm
    · calc s.plan c = s.plan (c.against d.operand) :=
            (hcompares.plan_against hc).trans (hcompares.plan_against hd).symm
        _ = s.plan d := (plan_congr (c := c.against d.operand) hkey hoperation rfl).symm
  funext pass
  rw [leaf, leaf, hplan, hlabel]

theorem siblings_eq {cs ds : Forest} (h : s.Restates cs ds) : s.siblings cs = s.siblings ds := by
  induction h with
  | nil => rfl
  | @cons c d cs ds hkey hoperation hlabel hoperand _ _ _ ihAll ihAny ihRest =>
    have hcriterion := criterion_congr (leaf_eq hkey hoperation hlabel hoperand) ihAll ihAny
    funext pass
    simp only [siblings, hcriterion, ihRest]

theorem compile_eq {cs ds : Forest} (h : s.Restates cs ds) : s.compile cs = s.compile ds := by
  simp only [compile, compose, h.siblings_eq]

end Restates

/-- A criterion that compares a timestamp, of the searched entity or behind relationships, compiles
to one test for a point in time and for each of its timestamps, of which it has one at every offset
where clocks show a year of four digits, among them the text that it travels as; the point in time
is bound. Forests that differ only in how they write such points in time compile to the same
selection. A text that spells no date and time of day is refused. -/
theorem instants_compared (s : Scope) (c : Criterion) (p : Spot) (op : Comparison)
    (h : s.ComparesInstants c p op) :
    (∀ t pass,
      let (table, joins) := s.place c.label (s.spot c.key) pass.joins
      let own := Condition.ofPredicate (.column ⟨table, p.column⟩ (.compare op (.instant t)))
      (∀ backend, (own.fragment backend).values = [.instant t]) ∧
      s.leaf (c.against (.instant t)) pass = (.ok own, ⟨joins, pass.subqueries⟩) ∧
      ∀ offset text, t.WrittenAt offset text →
        s.leaf (c.against (.text text)) pass = (.ok own, ⟨joins, pass.subqueries⟩)) ∧
    (∀ (t : Instant) (offset : Int), t.Regular → -1440 < offset → offset < 1440 →
      0 ≤ (t.localAt offset).date.year → (t.localAt offset).date.year ≤ 9999 →
      ∃ text, t.WrittenAt offset text) ∧
    (∀ t : Instant, t.Regular → 0 ≤ t.date.year → t.date.year ≤ 9999 → t.WrittenAt 0 t.text) ∧
    (∀ cs ds, s.Restates cs ds → s.compile cs = s.compile ds) ∧
    ∀ text : String, (∀ l : Instant.Local, l.valid = true → ¬ l.Spelled text.toList) →
      (∀ pass, (s.leaf (c.against (.text text)) pass).1 =
        .error (.wrongType c.key "RFC 3339 timestamp" text)) ∧
      ∀ rest, s.compile (c.against (.text text) :: rest) =
        .error (.wrongType c.key "RFC 3339 timestamp" text) := by
  refine ⟨fun t pass => ⟨fun backend => rfl, h.leaf_against (.instant t) pass,
    fun offset text hwritten => h.leaf_against (.text hwritten) pass⟩, ?_, ?_,
    fun cs ds => Restates.compile_eq, ?_⟩
  · intro t offset hregular hbehind hahead hfrom hto
    exact Instant.exists_writtenAt hregular ⟨hbehind, hahead⟩ ⟨hfrom, hto⟩
  · intro t hregular hfrom hto
    exact Instant.writtenAt_text hregular ⟨hfrom, hto⟩
  · intro text htext
    have hplan := h.plan_refused htext
    constructor
    · intro pass
      rw [leaf_eq, hplan]
      rfl
    · intro rest
      rw [compile_eq_error_iff, firstFault?, Forest.nodes_cons, List.cons_append,
        List.findSome?_cons, fault?_eq_some_iff.mpr hplan]

end Scope

/-- Scores with the match that they were made in. -/
def matchScope : Scope :=
  let score : Entity := ⟨"score", "scores", "id", [⟨"total", "total", .integer⟩],
    [⟨"match", "match", .belongsTo, "match_id", "id"⟩]⟩
  let game : Entity := ⟨"match", "matches", "id", [⟨"playedAt", "played_at", .timestamp⟩], []⟩
  ⟨⟨[score, game]⟩, score⟩

def playedAfter (v : Operand) : Criterion := ⟨"match.playedAt", .greater, v, [], [], none⟩

/-- Half an hour before midnight on a leap day is already March to the east. -/
theorem instants_compared_leap_day :
    (∃ sel, matchScope.compile [playedAfter (.text "2024-02-29T23:30:00Z")] = .ok sel ∧
      matchScope.compile [playedAfter (.text "2024-03-01T01:30:00+02:00")] = .ok sel ∧
      matchScope.compile [playedAfter (.instant ⟨1709249400, 0, by decide⟩)] = .ok sel) ∧
    (∃ text, Instant.WrittenAt ⟨1709249400, 0, by decide⟩ (-570) text) ∧
    matchScope.compile [playedAfter (.text "2024-02-30T23:30:00Z")] =
      .error (.wrongType "match.playedAt" "RFC 3339 timestamp" "2024-02-30T23:30:00Z") := by
  let t : Instant := ⟨1709249400, 0, by decide⟩
  have hspot : (matchScope.spot "match.playedAt").found =
      .ok ⟨"played_at", .timestamp, true, none⟩ := by decide
  have hcompares : matchScope.ComparesInstants (playedAfter (.instant t))
      ⟨"played_at", .timestamp, true, none⟩ .greater :=
    ⟨Scope.exists_reads_iff.mpr hspot, rfl, rfl⟩
  obtain ⟨-, hexists, -, hrestates, hrefused⟩ :=
    matchScope.instants_compared (playedAfter (.instant t)) _ _ hcompares
  have hregular : t.Regular := fun h => absurd h (by decide)
  have hutc : t.WrittenAt 0 "2024-02-29T23:30:00Z" :=
    ⟨hregular, Instant.local?_eq_some_iff.mp (by decide)⟩
  have heast : t.WrittenAt 120 "2024-03-01T01:30:00+02:00" :=
    ⟨hregular, Instant.local?_eq_some_iff.mp (by decide)⟩
  have hsame {text : String} {offset : Int} (hwritten : t.WrittenAt offset text) :
      matchScope.compile [playedAfter (.instant t)] =
        matchScope.compile [playedAfter (.text text)] :=
    hrestates _ _ (.cons rfl rfl rfl (.inr ⟨_, _, t, hcompares, .instant t, .text hwritten⟩)
      .nil .nil .nil)
  obtain ⟨sel, hsel⟩ : ∃ sel, matchScope.compile [playedAfter (.instant t)] = .ok sel := by
    refine Scope.exists_compile_iff.mpr fun c hc => ?_
    obtain rfl := List.mem_singleton.mp hc
    exact ⟨_, congrArg Plan.condition (hcompares.plan_against (.instant t))⟩
  refine ⟨⟨sel, (hsame hutc).symm.trans hsel, (hsame heast).symm.trans hsel, hsel⟩,
    hexists t (-570) hregular (by decide) (by decide) (by decide) (by decide), ?_⟩
  exact (hrefused _ (Instant.read?_eq_none_iff.mp (by decide))).2 []

end EntitySearch
