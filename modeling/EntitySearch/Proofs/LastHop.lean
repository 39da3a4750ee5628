import EntitySearch.Proofs.Composition
/-!
The last relationship of a key. A field is looked up behind it and a collection stops short of it;
both find the same hop over it and the same attribute, or fail for the same reason.
-/
namespace EntitySearch

namespace Registry
variable {g : Registry} {e e' : Entity} {names : List String} {name : String}

theorem found_walk_concat : (g.walk e (names ++ [name])).found =
    (g.walk e names).found >>= fun e' => (g.hop e' name).map Hop.target := by
  induction names generalizing e with
  | nil =>
    show (g.walk e [name]).found = (g.hop e name).map Hop.target
    rw [walk]
    cases g.hop e name <;> rfl
  | cons first names ih =>
    rw [List.cons_append, walk, walk]
    cases g.hop e first with
    | error fault => rfl
    | ok hop => exact ih

theorem hops_walk_concat {hop : Hop} (he : (g.walk e names).found = .ok e')
    (hhop : g.hop e' name = .ok hop) :
    (g.walk e (names ++ [name])).hops = (g.walk e names).hops ++ [hop] := by
  induction names generalizing e with
  | nil =>
    obtain rfl := Except.ok.inj he
    show (g.walk e [name]).hops = [hop]
    rw [walk, hhop]
    rfl
  | cons first names ih =>
    rw [List.cons_append, walk, walk]
    rw [walk] at he
    cases hfirst : g.hop e first with
    | error fault => simp [hfirst] at he
    | ok next =>
      rw [hfirst] at he
      exact congrArg (next :: ·) (ih he)

end Registry

namespace Scope
variable {s : Scope} {key : String} {names : List String} {relationship last : String}

/-- The hop over the last relationship of a chain of names, and the attribute behind it. -/
def crossing (s : Scope) (names : List String) (relationship last : String) :
    Except KeyFault (Hop × Attribute) :=
  if (names ++ [relationship, last]).any Text.blank then .error .emptySegment
  else do
    let e ← (s.registry.walk s.root names).found
    let hop ← s.registry.hop e relationship
    let a ← hop.target.find last
    .ok (hop, a)

section Chain
variable (hkey : Key.ofText key = .chain (names ++ [relationship, last]))
include hkey

theorem spot_of_chain : (s.spot key).found =
    (s.crossing names relationship last).map fun x => ⟨x.2.column, x.2.type, true, none⟩ := by
  have hsplit : names ++ [relationship, last] = (names ++ [relationship]) ++ [last] := by simp
  rw [spot, hkey, crossing]
  simp only [chainSpot]
  split
  · rfl
  · rw [hsplit, List.dropLast_concat, List.getLastD_concat, Registry.found_walk_concat]
    cases (s.registry.walk s.root names).found with
    | error fault => rfl
    | ok e =>
      cases hhop : s.registry.hop e relationship with
      | error fault => simp [hhop, bind, Except.bind, Except.map]
      | ok hop =>
        cases hfind : hop.target.find last <;> simp [hhop, hfind, bind, Except.bind, Except.map]

theorem collection_of_chain : (s.collection key).found =
    (s.crossing names relationship last).map fun x =>
      ⟨x.1.relationship, x.1.target.table, x.2.column⟩ := by
  have hsplit : names ++ [relationship, last] = (names ++ [relationship]) ++ [last] := by simp
  have hsome : (names ++ [relationship]).isEmpty = false := by simp
  rw [collection, hkey, crossing]
  dsimp only
  split
  · rfl
  · rw [hsplit, List.dropLast_concat, List.getLastD_concat, List.dropLast_concat,
      List.getLastD_concat, hsome, if_neg Bool.false_ne_true]
    cases (s.registry.walk s.root names).found with
    | error fault => rfl
    | ok e =>
      cases hhop : s.registry.hop e relationship with
      | error fault => simp [hhop, bind, Except.bind, Except.map]
      | ok hop =>
        cases hfind : hop.target.find last <;> simp [hhop, hfind, bind, Except.bind, Except.map]

theorem hops_of_chain {hop : Hop} {a : Attribute}
    (h : s.crossing names relationship last = .ok (hop, a)) :
    (s.spot key).hops = (s.registry.walk s.root names).hops ++ [hop] ∧
      (s.collection key).hops = (s.registry.walk s.root names).hops := by
  have hsplit : names ++ [relationship, last] = (names ++ [relationship]) ++ [last] := by simp
  have hsome : (names ++ [relationship]).isEmpty = false := by simp
  rw [crossing] at h
  split at h
  next => simp at h
  next hblank =>
    obtain ⟨e, he, h⟩ := bind_eq_ok_iff.mp h
    obtain ⟨hop', hhop, h⟩ := bind_eq_ok_iff.mp h
    obtain ⟨a', -, h⟩ := bind_eq_ok_iff.mp h
    obtain ⟨rfl, rfl⟩ := Prod.mk.inj (Except.ok.inj h)
    rw [spot, collection, hkey]
    dsimp only [chainSpot]
    rw [if_neg hblank, if_neg hblank, hsplit, List.dropLast_concat, hsome,
      if_neg Bool.false_ne_true, List.dropLast_concat]
    exact ⟨Registry.hops_walk_concat he hhop, rfl⟩

end Chain
end Scope
end EntitySearch
