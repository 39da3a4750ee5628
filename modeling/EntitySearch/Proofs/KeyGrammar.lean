import EntitySearch.Proofs.Address
import EntitySearch.Proofs.Splitting
/-!
The grammar of keys, told without the cutting and the walk that read them. The lookup of a key finds
exactly what the key spells in this grammar, over the relationships that it names.
-/
namespace EntitySearch
open Sql

namespace Key
variable {key : String}

theorem ofText_eq_chain_iff {segments : List String} : ofText key = .chain segments ↔
    ¬ arrow.toList <:+: key.toList ∧ Text.Segmented '.' key segments := by
  rw [← Text.cut_eq_none_iff, ← Text.parts_eq_iff, ofText]
  cases Text.cut arrow key <;> simp

theorem ofText_eq_document_iff {column : String} {path : List String} :
    ofText key = .document column path ↔
      ∃ text, Text.CutAtFirst arrow key column text ∧ Text.Segmented '.' text path := by
  simp only [← Text.cut_eq_some_iff, ← Text.parts_eq_iff, ofText]
  cases Text.cut arrow key with
  | none => simp
  | some both =>
    obtain ⟨before, after⟩ := both
    simp [and_assoc]

end Key

theorem Entity.find_eq_ok_iff {e : Entity} {name : String} {a : Attribute} :
    e.find name = .ok a ↔ e.attribute? name = some a := by
  unfold find
  cases e.attribute? name <;> simp

namespace Registry
variable {g : Registry}

/-- Relationships of these names, each to a registered entity, lead from one entity to another. -/
inductive Leads (g : Registry) : Entity → List String → Entity → Prop
  | nil (e : Entity) : Leads g e [] e
  | cons {e target e' : Entity} {name : String} {r : Relationship} {names : List String} :
      e.relationship? name = some r → g.get? r.target = some target → Leads g target names e' →
      Leads g e (name :: names) e'

theorem walk_eq_ok_iff {e e' : Entity} {names : List String} :
    (g.walk e names).found = .ok e' ↔ g.Leads e names e' := by
  constructor
  · intro h
    induction names generalizing e with
    | nil =>
      obtain rfl := Except.ok.inj h
      exact .nil e
    | cons name names ih =>
      rw [walk] at h
      split at h
      next => simp at h
      next hop hhop =>
        obtain ⟨hr, htarget⟩ := hop_eq_ok_iff.mp hhop
        exact .cons hr htarget (ih h)
  · intro h
    induction h with
    | nil e => rfl
    | @cons e target e' name r names hr htarget _ ih =>
      have hhop : g.hop e name = .ok ⟨r, target⟩ := hop_eq_ok_iff.mpr ⟨hr, htarget⟩
      rw [walk, hhop]
      exact ih

end Registry

namespace Scope

/-- The grammar of keys: the relationships that a key crosses, and the field behind them. Without
an arrow its segments spell a chain of relationships from the searched entity and an attribute at
its end; at the first arrow it is cut into an attribute of the searched entity and a path. -/
inductive Reads (s : Scope) (key : String) : List String → Spot → Prop
  | field {relationships : List String} {last : String} {e : Entity} {a : Attribute} :
      ¬ Key.arrow.toList <:+: key.toList →
      Text.Segmented '.' key (relationships ++ [last]) →
      (∀ segment ∈ relationships ++ [last], Text.blank segment = false) →
      s.registry.Leads s.root relationships e → e.attribute? last = some a →
      Reads s key relationships ⟨a.column, a.type, !relationships.isEmpty, none⟩
  | document {column text : String} {path : List String} {a : Attribute} :
      Text.CutAtFirst Key.arrow key column text → '.' ∉ column.toList →
      s.root.attribute? column = some a → Text.Segmented '.' text path →
      (∀ segment ∈ path, Text.blank segment = false) →
      Reads s key [] ⟨a.column, a.type, false, some path⟩

variable {s : Scope} {key : String} {p : Spot}

theorem not_any_blank_iff {segments : List String} :
    ¬ segments.any Text.blank = true ↔ ∀ segment ∈ segments, Text.blank segment = false := by
  simp

theorem documentSpot_eq_ok_iff {column : String} {path : List String} :
    s.documentSpot column path = .ok p ↔ '.' ∉ column.toList ∧
      (∀ segment ∈ path, Text.blank segment = false) ∧
      ∃ a, s.root.attribute? column = some a ∧ p = ⟨a.column, a.type, false, some path⟩ := by
  unfold documentSpot
  constructor
  · intro h
    split at h
    next => simp at h
    next hpoint =>
      obtain ⟨a, ha, h⟩ := bind_eq_ok_iff.mp h
      split at h
      next => simp at h
      next hblank =>
        exact ⟨by simpa using hpoint, not_any_blank_iff.mp hblank, a, Entity.find_eq_ok_iff.mp ha,
          (Except.ok.inj h).symm⟩
  · rintro ⟨hpoint, hblank, a, ha, rfl⟩
    rw [if_neg (by simpa using hpoint), bind_eq_ok_iff]
    exact ⟨a, Entity.find_eq_ok_iff.mpr ha, if_neg (not_any_blank_iff.mpr hblank)⟩

theorem chainSpot_eq_ok_iff {relationships : List String} {last : String} :
    (s.chainSpot (relationships ++ [last])).found = .ok p ↔
      (∀ segment ∈ relationships ++ [last], Text.blank segment = false) ∧
      ∃ e a, s.registry.Leads s.root relationships e ∧ e.attribute? last = some a ∧
        p = ⟨a.column, a.type, !relationships.isEmpty, none⟩ := by
  rw [chainSpot, List.dropLast_concat, List.getLastD_concat]
  constructor
  · intro h
    split at h
    next => simp at h
    next hblank =>
      obtain ⟨e, he, h⟩ := bind_eq_ok_iff.mp h
      obtain ⟨a, ha, h⟩ := bind_eq_ok_iff.mp h
      exact ⟨not_any_blank_iff.mp hblank, e, a, Registry.walk_eq_ok_iff.mp he,
        Entity.find_eq_ok_iff.mp ha, (Except.ok.inj h).symm⟩
  · rintro ⟨hblank, e, a, he, ha, rfl⟩
    rw [if_neg (not_any_blank_iff.mpr hblank)]
    refine bind_eq_ok_iff.mpr ⟨e, Registry.walk_eq_ok_iff.mpr he, ?_⟩
    exact bind_eq_ok_iff.mpr ⟨a, Entity.find_eq_ok_iff.mpr ha, rfl⟩

/-- What a key spells is what its lookup finds. -/
theorem exists_reads_iff :
    (∃ relationships, s.Reads key relationships p) ↔ (s.spot key).found = .ok p := by
  constructor
  · rintro ⟨relationships, hreads⟩
    cases hreads with
    | field harrow hsegments hblank he ha =>
      rw [spot, Key.ofText_eq_chain_iff.mpr ⟨harrow, hsegments⟩]
      exact chainSpot_eq_ok_iff.mpr ⟨hblank, _, _, he, ha, rfl⟩
    | document hcut hpoint ha hpath hblank =>
      rw [spot, Key.ofText_eq_document_iff.mpr ⟨_, hcut, hpath⟩]
      exact documentSpot_eq_ok_iff.mpr ⟨hpoint, hblank, _, ha, rfl⟩
  · intro h
    unfold spot at h
    split at h
    next column path hkey =>
      obtain ⟨text, hcut, hpath⟩ := Key.ofText_eq_document_iff.mp hkey
      obtain ⟨hpoint, hblank, a, ha, rfl⟩ := documentSpot_eq_ok_iff.mp h
      exact ⟨[], .document hcut hpoint ha hpath hblank⟩
    next segments hkey =>
      obtain ⟨harrow, hsegments⟩ := Key.ofText_eq_chain_iff.mp hkey
      obtain ⟨relationships, last, rfl⟩ :=
        (List.eq_nil_or_concat' segments).resolve_left hsegments.ne_nil
      obtain ⟨hblank, e, a, he, ha, rfl⟩ := chainSpot_eq_ok_iff.mp h
      exact ⟨relationships, .field harrow hsegments hblank he ha⟩

/-- The hops of a key of the grammar are over the relationships that it crosses. -/
theorem Reads.names {relationships : List String} (h : s.Reads key relationships p) :
    (s.spot key).hops.map Hop.name = relationships := by
  rw [names_spot (exists_reads_iff.mp ⟨relationships, h⟩)]
  cases h with
  | field harrow hsegments _ _ _ =>
    rw [Key.ofText_eq_chain_iff.mpr ⟨harrow, hsegments⟩]
    exact List.dropLast_concat
  | document hcut _ _ hpath _ => rw [Key.ofText_eq_document_iff.mpr ⟨_, hcut, hpath⟩]

/-- An arrow leaves nothing to join. -/
theorem hops_of_arrow (h : Key.arrow.toList <:+: key.toList) : (s.spot key).hops = [] := by
  unfold spot
  split
  next => rfl
  next hkey => exact absurd h (Key.ofText_eq_chain_iff.mp hkey).1

end Scope
end EntitySearch
