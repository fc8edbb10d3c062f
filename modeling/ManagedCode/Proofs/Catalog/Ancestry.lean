import ManagedCode.Proofs.Catalog.Conservation
import ManagedCode.Proofs.Catalog.Following

/-!
# Ancestry

The walk through the base types of a type lists exactly the types that can be reached from it by
going from a type to its base type, each of them once. It ends, because each type that has a base
type is one of the catalog and the walk has rounds for all of these. A type has a cyclic base
exactly if going on long enough comes back to a type that was met.
-/

namespace ManagedCode.Catalog

open Relation

/-- The one type has the other as its base type. -/
def Derives (catalog : Catalog) (derived parent : TypeId) : Prop :=
  catalog.base? derived = some parent

/-- The walk through base types follows them. -/
theorem walk_eq_follow (catalog : Catalog) : catalog.walk = follow catalog.base? := by
  funext rounds met type
  induction rounds generalizing met type with
  | zero => rfl
  | succ rounds ih =>
    cases hb : catalog.base? type with
    | none => simp [walk, follow_of_none hb, hb]
    | some parent =>
      by_cases hm : parent ∈ type :: met
      · rw [follow_of_met hb hm]
        simp only [walk, hb, if_pos (List.contains_iff_mem.mpr hm)]
      · rw [follow_of_new hb hm]
        simp only [walk, hb, if_neg (mt List.contains_iff_mem.mp hm), ih]

section Walking

variable {catalog : Catalog} {type : TypeId}

/-- Only a type of the catalog has a base type. -/
theorem index_lt_of_base? {parent : TypeId} (h : catalog.base? type = some parent) :
    type.index < catalog.types.size := by
  apply index_lt_of_type_ne
  intro hnone
  simp [base?, hnone, default, instInhabitedTypeDefinition.default] at h

/-- The types of the catalog in order. -/
def allTypes (catalog : Catalog) : List TypeId :=
  (List.range catalog.types.size).map TypeId.mk

/-- The types of a catalog have the numbers below their count. -/
theorem mem_allTypes {id : TypeId} : id ∈ catalog.allTypes ↔ id.index < catalog.types.size := by
  constructor
  · intro hm
    obtain ⟨index, hindex, rfl⟩ := List.mem_map.mp hm
    exact List.mem_range.mp hindex
  · exact fun hlt => List.mem_map.mpr ⟨id.index, List.mem_range.mpr hlt, rfl⟩

private theorem within_allTypes : Within catalog.base? catalog.allTypes type := by
  intro id _ hb
  obtain ⟨parent, hparent⟩ := Option.isSome_iff_exists.mp hb
  exact mem_allTypes.mpr (index_lt_of_base? hparent)

private theorem room_allTypes : Room catalog.allTypes (catalog.types.size + 1) [] :=
  room_nil (by simp [allTypes])

/-- The types met are those that can be reached from base type to base type. -/
theorem mem_ancestry_iff {id : TypeId} :
    id ∈ catalog.ancestry type ↔ ReflTransGen catalog.Derives type id := by
  rw [ancestry, walk_eq_follow]
  exact room_allTypes.mem_follow_iff within_allTypes

/-- No type is its own ancestor twice. -/
theorem nodup_ancestry (catalog : Catalog) (type : TypeId) : (catalog.ancestry type).Nodup := by
  rw [ancestry, walk_eq_follow]
  exact nodup_follow (by simp)

/-- A cyclic base is one from which base types lead back to a type already met. -/
theorem hasCyclicBase_iff :
    catalog.hasCyclicBase type = true ↔
      ∃ id, ReflTransGen catalog.Derives type id ∧ TransGen catalog.Derives id id := by
  rw [hasCyclicBase, ancestry, walk_eq_follow]
  exact room_allTypes.any_contains_iff within_allTypes

/-- The walk begins with the type. -/
theorem head?_ancestry (catalog : Catalog) (type : TypeId) :
    (catalog.ancestry type).head? = some type := by
  rw [ancestry, walk_eq_follow]
  exact head?_follow_succ

/-- Each type met has the one met next as its base type. -/
theorem isChain_ancestry (catalog : Catalog) (type : TypeId) :
    (catalog.ancestry type).IsChain catalog.Derives := by
  rw [ancestry, walk_eq_follow]
  exact isChain_follow

/-- The walk is never cut off: with more rounds it is the same. -/
theorem walk_add (catalog : Catalog) (type : TypeId) (more : Nat) :
    catalog.walk (catalog.types.size + 1 + more) [] type = catalog.ancestry type := by
  rw [ancestry, walk_eq_follow]
  exact room_allTypes.follow_add within_allTypes (by simp) more

/-- In any catalog, whatever its base types refer to, the walk from a type comes to its end, and
lists exactly the types that going from base type to base type can reach, once each and in the order
in which they are reached. A type has a cyclic base exactly if some way along base types meets a
type twice. One type is assignable to another exactly if the other can be reached or is the built-in
type of all objects. -/
theorem ancestry_lists_reached (catalog : Catalog) (type : TypeId) :
    (∀ more, catalog.walk (catalog.types.size + 1 + more) [] type = catalog.ancestry type) ∧
    (catalog.ancestry type).head? = some type ∧
    (catalog.ancestry type).IsChain catalog.Derives ∧
    (catalog.ancestry type).Nodup ∧
    (∀ id, id ∈ catalog.ancestry type ↔ ReflTransGen catalog.Derives type id) ∧
    (catalog.hasCyclicBase type = true ↔
      ∃ path : List TypeId, path.head? = some type ∧ path.IsChain catalog.Derives ∧
        ¬ path.Nodup) ∧
    (∀ target, catalog.isAssignable type target = true ↔
      ReflTransGen catalog.Derives type target ∨
        (catalog.fullName target = "System.Object" ∧
          (catalog.assembly (catalog.type target).assembly).isBuiltin = true)) := by
  refine ⟨catalog.walk_add type, catalog.head?_ancestry type, catalog.isChain_ancestry type,
    catalog.nodup_ancestry type, fun id => mem_ancestry_iff, ?_, ?_⟩
  · rw [hasCyclicBase_iff, onCycle_iff_exists_isChain]
  · intro target
    rw [← mem_ancestry_iff]
    simp [isAssignable]

end Walking

end ManagedCode.Catalog
