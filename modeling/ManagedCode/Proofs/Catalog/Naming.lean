import ManagedCode.Proofs.Catalog.Building

/-!
# Types under their own references

A reference to a type is made of the stored name of its assembly, and a reference is resolved by
comparing names with stored ones. Both bring the name into its normal form first, although the
stored name was in that form already. This does no harm as long as the form is final. It is not for
a name that keeps an extension, or a blank at its end, once an extension was cut off: a reference to
a type of such an assembly leads to another assembly or nowhere.
-/

namespace ManagedCode

/-! ## Names of assemblies -/

/-- Trimming only takes characters away. -/
theorem Text.trim_sublist (cs : List Char) : (Text.trim cs).Sublist cs := by
  have hend : (Text.trim cs).Sublist (cs.dropWhile Text.isBlank) := by
    have hreversed := List.dropWhile_sublist Text.isBlank (l := (cs.dropWhile isBlank).reverse)
    rw [Text.trim, Text.dropEndWhile]
    simpa only [List.reverse_reverse] using hreversed.reverse
  exact hend.trans (List.dropWhile_sublist _)

/-- Dropping the extension only takes characters away. -/
theorem dropExtension_sublist (cs : List Char) : (dropExtension cs).Sublist cs := by
  unfold dropExtension
  dsimp only
  split
  · exact List.take_sublist _ _
  · exact List.Sublist.refl cs

/-- The normal form of a name only leaves characters out. -/
theorem normalizeAssemblyName_sublist (name : String) :
    (normalizeAssemblyName name).toList.Sublist name.toList := by
  rw [normalizeAssemblyName, String.toList_ofList]
  exact (dropExtension_sublist _).trans (Text.trim_sublist _)

/-- A name that two rounds leave as it is is left so by the first one. -/
theorem normalizeAssemblyName_eq_self_of_twice {name : String}
    (h : normalizeAssemblyName (normalizeAssemblyName name) = name) :
    normalizeAssemblyName name = name := by
  have hlonger := normalizeAssemblyName_sublist (normalizeAssemblyName name)
  rw [h] at hlonger
  exact String.toList_inj.mp ((normalizeAssemblyName_sublist name).antisymm hlonger)

/-! ## Array types -/

/-- A reference is to an array type exactly if its name ends in the array mark. -/
theorem TypeRef.isArray_iff {ref : TypeRef} :
    ref.isArray = true ↔ TypeRef.arraySuffix <:+ ref.name.toList := by
  rw [isArray, elementName?, Option.isSome_map, Text.dropFront?]
  split
  · rename_i h
    exact iff_of_true rfl (List.reverse_prefix.mp (List.isPrefixOf_iff_prefix.mp h))
  · rename_i h
    refine iff_of_false Bool.false_ne_true fun hsuffix => h ?_
    exact List.isPrefixOf_iff_prefix.mpr (List.reverse_prefix.mpr hsuffix)

namespace Catalog

/-! ## Types -/

/-- The assembly is the first one of its name. -/
def IsFirstAssembly (catalog : Catalog) (id : AssemblyId) : Prop :=
  ∀ other : AssemblyId, other.index < id.index →
    (catalog.assembly other).name ≠ (catalog.assembly id).name

/-- The type is the first one of its namespace and name in its assembly. -/
def IsFirstType (catalog : Catalog) (id : TypeId) : Prop :=
  ∀ other : TypeId, other.index < id.index →
    (catalog.type other).assembly = (catalog.type id).assembly →
    (catalog.type other).nameSpace = (catalog.type id).nameSpace →
    (catalog.type other).name ≠ (catalog.type id).name

instance (catalog : Catalog) (id : AssemblyId) : Decidable (catalog.IsFirstAssembly id) :=
  decidable_of_iff (∀ index < id.index,
      (catalog.assembly ⟨index⟩).name ≠ (catalog.assembly id).name)
    ⟨fun h other => h other.index, fun h index => h ⟨index⟩⟩

instance (catalog : Catalog) (id : TypeId) : Decidable (catalog.IsFirstType id) :=
  decidable_of_iff (∀ index < id.index,
      (catalog.type ⟨index⟩).assembly = (catalog.type id).assembly →
      (catalog.type ⟨index⟩).nameSpace = (catalog.type id).nameSpace →
      (catalog.type ⟨index⟩).name ≠ (catalog.type id).name)
    ⟨fun h other => h other.index, fun h index => h ⟨index⟩⟩

/-- The name under which the assembly of a type is stored. -/
def storedName (catalog : Catalog) (id : TypeId) : String :=
  (catalog.assembly (catalog.type id).assembly).name

section Finding

variable {catalog : Catalog} {id : TypeId}

/-- An assembly is found under a name exactly if it is the first one whose stored name is the normal
form of that name. -/
theorem findAssembly?_eq_some_iff {name : String} {assembly : AssemblyId} :
    catalog.findAssembly? name = some assembly ↔
      assembly.index < catalog.assemblies.size ∧
      (catalog.assembly assembly).name = normalizeAssemblyName name ∧
      ∀ other : AssemblyId, other.index < assembly.index →
        (catalog.assembly other).name ≠ normalizeAssemblyName name := by
  have hname (other : AssemblyId) (h : other.index < catalog.assemblies.size) :
      catalog.assemblies[other.index].name = (catalog.assembly other).name := by
    rw [Catalog.assembly, Array.getD_eq_getD_getElem?, Array.getElem?_eq_getElem h,
      Option.getD_some]
  rw [findAssembly?, Option.map_eq_some_iff]
  constructor
  · rintro ⟨index, hfound, rfl⟩
    obtain ⟨hlt, heq, hbefore⟩ := Array.findIdx?_eq_some_iff_getElem.mp hfound
    refine ⟨hlt, (hname ⟨index⟩ hlt).symm.trans (beq_iff_eq.mp heq), fun other hother he => ?_⟩
    refine hbefore other.index hother (beq_iff_eq.mpr ?_)
    rw [hname other (Nat.lt_trans hother hlt), he]
  · rintro ⟨hlt, heq, hbefore⟩
    refine ⟨assembly.index, Array.findIdx?_eq_some_iff_getElem.mpr ⟨hlt, ?_, ?_⟩, rfl⟩
    · rw [hname assembly hlt, heq, beq_self_eq_true]
    · intro index hindex he
      refine hbefore ⟨index⟩ hindex ?_
      rw [← hname ⟨index⟩ (Nat.lt_trans hindex hlt), beq_iff_eq.mp he]

/-- A type that is first of its names is the first one found in its assembly. -/
theorem Indexed.find?_types (h : catalog.Indexed) (hid : id.index < catalog.types.size)
    (hfirst : catalog.IsFirstType id) :
    (catalog.assembly (catalog.type id).assembly).types.find? (fun other =>
      (catalog.type other).name == (catalog.type id).name &&
        (catalog.type other).nameSpace == (catalog.type id).nameSpace) = some id := by
  rw [h.listed, List.find?_filter, allTypes, List.find?_map, Option.map_eq_some_iff]
  refine ⟨id.index, List.find?_range_eq_some.mpr ⟨?_, List.mem_range.mpr hid, ?_⟩, rfl⟩
  · simp
  · intro index hindex
    have hother := hfirst ⟨index⟩ hindex
    simp only [Function.comp_apply, Bool.not_eq_true', decide_eq_false_iff_not]
    rintro ⟨hsame, hnames⟩
    rw [Bool.and_eq_true, beq_iff_eq, beq_iff_eq] at hnames
    exact hother (of_decide_eq_true hsame) hnames.2 hnames.1

end Finding

end Catalog

open Catalog in
/-- A type is found under its own reference exactly if the stored name of its assembly is its own
normal form. That holds for every type of every catalog, however built, that is the first one of its
names in the first assembly of its name and whose name does not end in the array mark. -/
theorem found_under_own_reference {catalog : Catalog} (h : catalog.Built) {id : TypeId}
    (hid : id.index < catalog.types.size)
    (hassembly : catalog.IsFirstAssembly (catalog.type id).assembly)
    (htype : catalog.IsFirstType id)
    (harray : ¬ TypeRef.arraySuffix <:+ (catalog.type id).name.toList) :
    catalog.resolveType (catalog.typeRef id) = .ok id ↔
      normalizeAssemblyName (catalog.storedName id) = catalog.storedName id := by
  have hindexed := h.indexed
  have hplain : (catalog.typeRef id).isArray = false :=
    Bool.eq_false_iff.mpr fun ha => harray (TypeRef.isArray_iff.mp ha)
  rw [resolveType, hplain, if_neg Bool.false_ne_true, resolvePlainType_eq_ok_iff]
  constructor
  · rintro ⟨assembly, hfound, htypes⟩
    obtain ⟨-, hname, -⟩ := findAssembly?_eq_some_iff.mp hfound
    have hmem := List.mem_of_find?_eq_some htypes
    rw [hindexed.listed, List.mem_filter] at hmem
    have howner : (catalog.type id).assembly = assembly := of_decide_eq_true hmem.2
    rw [← howner] at hname
    exact normalizeAssemblyName_eq_self_of_twice hname.symm
  · intro hstable
    refine ⟨(catalog.type id).assembly, findAssembly?_eq_some_iff.mpr ⟨hindexed.owner id hid, ?_⟩,
      hindexed.find?_types hid htype⟩
    have hwanted : normalizeAssemblyName (catalog.typeRef id).assembly = catalog.storedName id := by
      show normalizeAssemblyName (normalizeAssemblyName (catalog.storedName id)) = _
      rw [hstable, hstable]
    rw [hwanted]
    exact ⟨rfl, hassembly⟩

/-- A catalog in which names repeat. Its second and third assembly are stored under one name, and the
second one has two types of one name, which are also the names of a type in each other assembly. -/
def Catalog.repeating : Catalog :=
  let first := (Catalog.empty.addAssembly "Lib.dll" false).2
  let second := (first.addAssembly "App.exe" false).2
  let third := (second.addAssembly " App" false).2
  let library := (third.addType ⟨0⟩ "N" "T" none).2
  let later := (library.addType ⟨2⟩ "N" "T" none).2
  let other := (later.addType ⟨1⟩ "M" "T" none).2
  let wanted := (other.addType ⟨1⟩ "N" "T" none).2
  (wanted.addType ⟨1⟩ "N" "T" none).2

/-- The catalog was built by adding. -/
theorem Catalog.built_repeating : repeating.Built := by
  have hthird : ((((Catalog.empty.addAssembly "Lib.dll" false).2.addAssembly "App.exe"
      false).2.addAssembly " App" false).2).Built :=
    .addAssembly (.addAssembly (.addAssembly .empty _ _) _ _) _ _
  unfold repeating
  refine .addType (.addType (.addType (.addType (.addType hthird ?_ _ _ _) ?_ _ _ _)
    ?_ _ _ _) ?_ _ _ _) ?_ _ _ _
  all_goals decide

open Catalog in
/-- The first type of its names in the first assembly of its name is found; the type of the same
names that follows it is not, nor is that in the assembly of the same name. -/
theorem found_under_own_reference_file :
    repeating.resolveType (repeating.typeRef ⟨3⟩) = .ok ⟨3⟩ ∧
      repeating.resolveType (repeating.typeRef ⟨4⟩) = .ok ⟨3⟩ ∧
      repeating.resolveType (repeating.typeRef ⟨1⟩) = .ok ⟨3⟩ := by
  refine ⟨(found_under_own_reference built_repeating ?_ ?_ ?_ ?_).mpr ?_, ?_, ?_⟩
  all_goals decide +kernel

/-- A catalog of one assembly with one type. -/
def Catalog.ofType (assembly nameSpace name : String) : Catalog :=
  ((Catalog.empty.addAssembly assembly false).2.addType ⟨0⟩ nameSpace name none).2

open Catalog in
/-- The catalog was built by adding. -/
theorem Catalog.built_ofType (assembly nameSpace name : String) :
    (ofType assembly nameSpace name).Built :=
  .addType (.addAssembly .empty assembly false) Nat.one_pos nameSpace name none

open Catalog in
/-- A type of an assembly whose file name has two extensions is not found: one extension is stored,
and the reference to the type leaves it out. -/
theorem own_reference_leads_nowhere :
    (ofType "a.dll.dll" "N" "T").Built ∧
      (ofType "a.dll.dll" "N" "T").IsFirstAssembly
        ((ofType "a.dll.dll" "N" "T").type ⟨0⟩).assembly ∧
      (ofType "a.dll.dll" "N" "T").IsFirstType ⟨0⟩ ∧
      ¬ TypeRef.arraySuffix <:+ ((ofType "a.dll.dll" "N" "T").type ⟨0⟩).name.toList ∧
      (ofType "a.dll.dll" "N" "T").storedName ⟨0⟩ = "a.dll" ∧
      (ofType "a.dll.dll" "N" "T").typeRef ⟨0⟩ = ⟨"a", "N", "T"⟩ ∧
      (ofType "a.dll.dll" "N" "T").resolveType ((ofType "a.dll.dll" "N" "T").typeRef ⟨0⟩) =
        .error (.unknownAssembly "a") := by
  refine ⟨built_ofType _ _ _, ?_, ?_, ?_, ?_, ?_, ?_⟩
  all_goals decide +kernel

end ManagedCode
