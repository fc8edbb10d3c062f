import ManagedCode.Image.Document
import ManagedCode.Proofs.Json.RoundTrip
import ManagedCode.Proofs.Text.Division

/-!
# Reading written images

The text of a module image is read back as that image. A token is read as it is written, a table
comes back with the entries in their order, and each structure of the image is read from the
document that it is written as. The document is complete, so its text is read as the document.
-/

namespace ManagedCode

/-! ## Tokens -/

namespace Text

private theorem readUp_append {radix : Nat} {high acc next : Int} {cs : List Char}
    (h : readUp radix high acc cs = .ok next) (ds : List Char) :
    readUp radix high acc (cs ++ ds) = readUp radix high next ds := by
  induction cs generalizing acc with
  | nil =>
    cases h
    rfl
  | cons c cs ih =>
    simp only [readUp] at h
    rw [List.cons_append, readUp]
    split at h
    · cases h
    · split at h
      · rename_i hle
        simp only [if_pos hle, ih h]
      · cases h

private theorem digit?_toUpper_digitChar : ∀ d < 16,
    digit? 16 (Nat.digitChar d).toUpper = some d ∧
      isBlank (Nat.digitChar d).toUpper = false ∧
      (Nat.digitChar d).toUpper ≠ '+' ∧ (Nat.digitChar d).toUpper ≠ '-' := by
  decide

/-- Hexadecimal digits are read as the number that they were written for. -/
private theorem readUp_hexDigits {n : Nat} {high : Int} (h : (n : Int) ≤ high) :
    readUp 16 high 0 ((Nat.toDigits 16 n).map Char.toUpper) = .ok n := by
  induction n using Nat.strongRecOn with
  | ind n ih =>
    by_cases hn : n < 16
    · rw [Nat.toDigits_of_lt_base hn]
      simp [readUp, (digit?_toUpper_digitChar n hn).1, h]
    · have hquotient := ih (n / 16) (by omega) (by omega)
      have hlast := (digit?_toUpper_digitChar (n % 16) (by omega)).1
      rw [Nat.toDigits_of_base_le (by decide) (by omega), List.map_append,
        readUp_append hquotient]
      have hnumber : ((n / 16 : Nat) : Int) * (16 : Nat) + ((n % 16 : Nat) : Int) = n := by omega
      simp only [List.map_cons, List.map_nil, readUp, hlast, hnumber, if_pos h]

private theorem readUp_zeros {high : Int} (h : 0 ≤ high) (count : Nat) :
    readUp 16 high 0 (List.replicate count '0') = .ok 0 := by
  induction count with
  | zero => rfl
  | succ count ih =>
    have hzero : digit? 16 '0' = some 0 := by decide
    simp [List.replicate_succ, readUp, hzero, h, ih]

private theorem mem_toDigits_sixteen {n : Nat} {c : Char} (h : c ∈ Nat.toDigits 16 n) :
    ∃ d < 16, c = Nat.digitChar d := by
  induction n using Nat.strongRecOn with
  | ind n ih =>
    by_cases hn : n < 16
    · rw [Nat.toDigits_of_lt_base hn, List.mem_singleton] at h
      exact ⟨n, hn, h⟩
    · rw [Nat.toDigits_of_base_le (by decide) (by omega), List.mem_append,
        List.mem_singleton] at h
      rcases h with h | h
      · exact ih (n / 16) (by omega) h
      · exact ⟨n % 16, by omega, h⟩

private theorem mem_hexText {width n : Nat} {c : Char} (h : c ∈ (hexText width n).toList) :
    isBlank c = false ∧ c ≠ '+' ∧ c ≠ '-' := by
  rw [hexText, String.toList_ofList, padZeros, List.mem_append] at h
  rcases h with h | h
  · rw [List.eq_of_mem_replicate h]
    decide
  · obtain ⟨digit, hdigit, rfl⟩ := List.mem_map.mp h
    obtain ⟨d, hd, rfl⟩ := mem_toDigits_sixteen hdigit
    exact (digit?_toUpper_digitChar d hd).2

private theorem hexText_ne_nil (width n : Nat) : (hexText width n).toList ≠ [] := by
  simp [hexText, padZeros, Nat.toDigits_ne_nil]

private theorem readInt_eq_readUp {cs : List Char} (hne : cs ≠ [])
    (hsign : ∀ c ∈ cs, c ≠ '+' ∧ c ≠ '-') (radix : Nat) (range : IntRange) :
    readInt radix range cs = readUp radix range.high 0 cs := by
  unfold readInt
  split
  · exact absurd rfl hne
  · exact absurd rfl (hsign '+' List.mem_cons_self).1
  · exact absurd rfl (hsign '-' List.mem_cons_self).2
  · exact absurd rfl (hsign '+' List.mem_cons_self).1
  · exact absurd rfl (hsign '-' List.mem_cons_self).2
  · rfl

/-- A number in hexadecimal is read as it was written. -/
theorem readNat?_hexText (width : Nat) {bits n : Nat} (h : n < 2 ^ bits) :
    readNat? 16 bits (hexText width n).toList = some n := by
  have hhigh : (n : Int) ≤ (IntRange.unsigned bits).high := by
    have hpow : (IntRange.unsigned bits).high = ((2 ^ bits : Nat) : Int) - 1 := rfl
    omega
  have hread : readUp 16 (IntRange.unsigned bits).high 0 (hexText width n).toList = .ok n := by
    rw [hexText, String.toList_ofList, padZeros, readUp_append (readUp_zeros (by omega) _)]
    exact readUp_hexDigits hhigh
  rw [readNat?, readInt_eq_readUp (hexText_ne_nil width n) (fun _ hc => (mem_hexText hc).2), hread]
  simp

end Text

namespace Token

/-- A token is read as it is written. -/
theorem parse?_text (token : Token) : parse? token.text.toList = some token := by
  have htext : token.text.toList = '0' :: 'x' :: (Text.hexText 8 token.value.toNat).toList := by
    simp [text]
  have hlast : ∀ c, token.text.toList.getLast? = some c → Text.isBlank c = false := by
    intro c hc
    rw [htext, List.getLast?_cons_cons,
      List.getLast?_cons_of_ne_nil (Text.hexText_ne_nil _ _)] at hc
    exact (Text.mem_hexText (List.mem_of_getLast? hc)).1
  have htrim : Text.trim token.text.toList = token.text.toList := by
    refine Text.Trimmed.trim ⟨fun c hc => ?_, hlast⟩
    rw [htext] at hc
    cases hc
    decide
  have hread : Text.readNat? 16 32 (Text.hexText 8 token.value.toNat).toList =
      some token.value.toNat := Text.readNat?_hexText 8 token.value.toNat_lt
  rw [parse?, htrim, htext]
  simp [hread]

end Token

namespace TokenMap

variable {α : Type}

/-- An entry above all others goes to the end. -/
theorem insertEntry_of_above {token : Token} {value : α} {entries : List (Token × α)}
    (h : ∀ entry ∈ entries, entry.1.value < token.value) :
    insertEntry token value entries = entries ++ [(token, value)] := by
  induction entries with
  | nil => rfl
  | cons entry rest ih =>
    rw [List.forall_mem_cons] at h
    have hne : token ≠ entry.1 := by
      rintro rfl
      exact absurd h.1 (UInt32.lt_irrefl _)
    rw [insertEntry, if_neg (UInt32.lt_asymm h.1), if_neg hne, ih h.2, List.cons_append]

private theorem entries_foldl_insert (map : TokenMap α) {entries : List (Token × α)}
    (h : Token.Ascending (map.entries ++ entries)) :
    (entries.foldl (fun map entry => map.insert entry.1 entry.2) map).entries =
      map.entries ++ entries := by
  induction entries generalizing map with
  | nil => simp
  | cons entry entries ih =>
    have habove : ∀ other ∈ map.entries, other.1.value < entry.1.value := by
      intro other hother
      exact (List.pairwise_append.mp h).2.2 other hother entry List.mem_cons_self
    have hinsert : (map.insert entry.1 entry.2).entries = map.entries ++ [entry] :=
      insertEntry_of_above habove
    rw [List.foldl_cons, ih, hinsert, List.append_assoc, List.singleton_append]
    rwa [hinsert, List.append_assoc, List.singleton_append]

/-- Putting the entries of a map one after the other gives the map. -/
theorem ofList_entries (map : TokenMap α) : ofList map.entries = map := by
  have hentries : (ofList map.entries).entries = map.entries :=
    entries_foldl_insert empty (by simpa [empty] using map.ascending)
  cases map
  cases hmap : ofList _
  simp_all

end TokenMap

/-! ## Lists, tables and structures -/

namespace Json

/-- A text is read back. -/
@[simp] theorem toText_text (s : String) : (Json.text s).toText = .ok s := rfl

/-- A truth value is read back. -/
@[simp] theorem toBool_bool (b : Bool) : (Json.bool b).toBool = .ok b := rfl

/-- A byte is read back. -/
@[simp] theorem toByte_nat (b : UInt8) : (Json.nat b.toNat).toByte = .ok b := by
  have hb : (b.toNat : Int) ≤ 255 := by
    have := b.toNat_lt
    omega
  simp [nat, toByte, hb]

/-- A text that may be missing is read back. -/
@[simp] theorem toOptionalText_getD (s : Option String) :
    ((s.map Json.text).getD .null).toOptionalText = .ok s := by
  cases s <;> rfl

private theorem mapM_eq_ok {α β : Type} {f : β → Parsed α} {g : α → β} (xs : List α)
    (h : ∀ x, f (g x) = .ok x) : (xs.map g).mapM f = .ok xs := by
  induction xs with
  | nil => rfl
  | cons x xs ih => simp [List.mapM_cons, h, ih, bind, Except.bind, pure, Except.pure]

/-- A list is read back if its items are. -/
theorem toListOf_list {α : Type} {read : Json → Parsed α} {write : α → Json}
    (h : ∀ x, read (write x) = .ok x) (xs : List α) :
    (list (xs.map write)).toListOf read = .ok xs := by
  simp [list, toListOf, mapM_eq_ok xs h, checkEnd, bind, Except.bind, pure, Except.pure]

/-- A table is read back if its values are. -/
theorem toTable_tableToJson {α : Type} {read : Json → Parsed α} {write : α → Json}
    (h : ∀ x, read (write x) = .ok x) (table : TokenMap α) :
    (Image.tableToJson write table).toTable read = .ok table := by
  simp only [Image.tableToJson, record, toTable, List.map_map]
  rw [mapM_eq_ok table.entries]
  · simp [checkEnd, TokenMap.ofList_entries, bind, Except.bind, pure, Except.pure]
  · intro entry
    simp [checkKey, Except.mapError, Token.parse?_text, h, bind, Except.bind, pure, Except.pure]

/-- A list of complete documents is complete. -/
theorem Complete.listOf {α : Type} {write : α → Json} (h : ∀ x, Complete (write x))
    (xs : List α) : Complete (Json.list (xs.map write)) := by
  refine .list fun item hitem => ?_
  obtain ⟨x, -, rfl⟩ := List.mem_map.mp hitem
  exact h x

/-- A table of complete documents is complete. -/
theorem Complete.tableOf {α : Type} {write : α → Json} (h : ∀ x, Complete (write x))
    (table : TokenMap α) : Complete (Image.tableToJson write table) := by
  refine .record fun member hmember => ?_
  obtain ⟨entry, -, rfl⟩ := List.mem_map.mp hmember
  exact h entry.2

/-- A text that may be missing is complete. -/
theorem Complete.optionalText (s : Option String) : Complete ((s.map Json.text).getD .null) := by
  cases s with
  | none => exact .null
  | some s => exact .text s

/-- The members of a written structure are read one after the other. -/
theorem toParts_record {α : Type} (names : List String) (step : α → String → Json → Parsed α)
    (start : α) (members : List (String × Json)) :
    (record members).toParts names step start =
      members.foldlM (fun parts member => step parts member.1 member.2) start := by
  simp only [record, toParts, toMembers, checkEnd, List.foldlM_map, checkKey, Except.mapError,
    bind, Except.bind, pure, Except.pure]
  split <;> simp_all

end Json

/-! ## Methods, types and members -/

/-- A method is read back from its document. -/
theorem MethodImage.ofJson_toJson (method : MethodImage) : ofJson method.toJson = .ok method := by
  have hcode := Json.toListOf_list Json.toByte_nat method.code
  simp [ofJson, toJson, Json.toParts_record, Parts.add, Json.setOnce, Json.required, bind,
    Except.bind, pure, Except.pure, hcode, Except.map]

/-- A method is written as a complete document. -/
theorem MethodImage.complete_toJson (method : MethodImage) : Json.Complete method.toJson := by
  have hcode := Json.Complete.listOf Json.Complete.byte method.code
  refine .record ?_
  simp only [List.forall_mem_cons, List.not_mem_nil, false_imp_iff, implies_true, and_true]
  exact ⟨.text _, .text _, .bool _, .bool _, hcode⟩

/-- A type is read back from its document. -/
theorem TypeImage.ofJson_toJson (type : TypeImage) : ofJson type.toJson = .ok type := by
  have hfields := Json.toListOf_list Json.toText_text type.fields
  have hconstructors := Json.toListOf_list MethodImage.ofJson_toJson type.constructors
  have hmethods := Json.toListOf_list MethodImage.ofJson_toJson type.methods
  simp [ofJson, toJson, Json.toParts_record, Parts.add, Json.setOnce, Json.required, bind,
    Except.bind, pure, Except.pure, hfields, hconstructors, hmethods, Except.map]

/-- A type is written as a complete document. -/
theorem TypeImage.complete_toJson (type : TypeImage) : Json.Complete type.toJson := by
  have hfields := Json.Complete.listOf Json.Complete.text type.fields
  have hconstructors := Json.Complete.listOf MethodImage.complete_toJson type.constructors
  have hmethods := Json.Complete.listOf MethodImage.complete_toJson type.methods
  refine .record ?_
  simp only [List.forall_mem_cons, List.not_mem_nil, false_imp_iff, implies_true, and_true]
  exact ⟨.text _, .text _, .optionalText _, hfields, hconstructors, hmethods⟩

/-- A member is read back from its document, with or without the type of a field. -/
theorem MemberImage.ofJson_toJson (member : MemberImage) : ofJson member.toJson = .ok member := by
  cases member with
  | field declaringType name fieldType =>
    cases fieldType <;>
      simp [toJson, Json.record, ofJson, splitKind, Json.checkKey, Except.mapError, kindOfJson,
        Json.checkValue, Json.checkEnd, ofMembers, ofParts, Parts.add, memberNames, Json.setOnce,
        Json.required, bind, Except.bind, pure, Except.pure, Except.map, Json.toOptionalText]
  | method declaringType name signature =>
    simp [toJson, Json.record, ofJson, splitKind, Json.checkKey, Except.mapError, kindOfJson,
      Json.checkValue, Json.checkEnd, ofMembers, ofParts, Parts.add, memberNames, Json.setOnce,
      Json.required, bind, Except.bind, pure, Except.pure, Except.map]
  | type name =>
    simp [toJson, Json.record, ofJson, splitKind, Json.checkKey, Except.mapError, kindOfJson,
      Json.checkValue, Json.checkEnd, ofMembers, ofParts, Parts.add, memberNames, Json.setOnce,
      Json.required, bind, Except.bind, pure, Except.pure, Except.map]

/-- A member is written as a complete document. -/
theorem MemberImage.complete_toJson (member : MemberImage) : Json.Complete member.toJson := by
  cases member with
  | field declaringType name fieldType =>
    cases fieldType <;> exact .record (by simp [Json.Complete.text])
  | method declaringType name signature => exact .record (by simp [Json.Complete.text])
  | type name => exact .record (by simp [Json.Complete.text])

/-! ## Modules -/

namespace Image

/-- A module is read back from its document. -/
theorem ofJson_toJson (image : Image) : ofJson image.toJson = .ok image := by
  have htypes := Json.toListOf_list TypeImage.ofJson_toJson image.types
  have hstrings := Json.toTable_tableToJson Json.toText_text image.strings
  have hmembers := Json.toTable_tableToJson MemberImage.ofJson_toJson image.members
  simp [ofJson, toJson, Json.toParts_record, Parts.add, Json.setOnce, Json.required, bind,
    Except.bind, pure, Except.pure, htypes, hstrings, hmembers, Except.map]

/-- An image is written as a complete document. -/
theorem complete_toJson (image : Image) : Json.Complete image.toJson := by
  have htypes := Json.Complete.listOf TypeImage.complete_toJson image.types
  have hstrings := Json.Complete.tableOf Json.Complete.text image.strings
  have hmembers := Json.Complete.tableOf MemberImage.complete_toJson image.members
  refine .record ?_
  simp only [List.forall_mem_cons, List.not_mem_nil, false_imp_iff, implies_true, and_true]
  exact ⟨.text _, htypes, hstrings, hmembers⟩

/-- The text of a module image is read back as that image. -/
theorem ofText_toText (image : Image) : ofText image.toText = .ok image := by
  rw [ofText, toText, image.complete_toJson.read_render]
  simp [ofJson_toJson, bind, Except.bind, pure, Except.pure]

end Image

end ManagedCode
