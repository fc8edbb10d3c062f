import ManagedCode.Image.Basic
import ManagedCode.Json.Reading
import ManagedCode.Json.Writing

/-!
# Module images as JSON documents

`Image.ofText` reads a module image from the text of a JSON document and `Image.toText` writes one.
A structure is an object whose unknown members are passed over, or an array with the members in
their order. A member that occurs twice or has a value of another shape is refused; a list, table or
flag that is missing is empty or false. A member of the token table is stored under its `kind`.
-/

namespace ManagedCode

/-- What is read from a document, or why it cannot be. -/
abbrev Parsed := Except JsonError

namespace Json

/-- The error of a value that has another shape than wanted. A value that cannot be read itself is
reported as such, except that an array or object is not looked into. -/
def mismatch : Json → JsonError
  | .flawed reading _ => .text reading
  | _ => .shape

/-- A string. -/
def toText : Json → Parsed String
  | .text s => .ok s
  | value => .error value.mismatch

/-- A truth value. -/
def toBool : Json → Parsed Bool
  | .bool b => .ok b
  | value => .error value.mismatch

/-- A whole number from 0 to 255. -/
def toByte : Json → Parsed UInt8
  | .number (.integer n) => if 0 ≤ n ∧ n ≤ 255 then .ok n.toNat.toUInt8 else .error .shape
  | value => .error value.mismatch

/-- A string or null. -/
def toOptionalText : Json → Parsed (Option String)
  | .null => .ok none
  | value => value.toText.map some

/-- The error of how a value breaks off, if it does. -/
def checkEnd : Option JsonBreak → Parsed Unit
  | none => .ok ()
  | some b => .error (.text b)

/-- The items of an array. -/
def toListOf {α : Type} (read : Json → Parsed α) : Json → Parsed (List α)
  | .array items ending => do
    let values ← items.mapM read
    checkEnd ending
    return values
  | value => .error value.mismatch

/-- A key that can be read. -/
def checkKey (key : JsonKey) : Parsed String := key.mapError .text

/-- A table from tokens. -/
def toTable {α : Type} (read : Json → Parsed α) : Json → Parsed (TokenMap α)
  | .object members ending => do
    let entries ← members.mapM fun (key, value) => do
      let key ← checkKey key
      match Token.parse? key.toList with
      | none => throw .shape
      | some token => return (token, ← read value)
    checkEnd ending
    return TokenMap.ofList entries
  | value => .error value.mismatch

/-- The members of a structure whose fields have the given names. An array gives them in order; it
may be shorter but not longer, and a comma behind the last of them makes it longer whatever
follows. -/
def toMembers (names : List String) :
    Json → Parsed (List (JsonKey × Json) × Option JsonBreak)
  | .object members ending => .ok (members, ending)
  | .array items ending =>
    .ok ((names.map .ok).zip items,
      if names.length < items.length then some .malformed else ending)
  | value => .error value.mismatch

/-- Passes over a value. -/
def skip (value : Json) : Parsed Unit := checkEnd value.break?

/-- The error of a member that occurs twice. -/
def setOnce {α : Type} (old : Option α) (value : Parsed α) : Parsed (Option α) :=
  if old.isSome then .error .shape else value.map some

/-- A member that has to be there. -/
def required {α : Type} : Option α → Parsed α
  | some value => .ok value
  | none => .error .shape

/-- Collects the members of a structure into the parts read so far. -/
def toParts {α : Type} (names : List String) (step : α → String → Json → Parsed α) (start : α)
    (value : Json) : Parsed α := do
  let (members, ending) ← value.toMembers names
  let parts ←
    members.foldlM (fun parts (key, value) => do step parts (← checkKey key) value) start
  checkEnd ending
  return parts

end Json

/-! ## Methods and types -/

namespace MethodImage

/-- The members of a method read so far. -/
structure Parts where
  name : Option String := none
  signature : Option String := none
  isAbstract : Option Bool := none
  isVirtual : Option Bool := none
  code : Option (List UInt8) := none

/-- The names of the members in order. -/
def memberNames : List String := ["name", "signature", "abstract", "virtual", "code"]

/-- Reads one member. -/
def Parts.add (parts : Parts) (key : String) (value : Json) : Parsed Parts :=
  match key with
  | "name" => do return { parts with name := ← Json.setOnce parts.name value.toText }
  | "signature" => do return { parts with signature := ← Json.setOnce parts.signature value.toText }
  | "abstract" => do
    return { parts with isAbstract := ← Json.setOnce parts.isAbstract value.toBool }
  | "virtual" => do return { parts with isVirtual := ← Json.setOnce parts.isVirtual value.toBool }
  | "code" => do
    return { parts with code := ← Json.setOnce parts.code (value.toListOf Json.toByte) }
  | _ => do value.skip; return parts

/-- Reads a method. A name that is missing is that of a constructor. -/
def ofJson (value : Json) : Parsed MethodImage := do
  let parts ← value.toParts memberNames Parts.add {}
  return {
    name := parts.name.getD MethodRef.constructorName
    signature := ← Json.required parts.signature
    isAbstract := parts.isAbstract.getD false
    isVirtual := parts.isVirtual.getD false
    code := parts.code.getD [] }

/-- The document of a method. -/
def toJson (method : MethodImage) : Json :=
  .record [
    ("name", .text method.name),
    ("signature", .text method.signature),
    ("abstract", .bool method.isAbstract),
    ("virtual", .bool method.isVirtual),
    ("code", .list (method.code.map fun byte => .nat byte.toNat))]

end MethodImage

namespace TypeImage

/-- The members of a type read so far. -/
structure Parts where
  nameSpace : Option String := none
  name : Option String := none
  base : Option (Option String) := none
  fields : Option (List String) := none
  constructors : Option (List MethodImage) := none
  methods : Option (List MethodImage) := none

/-- The names of the members in order. -/
def memberNames : List String :=
  ["namespace", "name", "extends", "fields", "constructors", "methods"]

/-- Reads one member. -/
def Parts.add (parts : Parts) (key : String) (value : Json) : Parsed Parts :=
  match key with
  | "namespace" => do return { parts with nameSpace := ← Json.setOnce parts.nameSpace value.toText }
  | "name" => do return { parts with name := ← Json.setOnce parts.name value.toText }
  | "extends" => do return { parts with base := ← Json.setOnce parts.base value.toOptionalText }
  | "fields" => do
    return { parts with fields := ← Json.setOnce parts.fields (value.toListOf Json.toText) }
  | "constructors" => do
    return { parts with
      constructors := ← Json.setOnce parts.constructors (value.toListOf MethodImage.ofJson) }
  | "methods" => do
    return { parts with
      methods := ← Json.setOnce parts.methods (value.toListOf MethodImage.ofJson) }
  | _ => do value.skip; return parts

/-- Reads a type. -/
def ofJson (value : Json) : Parsed TypeImage := do
  let parts ← value.toParts memberNames Parts.add {}
  return {
    nameSpace := parts.nameSpace.getD ""
    name := ← Json.required parts.name
    base := parts.base.getD none
    fields := parts.fields.getD []
    constructors := parts.constructors.getD []
    methods := parts.methods.getD [] }

/-- The document of a type. -/
def toJson (type : TypeImage) : Json :=
  .record [
    ("namespace", .text type.nameSpace),
    ("name", .text type.name),
    ("extends", (type.base.map Json.text).getD .null),
    ("fields", .list (type.fields.map .text)),
    ("constructors", .list (type.constructors.map MethodImage.toJson)),
    ("methods", .list (type.methods.map MethodImage.toJson))]

end TypeImage

/-! ## Members -/

namespace Json

/-- How deep arrays and objects may stand in one another in a member. -/
def maxMemberDepth : Nat := 124

mutual

/-- Checks that a value can be read and nests at most `depth` deep. -/
def checkValue (depth : Nat) : Json → Parsed Unit
  | .flawed reading _ => .error (.text reading)
  | .array items ending =>
    if depth = 0 then .error (.text .malformed)
    else do
      checkItems (depth - 1) items
      checkEnd ending
  | .object members ending =>
    if depth = 0 then .error (.text .malformed)
    else do
      checkMembers (depth - 1) members
      checkEnd ending
  | _ => .ok ()

/-- Checks the items of an array. -/
def checkItems (depth : Nat) : List Json → Parsed Unit
  | [] => .ok ()
  | item :: items => do
    checkValue depth item
    checkItems depth items

/-- Checks the members of an object. -/
def checkMembers (depth : Nat) : List (JsonKey × Json) → Parsed Unit
  | [] => .ok ()
  | (key, value) :: members => do
    let _ ← checkKey key
    checkValue depth value
    checkMembers depth members

end

end Json

namespace MemberImage

/-- The kind under which a member is stored. -/
def kindOfJson (value : Json) : Parsed MemberKind := do
  match ← value.toText with
  | "field" => return .field
  | "method" => return .method
  | "type" => return .type
  | _ => throw .shape

/-- The members of a stored member, without its kind. -/
structure Parts where
  declaringType : Option String := none
  name : Option String := none
  fieldType : Option (Option String) := none
  signature : Option String := none

/-- The names of the members of each kind in order. -/
def memberNames : MemberKind → List String
  | .field => ["type", "name", "field_type"]
  | .method => ["type", "name", "signature"]
  | .type => ["type"]

/-- Reads one member, if the kind has it. -/
def Parts.add (kind : MemberKind) (parts : Parts) (key : String) (value : Json) : Parsed Parts :=
  if (memberNames kind).contains key then
    match key with
    | "type" => do
      return { parts with declaringType := ← Json.setOnce parts.declaringType value.toText }
    | "name" => do return { parts with name := ← Json.setOnce parts.name value.toText }
    | "field_type" => do
      return { parts with fieldType := ← Json.setOnce parts.fieldType value.toOptionalText }
    | _ => do return { parts with signature := ← Json.setOnce parts.signature value.toText }
  else .ok parts

/-- The member of a kind with the given parts. -/
def ofParts (kind : MemberKind) (parts : Parts) : Parsed MemberImage := do
  let type ← Json.required parts.declaringType
  match kind with
  | .field => return .field type (← Json.required parts.name) (parts.fieldType.getD none)
  | .method => return .method type (← Json.required parts.name) (← Json.required parts.signature)
  | .type => return .type type

/-- Reads the members of a kind. -/
def ofMembers (kind : MemberKind) (members : List (String × Json)) : Parsed MemberImage := do
  let parts ← members.foldlM (fun parts (key, value) => parts.add kind key value) ({} : Parts)
  ofParts kind parts

/-- Takes the kind out of the members of an object and checks the others. -/
def splitKind : Option MemberKind → List (String × Json) → List (JsonKey × Json) →
    Parsed (Option MemberKind × List (String × Json))
  | kind?, others, [] => .ok (kind?, others.reverse)
  | kind?, others, (key, value) :: members => do
    let key ← Json.checkKey key
    if key == "kind" then
      let kind? ← Json.setOnce kind? (kindOfJson value)
      splitKind kind? others members
    else
      Json.checkValue Json.maxMemberDepth value
      splitKind kind? ((key, value) :: others) members

/-- Reads a stored member: an object that says its kind in any place, or an array whose first item
is the kind. -/
def ofJson : Json → Parsed MemberImage
  | .object members ending => do
    let (kind?, others) ← splitKind none [] members
    Json.checkEnd ending
    ofMembers (← Json.required kind?) others
  | .array [] ending => do
    Json.checkEnd ending
    throw .shape
  | .array (item :: items) ending => do
    let kind ← kindOfJson item
    Json.checkItems Json.maxMemberDepth items
    Json.checkEnd ending
    let names := memberNames kind
    if names.length < items.length then throw .shape
    ofMembers kind (names.zip items)
  | value => .error value.mismatch

/-- The document of a stored member. -/
def toJson : MemberImage → Json
  | .field declaringType name fieldType =>
    .record ([("kind", .text "field"), ("type", .text declaringType), ("name", .text name)] ++
      (fieldType.map fun type => ("field_type", Json.text type)).toList)
  | .method declaringType name signature =>
    .record [("kind", .text "method"), ("type", .text declaringType), ("name", .text name),
      ("signature", .text signature)]
  | .type name => .record [("kind", .text "type"), ("type", .text name)]

end MemberImage

/-! ## Modules -/

namespace Image

/-- The members of a module read so far. -/
structure Parts where
  name : Option String := none
  types : Option (List TypeImage) := none
  strings : Option (TokenMap String) := none
  members : Option (TokenMap MemberImage) := none

/-- The names of the members in order. -/
def memberNames : List String := ["name", "types", "strings", "members"]

/-- Reads one member. -/
def Parts.add (parts : Parts) (key : String) (value : Json) : Parsed Parts :=
  match key with
  | "name" => do return { parts with name := ← Json.setOnce parts.name value.toText }
  | "types" => do
    return { parts with types := ← Json.setOnce parts.types (value.toListOf TypeImage.ofJson) }
  | "strings" => do
    return { parts with strings := ← Json.setOnce parts.strings (value.toTable Json.toText) }
  | "members" => do
    return { parts with members := ← Json.setOnce parts.members (value.toTable MemberImage.ofJson) }
  | _ => do value.skip; return parts

/-- Reads a module from a document. -/
def ofJson (value : Json) : Parsed Image := do
  let parts ← value.toParts memberNames Parts.add {}
  return {
    name := ← Json.required parts.name
    types := parts.types.getD []
    strings := parts.strings.getD .empty
    members := parts.members.getD .empty }

/-- The document of a table. -/
def tableToJson {α : Type} (toJson : α → Json) (table : TokenMap α) : Json :=
  .record (table.entries.map fun (token, value) => (token.text, toJson value))

/-- The document of a module. -/
def toJson (image : Image) : Json :=
  .record [
    ("name", .text image.name),
    ("types", .list (image.types.map TypeImage.toJson)),
    ("strings", tableToJson .text image.strings),
    ("members", tableToJson MemberImage.toJson image.members)]

/-- Reads a module from the text of a document, behind which only space may follow. -/
def ofText (text : String) : Parsed Image := do
  let (value, more) := Json.read text.toList
  let image ← ofJson value
  if more then throw (.text .malformed)
  return image

/-- The text of the document of a module. -/
def toText (image : Image) : String := image.toJson.render

end Image

end ManagedCode
