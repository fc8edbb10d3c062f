import Mathlib.Data.List.TakeDrop
import Mathlib.Tactic.ByContra
import ManagedCode.Json.Reading
import ManagedCode.Json.Writing
import ManagedCode.Proofs.Text.Numerals

/-!
# Reading written documents

A written document is read back as it was, whatever follows it, as long as that does not go on with
the last number of the document. The document has to be complete, and its numbers are bytes. Every
lemma leaves open the text behind the part that it is about. A text as long as the written document
has enough rounds for reading it: each round stands for a character at least.
-/

namespace ManagedCode.Json

/-! ## Strings -/

private theorem hexUnit?_control : ∀ n < 0x20,
    Text.padZeros 4 (Nat.toDigits 16 n) =
        ['0', '0', Nat.digitChar (n / 16), Nat.digitChar (n % 16)] ∧
      hexUnit? '0' '0' (Nat.digitChar (n / 16)) (Nat.digitChar (n % 16)) = some n := by
  decide

/-- A character is read back, escaped or not. -/
theorem readContent_writeChar (c : Char) (done rest : List Char) :
    readContent done (writeChar c ++ rest) = readContent (c :: done) rest := by
  unfold writeChar
  split
  case h_8 hquote hslash _ _ _ _ _ =>
    split
    · rename_i hc
      obtain ⟨hdigits, hunit⟩ := hexUnit?_control c.toNat hc
      -- a control is neither half of a character
      have htrailing : isTrailing c.toNat = false := by
        simp only [isTrailing, Bool.and_eq_false_iff, decide_eq_false_iff_not]
        omega
      have hleading : isLeading c.toNat = false := by
        simp only [isLeading, Bool.and_eq_false_iff, decide_eq_false_iff_not]
        omega
      rw [hdigits]
      simp only [List.cons_append, List.nil_append]
      rw [readContent]
      simp [hunit, htrailing, hleading]
    · rename_i hc
      have hcontrol : isControl c = false := by simpa [isControl] using hc
      rw [List.cons_append, List.nil_append, readContent.eq_def]
      split <;> simp_all
  all_goals simp [readContent, shortEscape?]

/-- The content of a string is read back up to the quote behind it. -/
theorem readContent_flatMap_writeChar (cs done rest : List Char) :
    readContent done (cs.flatMap writeChar ++ '"' :: rest) = .ok (done.reverse ++ cs, rest) := by
  induction cs generalizing done with
  | nil => simp [readContent]
  | cons c cs ih =>
    rw [List.flatMap_cons, List.append_assoc, readContent_writeChar, ih]
    simp

/-- A string is read back behind its opening quote. -/
theorem readQuoted_writeString (s : String) (rest : List Char) :
    ∃ content, writeString s ++ rest = '"' :: content ∧ readQuoted content = .text s rest := by
  refine ⟨s.toList.flatMap writeChar ++ '"' :: rest, by simp [writeString], ?_⟩
  simp [readQuoted, readContent_flatMap_writeChar]

/-! ## Numbers -/

/-- What may follow a value: nothing, a comma or a line break. -/
def Separates (rest : List Char) : Prop := ∀ c ∈ rest.head?, c = ',' ∨ c = '\n'

/-- The end of the text ends a number. -/
theorem separates_nil : Separates [] := by simp [Separates]

/-- A comma ends a number. -/
theorem separates_comma (rest : List Char) : Separates (',' :: rest) := by simp [Separates]

/-- A line break ends a number. -/
theorem separates_lineBreak (level : Nat) (rest : List Char) :
    Separates (lineBreak level ++ rest) := by
  simp [Separates, lineBreak]

/-- What ends a number does not go on with it. -/
theorem Separates.head_ne {rest : List Char} (h : Separates rest) {c : Char} {cs : List Char}
    (hrest : rest = c :: cs) : c.isDigit = false ∧ c ≠ '.' ∧ c ≠ 'e' ∧ c ≠ 'E' := by
  subst hrest
  rcases h c (by simp) with rfl | rfl <;> decide

private theorem takeDigits_append {digits rest : List Char}
    (hdigits : ∀ c ∈ digits, c.isDigit = true) (hrest : Separates rest) :
    Floating.takeDigits (digits ++ rest) = (digits, rest) := by
  have hspan : rest.takeWhile Char.isDigit = [] ∧ rest.dropWhile Char.isDigit = rest := by
    cases rest with
    | nil => simp
    | cons c rest => simp [(hrest.head_ne rfl).1]
  rw [Floating.takeDigits, List.span_eq_takeWhile_dropWhile,
    List.takeWhile_append_of_pos hdigits, List.dropWhile_append_of_pos hdigits, hspan.1, hspan.2,
    List.append_nil]

private theorem readFraction_separates {rest : List Char} (h : Separates rest) :
    readFraction rest = .ok (none, rest) := by
  unfold readFraction
  split
  · exact absurd rfl (h.head_ne rfl).2.1
  · rfl

private theorem readPower_separates {rest : List Char} (h : Separates rest) :
    readPower rest = .ok (none, rest) := by
  unfold readPower
  split
  · obtain ⟨-, -, he, hE⟩ := h.head_ne rfl
    simp [he, hE]
  · rfl

/-- The numeral of a number without sign, fraction and power. -/
def plainNumeral (n : Nat) : Numeral := ⟨false, Nat.toDigits 10 n, none, none⟩

private theorem toDigits_eq_cons (n : Nat) :
    ∃ c cs, Nat.toDigits 10 n = c :: cs ∧ c.isDigit = true := by
  obtain ⟨c, cs, h⟩ := List.exists_cons_of_ne_nil (Nat.toDigits_ne_nil (b := 10) (n := n))
  exact ⟨c, cs, h, Text.isDigit_toDigits (h ▸ List.mem_cons_self)⟩

private theorem plainNumeral_byte : ∀ n < 256, (plainNumeral n).isInRange = true ∧
    (plainNumeral n).number = .integer n ∧
    ¬((Nat.toDigits 10 n).head? = some '0' ∧ 1 < (Nat.toDigits 10 n).length) := by
  decide +kernel

private theorem readNumeral_byte {n : Nat} (hn : n < 256) {rest : List Char}
    (hrest : Separates rest) :
    readNumeral (Nat.toDigits 10 n ++ rest) = .ok (plainNumeral n, rest) := by
  have hdigits : readDigits (Nat.toDigits 10 n ++ rest) = .ok (Nat.toDigits 10 n, rest) := by
    rw [readDigits, takeDigits_append (fun _ => Text.isDigit_toDigits) hrest]
    split <;> simp_all [Nat.toDigits_ne_nil]
  have hwhole : readWhole (Nat.toDigits 10 n ++ rest) = .ok (Nat.toDigits 10 n, rest) := by
    rw [readWhole, hdigits]
    simp [bind, Except.bind, pure, Except.pure, (plainNumeral_byte n hn).2.2]
  have hsign : ∀ cs, Nat.toDigits 10 n ++ rest ≠ '-' :: cs := by
    intro cs hcs
    obtain ⟨c, digits, hcons, hc⟩ := toDigits_eq_cons n
    rw [hcons, List.cons_append] at hcs
    cases hcs
    exact absurd hc (by decide)
  unfold readNumeral
  split
  rename_i negative digits hsplit
  split at hsplit
  · rename_i cs hcs
    exact absurd hcs (hsign cs)
  · cases hsplit
    simp [hwhole, readFraction_separates hrest, readPower_separates hrest, bind, Except.bind,
      pure, Except.pure, plainNumeral]

/-- A byte is read back. -/
theorem readScalar_byte {n : Nat} (hn : n < 256) {rest : List Char} (hrest : Separates rest) :
    readScalar (Nat.toDigits 10 n ++ rest) = (.nat n, some rest) := by
  obtain ⟨hrange, hnumber, -⟩ := plainNumeral_byte n hn
  have hread : readNumber (Nat.toDigits 10 n ++ rest) = (.nat n, some rest) := by
    simp [readNumber, readNumeral_byte hn hrest, hrange, hnumber, nat]
  obtain ⟨c, digits, hcons, hc⟩ := toDigits_eq_cons n
  rw [hcons, List.cons_append] at hread ⊢
  unfold readScalar
  split
  case h_6 => simp_all
  all_goals simp_all [Char.isDigit]

/-! ## Values -/

/-- A document without breaks whose numbers are bytes. -/
inductive Complete : Json → Prop
  | null : Complete .null
  | bool (b : Bool) : Complete (.bool b)
  | byte (b : UInt8) : Complete (.nat b.toNat)
  | text (s : String) : Complete (.text s)
  | list {items : List Json} (complete : ∀ item ∈ items, Complete item) : Complete (.list items)
  | record {members : List (String × Json)}
      (complete : ∀ member ∈ members, Complete member.2) : Complete (.record members)

/-- A line break and its indent are skipped. -/
theorem skipSpace_lineBreak (level : Nat) (cs : List Char) :
    skipSpace (lineBreak level ++ cs) = skipSpace cs := by
  have hspace : ∀ c ∈ lineBreak level, isSpace c = true := by
    intro c hc
    rcases List.mem_cons.mp hc with rfl | hc
    · rfl
    · rw [List.eq_of_mem_replicate hc]
      rfl
  rw [skipSpace, List.dropWhile_append_of_pos hspace, skipSpace]

/-- Nothing is skipped in front of a character that is no space. -/
theorem skipSpace_cons {c : Char} (h : isSpace c = false) (cs : List Char) :
    skipSpace (c :: cs) = c :: cs := by
  simp [skipSpace, h]

private theorem isSpace_of_isDigit {c : Char} (h : c.isDigit = true) : isSpace c = false := by
  by_contra hspace
  simp only [isSpace, Bool.not_eq_false, Bool.or_eq_true, beq_iff_eq] at hspace
  rcases hspace with ((rfl | rfl) | rfl) | rfl <;> exact absurd h (by decide)

/-- Space in front of a value does not count. -/
theorem readValue_eq_of_skipSpace {cs cs' : List Char} (h : skipSpace cs = skipSpace cs')
    (rounds : Nat) : readValue rounds cs = readValue rounds cs' := by
  cases rounds with
  | zero => rfl
  | succ rounds => simp only [readValue, h]

/-- A line break in front of items does not matter. -/
theorem readItems_lineBreak (rounds level : Nat) (cs : List Char) :
    readItems rounds (lineBreak level ++ cs) = readItems rounds cs := by
  cases rounds with
  | zero => rfl
  | succ rounds =>
    simp only [readItems, readValue_eq_of_skipSpace (skipSpace_lineBreak level cs)]

/-- A line break in front of members does not matter. -/
theorem readMembers_lineBreak (rounds level : Nat) (cs : List Char) :
    readMembers rounds (lineBreak level ++ cs) = readMembers rounds cs := by
  cases rounds with
  | zero => rfl
  | succ rounds => simp only [readMembers, skipSpace_lineBreak]

/-- A written value starts with a character that is neither space nor the end of an array. -/
theorem Complete.write_eq_cons {doc : Json} (h : Complete doc) (level : Nat) :
    ∃ c cs, write level doc = c :: cs ∧ isSpace c = false ∧ c ≠ ']' := by
  cases h with
  | null => exact ⟨_, _, rfl, rfl, by decide⟩
  | bool b => cases b <;> exact ⟨_, _, rfl, rfl, by decide⟩
  | byte b =>
    obtain ⟨c, digits, hcons, hc⟩ := toDigits_eq_cons b.toNat
    have hwrite : write level (nat b.toNat) = c :: digits := by
      simp [nat, write, Text.intText, Text.natText, hcons]
    refine ⟨c, digits, hwrite, isSpace_of_isDigit hc, ?_⟩
    rintro rfl
    exact absurd hc (by decide)
  | text s => exact ⟨_, _, rfl, rfl, by decide⟩
  | @list items _ => cases items <;> exact ⟨_, _, rfl, rfl, by decide⟩
  | @record members _ => cases members <;> exact ⟨_, _, rfl, rfl, by decide⟩

/-- Whether a document is read back at every level with as many rounds as it has characters. -/
def ReadsBack (doc : Json) : Prop :=
  ∀ (level rounds : Nat) (rest : List Char), (write level doc).length ≤ rounds →
    Separates rest → readValue rounds (write level doc ++ rest) = (doc, some rest)

private theorem separates_writeItems (level : Nat) (items : List Json) (rest : List Char) :
    Separates (writeItems level items ++ rest) := by
  cases items with
  | nil =>
    rw [writeItems, List.append_assoc]
    exact separates_lineBreak level _
  | cons item items => exact separates_comma _

private theorem separates_writeMembers (level : Nat) (members : List (JsonKey × Json))
    (rest : List Char) : Separates (writeMembers level members ++ rest) := by
  cases members with
  | nil =>
    rw [writeMembers, List.append_assoc]
    exact separates_lineBreak level _
  | cons member members => exact separates_comma _

/-- The items of an array are read back from the first one on. -/
theorem readItems_write {item : Json} {items : List Json} (hitem : ReadsBack item)
    (hitems : ∀ item ∈ items, ReadsBack item) (level : Nat) {rounds : Nat}
    (hrounds : (write (level + 1) item).length + (writeItems level items).length ≤ rounds)
    (rest : List Char) :
    readItems rounds (write (level + 1) item ++ writeItems level items ++ rest) =
      (item :: items, none, some rest) := by
  have hread := fun rounds h =>
    hitem (level + 1) rounds _ h (separates_writeItems level items rest)
  induction items generalizing item rounds with
  | nil =>
    simp only [writeItems, List.length_append, List.length_singleton] at hrounds
    obtain ⟨rounds, rfl⟩ := Nat.exists_eq_add_one.mpr (show 0 < rounds by omega)
    rw [List.append_assoc, readItems, hread rounds (by omega)]
    simp [writeItems, skipSpace_lineBreak, skipSpace_cons (show isSpace ']' = false from rfl)]
  | cons next items ih =>
    rw [List.forall_mem_cons] at hitems
    simp only [writeItems, List.length_cons, List.length_append] at hrounds
    obtain ⟨rounds, rfl⟩ := Nat.exists_eq_add_one.mpr (show 0 < rounds by omega)
    have hle : (write (level + 1) next).length + (writeItems level items).length ≤ rounds := by
      omega
    have hnext := ih hitems.1 hitems.2 hle
      (fun rounds h => hitems.1 (level + 1) rounds _ h (separates_writeItems level items rest))
    rw [List.append_assoc, readItems, hread rounds (by omega)]
    simp only [writeItems, List.cons_append, List.append_assoc] at hnext ⊢
    simp [skipSpace_cons (show isSpace ',' = false from rfl), readItems_lineBreak, hnext]

/-- What is answered for the members of an object once the first of them is read. -/
def readOnward (rounds : Nat) (member : JsonKey × Json) (rest : List Char) :
    List (JsonKey × Json) × Option JsonBreak × Option (List Char) :=
  match skipSpace rest with
  | '\x7d' :: rest => ([member], none, some rest)
  | ',' :: rest =>
    let (members, ending, rest) := readMembers rounds rest
    (member :: members, ending, rest)
  | rest => ([member], some (breakAt rest), none)

/-- One member is read back, and reading goes on with what follows it. -/
theorem readMembers_member {value : Json} (hvalue : ReadsBack value) (key : String)
    {level rounds : Nat} (hrounds : (write level value).length ≤ rounds) {rest : List Char}
    (hrest : Separates rest) :
    readMembers (rounds + 2) (writeString key ++ ([':', ' '] ++ (write level value ++ rest))) =
      readOnward rounds (.ok key, value) rest := by
  obtain ⟨content, hcontent, hquoted⟩ :=
    readQuoted_writeString key ([':', ' '] ++ (write level value ++ rest))
  have hspace : skipSpace (' ' :: (write level value ++ rest)) =
      skipSpace (write level value ++ rest) := rfl
  have hread : readValue rounds (' ' :: (write level value ++ rest)) = (value, some rest) := by
    rw [readValue_eq_of_skipSpace hspace]
    exact hvalue level rounds rest hrounds hrest
  rw [hcontent, readMembers, skipSpace_cons (by rfl)]
  simp only [hquoted]
  rw [List.cons_append, List.singleton_append, readMember, skipSpace_cons (by rfl)]
  simp only [hread]
  rfl

/-- The members of an object whose keys can be read. -/
def keyed (members : List (String × Json)) : List (JsonKey × Json) :=
  members.map fun (key, value) => (.ok key, value)

/-- No members are read as no members. -/
@[simp] theorem keyed_nil : keyed [] = [] := rfl

/-- A key that was read stands for itself. -/
@[simp] theorem keyed_cons (member : String × Json) (members : List (String × Json)) :
    keyed (member :: members) = (.ok member.1, member.2) :: keyed members := rfl

private theorem writeMembers_cons (level : Nat) (member : String × Json)
    (members : List (JsonKey × Json)) :
    writeMembers level ((.ok member.1, member.2) :: members) =
      ',' :: (lineBreak (level + 1) ++ (writeString member.1 ++ ([':', ' '] ++
        (write (level + 1) member.2 ++ writeMembers level members)))) := by
  simp [writeMembers, Except.toOption]

/-- The members of an object are read back from the first key on. -/
theorem readMembers_write {key : String} {value : Json} {members : List (String × Json)}
    (hvalue : ReadsBack value) (hmembers : ∀ member ∈ members, ReadsBack member.2) (level : Nat)
    {rounds : Nat}
    (hrounds : (write (level + 1) value).length +
      (writeMembers level (keyed members)).length < rounds)
    (rest : List Char) :
    readMembers rounds (writeString key ++ ([':', ' '] ++ (write (level + 1) value ++
        (writeMembers level (keyed members) ++ rest)))) =
      ((.ok key, value) :: keyed members, none, some rest) := by
  have hrest := separates_writeMembers level (keyed members) rest
  induction members generalizing key value rounds with
  | nil =>
    simp only [keyed_nil, writeMembers, List.length_append, List.length_singleton] at hrounds
    obtain ⟨rounds, rfl⟩ := Nat.exists_eq_add_of_le' (show 2 ≤ rounds by omega)
    rw [readMembers_member hvalue key (by omega) hrest]
    simp [readOnward, writeMembers, skipSpace_lineBreak,
      skipSpace_cons (show isSpace '\x7d' = false from rfl)]
  | cons next members ih =>
    rw [List.forall_mem_cons] at hmembers
    rw [keyed_cons, writeMembers_cons] at hrounds
    simp only [List.length_cons, List.length_append, List.length_nil] at hrounds
    obtain ⟨rounds, rfl⟩ := Nat.exists_eq_add_of_le' (show 2 ≤ rounds by omega)
    have hlt : (write (level + 1) next.2).length +
        (writeMembers level (keyed members)).length < rounds := by
      omega
    have hnext := @ih next.1 next.2 hmembers.1 hmembers.2 rounds hlt
      (separates_writeMembers level (keyed members) rest)
    rw [readMembers_member hvalue key (by omega) hrest, keyed_cons, writeMembers_cons]
    simp only [List.cons_append, List.append_assoc, List.nil_append] at hnext ⊢
    simp [readOnward, skipSpace_cons (show isSpace ',' = false from rfl), readMembers_lineBreak,
      hnext]

/-- A document is read back if it is read from its first character on with one round more. -/
private theorem readsBack_of_readValue {doc : Json} (hdoc : Complete doc)
    (h : ∀ (level rounds : Nat) (rest : List Char), (write level doc).length ≤ rounds + 1 →
      Separates rest → readValue (rounds + 1) (write level doc ++ rest) = (doc, some rest)) :
    ReadsBack doc := by
  intro level rounds rest hrounds hrest
  obtain ⟨c, cs, hcons, -⟩ := hdoc.write_eq_cons level
  have hpos : 0 < rounds := by
    rw [hcons, List.length_cons] at hrounds
    omega
  obtain ⟨rounds, rfl⟩ := Nat.exists_eq_add_one.mpr hpos
  exact h level rounds rest hrounds hrest

private theorem readValue_scalar {c : Char} (hspace : isSpace c = false) (harray : c ≠ '[')
    (hobject : c ≠ '\x7b') (rounds : Nat) (cs : List Char) :
    readValue (rounds + 1) (c :: cs) = readScalar (c :: cs) := by
  rw [readValue, skipSpace_cons hspace]
  split
  · simp_all
  · simp_all
  · rfl

private theorem readValue_items {c : Char} (hspace : isSpace c = false) (hc : c ≠ ']')
    (rounds level : Nat) (cs : List Char) :
    readValue (rounds + 1) ('[' :: (lineBreak level ++ c :: cs)) =
      (.array (readItems rounds (c :: cs)).1 (readItems rounds (c :: cs)).2.1,
        (readItems rounds (c :: cs)).2.2) := by
  rw [readValue, skipSpace_cons (by rfl)]
  simp only [skipSpace_lineBreak, skipSpace_cons hspace]
  split
  · rename_i hcons
    cases hcons
    exact absurd rfl hc
  · rfl

private theorem readValue_members (rounds level : Nat) (cs : List Char) :
    readValue (rounds + 1) ('\x7b' :: (lineBreak level ++ '"' :: cs)) =
      (.object (readMembers rounds ('"' :: cs)).1 (readMembers rounds ('"' :: cs)).2.1,
        (readMembers rounds ('"' :: cs)).2.2) := by
  rw [readValue, skipSpace_cons (by rfl)]
  simp only [skipSpace_lineBreak, skipSpace_cons (show isSpace '"' = false from rfl)]
  rfl

private theorem write_list_cons (level : Nat) (item : Json) (items : List Json) :
    write level (list (item :: items)) =
      '[' :: (lineBreak (level + 1) ++ (write (level + 1) item ++ writeItems level items)) := by
  simp [list, write]

private theorem record_cons (member : String × Json) (members : List (String × Json)) :
    record (member :: members) = .object ((.ok member.1, member.2) :: keyed members) none := rfl

private theorem write_record_cons (level : Nat) (member : String × Json)
    (members : List (String × Json)) :
    write level (record (member :: members)) =
      '\x7b' :: (lineBreak (level + 1) ++ (writeString member.1 ++ ([':', ' '] ++
        (write (level + 1) member.2 ++ writeMembers level (keyed members))))) := by
  simp [record_cons, write, Except.toOption]

/-- A complete document is read back. -/
theorem Complete.readsBack {doc : Json} (h : Complete doc) : ReadsBack doc := by
  induction h with
  | null => exact readsBack_of_readValue .null fun level rounds rest _ _ => rfl
  | bool b =>
    refine readsBack_of_readValue (.bool b) fun level rounds rest _ _ => ?_
    cases b <;> rfl
  | byte b =>
    refine readsBack_of_readValue (.byte b) fun level rounds rest _ hrest => ?_
    have hread := readScalar_byte b.toNat_lt hrest
    have hwrite : write level (nat b.toNat) = Nat.toDigits 10 b.toNat := by
      simp [nat, write, Text.intText, Text.natText]
    obtain ⟨c, digits, hcons, hc⟩ := toDigits_eq_cons b.toNat
    have harray : c ≠ '[' := by
      rintro rfl
      exact absurd hc (by decide)
    have hobject : c ≠ '\x7b' := by
      rintro rfl
      exact absurd hc (by decide)
    rw [hwrite]
    rw [hcons, List.cons_append] at hread ⊢
    rw [readValue_scalar (isSpace_of_isDigit hc) harray hobject, hread]
  | text s =>
    refine readsBack_of_readValue (.text s) fun level rounds rest _ _ => ?_
    obtain ⟨content, hcontent, hquoted⟩ := readQuoted_writeString s rest
    rw [write, hcontent, readValue_scalar (by rfl) (by decide) (by decide)]
    simp [readScalar, readString, hquoted]
  | @list items complete ih =>
    refine readsBack_of_readValue (.list complete) fun level rounds rest hrounds hrest => ?_
    cases items with
    | nil => rfl
    | cons item items =>
      rw [List.forall_mem_cons] at complete ih
      rw [write_list_cons] at hrounds ⊢
      simp only [List.length_cons, List.length_append] at hrounds
      -- Reading takes at most a round for each character, and the items are shorter than the list.
      have hle : (write (level + 1) item).length + (writeItems level items).length ≤ rounds := by
        omega
      have hitems := readItems_write ih.1 ih.2 level hle rest
      obtain ⟨c, cs, hcons, hspace, hc⟩ := complete.1.write_eq_cons (level + 1)
      simp only [hcons, List.cons_append, List.append_assoc] at hitems ⊢
      rw [readValue_items hspace hc, hitems, Json.list]
  | @record members complete ih =>
    refine readsBack_of_readValue (.record complete) fun level rounds rest hrounds hrest => ?_
    cases members with
    | nil => rfl
    | cons member members =>
      rw [List.forall_mem_cons] at ih
      rw [write_record_cons] at hrounds ⊢
      simp only [List.length_cons, List.length_append, List.length_nil] at hrounds
      have hlt : (write (level + 1) member.2).length +
          (writeMembers level (keyed members)).length < rounds := by
        omega
      have hmembers := @readMembers_write member.1 member.2 members ih.1 ih.2 level rounds hlt rest
      obtain ⟨content, hcontent, -⟩ := readQuoted_writeString member.1 ([':', ' '] ++
        (write (level + 1) member.2 ++ (writeMembers level (keyed members) ++ rest)))
      simp only [List.cons_append, List.append_assoc, List.nil_append] at hmembers hcontent ⊢
      rw [hcontent] at hmembers ⊢
      rw [readValue_members, hmembers, record_cons]

/-- The text of a complete document is that document and nothing else. -/
theorem Complete.read_render {doc : Json} (h : Complete doc) :
    read doc.render.toList = (doc, false) := by
  have hread := h.readsBack 0 (2 * (write 0 doc).length + 1) [] (by omega) separates_nil
  rw [List.append_nil] at hread
  simp [read, render, hread, skipSpace]

end ManagedCode.Json
