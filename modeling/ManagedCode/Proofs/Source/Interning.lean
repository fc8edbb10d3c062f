import Mathlib.Data.List.Induction
import Mathlib.Data.List.Nodup
import ManagedCode.Proofs.Image.RoundTrip
import ManagedCode.Proofs.Source.Assembled

/-!
# The string table over many sources

Sources that are assembled one after the other share a table, and one that fails leaves in it the
literals that it met before. Whatever they are, the table only grows and has no literal twice. So
its tokens are consecutive, and the code of a source goes on meaning what it meant. The map and the
next token that an assembler keeps are those of the list of literals at every time, since a token
is no more than the place of its literal.
-/

namespace ManagedCode.Source

/-! ## The table as a map -/

namespace Literals

variable {literals later : Literals}

/-- As long as it fits into 32 bits, the number of a token is counted from the first one. -/
theorem value_tokenAt {place : Nat} (h : firstToken + place < 2 ^ 32) :
    (tokenAt place).value.toNat = firstToken + place := by
  rw [tokenAt, Nat.toUInt32_eq, UInt32.toNat_ofNat_of_lt' h]

private theorem ascending_mapIdx (hf : literals.Fits) :
    Token.Ascending (literals.texts.mapIdx fun place text => (tokenAt place, text)) := by
  rw [Token.Ascending, List.pairwise_iff_getElem]
  intro i j hi hj hij
  rw [List.length_mapIdx] at hi hj
  unfold Fits at hf
  simp only [List.getElem_mapIdx, UInt32.lt_iff_toNat_lt]
  rw [value_tokenAt (by omega), value_tokenAt (by omega)]
  omega

/-- The entries of a table are in the order of its literals. -/
theorem entries_toMap (hf : literals.Fits) :
    literals.toMap.entries = literals.texts.mapIdx fun place text => (tokenAt place, text) :=
  congrArg TokenMap.entries (TokenMap.ofList_entries ⟨_, ascending_mapIdx hf⟩)

/-- The tokens of a table are consecutive. -/
theorem tokens_toMap (hf : literals.Fits) :
    literals.toMap.entries.map (·.1.value.toNat) =
      List.range' firstToken literals.texts.length := by
  rw [entries_toMap hf]
  unfold Fits at hf
  refine List.ext_getElem (by simp) fun i hi _ => ?_
  rw [List.length_map, List.length_mapIdx] at hi
  rw [List.getElem_map, List.getElem_mapIdx, List.getElem_range', Nat.one_mul,
    value_tokenAt (by omega)]

/-- A token of a table is that of the place of its literal. -/
theorem get?_toMap_eq_some_iff (hf : literals.Fits) {token : Token} {text : String} :
    literals.toMap.get? token = some text ↔
      ∃ place, token = tokenAt place ∧ literals.texts[place]? = some text := by
  constructor
  · intro h
    obtain ⟨entry, hfind, rfl⟩ := Option.map_eq_some_iff.mp h
    have hmem := List.mem_of_find?_eq_some hfind
    rw [entries_toMap hf] at hmem
    obtain ⟨place, hplace, rfl⟩ := List.mem_mapIdx.mp hmem
    have htoken := List.find?_some hfind
    exact ⟨place, (eq_of_beq htoken).symm, List.getElem?_eq_getElem hplace⟩
  · rintro ⟨place, rfl, hplace⟩
    exact get?_toMap hf hplace

/-- The tokens fit if there are fewer than 2 ^ 28 literals. -/
theorem fits_of_length_lt (h : literals.texts.length < 2 ^ 28) : literals.Fits := by
  unfold Fits firstToken
  omega

/-- A later table is at least as long. -/
theorem Extends.length_le (h : Extends literals later) :
    literals.texts.length ≤ later.texts.length := by
  by_contra hlt
  have hi := List.getElem?_eq_getElem (Nat.not_le.mp hlt)
  exact Nat.lt_irrefl _ (List.getElem?_eq_some_iff.mp (h _ _ hi)).1

/-- An entry of a table is one of every later table. -/
theorem Extends.get?_toMap (h : Extends literals later) (hf : later.Fits) {token : Token}
    {text : String} (ht : literals.toMap.get? token = some text) :
    later.toMap.get? token = some text := by
  have hle := h.length_le
  have hearlier : literals.Fits := by
    unfold Fits at hf ⊢
    omega
  obtain ⟨place, rfl, hplace⟩ := (get?_toMap_eq_some_iff hearlier).mp ht
  exact Literals.get?_toMap hf (h place text hplace)

/-- What assembling does to a table: it may add literals that are new. -/
structure Grows (earlier later : Literals) : Prop where
  kept : Extends earlier later
  nodup : earlier.texts.Nodup → later.texts.Nodup

/-- A table has grown by nothing. -/
theorem Grows.refl (literals : Literals) : Grows literals literals := ⟨.refl literals, id⟩

/-- Growing twice is growing. -/
theorem Grows.trans {a b c : Literals} (hab : Grows a b) (hbc : Grows b c) : Grows a c :=
  ⟨hab.kept.trans hbc.kept, hbc.nodup ∘ hab.nodup⟩

/-- A literal that is met is added at the end, unless it is there already. -/
theorem grows_intern (literals : Literals) (text : String) :
    Grows literals (literals.intern text).2 := by
  obtain ⟨_, _, _, hextends, _⟩ := literals.intern_spec text
  refine ⟨hextends, fun hn => ?_⟩
  unfold intern
  split
  · exact hn
  · rename_i hnew
    have habsent : text ∉ literals.texts := by
      intro hm
      simpa using List.findIdx?_eq_none_iff.mp hnew text hm
    exact List.nodup_append.mpr ⟨hn, List.nodup_singleton _, by grind⟩

/-! ## The table as an assembler keeps it -/

private theorem find?_mapIdx_snd (token : Nat → Token) (texts : List String) (text : String) :
    (texts.mapIdx fun place found => (token place, found)).find? (fun entry => entry.2 == text) =
      (texts.findIdx? (· == text)).map fun place => (token place, text) := by
  induction texts generalizing token with
  | nil => rfl
  | cons first texts ih =>
    rw [List.mapIdx_cons, List.find?_cons, List.findIdx?_cons]
    cases hsame : first == text with
    | true => simp [eq_of_beq hsame]
    | false => simpa [Function.comp_def] using ih fun place => token (place + 1)

/-- One literal more is one entry more, under the token that comes next. -/
theorem toMap_append (literals : Literals) (text : String) :
    toMap ⟨literals.texts ++ [text]⟩ =
      literals.toMap.insert (tokenAt literals.texts.length) text := by
  simp [toMap, TokenMap.ofList, List.mapIdx_append, List.foldl_append]

/-- The token of the next place has the next number. -/
theorem tokenAt_succ (place : Nat) : tokenAt (place + 1) = ⟨(tokenAt place).value + 1⟩ := by
  simp [tokenAt, ← Nat.add_assoc, UInt32.ofNat_add]

/-- One literal more: the table as it is kept gives out the token of the literal's place. -/
theorem intern_toTable {text : String} (hf : (literals.intern text).2.Fits) :
    literals.toTable.intern text =
      ((literals.intern text).1, (literals.intern text).2.toTable) := by
  have hfits : literals.Fits :=
    Nat.le_trans (Nat.add_le_add_left (grows_intern literals text).kept.length_le _) hf
  unfold StringTable.intern
  rw [toTable, entries_toMap hfits, find?_mapIdx_snd tokenAt]
  unfold intern
  cases hplace : literals.texts.findIdx? (· == text) with
  | some place => rfl
  | none =>
    simp only [Option.map_none, toTable, toMap_append, List.length_append, List.length_singleton,
      tokenAt_succ]

end Literals

/-! ## Literals that are met one after the other -/

/-- The tokens of literals that are met in turn, and the table that has them all. The tables are
those of the given way to intern a literal. -/
def internAll {σ : Type} (intern : σ → String → Token × σ) (table : σ) :
    List String → List Token × σ
  | [] => ([], table)
  | text :: met =>
    let (token, later) := intern table text
    let (tokens, last) := internAll intern later met
    (token :: tokens, last)

/-- Literals may be met in two portions. -/
theorem internAll_append {σ : Type} (intern : σ → String → Token × σ) (table : σ)
    (before after : List String) :
    (internAll intern table (before ++ after)).2 =
      (internAll intern (internAll intern table before).2 after).2 := by
  induction before generalizing table with
  | nil => rfl
  | cons text before ih => exact ih _

namespace Literals

variable {literals : Literals}

/-- However many literals are met, the table only grows. -/
theorem grows_internAll (literals : Literals) (met : List String) :
    Grows literals (internAll Literals.intern literals met).2 := by
  induction met generalizing literals with
  | nil => exact .refl literals
  | cons text met ih => exact (literals.grows_intern text).trans (ih _)

/-- Every literal gets the token of its place in the last table. -/
theorem internAll_tokens (literals : Literals) (met : List String) :
    List.Forall₂ (fun text token => ∃ place, token = tokenAt place ∧
        (internAll Literals.intern literals met).2.texts[place]? = some text)
      met (internAll Literals.intern literals met).1 := by
  induction met generalizing literals with
  | nil => exact .nil
  | cons text met ih =>
    obtain ⟨place, htoken, hplace, -, -⟩ := literals.intern_spec text
    exact .cons ⟨place, htoken, (grows_internAll _ met).kept _ _ hplace⟩ (ih _)

/-- Whatever literals are met, the table as it is kept gives out the tokens of their places. -/
theorem internAll_toTable {met : List String}
    (hf : (internAll Literals.intern literals met).2.Fits) :
    internAll StringTable.intern literals.toTable met =
      ((internAll Literals.intern literals met).1,
        (internAll Literals.intern literals met).2.toTable) := by
  induction met generalizing literals with
  | nil => rfl
  | cons text met ih =>
    have hstep : (literals.intern text).2.Fits :=
      Nat.le_trans (Nat.add_le_add_left (grows_internAll _ met).kept.length_le _) hf
    have hrest := @ih (literals.intern text).2 hf
    simp only [internAll, intern_toTable hstep, hrest]

end Literals

/-! ## Assembling adds literals -/

/-- The table that an assembly leaves, whether it fails or not. -/
def tableAfter {α : Type} (run : Assembly α) (literals : Literals) : Literals :=
  match run literals with
  | .ok _ later => later
  | .error _ later => later

/-- The assembly changes the table by meeting literals only. -/
def Adds {α : Type} (run : Assembly α) : Prop :=
  ∀ literals, ∃ met, tableAfter run literals = (internAll Literals.intern literals met).2

namespace Adds

variable {α β : Type}

/-- An assembly that meets literals only makes the table grow. -/
theorem grows {run : Assembly α} (h : Adds run) (literals : Literals) :
    Literals.Grows literals (tableAfter run literals) := by
  obtain ⟨met, hmet⟩ := h literals
  exact hmet ▸ literals.grows_internAll met

/-- Giving a value meets no literal. -/
theorem pure (a : α) : Adds (Pure.pure a : Assembly α) := fun _ => ⟨[], rfl⟩

/-- Raising an error meets no literal. -/
theorem throw (error : Error) : Adds (MonadExcept.throw error : Assembly α) := fun _ => ⟨[], rfl⟩

/-- Assemblies in sequence meet the literals of the first one, then those of the second one. -/
theorem bind {run : Assembly α} {next : α → Assembly β} (h : Adds run) (hn : ∀ a, Adds (next a)) :
    Adds (run >>= next) := by
  intro literals
  obtain ⟨met, hfirst⟩ := h literals
  unfold tableAfter at hfirst ⊢
  simp only [Bind.bind, EStateM.bind]
  cases hrun : run literals with
  | error error middle =>
    rw [hrun] at hfirst
    exact ⟨met, hfirst⟩
  | ok a middle =>
    rw [hrun] at hfirst
    obtain ⟨more, hrest⟩ := hn a middle
    exact ⟨met ++ more, hrest.trans (by rw [internAll_append, ← hfirst])⟩

/-- Reading something in a line meets no literal. -/
theorem located (line : Nat) (found : Except Cause α) : Adds (Source.located line found) := by
  cases found with
  | ok a => exact pure a
  | error cause => exact throw _

/-- Interning a literal meets it. -/
theorem intern (text : String) :
    Adds (modifyGet fun literals => literals.intern text : Assembly Token) :=
  fun _ => ⟨[text], rfl⟩

/-- Writing an operand meets at most the literal that it is. -/
theorem operandBytes (labels : Labels) (s : Statement) : Adds (Source.operandBytes labels s) := by
  unfold Source.operandBytes
  split
  · split
    · exact pure []
    · exact throw _
  · split
    · exact throw _
    · split
      · exact bind (located _ _) fun text => bind (intern text) fun _ => pure _
      · exact located _ _

/-- Writing statements meets their literals in order, up to the statement that fails. -/
theorem statementBytes (labels : Labels) (statements : List Statement) :
    Adds (Source.statementBytes labels statements) := by
  induction statements with
  | nil => exact pure []
  | cons s statements ih =>
    exact bind (operandBytes labels s) fun _ => bind ih fun _ => pure _

/-- Assembling a source meets literals only. -/
theorem assemble (source : String) : Adds (Source.assemble source) := by
  unfold Source.assemble
  split
  · exact throw _
  · exact statementBytes _ _

end Adds

/-- The table after assembling sources in turn, some of which may fail. -/
def tableOf (sources : List String) : Literals :=
  sources.foldl (fun literals source => tableAfter (assemble source) literals) .empty

/-- The table of more sources goes on from the table of the first ones. -/
theorem tableOf_append (before after : List String) :
    tableOf (before ++ after) =
      after.foldl (fun literals source => tableAfter (assemble source) literals)
        (tableOf before) :=
  List.foldl_append

/-- Assembling sources in turn makes the table grow. -/
theorem grows_foldl (sources : List String) (literals : Literals) :
    Literals.Grows literals
      (sources.foldl (fun literals source => tableAfter (assemble source) literals) literals) := by
  induction sources generalizing literals with
  | nil => exact .refl literals
  | cons source sources ih => exact ((Adds.assemble source).grows literals).trans (ih _)

/-- No literal is in the table twice. -/
theorem nodup_tableOf (sources : List String) : (tableOf sources).texts.Nodup :=
  (grows_foldl sources .empty).nodup .nil

/-- The table over many sources is that of some literals met one after the other. -/
theorem exists_met_tableOf (sources : List String) :
    ∃ met, tableOf sources = (internAll Literals.intern .empty met).2 := by
  induction sources using List.reverseRecOn with
  | nil => exact ⟨[], rfl⟩
  | append_singleton sources source ih =>
    obtain ⟨met, hmet⟩ := ih
    obtain ⟨more, hmore⟩ := Adds.assemble source (tableOf sources)
    refine ⟨met ++ more, ?_⟩
    rw [tableOf_append, internAll_append, ← hmet]
    exact hmore

/-- The table over many sources is the one that an assembler keeps as a map with a next token: the
literals that it meets lead there from the empty table, and each of them gets the token of its
place. -/
theorem exists_met_toTable (sources : List String) (hf : (tableOf sources).Fits) :
    ∃ met tokens, internAll StringTable.intern .empty met = (tokens, (tableOf sources).toTable) ∧
      List.Forall₂ (fun text token => ∃ place, token = Literals.tokenAt place ∧
        (tableOf sources).texts[place]? = some text) met tokens := by
  obtain ⟨met, hmet⟩ := exists_met_tableOf sources
  have htokens := Literals.empty.internAll_tokens met
  rw [hmet] at hf ⊢
  exact ⟨met, _, Literals.internAll_toTable hf, htokens⟩

/-! ## The literals of a source -/

/-- A literal stands between quotes, and its text is what is between them, unescaped. -/
theorem readLiteral_eq_ok {text : List Char} {string : String} (h : readLiteral text = .ok string) :
    ∃ inner cs, text = '"' :: inner ++ ['"'] ∧ Text.unescape inner = .ok cs ∧
      string = String.ofList cs := by
  unfold readLiteral at h
  split at h
  · rename_i rest
    split at h
    · rename_i inner hrest
      split at h
      · rename_i cs hcs
        cases h
        refine ⟨inner.reverse, cs, ?_, hcs, rfl⟩
        rw [← List.reverse_reverse rest, hrest, List.reverse_cons]
        rfl
      · cases h
    · cases h
  · cases h

/-- The statement is a literal under the opcode of string literals. -/
def Statement.IsLiteral (s : Statement) : Prop :=
  s.opcode = .ldstr ∧ s.operand.head? = some '"'

/-- The code has the opcode and the token at the offset of the statement. -/
def Statement.HasToken (s : Statement) (code : List UInt8) (token : Token) : Prop :=
  ∃ front behind, code = front ++ s.opcode.encode ++ Bytes.ofNat 4 token.value.toNat ++ behind ∧
    front.length = s.offset

section

variable {labels : Labels} {literals later : Literals} {code : List UInt8}

/-- A literal is written as the token of its place in the table. -/
theorem operandBytes_literal {s : Statement} {operand : List UInt8} (hs : s.IsLiteral)
    (h : operandBytes labels s literals = .ok operand later) :
    ∃ string place, readLiteral s.operand = .ok string ∧ later.texts[place]? = some string ∧
      operand = Bytes.ofNat 4 (Literals.tokenAt place).value.toNat := by
  obtain ⟨hop, hquote⟩ := hs
  rcases operandBytes_eq_ok h with ⟨string, -, hread, rfl, rfl⟩ | ⟨hplain, -, -⟩
  · obtain ⟨place, htoken, hplace, -, -⟩ := literals.intern_spec string
    exact ⟨string, place, hread, hplace, by rw [htoken]⟩
  · -- A token starts with an at sign.
    rw [hop] at hplain
    obtain ⟨token, htoken, -⟩ := map_eq_ok_iff.mp hplain
    unfold readToken at htoken
    split at htoken
    · rename_i hoperand
      rw [hoperand] at hquote
      cases hquote
    · cases htoken

/-- In the code of many statements, each literal has its token behind its opcode. -/
theorem literal_of_statementBytes {statements : List Statement} {front : List UInt8} {stop : Nat}
    (h : statementBytes labels statements literals = .ok code later)
    (hc : Consecutive front.length statements stop) {s : Statement} (hm : s ∈ statements)
    (hs : s.IsLiteral) :
    ∃ string place, readLiteral s.operand = .ok string ∧ later.texts[place]? = some string ∧
      s.HasToken (front ++ code) (Literals.tokenAt place) := by
  induction statements generalizing literals code front with
  | nil => cases hm
  | cons first statements ih =>
    obtain ⟨hoffset, width, hw, hrest⟩ := hc
    obtain ⟨operand, middle, more, hoperand, hmore, rfl⟩ := statementBytes_cons_eq_ok h
    rcases List.mem_cons.mp hm with rfl | hm
    · obtain ⟨string, place, hread, hplace, rfl⟩ := operandBytes_literal hs hoperand
      have hgrows := (Adds.statementBytes labels statements).grows middle
      rw [tableAfter, hmore] at hgrows
      exact ⟨string, place, hread, hgrows.kept _ _ hplace, front, more,
        by simp only [List.append_assoc], hoffset.symm⟩
    · rw [operandWidth_of_operandBytes hoperand] at hw
      cases hw
      obtain ⟨string, place, hread, hplace, htoken⟩ := @ih middle more
        (front ++ (first.opcode.encode ++ operand)) hmore
        (by rwa [List.length_append, List.length_append, Opcode.length_encode, ← Nat.add_assoc]) hm
      refine ⟨string, place, hread, hplace, ?_⟩
      rwa [← List.append_assoc front]

end

/-- The table of an assembler that was given some sources, of which any may have failed. Its tokens
are consecutive, no two of them stand for the same text, and every entry that the table had at some
time is still there. Every literal of a source that could be assembled is written as a token that
stood for the unescaped literal then, and still does. -/
theorem string_table (sources : List String)
    (hfew : (tableOf sources).texts.length < 2 ^ 28) :
    (tableOf sources).toMap.entries.map (·.1.value.toNat) =
        List.range' 0x70000001 (tableOf sources).texts.length ∧
      (∀ a b text, (tableOf sources).toMap.get? a = some text →
        (tableOf sources).toMap.get? b = some text → a = b) ∧
      (∀ before after, sources = before ++ after → ∀ token text,
        (tableOf before).toMap.get? token = some text →
        (tableOf sources).toMap.get? token = some text) ∧
      ∀ before source after code later, sources = before ++ source :: after →
        assemble source (tableOf before) = .ok code later →
        ∃ layout, Layout.ofSource source.toList = .ok layout ∧
          ∀ s ∈ layout.statements, s.IsLiteral →
            ∃ inner cs token, s.operand = '"' :: inner ++ ['"'] ∧ Text.unescape inner = .ok cs ∧
              s.HasToken code token ∧
              later.toMap.get? token = some (String.ofList cs) ∧
              (tableOf sources).toMap.get? token = some (String.ofList cs) := by
  have hfits := Literals.fits_of_length_lt hfew
  refine ⟨Literals.tokens_toMap hfits, fun a b text ha hb => ?_,
    fun before after hsources token text ht => ?_,
    fun before source after code later hsources hok => ?_⟩
  · -- A token is the place of its text, and no text is in two places.
    obtain ⟨i, rfl, hi⟩ := (Literals.get?_toMap_eq_some_iff hfits).mp ha
    obtain ⟨j, rfl, hj⟩ := (Literals.get?_toMap_eq_some_iff hfits).mp hb
    have hlt := (List.getElem?_eq_some_iff.mp hi).1
    rw [(List.getElem?_inj hlt (nodup_tableOf sources)).mp (hi.trans hj.symm)]
  · -- Further sources only put texts behind those that are there.
    refine Literals.Extends.get?_toMap ?_ hfits ht
    rw [hsources, tableOf_append]
    exact (grows_foldl after _).kept
  · obtain ⟨layout, hlayout, hbytes⟩ := assemble_eq_ok hok
    refine ⟨layout, hlayout, fun s hs hliteral => ?_⟩
    obtain ⟨string, place, hread, hplace, htoken⟩ := @literal_of_statementBytes _ _ _ _ _ [] _
      hbytes (Layout.ofSource_eq_ok hlayout).2.1 s (List.mem_reverse.mpr hs) hliteral
    obtain ⟨inner, cs, hoperand, hcs, rfl⟩ := readLiteral_eq_ok hread
    have hextends : Literals.Extends later (tableOf sources) := by
      rw [hsources, tableOf_append, List.foldl_cons, tableAfter, hok]
      exact (grows_foldl after later).kept
    have hlater : later.Fits :=
      Literals.fits_of_length_lt (Nat.lt_of_le_of_lt hextends.length_le hfew)
    have hget := Literals.get?_toMap hlater hplace
    exact ⟨inner, cs, Literals.tokenAt place, hoperand, hcs, htoken, hget,
      hextends.get?_toMap hfits hget⟩

/-- The first source fails behind a literal, which the second one meets again. -/
theorem string_table_failing :
    let failing := "ldstr \"a\"\nldc.i4.s 999"
    let source := "ldstr \"b\"\nldstr \"a\""
    let code : List UInt8 := [0x72, 0x02, 0x00, 0x00, 0x70, 0x72, 0x01, 0x00, 0x00, 0x70]
    (tableOf [failing, source]).texts = ["a", "b"] ∧
      (tableOf [failing, source]).texts.length < 2 ^ 28 ∧
      assemble source (tableOf [failing]) = .ok code ⟨["a", "b"]⟩ ∧
      (tableOf [failing, source]).toMap.get? ⟨0x70000001⟩ = some "a" ∧
      ∃ layout, Layout.ofSource source.toList = .ok layout ∧
        ∀ s ∈ layout.statements, s.IsLiteral →
          ∃ inner cs token, s.operand = '"' :: inner ++ ['"'] ∧ Text.unescape inner = .ok cs ∧
            s.HasToken code token ∧
            (tableOf [failing, source]).toMap.get? token = some (String.ofList cs) := by
  intro failing source code
  have htexts : (tableOf [failing, source]).texts = ["a", "b"] := by decide +kernel
  have hfew : (tableOf [failing, source]).texts.length < 2 ^ 28 := by
    rw [htexts]
    decide
  have hok : assemble source (tableOf [failing]) = .ok code ⟨["a", "b"]⟩ :=
    eq_ok_of_gives (by decide +kernel)
  obtain ⟨-, -, hkept, hliterals⟩ := string_table [failing, source] hfew
  refine ⟨htexts, hfew, hok, ?_, ?_⟩
  · exact hkept [failing] [source] rfl _ _ (by decide +kernel)
  · obtain ⟨layout, hlayout, hall⟩ := hliterals [failing] source [] code _ rfl hok
    refine ⟨layout, hlayout, fun s hs hliteral => ?_⟩
    obtain ⟨inner, cs, token, hoperand, hcs, htoken, -, hget⟩ := hall s hs hliteral
    exact ⟨inner, cs, token, hoperand, hcs, htoken, hget⟩

end ManagedCode.Source
