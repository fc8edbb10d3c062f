import Mathlib.Data.List.Forall2
import ManagedCode.Proofs.Source.ListingOperands

/-!
# The listing round trip

Assembling the listing of code gives pieces with the same opcodes and operands as those of the code,
apart from the tokens of string literals, which now name the same texts in the string table of the
assembly run.
-/

namespace ManagedCode

open Source (Statement Labels Literals FromListing)

/-! ## Layout -/

namespace Source

/-- The statements of the listing of some pieces, the first in the line `line` and at `offset`. -/
def statements (resolver : Resolver) : (line offset : Nat) → List Piece → List Statement
  | _, _, [] => []
  | line, offset, piece :: pieces =>
    ofPiece resolver line piece offset ::
      statements resolver (line + 1) (offset + piece.size) pieces

/-- Laying out the listing of some pieces puts every statement at the offset of its piece. -/
theorem addLines_instructions {resolver : Resolver} {pieces : List Piece} {offset : Nat}
    (hv : Piece.Valid offset pieces)
    (hp : ∀ inst ∈ Piece.instructions resolver offset pieces, inst.isPlain = true)
    {layout : Layout} (hs : layout.size = offset) (hl : FromListing layout.labels) (line : Nat) :
    ∃ labels, FromListing labels ∧
      layout.addLines line
          ((Piece.instructions resolver offset pieces).map fun inst => inst.text.toList) =
        .ok ⟨labels, (statements resolver line offset pieces).reverse ++ layout.statements,
          offset + (Piece.code pieces).length⟩ := by
  induction pieces generalizing offset layout line with
  | nil =>
    refine ⟨layout.labels, hl, ?_⟩
    subst hs
    rfl
  | cons piece pieces ih =>
    obtain ⟨hsized, _, hrest⟩ := hv
    subst hs
    rw [Piece.instructions, List.forall_mem_cons] at hp
    have hadd : layout.addLine line (piece.instruction resolver layout.size).text.toList =
        .ok ⟨(listingLabel layout.size.toUInt32, layout.size) :: layout.labels,
          ofPiece resolver line piece layout.size :: layout.statements,
          layout.size + piece.size⟩ := by
      rw [Layout.addLine_text hp.1 (operandWidth_text hsized), Piece.size_eq, Nat.add_assoc]
      rfl
    have hlabels : FromListing
        ((listingLabel layout.size.toUInt32, layout.size) :: layout.labels) :=
      List.forall_mem_cons.mpr ⟨⟨_, rfl⟩, hl⟩
    obtain ⟨labels, hfrom, hlines⟩ := @ih _ hrest hp.2
      ⟨_, ofPiece resolver line piece layout.size :: layout.statements, _⟩ rfl hlabels (line + 1)
    refine ⟨labels, hfrom, ?_⟩
    have hsize : layout.size + (Piece.code (piece :: pieces)).length =
        layout.size + piece.size + (Piece.code pieces).length := by
      rw [Piece.code, List.flatMap_cons, List.length_append, ← Nat.add_assoc]
      rfl
    rw [Piece.instructions, List.map_cons, Layout.addLines, hadd, hsize, statements,
      List.reverse_cons, List.append_assoc]
    exact hlines

end Source

/-! ## Restored pieces -/

/-- The token that some bytes stand for. -/
def Token.ofBytes (bytes : List UInt8) : Token := ⟨(Bytes.toNat bytes).toUInt32⟩

/-- A token is read back from its bytes. -/
theorem Token.ofBytes_ofNat (token : Token) :
    Token.ofBytes (Bytes.ofNat 4 token.value.toNat) = token := by
  have hlt : token.value.toNat < 256 ^ 4 := token.value.toNat_lt
  rw [Token.ofBytes, Bytes.toNat_ofNat, Nat.mod_eq_of_lt hlt, Nat.toUInt32_eq, UInt32.ofNat_toNat]

/-- The operand of a string opcode is a token of four bytes. -/
theorem Piece.Sized.length_string {piece : Piece} (hs : piece.Sized)
    (hk : piece.opcode.kind = .string) : piece.operand.length = 4 := by
  unfold Piece.Sized at hs
  rw [hk] at hs
  exact hs

/-- The second piece takes the place of the first one in assembled code with a string table. -/
structure Piece.Restored (resolver : Resolver) (literals : Literals) (piece restored : Piece) :
    Prop where
  opcode : restored.opcode = piece.opcode
  length : restored.operand.length = piece.operand.length
  /-- Operands other than the tokens of strings come back. -/
  operand : piece.opcode.kind ≠ .string → restored.operand = piece.operand
  /-- The new token of a string is that of a place where the table has the same text. -/
  string : piece.opcode.kind = .string → ∃ (text : String) (i : Nat),
    resolver.string (.ofBytes piece.operand) = .ok text ∧
      Token.ofBytes restored.operand = Literals.tokenAt i ∧ literals.texts[i]? = some text

namespace Piece.Restored

variable {resolver : Resolver} {literals later : Literals} {piece restored : Piece}

/-- Further literals do not change what the tokens stand for. -/
theorem mono (he : Literals.Extends literals later)
    (h : Restored resolver literals piece restored) :
    Restored resolver later piece restored where
  opcode := h.opcode
  length := h.length
  operand := h.operand
  string hk := by
    obtain ⟨text, i, hold, hnew, hi⟩ := h.string hk
    exact ⟨text, i, hold, hnew, he i text hi⟩

/-- A restored piece has the size of the original one. -/
theorem size (h : Restored resolver literals piece restored) : restored.size = piece.size := by
  rw [Piece.size_eq, Piece.size_eq, h.opcode, h.length]

/-- A restored piece is the original one unless it is a string. -/
theorem eq_of_kind (h : Restored resolver literals piece restored)
    (hk : piece.opcode.kind ≠ .string) : restored = piece := by
  obtain ⟨op, operand⟩ := restored
  obtain rfl : op = piece.opcode := h.opcode
  obtain rfl : operand = piece.operand := h.operand hk
  rfl

end Piece.Restored

namespace Source

/-- Assembling the statement of a piece restores it and interns at most one literal. -/
theorem operandBytes_restored {resolver : Resolver} {piece : Piece} {offset : Nat}
    (hs : piece.Sized) (hr : ∀ target ∈ piece.targets offset, 0 ≤ target ∧ target < 2 ^ 32)
    (hp : (piece.instruction resolver offset).isPlain = true) {labels : Labels}
    (hl : FromListing labels) (line : Nat) (literals : Literals) :
    ∃ (operand : List UInt8) (later : Literals),
      operandBytes labels (ofPiece resolver line piece offset) literals = .ok operand later ∧
      Piece.Restored resolver later piece ⟨piece.opcode, operand⟩ ∧
      Literals.Extends literals later ∧ later.texts.length ≤ literals.texts.length + 1 ∧
      (piece.opcode.kind ≠ .string → later = literals) := by
  by_cases hk : piece.opcode.kind = .string
  · obtain ⟨text, htext, ho⟩ := operandAt_string hp hk
    obtain ⟨i, htoken, hi, hextends, hlength⟩ := literals.intern_spec text
    refine ⟨_, _, operandBytes_ofPiece_string hk ho labels line literals, ?_, hextends, hlength,
      fun hne => absurd hk hne⟩
    exact ⟨rfl, (Bytes.length_ofNat 4 _).trans (hs.length_string hk).symm, fun hne => absurd hk hne,
      fun _ => ⟨text, i, htext, (Token.ofBytes_ofNat _).trans htoken, hi⟩⟩
  · exact ⟨piece.operand, literals, operandBytes_ofPiece hs hr hp hk hl line literals,
      ⟨rfl, rfl, fun _ => rfl, fun h => absurd h hk⟩, .refl literals, Nat.le_succ _, fun _ => rfl⟩

private theorem statementBytes_cons {labels : Labels} {s : Statement} {rest : List Statement}
    {literals later final : Literals} {operand more : List UInt8}
    (ho : operandBytes labels s literals = .ok operand later)
    (hm : statementBytes labels rest later = .ok more final) :
    statementBytes labels (s :: rest) literals =
      .ok (s.opcode.encode ++ operand ++ more) final := by
  simp [statementBytes, bind, EStateM.bind, ho, hm, pure, EStateM.pure]

/-- Assembling the statements of some pieces restores all of them. -/
theorem statementBytes_restored {resolver : Resolver} {pieces : List Piece} {offset : Nat}
    (hv : Piece.Valid offset pieces)
    (hp : ∀ inst ∈ Piece.instructions resolver offset pieces, inst.isPlain = true)
    {labels : Labels} (hl : FromListing labels) (line : Nat) (literals : Literals) :
    ∃ (restored : List Piece) (later : Literals),
      statementBytes labels (statements resolver line offset pieces) literals =
        .ok (Piece.code restored) later ∧
      List.Forall₂ (Piece.Restored resolver later) pieces restored ∧
      Literals.Extends literals later ∧
      later.texts.length ≤ literals.texts.length + pieces.length ∧
      ((∀ piece ∈ pieces, piece.opcode.kind ≠ .string) → later = literals) := by
  induction pieces generalizing offset line literals with
  | nil => exact ⟨[], literals, rfl, .nil, .refl literals, Nat.le_refl _, fun _ => rfl⟩
  | cons piece pieces ih =>
    obtain ⟨hsized, hreach, hrest⟩ := hv
    rw [Piece.instructions, List.forall_mem_cons] at hp
    obtain ⟨operand, middle, hfirst, hpiece, hmiddle, hcount, hsame⟩ :=
      operandBytes_restored hsized hreach hp.1 hl line literals
    obtain ⟨restored, later, hbytes, hpieces, hlater, hcounts, hsames⟩ :=
      ih hrest hp.2 (line + 1) middle
    refine ⟨⟨piece.opcode, operand⟩ :: restored, later, statementBytes_cons hfirst hbytes,
      .cons (hpiece.mono hlater) hpieces, hmiddle.trans hlater, ?_, ?_⟩
    · rw [List.length_cons]
      omega
    · rw [List.forall_mem_cons]
      rintro ⟨hk, hks⟩
      rw [hsames hks, hsame hk]

/-- Assembling the listing of some pieces restores all of them. -/
theorem assemble_listing {resolver : Resolver} {pieces : List Piece} (hv : Piece.Valid 0 pieces)
    (hp : ∀ inst ∈ Piece.instructions resolver 0 pieces, inst.isPlain = true) :
    ∃ (restored : List Piece) (literals : Literals),
      assemble (listing (Piece.instructions resolver 0 pieces)) .empty =
        .ok (Piece.code restored) literals ∧
      List.Forall₂ (Piece.Restored resolver literals) pieces restored ∧
      literals.texts.length ≤ pieces.length ∧
      ((∀ piece ∈ pieces, piece.opcode.kind ≠ .string) → literals = .empty) := by
  have hlines : Text.lines (listing (Piece.instructions resolver 0 pieces)).toList =
      (Piece.instructions resolver 0 pieces).map fun inst => inst.text.toList := by
    rw [listing, String.toList_intercalate, List.map_map]
    refine Text.lines_intercalate fun line hm => ?_
    obtain ⟨inst, hinst, rfl⟩ := List.mem_map.mp hm
    exact Instruction.isLine_text (hp inst hinst)
  obtain ⟨labels, hfrom, hlayout⟩ := @addLines_instructions resolver pieces 0 hv hp .empty rfl
    (fun _ hm => nomatch hm) 1
  obtain ⟨restored, literals, hbytes, hpieces, _, hcount, hsame⟩ :=
    statementBytes_restored hv hp hfrom 1 .empty
  refine ⟨restored, literals, ?_, hpieces, ?_, hsame⟩
  · rw [assemble, Layout.ofSource, hlines, hlayout]
    simpa [Layout.empty] using hbytes
  · simpa [Literals.empty] using hcount

end Source

/-! ## Restored code -/

namespace Piece

variable {resolver : Resolver} {literals : Literals} {pieces restored : List Piece}

/-- There are at most as many pieces as bytes. -/
theorem length_le_code (pieces : List Piece) : pieces.length ≤ (code pieces).length := by
  induction pieces with
  | nil => exact Nat.le_refl 0
  | cons piece pieces ih =>
    have hpos := piece.size_pos
    rw [code, List.flatMap_cons, List.length_append, List.length_cons]
    unfold size at hpos
    unfold code at ih
    omega

/-- Restored code is as long as the original one. -/
theorem length_code_restored (h : List.Forall₂ (Restored resolver literals) pieces restored) :
    (code restored).length = (code pieces).length := by
  induction h with
  | nil => rfl
  | cons hpiece _ ih =>
    rw [code, code, List.flatMap_cons, List.flatMap_cons, List.length_append, List.length_append]
    exact congrArg₂ (· + ·) hpiece.size ih

/-- Each piece has its restored piece at the same place of the code. -/
theorem restored_getElem? (h : List.Forall₂ (Restored resolver literals) pieces restored) {k : Nat}
    {piece : Piece} (hk : pieces[k]? = some piece) :
    ∃ other, restored[k]? = some other ∧ Restored resolver literals piece other ∧
      (code (restored.take k)).length = (code (pieces.take k)).length := by
  obtain ⟨hlt, rfl⟩ := List.getElem?_eq_some_iff.mp hk
  have hlt' : k < restored.length := h.length_eq ▸ hlt
  exact ⟨restored[k], List.getElem?_eq_getElem hlt', h.get hlt hlt',
    length_code_restored (List.forall₂_take k h)⟩

/-- Restored code differs from the original one inside the tokens of strings only. -/
theorem getElem?_code_restored (h : List.Forall₂ (Restored resolver literals) pieces restored)
    (i : Nat) :
    (code restored)[i]? = (code pieces)[i]? ∨
      ∃ k piece, pieces[k]? = some piece ∧ piece.opcode.kind = .string ∧
        (code (pieces.take k)).length + piece.opcode.size ≤ i ∧
        i < (code (pieces.take k)).length + piece.size := by
  induction h generalizing i with
  | nil => exact Or.inl rfl
  | @cons piece other pieces restored hpiece _ ih =>
    have hsize : other.bytes.length = piece.bytes.length := hpiece.size
    rw [code, code, List.flatMap_cons, List.flatMap_cons]
    by_cases hi : i < piece.bytes.length
    · rw [List.getElem?_append_left hi, List.getElem?_append_left (hsize ▸ hi)]
      by_cases hk : piece.opcode.kind = .string
      · by_cases hop : i < piece.opcode.size
        · -- The bytes of the opcode itself.
          left
          have hlt : i < piece.opcode.encode.length := by rwa [Opcode.length_encode]
          rw [bytes, bytes, hpiece.opcode, List.getElem?_append_left hlt,
            List.getElem?_append_left hlt]
        · exact Or.inr ⟨0, piece, rfl, hk, by simpa [code] using hop,
            by simpa [code, size] using hi⟩
      · rw [hpiece.eq_of_kind hk]
        exact Or.inl rfl
    · rw [List.getElem?_append_right (Nat.le_of_not_lt hi),
        List.getElem?_append_right (hsize ▸ Nat.le_of_not_lt hi), hsize]
      refine (ih (i - piece.bytes.length)).imp_right ?_
      rintro ⟨k, found, hk, hkind, hlow, hhigh⟩
      have htake : (code ((piece :: pieces).take (k + 1))).length =
          piece.bytes.length + (code (pieces.take k)).length := by
        rw [List.take_succ_cons, code, List.flatMap_cons, List.length_append]
        rfl
      refine ⟨k + 1, found, hk, hkind, ?_, ?_⟩
      · omega
      · omega

/-- The operand of a piece stands in the code behind the earlier pieces and its opcode. -/
theorem operand_in_code {k : Nat} {piece : Piece} (h : pieces[k]? = some piece) :
    ((code pieces).drop ((code (pieces.take k)).length + piece.opcode.size)).take
      piece.operand.length = piece.operand := by
  obtain ⟨hlt, rfl⟩ := List.getElem?_eq_some_iff.mp h
  have hcode : code pieces = code (pieces.take k) ++
      (pieces[k].opcode.encode ++ (pieces[k].operand ++ code (pieces.drop (k + 1)))) := by
    conv_lhs => rw [← List.take_append_drop k pieces, List.drop_eq_getElem_cons hlt]
    rw [code, List.flatMap_append, List.flatMap_cons, bytes, List.append_assoc]
    rfl
  rw [hcode, ← List.drop_drop, List.drop_left, List.drop_left' (Opcode.length_encode _),
    List.take_left]

end Piece

private theorem eq_ldstr_of_mem : ∀ op ∈ Opcode.all, op.kind = .string → op = .ldstr := by
  decide +kernel

/-- String literals belong to one opcode. -/
theorem Opcode.kind_eq_string_iff {op : Opcode} : op.kind = .string ↔ op = .ldstr := by
  refine ⟨eq_ldstr_of_mem op op.mem_all, ?_⟩
  rintro rfl
  rfl

/-- The token behind the opcode byte of an instruction of some code. -/
def Instruction.tokenIn (inst : Instruction) (code : List UInt8) : Token :=
  .ofBytes ((code.drop (inst.offset.toNat + 1)).take 4)

namespace Decomposes

variable {resolver : Resolver} {code : List UInt8} {pieces restored : List Piece}
  {is : List Instruction} {literals : Literals}

/-- The instructions of string literals, and where their tokens stand in the code. -/
theorem literal (h : Decomposes resolver code pieces is) (hl : code.length < 2 ^ 32) {k : Nat}
    {piece : Piece} (hk : pieces[k]? = some piece) (hkind : piece.opcode.kind = .string) :
    ∃ inst, is[k]? = some inst ∧ inst.opcode = .ldstr ∧
      inst.offset.toNat = (Piece.code (pieces.take k)).length ∧
      piece.opcode.size = 1 ∧ piece.operand.length = 4 := by
  have hinst := h.getElem? k
  rw [hk, Option.map_some] at hinst
  have hop := Opcode.kind_eq_string_iff.mp hkind
  have hsized := h.valid.sized piece (List.mem_of_getElem? hk)
  refine ⟨_, hinst, hop, h.offset hl hinst, ?_, hsized.length_string hkind⟩
  rw [hop]
  decide

/-- Restored code has the bytes of the original one outside the tokens of string literals. -/
theorem getElem?_restored (h : Decomposes resolver code pieces is) (hl : code.length < 2 ^ 32)
    (hr : List.Forall₂ (Piece.Restored resolver literals) pieces restored) (i : Nat) :
    (Piece.code restored)[i]? = code[i]? ∨
      ∃ inst ∈ is, inst.opcode = .ldstr ∧ inst.offset.toNat < i ∧ i < inst.offset.toNat + 5 := by
  rw [← h.bytes]
  refine (Piece.getElem?_code_restored hr i).imp_right ?_
  rintro ⟨k, piece, hk, hkind, hlow, hhigh⟩
  obtain ⟨inst, hinst, hop, hoffset, hone, hfour⟩ := h.literal hl hk hkind
  rw [Piece.size_eq, hone, hfour] at hhigh
  refine ⟨inst, List.mem_of_getElem? hinst, hop, ?_, ?_⟩
  · omega
  · omega

/-- The token of a string literal in restored code stands for the text of the original token. -/
theorem string_restored (h : Decomposes resolver code pieces is) (hl : code.length < 2 ^ 32)
    (hr : List.Forall₂ (Piece.Restored resolver literals) pieces restored) (hf : literals.Fits)
    {inst : Instruction} (hm : inst ∈ is) (hop : inst.opcode = .ldstr) :
    ∃ text, inst.operand = some (.string text) ∧
      resolver.string (inst.tokenIn code) = .ok text ∧
      literals.toMap.get? (inst.tokenIn (Piece.code restored)) = some text := by
  obtain ⟨k, hk⟩ := List.mem_iff_getElem?.mp hm
  obtain ⟨piece, hpiece, hinst⟩ := Option.map_eq_some_iff.mp (h.getElem? k ▸ hk)
  have hkind : piece.opcode.kind = .string := by
    rw [← hinst] at hop
    exact Opcode.kind_eq_string_iff.mpr hop
  obtain ⟨_, hsame, _, hoffset, hone, hfour⟩ := h.literal hl hpiece hkind
  obtain rfl := Option.some.inj (hk.symm.trans hsame)
  obtain ⟨other, hother, hrestored, hstart⟩ := Piece.restored_getElem? hr hpiece
  obtain ⟨text, i, hold, hnew, hi⟩ := hrestored.string hkind
  have htoken : inst.tokenIn code = .ofBytes piece.operand := by
    have hoperand := Piece.operand_in_code hpiece
    rw [hone, hfour, ← hoffset, h.bytes] at hoperand
    rw [Instruction.tokenIn, hoperand]
  have htoken' : inst.tokenIn (Piece.code restored) = .ofBytes other.operand := by
    have hoperand := Piece.operand_in_code hother
    rw [hrestored.opcode, hrestored.length, hone, hfour, hstart, ← hoffset] at hoperand
    rw [Instruction.tokenIn, hoperand]
  refine ⟨text, ?_, htoken ▸ hold, ?_⟩
  · rw [← hinst, Piece.instruction, Piece.operandAt, hkind]
    unfold Token.ofBytes at hold
    simp only [hold]
    rfl
  · rw [htoken', hnew]
    exact Literals.get?_toMap hf hi

end Decomposes

/-- Assembling the listing of code whose operands are numbers, variables, targets, tables and
strings succeeds. It gives the same bytes except in the tokens of string literals, and each new
token stands for the text of the original one in the string table. Code without string literals
comes back byte for byte, and no literal is interned. -/
theorem assemble_disassemble (resolver : Resolver) {code : List UInt8} (hl : code.length < 2 ^ 31)
    {is : List Instruction} (hd : decode resolver .listing code = .ok is)
    (hp : ∀ inst ∈ is, inst.isPlain = true) :
    ∃ (text : String) (restored : List UInt8) (literals : Literals),
      disassemble resolver code = .ok text ∧
      Source.assemble text .empty = .ok restored literals ∧
      restored.length = code.length ∧
      (∀ i, restored[i]? = code[i]? ∨
        ∃ inst ∈ is, inst.opcode = .ldstr ∧ inst.offset.toNat < i ∧ i < inst.offset.toNat + 5) ∧
      (∀ inst ∈ is, inst.opcode = .ldstr →
        ∃ string, inst.operand = some (.string string) ∧
          resolver.string (inst.tokenIn code) = .ok string ∧
          literals.toMap.get? (inst.tokenIn restored) = some string) ∧
      ((∀ inst ∈ is, inst.opcode ≠ .ldstr) → restored = code ∧ literals = .empty) := by
  have hl32 : code.length < 2 ^ 32 := by omega
  have hlisting : disassemble resolver code = .ok (listing is) := by
    rw [disassemble, hd]
    rfl
  rw [decode, decodeFrom_listing_eq_ok_iff (Nat.le_refl _)] at hd
  obtain ⟨pieces, hbytes, hvalid, his⟩ := hd
  have h : Decomposes resolver code pieces is := ⟨hbytes, hvalid, his⟩
  obtain ⟨restored, literals, hassemble, hr, hcount, hsame⟩ :=
    Source.assemble_listing hvalid (his ▸ hp)
  -- Each literal takes up code, so there are no more of them than the code has bytes.
  have hfits : literals.Fits := by
    have hle := Piece.length_le_code pieces
    rw [hbytes] at hle
    unfold Literals.Fits Literals.firstToken
    omega
  refine ⟨listing is, Piece.code restored, literals, hlisting, his ▸ hassemble, ?_,
    h.getElem?_restored hl32 hr, fun inst hm hop => h.string_restored hl32 hr hfits hm hop, ?_⟩
  · rw [Piece.length_code_restored hr, hbytes]
  · intro hnone
    -- Where nothing loads a string, no piece has one for its operand.
    have hkinds : ∀ piece ∈ pieces, piece.opcode.kind ≠ .string := by
      intro piece hm hkind
      obtain ⟨k, hk⟩ := List.mem_iff_getElem?.mp hm
      obtain ⟨inst, hinst, hop, _⟩ := h.literal hl32 hk hkind
      exact hnone inst (List.mem_of_getElem? hinst) hop
    refine ⟨?_, hsame hkinds⟩
    apply List.ext_getElem?
    intro i
    rcases h.getElem?_restored hl32 hr i with heq | ⟨inst, hm, hop, _⟩
    · exact heq
    · exact absurd hop (hnone inst hm)

/-- The resolver under which every string token stands for one text. -/
def Resolver.constant (text : String) : Resolver :=
  { Resolver.unknown with string := fun _ => .ok text }

/-- A literal that looks like a comment and has a quote and a line feed in it, and a branch back to
its start. -/
theorem assemble_disassemble_loop :
    decode (.constant "// \"\n") .listing [0x72, 0x05, 0x00, 0x00, 0x70, 0x2B, 0xF9] =
      .ok [⟨.ldstr, 0, some (.string "// \"\n")⟩, ⟨.brS, 5, some (.target 0)⟩] ∧
    ∃ (text : String) (restored : List UInt8) (literals : Literals),
      disassemble (.constant "// \"\n") [0x72, 0x05, 0x00, 0x00, 0x70, 0x2B, 0xF9] = .ok text ∧
      Source.assemble text .empty = .ok restored literals ∧
      restored.length = 7 ∧ restored[0]? = some 0x72 ∧ restored[6]? = some 0xF9 ∧
      literals.toMap.get? (.ofBytes ((restored.drop 1).take 4)) = some "// \"\n" := by
  have hd : decode (.constant "// \"\n") .listing [0x72, 0x05, 0x00, 0x00, 0x70, 0x2B, 0xF9] =
      .ok [⟨.ldstr, 0, some (.string "// \"\n")⟩, ⟨.brS, 5, some (.target 0)⟩] := by
    decide +kernel
  obtain ⟨text, restored, literals, hlisting, hassemble, hlength, hbytes, hstrings, _⟩ :=
    assemble_disassemble (.constant "// \"\n") (by decide) hd (by decide)
  refine ⟨hd, text, restored, literals, hlisting, hassemble, hlength, ?_, ?_, ?_⟩
  · exact (hbytes 0).resolve_right (by decide)
  · exact (hbytes 6).resolve_right (by decide)
  · obtain ⟨string, hoperand, _, hget⟩ := hstrings _ List.mem_cons_self rfl
    cases hoperand
    exact hget

end ManagedCode
