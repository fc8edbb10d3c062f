import ManagedCode.Instruction.Decoding
import ManagedCode.Proofs.Instruction.Operands
import ManagedCode.Proofs.Opcode.Encoding

/-!
# The grammar of code

Code is a concatenation of pieces, each the bytes of an opcode and of an operand of the width that
its kind prescribes. Decoding for a listing accepts exactly such code whose branch targets are byte
offsets, and gives one instruction for each piece of its only decomposition.
-/

namespace ManagedCode

/-- One instruction as it is written. -/
structure Piece where
  /-- What the instruction does. -/
  opcode : Opcode
  /-- The bytes behind those of the opcode. -/
  operand : List UInt8
  deriving DecidableEq, Repr

/-- What a token stands for in a listing, given what the resolver says about it. -/
def Operand.ofToken (token : Token) : Except ResolveError Operand → Operand
  | .ok operand => operand
  | .error _ => .unresolved token

namespace Piece

/-- The bytes of the instruction. -/
def bytes (piece : Piece) : List UInt8 := piece.opcode.encode ++ piece.operand

/-- The number of bytes. -/
def size (piece : Piece) : Nat := piece.bytes.length

/-- The operand has exactly the width of its kind. -/
def Sized (piece : Piece) : Prop := piece.opcode.kind.Sized piece.operand

/-- The absolute targets of a branch or switch at `offset`: each displacement counts from the end of
the instruction. -/
def targets (piece : Piece) (offset : Nat) : List Int :=
  piece.opcode.kind.targets (offset + piece.size) piece.operand

/-- The operand that the piece gives at `offset`, in the form fixed by the kind of its opcode. -/
def operandAt (resolver : Resolver) (piece : Piece) (offset : Nat) : Option Operand :=
  let n := Bytes.toNat piece.operand
  let signed := Bytes.signed piece.operand
  let token : Token := ⟨n.toUInt32⟩
  match piece.opcode.kind with
  | .none => none
  | .shortVariable | .variable => some (.variable n.toUInt16)
  | .shortInt32 | .int32 => some (.int32 (Int32.ofInt signed))
  | .int64 => some (.int64 (Int64.ofInt signed))
  | .float32 => some (.float32 n.toUInt32)
  | .float64 => some (.float64 n.toUInt64)
  | .shortTarget | .target => some (.target (↑(offset + piece.size) + signed).toNat.toUInt32)
  | .switch => some (.switch ((piece.targets offset).map fun target => target.toNat.toUInt32))
  | .string => some (.ofToken token (.string <$> resolver.string token))
  | .field => some (.ofToken token (.field <$> resolver.field token))
  | .method => some (.ofToken token (.method <$> resolver.callable token))
  | .type | .token => some (.ofToken token (.type <$> resolver.type token))
  | .signature => some (.signature token)

/-- The instruction that the piece gives at `offset`. -/
def instruction (resolver : Resolver) (piece : Piece) (offset : Nat) : Instruction :=
  ⟨piece.opcode, offset.toUInt32, piece.operandAt resolver offset⟩

/-- The bytes of a sequence of pieces. -/
def code (pieces : List Piece) : List UInt8 := pieces.flatMap bytes

/-- The pieces, the first at `offset`, have operands of the right width and targets in reach. -/
def Valid : (offset : Nat) → List Piece → Prop
  | _, [] => True
  | offset, piece :: pieces =>
    piece.Sized ∧ (∀ target ∈ piece.targets offset, 0 ≤ target ∧ target < 2 ^ 32) ∧
      Valid (offset + piece.size) pieces

/-- The instructions of the pieces, the first at `offset`. -/
def instructions (resolver : Resolver) : (offset : Nat) → List Piece → List Instruction
  | _, [] => []
  | offset, piece :: pieces =>
    piece.instruction resolver offset :: instructions resolver (offset + piece.size) pieces

/-- A piece is its opcode and its operand. -/
theorem size_eq (piece : Piece) : piece.size = piece.opcode.size + piece.operand.length := by
  rw [size, bytes, List.length_append, Opcode.length_encode]

/-- An opcode has at least one byte. -/
theorem size_pos (piece : Piece) : 0 < piece.size := by
  have h := piece.opcode.size_pos
  rw [size_eq]
  omega

end Piece

/-! ## Reading one piece -/

namespace Encoded

/-- An opcode is read off the front exactly if the bytes start with those of the opcode. -/
theorem readOpcode_eq_ok_iff {offset : Nat} {bytes rest : List UInt8} {op : Opcode} :
    readOpcode offset bytes = .ok (op, rest) ↔ bytes = op.encode ++ rest := by
  constructor
  · intro h
    unfold readOpcode at h
    split at h
    · cases h
    · split at h
      · rename_i hext
        split at h
        · cases h
        · split at h
          · rename_i hop
            cases h
            obtain ⟨he, rfl⟩ := Opcode.ofSecondByte?_eq_some_iff.mp hop
            rw [Opcode.encode, if_pos he, hext]
            rfl
          · cases h
      · split at h
        · rename_i hop
          cases h
          obtain ⟨he, rfl⟩ := Opcode.ofByte?_eq_some_iff.mp hop
          rw [Opcode.encode, he]
          rfl
        · cases h
  · rintro rfl
    cases he : op.isExtended with
    | true =>
      have hop := Opcode.ofSecondByte?_eq_some_iff.mpr ⟨he, rfl⟩
      simp [Opcode.encode, he, readOpcode, hop]
    | false =>
      have hop := Opcode.ofByte?_eq_some_iff.mpr ⟨he, rfl⟩
      simp [Opcode.encode, he, readOpcode, Opcode.lowByte_ne_extensionByte he, hop]

/-- What a piece says before its token is resolved. -/
def ofPiece (piece : Piece) (offset : Nat) : Encoded :=
  ⟨piece.opcode, offset, piece.opcode.kind.immediate (offset + piece.size) piece.operand⟩

/-- An instruction is read off the front exactly if the bytes start with a piece of the right size
whose targets are in reach. -/
theorem read_eq_ok_iff {offset : Nat} {bytes rest : List UInt8} {encoded : Encoded} :
    read offset bytes = .ok (encoded, rest) ↔
      ∃ piece : Piece, bytes = piece.bytes ++ rest ∧ piece.Sized ∧
        (∀ target ∈ piece.targets offset, 0 ≤ target ∧ target < 2 ^ 32) ∧
        encoded = ofPiece piece offset := by
  constructor
  · intro h
    obtain ⟨⟨op, behind⟩, hop, himmediate⟩ := bind_eq_ok_iff.mp h
    obtain ⟨⟨immediate, behind'⟩, hread, hresult⟩ := bind_eq_ok_iff.mp himmediate
    obtain rfl := readOpcode_eq_ok_iff.mp hop
    obtain ⟨operand, hsized, rfl, hreach, rfl⟩ := Immediate.read_eq_ok_iff.mp hread
    cases hresult
    have hbase : offset + op.size + operand.length = offset + (Piece.mk op operand).size := by
      rw [Piece.size_eq, Nat.add_assoc]
    refine ⟨⟨op, operand⟩, (List.append_assoc ..).symm, hsized, ?_, ?_⟩
    · rwa [Piece.targets, ← hbase]
    · rw [ofPiece, ← hbase]
  · rintro ⟨⟨op, operand⟩, rfl, hsized, hreach, rfl⟩
    have hbase : offset + op.size + operand.length = offset + (Piece.mk op operand).size := by
      rw [Piece.size_eq, Nat.add_assoc]
    have hop : readOpcode offset (op.encode ++ operand ++ rest) = .ok (op, operand ++ rest) :=
      readOpcode_eq_ok_iff.mpr (List.append_assoc op.encode operand rest)
    have hread : Immediate.read op.kind (offset + op.size) (operand ++ rest) = .ok (_, rest) :=
      Immediate.read_eq_ok_iff.mpr ⟨operand, hsized, rfl, hbase ▸ hreach, rfl⟩
    refine bind_eq_ok_iff.mpr ⟨_, hop, bind_eq_ok_iff.mpr ⟨_, hread, ?_⟩⟩
    rw [ofPiece, hbase]
    rfl

private theorem settle_listing (token : Token) (found : Except ResolveError Operand) :
    DecodeMode.listing.settle token found = .ok (Operand.ofToken token found) := by
  cases found <;> rfl

/-- In a listing every piece gives its instruction, whether its token resolves or not. -/
theorem resolve_ofPiece (resolver : Resolver) (piece : Piece) (offset : Nat) :
    (ofPiece piece offset).resolve resolver .listing =
      .ok (piece.instruction resolver offset) := by
  unfold resolve ofPiece Piece.instruction Piece.operandAt
  cases hk : piece.opcode.kind <;>
    simp only [OperandKind.immediate, Resolver.operand, settle_listing, Piece.targets, hk] <;> rfl

private theorem length_targets_switch (base : Nat) (operand : List UInt8) :
    (OperandKind.switch.targets base operand).length = Bytes.toNat (operand.take 4) := by
  simp only [OperandKind.targets, OperandKind.displacements, List.length_map, Bytes.length_group]

/-- The size of an encoded instruction is that of its piece. -/
theorem size_ofPiece {piece : Piece} (hs : piece.Sized) (offset : Nat) :
    (ofPiece piece offset).size = piece.size := by
  have hoperand : (ofPiece piece offset).immediate.size piece.opcode.kind =
      piece.operand.length := by
    unfold Piece.Sized OperandKind.Sized at hs
    unfold ofPiece Immediate.size
    cases hk : piece.opcode.kind <;> rw [hk] at hs <;> try exact hs.symm
    rw [OperandKind.immediate, hs]
    simp only [OperandKind.width?, List.length_map, length_targets_switch, Option.getD_none]
  rw [size, Piece.size_eq, ← hoperand]
  rfl

end Encoded

/-! ## Reading all pieces -/

namespace Piece

/-- A piece is written in at least one byte. -/
theorem bytes_ne_nil (piece : Piece) : piece.bytes ≠ [] :=
  List.ne_nil_of_length_pos piece.size_pos

/-- Only no pieces are written as no code. -/
theorem code_eq_nil_iff {pieces : List Piece} : code pieces = [] ↔ pieces = [] := by
  cases pieces with
  | nil => exact iff_of_true rfl rfl
  | cons piece pieces =>
    refine iff_of_false (fun h => ?_) (List.cons_ne_nil _ _)
    exact piece.bytes_ne_nil (List.append_eq_nil_iff.mp h).1

/-- Behind a piece there are fewer bytes than before it, so one round less suffices. -/
theorem length_rest_le {piece : Piece} {rest : List UInt8} {rounds : Nat}
    (h : (piece.bytes ++ rest).length ≤ rounds + 1) : rest.length ≤ rounds := by
  have hp := piece.size_pos
  rw [List.length_append] at h
  unfold size at hp
  omega

end Piece

namespace Piece

/-- The instructions of the pieces, the first at `offset`, with their tokens resolved. -/
def resolveAll (resolver : Resolver) (mode : DecodeMode) :
    (offset : Nat) → List Piece → Except DecodeError (List Instruction)
  | _, [] => .ok []
  | offset, piece :: pieces => do
    let inst ← (Encoded.ofPiece piece offset).resolve resolver mode
    let more ← resolveAll resolver mode (offset + piece.size) pieces
    return inst :: more

/-- A listing resolves every piece. -/
theorem resolveAll_listing (resolver : Resolver) (offset : Nat) (pieces : List Piece) :
    resolveAll resolver .listing offset pieces = .ok (instructions resolver offset pieces) := by
  induction pieces generalizing offset with
  | nil => rfl
  | cons piece pieces ih =>
    rw [resolveAll, Encoded.resolve_ofPiece, ih]
    rfl

end Piece

/-- Decoding reads one instruction and goes on behind it. -/
theorem decodeFrom_succ (resolver : Resolver) (mode : DecodeMode) (rounds offset : Nat)
    {bytes : List UInt8} (hb : bytes ≠ []) :
    decodeFrom resolver mode (rounds + 1) offset bytes = (do
      let (encoded, rest) ← Encoded.read offset bytes
      let inst ← encoded.resolve resolver mode
      let more ← decodeFrom resolver mode rounds (offset + encoded.size) rest
      return inst :: more) := by
  cases bytes with
  | nil => exact absurd rfl hb
  | cons byte bytes => rfl

/-- Decoding the bytes of valid pieces resolves the tokens of one piece after the other. -/
theorem decodeFrom_code {resolver : Resolver} {mode : DecodeMode} {rounds offset : Nat}
    {pieces : List Piece} (hv : Piece.Valid offset pieces)
    (hr : (Piece.code pieces).length ≤ rounds) :
    decodeFrom resolver mode rounds offset (Piece.code pieces) =
      Piece.resolveAll resolver mode offset pieces := by
  induction pieces generalizing rounds offset with
  | nil => cases rounds <;> rfl
  | cons piece pieces ih =>
    obtain ⟨hsized, hreach, hv⟩ := hv
    have hcode : Piece.code (piece :: pieces) = piece.bytes ++ Piece.code pieces := rfl
    have hne : Piece.code (piece :: pieces) ≠ [] := by simp [Piece.code_eq_nil_iff]
    have hread : Encoded.read offset (piece.bytes ++ Piece.code pieces) =
        .ok (Encoded.ofPiece piece offset, Piece.code pieces) :=
      Encoded.read_eq_ok_iff.mpr ⟨piece, rfl, hsized, hreach, rfl⟩
    cases rounds with
    | zero => exact absurd (List.length_eq_zero_iff.mp (Nat.le_zero.mp hr)) hne
    | succ rounds =>
      rw [hcode] at hr
      have hmore := ih hv (Piece.length_rest_le hr)
      rw [decodeFrom_succ resolver mode rounds offset hne, hcode, hread]
      simp only [bind, Except.bind, Encoded.size_ofPiece hsized, hmore, Piece.resolveAll]

/-- Bytes that can be decoded are those of valid pieces. -/
theorem exists_valid_of_decodeFrom {resolver : Resolver} {mode : DecodeMode} {rounds offset : Nat}
    {bytes : List UInt8} {is : List Instruction} (hr : bytes.length ≤ rounds)
    (h : decodeFrom resolver mode rounds offset bytes = .ok is) :
    ∃ pieces, Piece.code pieces = bytes ∧ Piece.Valid offset pieces := by
  induction rounds generalizing offset bytes is with
  | zero => exact ⟨[], (List.length_eq_zero_iff.mp (Nat.le_zero.mp hr)).symm, trivial⟩
  | succ rounds ih =>
    by_cases hb : bytes = []
    · exact ⟨[], hb.symm, trivial⟩
    · rw [decodeFrom_succ resolver mode rounds offset hb] at h
      obtain ⟨⟨encoded, rest⟩, hread, hresolve⟩ := bind_eq_ok_iff.mp h
      obtain ⟨inst, -, hmore⟩ := bind_eq_ok_iff.mp hresolve
      obtain ⟨more, hdecode, -⟩ := bind_eq_ok_iff.mp hmore
      obtain ⟨piece, rfl, hsized, hreach, rfl⟩ := Encoded.read_eq_ok_iff.mp hread
      rw [Encoded.size_ofPiece hsized] at hdecode
      obtain ⟨pieces, rfl, hv⟩ := ih (Piece.length_rest_le hr) hdecode
      exact ⟨piece :: pieces, rfl, hsized, hreach, hv⟩

/-- Decoding from an offset on accepts exactly the bytes of valid pieces whose tokens resolve. -/
theorem decodeFrom_eq_ok_iff {resolver : Resolver} {mode : DecodeMode} {rounds offset : Nat}
    {bytes : List UInt8} {is : List Instruction} (hr : bytes.length ≤ rounds) :
    decodeFrom resolver mode rounds offset bytes = .ok is ↔
      ∃ pieces, Piece.code pieces = bytes ∧ Piece.Valid offset pieces ∧
        Piece.resolveAll resolver mode offset pieces = .ok is := by
  constructor
  · intro h
    obtain ⟨pieces, rfl, hv⟩ := exists_valid_of_decodeFrom hr h
    rw [decodeFrom_code hv hr] at h
    exact ⟨pieces, rfl, hv, h⟩
  · rintro ⟨pieces, rfl, hv, h⟩
    rw [decodeFrom_code hv hr, h]

/-- For a listing all tokens resolve, and the pieces give their instructions. -/
theorem decodeFrom_listing_eq_ok_iff {resolver : Resolver} {rounds offset : Nat}
    {bytes : List UInt8} {is : List Instruction} (hr : bytes.length ≤ rounds) :
    decodeFrom resolver .listing rounds offset bytes = .ok is ↔
      ∃ pieces, Piece.code pieces = bytes ∧ Piece.Valid offset pieces ∧
        is = Piece.instructions resolver offset pieces := by
  simp only [decodeFrom_eq_ok_iff hr, Piece.resolveAll_listing, Except.ok.injEq, eq_comm]

/-! ## The decomposition -/

namespace Piece

/-- An operand of the right width is determined by the bytes that start with it. -/
theorem operand_unique {kind : OperandKind} {a b restA restB : List UInt8} (ha : kind.Sized a)
    (hb : kind.Sized b) (h : a ++ restA = b ++ restB) : a = b ∧ restA = restB := by
  suffices hl : a.length = b.length from List.append_inj h hl
  cases hk : kind.width? with
  | some width =>
    rw [OperandKind.Sized, hk] at ha hb
    exact ha.trans hb.symm
  | none =>
    cases kind <;> cases hk
    obtain ⟨frontA, tableA, rfl, hfa, hta⟩ := OperandKind.sized_switch_iff.mp ha
    obtain ⟨frontB, tableB, rfl, hfb, htb⟩ := OperandKind.sized_switch_iff.mp hb
    rw [List.append_assoc, List.append_assoc] at h
    obtain ⟨rfl, _⟩ := List.append_inj h (hfa.trans hfb.symm)
    rw [List.length_append, List.length_append, hta, htb]

/-- A piece of the right size is determined by the bytes that start with it. -/
theorem unique {a b : Piece} {restA restB : List UInt8} (ha : a.Sized) (hb : b.Sized)
    (h : a.bytes ++ restA = b.bytes ++ restB) : a = b ∧ restA = restB := by
  obtain ⟨opA, operandA⟩ := a
  obtain ⟨opB, operandB⟩ := b
  have hreadA : Encoded.readOpcode 0 (opA.encode ++ operandA ++ restA) =
      .ok (opA, operandA ++ restA) :=
    Encoded.readOpcode_eq_ok_iff.mpr (List.append_assoc ..)
  have hreadB : Encoded.readOpcode 0 (opB.encode ++ operandB ++ restB) =
      .ok (opB, operandB ++ restB) :=
    Encoded.readOpcode_eq_ok_iff.mpr (List.append_assoc ..)
  have hsame : opA.encode ++ operandA ++ restA = opB.encode ++ operandB ++ restB := h
  rw [hsame, hreadB, Except.ok.injEq, Prod.mk.injEq] at hreadA
  obtain ⟨rfl, hrest⟩ := hreadA
  obtain ⟨rfl, rfl⟩ := operand_unique hb ha hrest
  exact ⟨rfl, rfl⟩

/-- Code has one decomposition into pieces of the right size. -/
theorem code_injective {as bs : List Piece} (ha : ∀ piece ∈ as, piece.Sized)
    (hb : ∀ piece ∈ bs, piece.Sized) (h : code as = code bs) : as = bs := by
  induction as generalizing bs with
  | nil => exact (code_eq_nil_iff.mp h.symm).symm
  | cons a as ih =>
    cases bs with
    | nil => exact code_eq_nil_iff.mp h
    | cons b bs =>
      rw [List.forall_mem_cons] at ha hb
      obtain ⟨rfl, hrest⟩ := unique ha.1 hb.1 h
      rw [ih ha.2 hb.2 hrest]

/-- The pieces of valid code have operands of the width that their opcodes ask for. -/
theorem Valid.sized {offset : Nat} {pieces : List Piece} (h : Valid offset pieces) :
    ∀ piece ∈ pieces, piece.Sized := by
  induction pieces generalizing offset with
  | nil => exact fun _ hm => nomatch hm
  | cons piece pieces ih =>
    rw [List.forall_mem_cons]
    exact ⟨h.1, ih h.2.2⟩

/-- Each piece gives one instruction. -/
@[simp] theorem length_instructions (resolver : Resolver) (offset : Nat) (pieces : List Piece) :
    (instructions resolver offset pieces).length = pieces.length := by
  induction pieces generalizing offset with
  | nil => rfl
  | cons piece pieces ih => rw [instructions, List.length_cons, ih, List.length_cons]

/-- The instruction of each piece starts behind the bytes of the pieces before it. -/
theorem getElem?_instructions (resolver : Resolver) (offset : Nat) (pieces : List Piece) (i : Nat) :
    (instructions resolver offset pieces)[i]? = pieces[i]?.map fun piece =>
      piece.instruction resolver (offset + (code (pieces.take i)).length) := by
  induction pieces generalizing offset i with
  | nil => simp [instructions]
  | cons piece pieces ih =>
    cases i with
    | zero => simp [instructions, code]
    | succ i =>
      rw [instructions, List.getElem?_cons_succ, ih, List.getElem?_cons_succ, List.take_succ_cons,
        code, code, List.flatMap_cons, List.length_append, ← Nat.add_assoc]
      rfl

/-- The code of one piece more is longer by the size of the piece. -/
theorem code_take_succ {pieces : List Piece} {i : Nat} {piece : Piece}
    (h : pieces[i]? = some piece) :
    (code (pieces.take (i + 1))).length = (code (pieces.take i)).length + piece.size := by
  rw [List.take_add_one, h, code, code, List.flatMap_append, List.length_append]
  simp [size]

/-- The code of the first pieces is at most as long as that of all. -/
theorem length_code_take_le (pieces : List Piece) (i : Nat) :
    (code (pieces.take i)).length ≤ (code pieces).length := by
  have h : code pieces = code (pieces.take i) ++ code (pieces.drop i) := by
    rw [code, code, code, ← List.flatMap_append, List.take_append_drop]
  rw [h, List.length_append]
  exact Nat.le_add_right _ _

/-- Later pieces start at later offsets. -/
theorem length_code_take_lt {pieces : List Piece} {i j : Nat} (hij : i < j) {piece : Piece}
    (h : pieces[i]? = some piece) :
    (code (pieces.take i)).length < (code (pieces.take j)).length := by
  have hstep := code_take_succ h
  have hle := length_code_take_le (pieces.take j) (i + 1)
  rw [List.take_take, Nat.min_eq_left (show i + 1 ≤ j from hij)] at hle
  have hpos := piece.size_pos
  omega

end Piece

/-- The instructions are those of a decomposition of the code into valid pieces. -/
structure Decomposes (resolver : Resolver) (code : List UInt8) (pieces : List Piece)
    (is : List Instruction) : Prop where
  /-- The pieces make up the code. -/
  bytes : Piece.code pieces = code
  /-- The operands have the widths of their kinds and the targets are in reach. -/
  valid : Piece.Valid 0 pieces
  /-- Each piece gives its instruction at its offset. -/
  instructions : is = Piece.instructions resolver 0 pieces

namespace Decomposes

variable {resolver : Resolver} {code : List UInt8} {pieces : List Piece} {is : List Instruction}

/-- The instruction at a position is that of the piece there, at the offset where it begins. -/
theorem getElem? (h : Decomposes resolver code pieces is) (i : Nat) :
    is[i]? = pieces[i]?.map fun piece =>
      piece.instruction resolver (Piece.code (pieces.take i)).length := by
  rw [h.instructions, Piece.getElem?_instructions]
  simp only [Nat.zero_add]

/-- There are as many instructions as pieces. -/
theorem length (h : Decomposes resolver code pieces is) : is.length = pieces.length := by
  rw [h.instructions, Piece.length_instructions]

/-- The offset of an instruction is the number of bytes before it. -/
theorem offset (h : Decomposes resolver code pieces is) (hl : code.length < 2 ^ 32) {i : Nat}
    {inst : Instruction} (hi : is[i]? = some inst) :
    inst.offset.toNat = (Piece.code (pieces.take i)).length := by
  rw [h.getElem?] at hi
  obtain ⟨piece, _, rfl⟩ := Option.map_eq_some_iff.mp hi
  have hle := Piece.length_code_take_le pieces i
  rw [h.bytes] at hle
  rw [Piece.instruction, Nat.toUInt32_eq, UInt32.toNat_ofNat_of_lt' (Nat.lt_of_le_of_lt hle hl)]

/-- The piece of an instruction says what it is. -/
theorem instruction (h : Decomposes resolver code pieces is) (hl : code.length < 2 ^ 32) {i : Nat}
    {inst : Instruction} {piece : Piece} (hi : is[i]? = some inst) (hp : pieces[i]? = some piece) :
    inst = piece.instruction resolver inst.offset.toNat := by
  have hoffset := h.offset hl hi
  rw [h.getElem?, hp, Option.map_some, Option.some.injEq] at hi
  rw [hoffset, hi]

/-- The next instruction starts where an instruction ends. -/
theorem next (h : Decomposes resolver code pieces is) (hl : code.length < 2 ^ 32) {i : Nat}
    {inst following : Instruction} {piece : Piece} (hi : is[i]? = some inst)
    (hp : pieces[i]? = some piece) (hn : is[i + 1]? = some following) :
    following.offset.toNat = inst.offset.toNat + piece.size := by
  rw [h.offset hl hi, h.offset hl hn, Piece.code_take_succ hp]

/-- The last instruction ends where the code does. -/
theorem last (h : Decomposes resolver code pieces is) (hl : code.length < 2 ^ 32) {i : Nat}
    {inst : Instruction} {piece : Piece} (hi : is[i]? = some inst) (hp : pieces[i]? = some piece)
    (hlast : i + 1 = is.length) : inst.offset.toNat + piece.size = code.length := by
  have hall : pieces.take (i + 1) = pieces := by
    rw [hlast, h.length, List.take_length]
  rw [h.offset hl hi, ← Piece.code_take_succ hp, hall, h.bytes]

/-- Different instructions start at different offsets. -/
theorem offset_ne (h : Decomposes resolver code pieces is) (hl : code.length < 2 ^ 32) {i j : Nat}
    (hij : i < j) {a b : Instruction} (hi : is[i]? = some a) (hj : is[j]? = some b) :
    a.offset ≠ b.offset := by
  have hpiece : ∃ piece, pieces[i]? = some piece := by
    have hi' := hi
    rw [h.getElem?] at hi'
    obtain ⟨piece, hp, _⟩ := Option.map_eq_some_iff.mp hi'
    exact ⟨piece, hp⟩
  obtain ⟨piece, hp⟩ := hpiece
  have hlt := Piece.length_code_take_lt hij hp
  rw [← h.offset hl hi, ← h.offset hl hj] at hlt
  exact fun he => Nat.lt_irrefl _ (he ▸ hlt)

/-- A position is found for an offset exactly if its instruction starts there. -/
theorem indexOf?_eq_some_iff (h : Decomposes resolver code pieces is) (hl : code.length < 2 ^ 32)
    {offset : UInt32} {i : Nat} :
    (Body.mk is.toArray).indexOf? offset = some i ↔
      ∃ inst, is[i]? = some inst ∧ inst.offset = offset := by
  rw [Body.indexOf?, List.findIdx?_toArray, List.findIdx?_eq_some_iff_getElem]
  simp only [beq_iff_eq]
  constructor
  · rintro ⟨hi, ho, _⟩
    exact ⟨is[i], List.getElem?_eq_getElem hi, ho⟩
  · rintro ⟨inst, hi, rfl⟩
    obtain ⟨hlt, rfl⟩ := List.getElem?_eq_some_iff.mp hi
    refine ⟨hlt, rfl, fun j hj => ?_⟩
    exact h.offset_ne hl hj (List.getElem?_eq_getElem _) hi

end Decomposes

/-- Decoding for a listing accepts exactly the grammar of code: the bytes of pieces whose operands
have the widths of their kinds and whose targets, counted from the end of the instruction, are byte
offsets. It gives the only decomposition: the instructions start at 0 and follow each other without
a gap up to the end of the code, each with the operand fixed by its kind, and they are found by
their offsets. -/
theorem decode_listing_grammar (resolver : Resolver) {code : List UInt8}
    (hl : code.length < 2 ^ 32) (is : List Instruction) :
    (decode resolver .listing code = .ok is ↔ ∃ pieces, Decomposes resolver code pieces is) ∧
    ∀ pieces, Decomposes resolver code pieces is →
      (∀ others : List Piece, (∀ piece ∈ others, piece.Sized) → Piece.code others = code →
        others = pieces) ∧
      is.length = pieces.length ∧
      (∀ inst, is.head? = some inst → inst.offset = 0) ∧
      (∀ (i : Nat) (inst : Instruction) (piece : Piece),
        is[i]? = some inst → pieces[i]? = some piece →
        inst.opcode = piece.opcode ∧
        inst.operand = piece.operandAt resolver inst.offset.toNat ∧
        (∀ following, is[i + 1]? = some following →
          following.offset.toNat = inst.offset.toNat + piece.size) ∧
        (i + 1 = is.length → inst.offset.toNat + piece.size = code.length)) ∧
      ∀ offset i, (Body.mk is.toArray).indexOf? offset = some i ↔
        ∃ inst, is[i]? = some inst ∧ inst.offset = offset := by
  refine ⟨?_, fun pieces h => ⟨?_, h.length, ?_, ?_, ?_⟩⟩
  · rw [decode, decodeFrom_listing_eq_ok_iff (Nat.le_refl _)]
    constructor
    · rintro ⟨pieces, hbytes, hvalid, his⟩
      exact ⟨pieces, hbytes, hvalid, his⟩
    · rintro ⟨pieces, hbytes, hvalid, his⟩
      exact ⟨pieces, hbytes, hvalid, his⟩
  · intro others hsized hbytes
    exact Piece.code_injective hsized h.valid.sized (hbytes.trans h.bytes.symm)
  · intro inst hi
    rw [List.head?_eq_getElem?] at hi
    exact UInt32.toNat_inj.mp (h.offset hl hi)
  · intro i inst piece hi hp
    have hinst := h.instruction hl hi hp
    refine ⟨?_, ?_, fun following hn => h.next hl hi hp hn, h.last hl hi hp⟩
    · rw [hinst]
      rfl
    · exact congrArg Instruction.operand hinst
  · intro offset i
    exact h.indexOf?_eq_some_iff hl

/-- A short branch two bytes back, to its own start. -/
theorem decode_listing_grammar_branch :
    [0x2B, 0xFE].length < 2 ^ 32 ∧
      decode .unknown .listing [0x2B, 0xFE] = .ok [⟨.brS, 0, some (.target 0)⟩] := by
  have hbytes : Decomposes .unknown [0x2B, 0xFE] [⟨.brS, [0xFE]⟩]
      [⟨.brS, 0, some (.target 0)⟩] :=
    ⟨rfl, ⟨rfl, by decide, trivial⟩, by decide +kernel⟩
  exact ⟨by decide, (decode_listing_grammar .unknown (by decide) _).1.mpr ⟨_, hbytes⟩⟩

end ManagedCode
