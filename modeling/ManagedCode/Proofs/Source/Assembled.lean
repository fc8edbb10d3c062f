import ManagedCode.Proofs.Source.Layout
import ManagedCode.Proofs.Source.RoundTrip

/-!
# Decoding undoes assembling

The bytes of a source text are those that its layout has room for, and decoding them gives one
instruction for each of its statements. `Denotes` says what operand a text stands for and `Leads`
where a branch target is, both without bytes: numbers and tokens are as they are written, and a
label is the offset of the instruction behind its last definition.
-/

namespace ManagedCode.Source

/-- Where the text of a target leads in code of `size` bytes whose instructions start at
`offsets`. -/
inductive Leads (lines : List (List Char)) (offsets : List Nat) (size : Nat) (text : List Char) :
    Nat → Prop
  | label {count : Nat} (defined : DefinedBehind lines text count) :
      Leads lines offsets size text (offsets.getD count size)
  | number {n : Nat} (undefined : ∀ line ∈ lines, text ∉ (splitLine line).1)
      (value : readInteger text = .ok n) : Leads lines offsets size text n

/-- The operand that a text stands for with an opcode of the given kind. Tokens are settled as the
resolver says, and a literal has the token of its place in the string table. -/
inductive Denotes (leads : List Char → Nat → Prop) (literals : Literals) (resolver : Resolver) :
    OperandKind → List Char → Option Operand → Prop
  | none : Denotes leads literals resolver .none [] none
  | variable {kind : OperandKind} {text : List Char} {index : UInt16}
      (kinds : kind = .shortVariable ∨ kind = .variable)
      (value : readInteger text = .ok index.toNat) :
      Denotes leads literals resolver kind text (some (.variable index))
  | shortInt32 {text : List Char} {n : Int32} (value : readInteger text = .ok n.toInt) :
      Denotes leads literals resolver .shortInt32 text (some (.int32 n))
  /-- A number is kept up to a multiple of 2³². -/
  | int32 {text : List Char} {n : Int} (value : readInteger text = .ok n) :
      Denotes leads literals resolver .int32 text (some (.int32 (Int32.ofInt n)))
  | int64 {text : List Char} {n : Int64} (value : readInteger text = .ok n.toInt) :
      Denotes leads literals resolver .int64 text (some (.int64 n))
  | float32 {text : List Char} {bits : Nat} (value : readFloat text = .ok bits) :
      Denotes leads literals resolver .float32 text
        (some (.float32 (Floating.narrow bits).toUInt32))
  | float64 {text : List Char} {bits : Nat} (value : readFloat text = .ok bits) :
      Denotes leads literals resolver .float64 text (some (.float64 bits.toUInt64))
  | target {kind : OperandKind} {text : List Char} {offset : UInt32}
      (kinds : kind = .shortTarget ∨ kind = .target) (value : leads text offset.toNat) :
      Denotes leads literals resolver kind text (some (.target offset))
  | switch {text : List Char} {texts : List (List Char)} {offsets : List UInt32}
      (split : splitTargets text = .ok texts)
      (values : List.Forall₂ (fun text offset => leads text offset.toNat) texts offsets) :
      Denotes leads literals resolver .switch text (some (.switch offsets))
  | token {kind : OperandKind} {text : List Char} {token : Token} {operand : Operand}
      (kinds : kind ∈ [.string, .field, .method, .type, .token, .signature])
      (value : readToken text = .ok token)
      (settled : resolver.operand .listing kind token = .ok operand) :
      Denotes leads literals resolver kind text (some operand)
  | literal {text : List Char} {string : String} {place : Nat} {operand : Operand}
      (value : readLiteral text = .ok string) (interned : literals.texts[place]? = some string)
      (settled : resolver.operand .listing .string (Literals.tokenAt place) = .ok operand) :
      Denotes leads literals resolver .string text (some operand)

/-- What a text stands for depends on where targets lead, and stays when literals are added. -/
theorem Denotes.imp {leads other : List Char → Nat → Prop} {literals later : Literals}
    {resolver : Resolver} {kind : OperandKind} {text : List Char} {operand : Option Operand}
    (hl : ∀ text n, leads text n → other text n) (he : Literals.Extends literals later)
    (h : Denotes leads literals resolver kind text operand) :
    Denotes other later resolver kind text operand := by
  cases h with
  | none => exact .none
  | «variable» kinds value => exact .variable kinds value
  | shortInt32 value => exact .shortInt32 value
  | int32 value => exact .int32 value
  | int64 value => exact .int64 value
  | float32 value => exact .float32 value
  | float64 value => exact .float64 value
  | target kinds value => exact .target kinds (hl _ _ value)
  | switch split values => exact .switch split (values.imp fun _ _ => hl _ _)
  | token kinds value settled => exact .token kinds value settled
  | literal value interned settled => exact .literal value (he _ _ interned) settled

/-- The texts of the targets in an operand. -/
def operandTargets (kind : OperandKind) (operand : List Char) : List (List Char) :=
  match kind with
  | .shortTarget | .target => [operand]
  | .switch => (splitTargets operand).toOption.getD []
  | _ => []

/-- The texts of the targets in a statement. -/
def targetTexts (text : List Char) : List (List Char) :=
  let (mnemonic, operand) := splitStatement text
  match Opcode.ofMnemonic? (String.ofList mnemonic) with
  | some op => operandTargets op.kind operand
  | none => []

/-! ## Numbers and targets -/

/-- What is read within a range is a number in it. -/
theorem readWithin_eq_ok {range : IntRange} {text : List Char} {n : Int}
    (h : readWithin range text = .ok n) :
    readInteger text = .ok n ∧ range.low ≤ n ∧ n ≤ range.high := by
  obtain ⟨m, hm, h⟩ := bind_eq_ok_iff.mp h
  split at h
  · rename_i hc
    cases h
    exact ⟨hm, IntRange.contains_iff.mp hc⟩
  · cases h

/-- A target is a label or a number that no label is written like. -/
theorem readTarget_eq_ok {labels : Labels} {text : List Char} {target : Int}
    (h : readTarget labels text = .ok target) :
    ∃ n : Nat, target = n ∧ (labels.lookup (String.ofList text) = some n ∨
      labels.lookup (String.ofList text) = none ∧ readInteger text = .ok n) := by
  unfold readTarget at h
  split at h
  · rename_i offset hlookup
    cases h
    exact ⟨offset, rfl, .inl hlookup⟩
  · rename_i hlookup
    split at h
    · rename_i n hn
      cases h
      obtain ⟨hread, hlow, _⟩ := readWithin_eq_ok hn
      lift target to Nat using hlow
      exact ⟨target, rfl, .inr ⟨hlookup, hread⟩⟩
    · cases h

/-- The offset that the text of a target names under some labels. -/
def Names (labels : Labels) (text : List Char) (n : Nat) : Prop := readTarget labels text = .ok n

/-- A displacement is the distance to the offset that its text names. -/
theorem displacement_eq_ok {labels : Labels} {base : Nat} {text : List Char} {word : List UInt8}
    (h : displacement labels base text = .ok word) :
    ∃ n : Nat, Names labels text n ∧ word = Bytes.ofInt 4 (n - base) := by
  obtain ⟨target, htarget, hword⟩ := bind_eq_ok_iff.mp h
  obtain ⟨n, rfl, _⟩ := readTarget_eq_ok htarget
  cases hword
  exact ⟨n, htarget, rfl⟩

/-- A displacement in one byte leads back to the offset that its text names. -/
theorem shortDisplacement_eq_ok {labels : Labels} {base : Nat} {text : List Char}
    {word : List UInt8} (h : shortDisplacement labels base text = .ok word) :
    ∃ n : Nat, Names labels text n ∧ word = Bytes.ofInt 1 (n - base) ∧
      base + Bytes.signed word = n := by
  obtain ⟨target, htarget, hword⟩ := bind_eq_ok_iff.mp h
  obtain ⟨n, rfl, _⟩ := readTarget_eq_ok htarget
  dsimp only at hword
  split at hword
  · rename_i hrange
    cases hword
    obtain ⟨hlow, hhigh⟩ := IntRange.contains_iff.mp hrange
    have hlow : (-2 ^ 7 : Int) ≤ n - base := hlow
    have hhigh : (n - base : Int) ≤ 2 ^ 7 - 1 := hhigh
    refine ⟨n, htarget, rfl, ?_⟩
    rw [Bytes.signed_ofInt_of_mem (show 256 ^ 1 = 2 * 2 ^ 7 from rfl) hlow (by omega)]
    omega
  · cases hword

/-- A displacement between two offsets of 31 bits leads from one to the other. -/
theorem add_signed_displacement {base n : Nat} (hb : base < 2 ^ 31) (hn : n < 2 ^ 31) :
    base + Bytes.signed (Bytes.ofInt 4 (n - base)) = n := by
  rw [Bytes.signed_ofInt_of_mem (show 256 ^ 4 = 2 * 2 ^ 31 from rfl) (by omega) (by omega)]
  omega

/-- What a traversal gives, it gives item by item. -/
theorem forall₂_of_mapM_eq_ok {ε α β : Type} {f : α → Except ε β} {as : List α} {bs : List β}
    (h : as.mapM f = .ok bs) : List.Forall₂ (fun a b => f a = .ok b) as bs := by
  induction as generalizing bs with
  | nil =>
    cases h
    exact .nil
  | cons a as ih =>
    rw [List.mapM_cons] at h
    obtain ⟨b, hb, h⟩ := bind_eq_ok_iff.mp h
    obtain ⟨bs', hbs, h⟩ := bind_eq_ok_iff.mp h
    cases h
    exact .cons hb (ih hbs)

section Words

variable {labels : Labels} {base : Nat} {texts : List (List Char)} {words : List (List UInt8)}

/-- Every displacement of a table has four bytes. -/
theorem length_of_words (h : List.Forall₂ (fun text word => ∃ n : Nat, Names labels text n ∧
    word = Bytes.ofInt 4 (n - base)) texts words) : ∀ word ∈ words, word.length = 4 := by
  intro word hword
  obtain ⟨i, hi, rfl⟩ := List.getElem_of_mem hword
  obtain ⟨n, _, hn⟩ := h.get (h.length_eq ▸ hi) hi
  rw [show words[i] = words.get ⟨i, hi⟩ from rfl, hn, Bytes.length_ofInt]

/-- The targets of a table are as far from its end as its displacements say. -/
theorem targets_of_words {operand : List UInt8}
    (ho : operand = Bytes.ofNat 4 texts.length ++ words.flatten)
    (h : List.Forall₂ (fun text word => ∃ n : Nat, Names labels text n ∧
      word = Bytes.ofInt 4 (n - base)) texts words) (hc : texts.length < 256 ^ 4) :
    OperandKind.switch.targets base operand =
      words.map fun word => (base : Int) + Bytes.signed word := by
  have hcount : Bytes.toNat (Bytes.ofNat 4 texts.length) = words.length := by
    rw [Bytes.toNat_ofNat, ← h.length_eq, Nat.mod_eq_of_lt hc]
  rw [ho, OperandKind.targets_switch (Bytes.length_ofNat 4 _), hcount,
    Bytes.group_flatten (length_of_words h)]

end Words

/-- A table is a count and one displacement from its end for each text. -/
theorem switchTable_eq_ok {labels : Labels} {start : Nat} {text : List Char} {operand : List UInt8}
    (h : switchTable labels start text = .ok operand) :
    ∃ (texts : List (List Char)) (words : List (List UInt8)),
      splitTargets text = .ok texts ∧ operand = Bytes.ofNat 4 texts.length ++ words.flatten ∧
      operand.length = 4 + 4 * texts.length ∧
      List.Forall₂ (fun text word => ∃ n : Nat, Names labels text n ∧
        word = Bytes.ofInt 4 (n - (start + operand.length : Nat))) texts words := by
  obtain ⟨texts, htexts, h⟩ := bind_eq_ok_iff.mp h
  obtain ⟨words, hwords, h⟩ := bind_eq_ok_iff.mp h
  cases h
  have hall := (forall₂_of_mapM_eq_ok hwords).imp fun _ _ => displacement_eq_ok
  have hflatten : words.flatten.length = 4 * texts.length := by
    rw [List.length_flatten, List.map_eq_replicate_iff.mpr (length_of_words hall),
      List.sum_replicate_nat, hall.length_eq, Nat.mul_comm]
  have hlength : (Bytes.ofNat 4 texts.length ++ words.flatten).length = 4 + 4 * texts.length := by
    rw [List.length_append, Bytes.length_ofNat, hflatten]
  refine ⟨texts, words, htexts, rfl, hlength, ?_⟩
  rw [hlength, ← Nat.add_assoc]
  exact hall

/-! ## Operands -/

/-- The bytes of an operand at `offset` are right for the text of the operand. -/
structure Emitted (labels : Labels) (literals : Literals) (resolver : Resolver) (op : Opcode)
    (offset : Nat) (text : List Char) (operand : List UInt8) : Prop where
  sized : (Piece.mk op operand).Sized
  inReach : ∀ target ∈ (Piece.mk op operand).targets offset, 0 ≤ target ∧ target < 2 ^ 32
  denotes : Denotes (Names labels) literals resolver op.kind text
    ((Piece.mk op operand).operandAt resolver offset)

section

variable {labels : Labels} {literals : Literals} {resolver : Resolver} {op : Opcode} {offset : Nat}
  {text : List Char} {operand : List UInt8}

private theorem operandWidth_eq {width : Nat} (hw : op.kind.width? = some width)
    (text : List Char) : operandWidth op text = .ok width := by
  rw [operandWidth, hw]

/-- An operand has as many bytes as the layout gives it. -/
theorem operandWidth_of_plainOperand {start : Nat}
    (h : plainOperand op.kind labels start text = .ok operand) :
    operandWidth op text = .ok operand.length := by
  cases hk : op.kind with
  | switch =>
    rw [hk] at h
    obtain ⟨texts, words, htexts, _, hlength, _⟩ := switchTable_eq_ok h
    simp only [operandWidth, hk, OperandKind.width?, htexts, hlength]
    rfl
  | shortTarget =>
    rw [hk] at h
    obtain ⟨n, _, rfl, _⟩ := shortDisplacement_eq_ok h
    exact operandWidth_eq (by rw [hk, Bytes.length_ofInt]; rfl) text
  | target =>
    rw [hk] at h
    obtain ⟨n, _, rfl⟩ := displacement_eq_ok h
    exact operandWidth_eq (by rw [hk, Bytes.length_ofInt]; rfl) text
  | none =>
    rw [hk] at h
    cases h
    exact operandWidth_eq (by rw [hk]; rfl) text
  | _ =>
    rw [hk] at h
    obtain ⟨n, _, rfl⟩ := map_eq_ok_iff.mp h
    exact operandWidth_eq (by simp [hk, OperandKind.width?]) text

private theorem Emitted.of_displacements (hw : op.kind.width? = some operand.length)
    (hd : op.kind.displacements operand = [])
    (h : Denotes (Names labels) literals resolver op.kind text
      ((Piece.mk op operand).operandAt resolver offset)) :
    Emitted labels literals resolver op offset text operand where
  sized := by rw [Piece.Sized, OperandKind.Sized, hw, Option.getD_some]
  inReach := by simp [Piece.targets, OperandKind.targets, hd]
  denotes := h

private theorem Emitted.of_branch {n : Nat} (hk : op.kind = .shortTarget ∨ op.kind = .target)
    (hw : op.kind.width? = some operand.length) (hn : Names labels text n) (hlt : n < 2 ^ 31)
    (hd : (offset + op.size + operand.length : Nat) + Bytes.signed operand = n) :
    Emitted labels literals resolver op offset text operand := by
  have hsize : offset + (Piece.mk op operand).size = offset + op.size + operand.length := by
    rw [Piece.size_eq, Nat.add_assoc]
  have hoperand : (Piece.mk op operand).operandAt resolver offset = some (.target n.toUInt32) := by
    rcases hk with hk | hk
    · simp only [Piece.operandAt, hk, hsize, hd, Int.toNat_natCast]
    · simp only [Piece.operandAt, hk, hsize, hd, Int.toNat_natCast]
  refine ⟨?_, ?_, ?_⟩
  · rw [Piece.Sized, OperandKind.Sized, hw, Option.getD_some]
  · have htargets : (Piece.mk op operand).targets offset = [(n : Int)] := by
      rw [← hd, ← hsize]
      rcases hk with hk | hk
      · simp only [Piece.targets, OperandKind.targets, OperandKind.displacements, hk, List.map_cons,
          List.map_nil]
      · simp only [Piece.targets, OperandKind.targets, OperandKind.displacements, hk, List.map_cons,
          List.map_nil]
    rw [htargets, List.forall_mem_singleton]
    omega
  · rw [hoperand]
    refine .target hk ?_
    rwa [Nat.toUInt32_eq, UInt32.toNat_ofNat_of_lt' (Nat.lt_trans hlt (by decide))]

/-- The displacements of a table lead to the targets that its texts name. -/
private theorem forall₂_targets {base : Nat} (hb : base < 2 ^ 31) {texts : List (List Char)}
    {words : List (List UInt8)} (ht : ∀ text ∈ texts, ∀ n, Names labels text n → n < 2 ^ 31)
    (h : List.Forall₂ (fun text word => ∃ n : Nat, Names labels text n ∧
      word = Bytes.ofInt 4 (n - base)) texts words) :
    List.Forall₂ (fun text (word : List UInt8) => ∃ n : Nat, Names labels text n ∧ n < 2 ^ 31 ∧
      word.length = 4 ∧ base + Bytes.signed word = n) texts words := by
  induction h with
  | nil => exact .nil
  | cons hword _ ih =>
    rw [List.forall_mem_cons] at ht
    obtain ⟨n, hn, rfl⟩ := hword
    have hlt := ht.1 n hn
    exact .cons ⟨n, hn, hlt, Bytes.length_ofInt .., add_signed_displacement hb hlt⟩ (ih ht.2)

private theorem Emitted.of_switch (hk : op.kind = .switch)
    (h : switchTable labels (offset + op.size) text = .ok operand)
    (hb : offset + op.size + operand.length < 2 ^ 31)
    (ht : ∀ t ∈ operandTargets op.kind text, ∀ n, Names labels t n → n < 2 ^ 31) :
    Emitted labels literals resolver op offset text operand := by
  obtain ⟨texts, words, htexts, hoperand, hlength, hwords⟩ := switchTable_eq_ok h
  have hsize : offset + (Piece.mk op operand).size = offset + op.size + operand.length := by
    rw [Piece.size_eq, Nat.add_assoc]
  simp only [operandTargets, hk, htexts, Except.toOption, Option.getD_some] at ht
  have hled := forall₂_targets hb ht hwords
  have htargets : (Piece.mk op operand).targets offset =
      words.map fun word => ((offset + op.size + operand.length : Nat) : Int) +
        Bytes.signed word := by
    rw [Piece.targets, hk, hsize]
    exact targets_of_words hoperand hwords (by omega)
  refine ⟨?_, ?_, ?_⟩
  · rw [Piece.Sized, hk, OperandKind.sized_switch_iff]
    refine ⟨_, _, hoperand, Bytes.length_ofNat 4 _, ?_⟩
    have happend := congrArg List.length hoperand
    rw [List.length_append, Bytes.length_ofNat, hlength] at happend
    rw [Bytes.toNat_ofNat, Nat.mod_eq_of_lt (by omega)]
    omega
  · rw [htargets, List.forall_mem_map]
    intro word hword
    obtain ⟨i, hi, rfl⟩ := List.getElem_of_mem hword
    obtain ⟨n, _, hlt, _, hn⟩ := hled.get (hled.length_eq ▸ hi) hi
    rw [show words[i] = words.get ⟨i, hi⟩ from rfl, hn]
    omega
  · simp only [Piece.operandAt, hk, htargets, List.map_map]
    refine .switch htexts ?_
    rw [List.forall₂_map_right_iff]
    refine hled.imp fun text word hword => ?_
    obtain ⟨n, hn, hlt, _, hd⟩ := hword
    rw [Function.comp_apply, hd, Int.toNat_natCast, Nat.toUInt32_eq,
      UInt32.toNat_ofNat_of_lt' (Nat.lt_trans hlt (by decide))]
    exact hn

/-- The operand for a token in the bytes is what the resolver makes of it. -/
private theorem operandAt_token
    (hk : op.kind ∈ [.string, .field, .method, .type, .token, .signature]) :
    ∃ settled, resolver.operand .listing op.kind (.ofBytes operand) = .ok settled ∧
      (Piece.mk op operand).operandAt resolver offset = some settled := by
  have himmediate (base : Nat) : op.kind.immediate base operand = .token (.ofBytes operand) := by
    simp only [List.mem_cons, List.not_mem_nil, or_false] at hk
    rcases hk with hk | hk | hk | hk | hk | hk <;> rw [hk] <;> rfl
  have hresolve := Encoded.resolve_ofPiece resolver ⟨op, operand⟩ offset
  simp only [Encoded.resolve, Encoded.ofPiece, himmediate] at hresolve
  obtain ⟨found, hfound, hinst⟩ := bind_eq_ok_iff.mp hresolve
  obtain ⟨settled, hsettled, rfl⟩ := map_eq_ok_iff.mp hfound
  exact ⟨settled, hsettled, (congrArg Instruction.operand (Except.ok.inj hinst)).symm⟩

private theorem Emitted.of_token
    (hk : op.kind ∈ [.string, .field, .method, .type, .token, .signature]) {token : Token}
    (h : ∀ settled, resolver.operand .listing op.kind token = .ok settled →
      Denotes (Names labels) literals resolver op.kind text (some settled)) :
    Emitted labels literals resolver op offset text (Bytes.ofNat 4 token.value.toNat) := by
  have hk' := hk
  simp only [List.mem_cons, List.not_mem_nil, or_false] at hk'
  obtain ⟨settled, hsettled, hoperand⟩ := @operandAt_token resolver op offset
    (Bytes.ofNat 4 token.value.toNat) hk
  rw [Token.ofBytes_ofNat] at hsettled
  refine .of_displacements ?_ ?_ (hoperand ▸ h settled hsettled)
  · rcases hk' with hk | hk | hk | hk | hk | hk <;> rw [hk, Bytes.length_ofNat] <;> rfl
  · rcases hk' with hk | hk | hk | hk | hk | hk <;> rw [hk] <;> rfl

private theorem Emitted.of_variable (hk : op.kind = .shortVariable ∨ op.kind = .variable)
    {width : Nat} (hw : op.kind.width? = some width) (hle : 256 ^ width ≤ 2 ^ 16) {n : Int}
    (hread : readInteger text = .ok n) (hlow : 0 ≤ n) (hhigh : n < (256 ^ width : Nat)) :
    Emitted labels literals resolver op offset text (Bytes.ofInt width n) := by
  have hvalue : Bytes.toNat (Bytes.ofInt width n) = n.toNat := by
    have hmod := Bytes.toNat_ofInt width n
    rw [Int.emod_eq_of_lt hlow hhigh] at hmod
    omega
  have hindex : (n.toNat.toUInt16.toNat : Int) = n := by
    rw [Nat.toUInt16_eq, UInt16.toNat_ofNat_of_lt' (show n.toNat < 2 ^ 16 by omega),
      Int.toNat_of_nonneg hlow]
  have hoperand : (Piece.mk op (Bytes.ofInt width n)).operandAt resolver offset =
      some (.variable n.toNat.toUInt16) := by
    rcases hk with hk | hk <;> simp only [Piece.operandAt, hk, hvalue]
  refine .of_displacements (by rw [hw, Bytes.length_ofInt]) ?_ ?_
  · rcases hk with hk | hk <;> rw [hk] <;> rfl
  · rw [hoperand]
    exact .variable hk (by rw [hread, hindex])

/-- The bytes of an operand that is no literal are right for its text, if its targets are offsets of
31 bits. -/
theorem emitted_of_plainOperand
    (h : plainOperand op.kind labels (offset + op.size) text = .ok operand)
    (hn : op.kind = .none → text = []) (hb : offset + op.size + operand.length < 2 ^ 31)
    (ht : ∀ t ∈ operandTargets op.kind text, ∀ n, Names labels t n → n < 2 ^ 31) :
    Emitted labels literals resolver op offset text operand := by
  have hwidth (width : Nat) (n : Int) (hw : op.kind.width? = some width) :
      op.kind.width? = some (Bytes.ofInt width n).length := by
    rw [hw, Bytes.length_ofInt]
  cases hk : op.kind with
  | none =>
    rw [hk] at h
    cases h
    refine .of_displacements (by rw [hk]; rfl) (by rw [hk]; rfl) ?_
    simp only [Piece.operandAt, hk, hn hk]
    exact .none
  | shortVariable =>
    rw [hk] at h
    obtain ⟨n, hread, rfl⟩ := map_eq_ok_iff.mp h
    obtain ⟨hread, hlow, hhigh⟩ := readWithin_eq_ok hread
    exact .of_variable (.inl hk) (by rw [hk]; rfl) (by decide) hread hlow
      (Int.lt_of_le_sub_one hhigh)
  | «variable» =>
    rw [hk] at h
    obtain ⟨n, hread, rfl⟩ := map_eq_ok_iff.mp h
    obtain ⟨hread, hlow, hhigh⟩ := readWithin_eq_ok hread
    exact .of_variable (.inr hk) (by rw [hk]; rfl) (by decide) hread hlow
      (Int.lt_of_le_sub_one hhigh)
  | shortInt32 =>
    rw [hk] at h
    obtain ⟨n, hread, rfl⟩ := map_eq_ok_iff.mp h
    obtain ⟨hread, hlow, hhigh⟩ := readWithin_eq_ok hread
    have hlow : -2 ^ 7 ≤ n := hlow
    have hhigh : n < 2 ^ 7 := Int.lt_of_le_sub_one hhigh
    have hsigned := Bytes.signed_ofInt_of_mem (show 256 ^ 1 = 2 * 2 ^ 7 from rfl) hlow hhigh
    refine .of_displacements (hwidth 1 n (by rw [hk]; rfl)) (by rw [hk]; rfl) ?_
    simp only [Piece.operandAt, hk, hsigned]
    refine .shortInt32 ?_
    rw [hread, Int32.toInt_ofInt_of_le (by omega) (by omega)]
  | int32 =>
    rw [hk] at h
    obtain ⟨n, hread, rfl⟩ := map_eq_ok_iff.mp h
    obtain ⟨hread, _, _⟩ := readWithin_eq_ok hread
    -- A constant of 32 bits may be given without its sign: the word is what counts.
    have hvalue : Int32.ofInt (Bytes.signed (Bytes.ofInt 4 n)) = Int32.ofInt n := by
      apply Int32.toInt_inj.mp
      rw [Int32.toInt_ofInt, Int32.toInt_ofInt, Bytes.signed_ofInt]
      exact Int.bmod_bmod
    refine .of_displacements (hwidth 4 n (by rw [hk]; rfl)) (by rw [hk]; rfl) ?_
    simp only [Piece.operandAt, hk, hvalue]
    exact .int32 hread
  | int64 =>
    rw [hk] at h
    obtain ⟨n, hread, rfl⟩ := map_eq_ok_iff.mp h
    obtain ⟨hread, hlow, hhigh⟩ := readWithin_eq_ok hread
    have hlow : -2 ^ 63 ≤ n := hlow
    have hhigh : n < 2 ^ 63 := Int.lt_of_le_sub_one hhigh
    have hsigned := Bytes.signed_ofInt_of_mem (show 256 ^ 8 = 2 * 2 ^ 63 from rfl) hlow hhigh
    refine .of_displacements (hwidth 8 n (by rw [hk]; rfl)) (by rw [hk]; rfl) ?_
    simp only [Piece.operandAt, hk, hsigned]
    refine .int64 ?_
    rw [hread, Int64.toInt_ofInt_of_le hlow hhigh]
  | float32 =>
    rw [hk] at h
    obtain ⟨bits, hread, rfl⟩ := map_eq_ok_iff.mp h
    have hvalue : (Bytes.toNat (Bytes.ofNat 4 (Floating.narrow bits))).toUInt32 =
        (Floating.narrow bits).toUInt32 := by
      rw [Bytes.toNat_ofNat]
      exact UInt32.ofNat_mod_size
    refine .of_displacements (by simp [hk, OperandKind.width?]) (by rw [hk]; rfl) ?_
    simp only [Piece.operandAt, hk, Function.comp_apply, hvalue]
    exact .float32 hread
  | float64 =>
    rw [hk] at h
    obtain ⟨bits, hread, rfl⟩ := map_eq_ok_iff.mp h
    have hvalue : (Bytes.toNat (Bytes.ofNat 8 bits)).toUInt64 = bits.toUInt64 := by
      rw [Bytes.toNat_ofNat]
      exact UInt64.ofNat_mod_size
    refine .of_displacements (by simp [hk, OperandKind.width?]) (by rw [hk]; rfl) ?_
    simp only [Piece.operandAt, hk, hvalue]
    exact .float64 hread
  | shortTarget =>
    rw [hk] at h
    obtain ⟨n, hnames, rfl, hled⟩ := shortDisplacement_eq_ok h
    have hlt : n < 2 ^ 31 := ht text (by simp [operandTargets, hk]) n hnames
    exact .of_branch (.inl hk) (hwidth 1 _ (by rw [hk]; rfl)) hnames hlt
      (by rwa [Bytes.length_ofInt])
  | target =>
    rw [hk] at h
    obtain ⟨n, hnames, rfl⟩ := displacement_eq_ok h
    have hlt : n < 2 ^ 31 := ht text (by simp [operandTargets, hk]) n hnames
    rw [Bytes.length_ofInt] at hb
    refine .of_branch (.inr hk) (hwidth 4 _ (by rw [hk]; rfl)) hnames hlt ?_
    rw [Bytes.length_ofInt]
    exact add_signed_displacement hb hlt
  | switch =>
    rw [hk] at h
    exact .of_switch hk h hb ht
  | string | field | method | type | token | signature =>
    have hkind : op.kind ∈ [.string, .field, .method, .type, .token, .signature] := by simp [hk]
    rw [hk] at h
    obtain ⟨token, hread, rfl⟩ := map_eq_ok_iff.mp h
    exact .of_token hkind fun settled hsettled => .token hkind hread hsettled

private theorem located_eq_ok {α : Type} {line : Nat} {x : Except Cause α} {a : α}
    {later : Literals} (h : located line x literals = .ok a later) :
    x = .ok a ∧ later = literals := by
  cases x with
  | error cause => cases h
  | ok value =>
    cases h
    exact ⟨rfl, rfl⟩

/-- The operand of a statement is a literal that was interned, or was written without a look at the
string table. -/
theorem operandBytes_eq_ok {s : Statement} {later : Literals}
    (h : operandBytes labels s literals = .ok operand later) :
    (∃ string, s.opcode.kind = .string ∧ readLiteral s.operand = .ok string ∧
        operand = Bytes.ofNat 4 (literals.intern string).1.value.toNat ∧
        later = (literals.intern string).2) ∨
      plainOperand s.opcode.kind labels (s.offset + s.opcode.size) s.operand = .ok operand ∧
        (s.opcode.kind = .none → s.operand = []) ∧ later = literals := by
  unfold operandBytes at h
  split at h
  · rename_i hk
    split at h
    · rename_i hempty
      cases h
      exact .inr ⟨by rw [hk]; rfl, fun _ => List.isEmpty_iff.mp hempty, rfl⟩
    · cases h
  · rename_i hk
    split at h
    · cases h
    · split at h
      · rename_i hstring
        cases hread : readLiteral s.operand with
        | error cause =>
          rw [hread] at h
          cases h
        | ok string =>
          rw [hread] at h
          cases h
          exact .inl ⟨string, hstring.1, rfl, rfl, rfl⟩
      · obtain ⟨hplain, rfl⟩ := located_eq_ok h
        exact .inr ⟨hplain, fun hnone => absurd hnone hk, rfl⟩

/-- The operand of a statement has as many bytes as the layout gives it. -/
theorem operandWidth_of_operandBytes {s : Statement} {later : Literals}
    (h : operandBytes labels s literals = .ok operand later) :
    operandWidth s.opcode s.operand = .ok operand.length := by
  rcases operandBytes_eq_ok h with ⟨string, hk, _, rfl, _⟩ | ⟨hplain, _, _⟩
  · rw [Bytes.length_ofNat]
    exact operandWidth_eq (by rw [hk]; rfl) s.operand
  · exact operandWidth_of_plainOperand hplain

/-- The bytes of the operand of a statement are right for its text, if its end and its targets are
offsets of 31 bits. -/
theorem emitted_of_operandBytes {s : Statement} {later : Literals}
    (h : operandBytes labels s literals = .ok operand later)
    (hb : s.offset + s.opcode.size + operand.length < 2 ^ 31)
    (ht : ∀ t ∈ operandTargets s.opcode.kind s.operand, ∀ n, Names labels t n → n < 2 ^ 31) :
    Literals.Extends literals later ∧
      Emitted labels later resolver s.opcode s.offset s.operand operand := by
  rcases operandBytes_eq_ok h with ⟨string, hk, hread, rfl, rfl⟩ | ⟨hplain, hnone, rfl⟩
  · obtain ⟨place, htoken, hplace, hextends, _⟩ := literals.intern_spec string
    refine ⟨hextends, .of_token (by simp [hk]) fun settled hsettled => ?_⟩
    rw [hk, htoken] at hsettled
    rw [hk]
    exact .literal hread hplace hsettled
  · exact ⟨.refl _, emitted_of_plainOperand hplain hnone hb ht⟩

end

/-! ## Statements -/

/-- The instruction is that of the statement: its opcode, at its offset, with the operand that its
text denotes. -/
structure Statement.Decodes (leads : List Char → Nat → Prop) (literals : Literals)
    (resolver : Resolver) (s : Statement) (inst : Instruction) : Prop where
  opcode : inst.opcode = s.opcode
  offset : inst.offset.toNat = s.offset
  operand : Denotes leads literals resolver s.opcode.kind s.operand inst.operand

/-- What a statement decodes to may be said with more labels and literals. -/
theorem Statement.Decodes.imp {leads other : List Char → Nat → Prop} {literals later : Literals}
    {resolver : Resolver} {s : Statement} {inst : Instruction}
    (hl : ∀ text n, leads text n → other text n) (he : Literals.Extends literals later)
    (h : s.Decodes leads literals resolver inst) : s.Decodes other later resolver inst :=
  ⟨h.opcode, h.offset, h.operand.imp hl he⟩

/-- Statements are written one after the other, each with the table that it finds. -/
theorem statementBytes_cons_eq_ok {labels : Labels} {s : Statement}
    {statements : List Statement} {literals later : Literals} {code : List UInt8}
    (h : statementBytes labels (s :: statements) literals = .ok code later) :
    ∃ operand middle more, operandBytes labels s literals = .ok operand middle ∧
      statementBytes labels statements middle = .ok more later ∧
      code = s.opcode.encode ++ operand ++ more := by
  simp only [statementBytes, bind, EStateM.bind] at h
  split at h
  · rename_i operand middle hoperand
    split at h
    · rename_i more final hmore
      cases h
      exact ⟨operand, middle, more, hoperand, hmore, rfl⟩
    · cases h
  · cases h

/-- The bytes of consecutive statements fill their room exactly. -/
theorem length_of_statementBytes {labels : Labels} {statements : List Statement}
    {literals later : Literals} {code : List UInt8} {start stop : Nat}
    (h : statementBytes labels statements literals = .ok code later)
    (hc : Consecutive start statements stop) : stop = start + code.length := by
  induction statements generalizing literals code start with
  | nil =>
    cases h
    exact (show start = stop from hc).symm
  | cons s statements ih =>
    obtain ⟨_, width, hw, hrest⟩ := hc
    obtain ⟨operand, middle, more, hoperand, hmore, rfl⟩ := statementBytes_cons_eq_ok h
    rw [operandWidth_of_operandBytes hoperand] at hw
    cases hw
    rw [ih hmore hrest, List.length_append, List.length_append, Opcode.length_encode]
    omega

/-- The bytes of consecutive statements are those of valid pieces with the instructions of the
statements. -/
theorem pieces_of_statementBytes {labels : Labels} (resolver : Resolver)
    {statements : List Statement} {literals later : Literals} {code : List UInt8} {start stop : Nat}
    (h : statementBytes labels statements literals = .ok code later)
    (hc : Consecutive start statements stop) (hb : stop < 2 ^ 31)
    (ht : ∀ s ∈ statements, ∀ t ∈ operandTargets s.opcode.kind s.operand, ∀ n,
      Names labels t n → n < 2 ^ 31) :
    Literals.Extends literals later ∧
      ∃ pieces, Piece.code pieces = code ∧ Piece.Valid start pieces ∧
        List.Forall₂ (Statement.Decodes (Names labels) later resolver) statements
          (Piece.instructions resolver start pieces) := by
  induction statements generalizing literals code start with
  | nil =>
    cases h
    exact ⟨.refl _, [], rfl, trivial, .nil⟩
  | cons s statements ih =>
    rw [List.forall_mem_cons] at ht
    obtain ⟨hoffset, width, hw, hrest⟩ := hc
    obtain ⟨operand, middle, more, hoperand, hmore, rfl⟩ := statementBytes_cons_eq_ok h
    rw [operandWidth_of_operandBytes hoperand] at hw
    cases hw
    subst hoffset
    have hle := hrest.le
    obtain ⟨hextends, hemitted⟩ := @emitted_of_operandBytes labels literals resolver operand s
      middle hoperand (by omega) ht.1
    obtain ⟨hextends', pieces, rfl, hvalid, hdecodes⟩ := ih hmore hrest ht.2
    have hsize : s.offset + (Piece.mk s.opcode operand).size =
        s.offset + s.opcode.size + operand.length := by
      rw [Piece.size_eq, Nat.add_assoc]
    refine ⟨hextends.trans hextends', ⟨s.opcode, operand⟩ :: pieces, rfl,
      ⟨hemitted.sized, hemitted.inReach, hsize ▸ hvalid⟩, ?_⟩
    rw [Piece.instructions, hsize]
    refine .cons ⟨rfl, ?_, hemitted.denotes.imp (fun _ _ => id) hextends'⟩ hdecodes
    rw [Piece.instruction, Nat.toUInt32_eq,
      UInt32.toNat_ofNat_of_lt' (show s.offset < 2 ^ 32 by omega)]

/-! ## Sources -/

/-- A source that can be assembled has a layout, and its statements are written. -/
theorem assemble_eq_ok {source : String} {literals later : Literals} {code : List UInt8}
    (h : assemble source literals = .ok code later) :
    ∃ layout, Layout.ofSource source.toList = .ok layout ∧
      statementBytes layout.labels layout.statements.reverse literals = .ok code later := by
  cases hlayout : Layout.ofSource source.toList with
  | error e =>
    simp only [assemble, hlayout] at h
    cases h
  | ok layout =>
    simp only [assemble, hlayout] at h
    exact ⟨layout, rfl, h⟩

/-- What a target names under the labels of a layout is where it leads in the source. -/
theorem leads_of_names {source : List Char} {layout : Layout}
    (h : Layout.ofSource source = .ok layout) {text : List Char} {n : Nat}
    (hn : Names layout.labels text n) :
    Leads (Text.lines source) (layout.statements.reverse.map (·.offset)) layout.size text n := by
  obtain ⟨_, _, hlabels⟩ := Layout.ofSource_eq_ok h
  obtain ⟨m, hm, htarget⟩ := readTarget_eq_ok hn
  obtain rfl : n = m := Int.ofNat_inj.mp hm
  rcases hlabels text with ⟨count, hdefined, hlookup⟩ | ⟨hundefined, hlookup⟩
  · rcases htarget with hlabel | ⟨hnone, _⟩
    · rw [hlookup, Option.some.injEq] at hlabel
      exact hlabel ▸ .label hdefined
    · rw [hlookup] at hnone
      cases hnone
  · rcases htarget with hlabel | ⟨_, hread⟩
    · rw [hlookup] at hlabel
      cases hlabel
    · exact .number hundefined hread

/-- The targets of a statement are those of its text. -/
theorem Statement.Reads.operandTargets_eq {entry : Nat × List Char} {s : Statement}
    (h : s.Reads entry) : operandTargets s.opcode.kind s.operand = targetTexts entry.2 := by
  simp only [targetTexts, h.opcode, h.operand]

/-- Decoding undoes assembling. The code of a source has the size of its layout. Decoded for a
listing it gives one instruction for each line with a statement, in order and at the offset of the
layout, with the opcode of the mnemonic and the operand that the text denotes: a target is the
offset of the instruction behind the last definition of its label, or the end of the code, or the
number that is written. -/
theorem decode_assemble {source : String} {literals later : Literals} {code : List UInt8}
    (ha : assemble source literals = .ok code later) (hl : code.length < 2 ^ 31)
    (ht : ∀ entry ∈ statementTexts 1 (Text.lines source.toList), ∀ text ∈ targetTexts entry.2,
      ∀ n, readInteger text = .ok n → n < 2 ^ 31) (resolver : Resolver) :
    ∃ (layout : Layout) (is : List Instruction),
      Layout.ofSource source.toList = .ok layout ∧ layout.size = code.length ∧
      decode resolver .listing code = .ok is ∧
      List.Forall₂ Statement.Reads (statementTexts 1 (Text.lines source.toList))
        layout.statements.reverse ∧
      List.Forall₂ (Statement.Decodes
          (Leads (Text.lines source.toList) (is.map (·.offset.toNat)) code.length) later resolver)
        layout.statements.reverse is := by
  obtain ⟨layout, hlayout, hbytes⟩ := assemble_eq_ok ha
  obtain ⟨hreads, hconsecutive, hlabels⟩ := Layout.ofSource_eq_ok hlayout
  have hsize : layout.size = code.length := by
    rw [length_of_statementBytes hbytes hconsecutive, Nat.zero_add]
  -- A label is at most at the end of the code, a number is small by assumption.
  have hnear : ∀ s ∈ layout.statements.reverse, ∀ t ∈ operandTargets s.opcode.kind s.operand, ∀ n,
      Names layout.labels t n → n < 2 ^ 31 := by
    intro s hs t hmem n hn
    cases leads_of_names hlayout hn with
    | label defined => exact Nat.lt_of_le_of_lt (hconsecutive.getD_le _) (hsize ▸ hl)
    | number undefined value =>
      obtain ⟨i, hi, rfl⟩ := List.getElem_of_mem hs
      have hentry := hreads.get (hreads.length_eq ▸ hi) hi
      have hlt := ht _ (List.get_mem _ _) t (hentry.operandTargets_eq ▸ hmem) n value
      omega
  obtain ⟨_, pieces, hcode, hvalid, hdecodes⟩ := pieces_of_statementBytes resolver hbytes
    hconsecutive (hsize ▸ hl) hnear
  have hoffsets : (Piece.instructions resolver 0 pieces).map (·.offset.toNat) =
      layout.statements.reverse.map (·.offset) := by
    rw [← List.forall₂_eq_eq_eq, List.forall₂_map_left_iff, List.forall₂_map_right_iff]
    exact (hdecodes.imp fun _ _ h => h.offset).flip
  refine ⟨layout, Piece.instructions resolver 0 pieces, hlayout, hsize, ?_, hreads, ?_⟩
  · rw [decode, decodeFrom_listing_eq_ok_iff (Nat.le_refl _)]
    exact ⟨pieces, hcode, hvalid, rfl⟩
  · rw [hoffsets, ← hsize]
    exact hdecodes.imp fun _ _ h => h.imp (fun _ _ => leads_of_names hlayout) (.refl later)

/-- Whether an assembly run gave some code and string table. -/
def gives (code : List UInt8) (table : Literals) :
    EStateM.Result Error Literals (List UInt8) → Bool
  | .ok bytes literals => bytes == code && literals == table
  | .error _ _ => false

/-- A result that passes the test is the code and the table. -/
theorem eq_ok_of_gives {code : List UInt8} {table : Literals}
    {result : EStateM.Result Error Literals (List UInt8)} (h : gives code table result = true) :
    result = .ok code table := by
  cases result with
  | ok bytes literals =>
    obtain ⟨hb, ht⟩ := Bool.and_eq_true_iff.mp h
    rw [eq_of_beq hb, eq_of_beq ht]
  | error e literals => cases h

/-- A table with a label that is defined again behind it, a number and a label at the end. -/
theorem decode_assemble_repeated :
    let source := "IL_1: switch (IL_1, 3, end)\nIL_1: ldc.i4.s -1 // x\nend:"
    let code : List UInt8 := [0x45, 0x03, 0x00, 0x00, 0x00, 0x00, 0x00, 0x00, 0x00, 0xF2, 0xFF,
      0xFF, 0xFF, 0x02, 0x00, 0x00, 0x00, 0x1F, 0xFF]
    assemble source .empty = .ok code .empty ∧
    ∃ (layout : Layout) (is : List Instruction),
      Layout.ofSource source.toList = .ok layout ∧ layout.size = 19 ∧
      decode .unknown .listing code = .ok is ∧
      List.Forall₂ Statement.Reads (statementTexts 1 (Text.lines source.toList))
        layout.statements.reverse ∧
      is.map (·.operand) = [some (.switch [17, 3, 19]), some (.int32 (-1))] := by
  intro source code
  have ha : assemble source .empty = .ok code .empty := eq_ok_of_gives (by decide +kernel)
  have hsmall : ∀ entry ∈ statementTexts 1 (Text.lines source.toList),
      ∀ text ∈ targetTexts entry.2,
        (readInteger text).toOption.all (fun n => n < 2 ^ 31) = true := by
    decide +kernel
  have hdecode : decode .unknown .listing code = .ok [⟨.switch, 0, some (.switch [17, 3, 19])⟩,
      ⟨.ldcI4S, 17, some (.int32 (-1))⟩] := by
    decide +kernel
  obtain ⟨layout, is, hlayout, hsize, his, hreads, _⟩ := decode_assemble ha (by decide)
    (fun entry he text htext n hn => by
      simpa [hn, Except.toOption] using hsmall entry he text htext)
    .unknown
  refine ⟨ha, layout, is, hlayout, hsize, his, hreads, ?_⟩
  rw [hdecode, Except.ok.injEq] at his
  rw [← his]
  rfl

end ManagedCode.Source
