import ManagedCode.Proofs.Execution.Jumps
import ManagedCode.Proofs.Source.Assembled

/-!
# Where displacements lead

An operand names the offset that it branches to, and the bytes hold the displacement from the end of
the instruction to that offset. A displacement of one byte is written only if it is in the range of
the byte. One of four bytes, in a branch as in a table, is cut off to its low 32 bits instead. It
leads to the offset that was named exactly if 31 bits and a sign hold the displacement, and to no
offset at all otherwise, so that code which can be decoded has the targets of its source.
-/

namespace ManagedCode

/-! ## Targets of pieces and instructions -/

/-- What a token stands for is no branch target. -/
theorem Operand.targets_ofToken {α : Type} (token : Token) (make : α → Operand)
    (hm : ∀ a, (make a).targets = []) (found : Except ResolveError α) :
    (Operand.ofToken token (make <$> found)).targets = [] := by
  cases found with
  | error error => rfl
  | ok a => exact hm a

/-- An instruction has the targets in the bytes of its piece. -/
theorem Piece.targets_instruction (resolver : Resolver) (piece : Piece) (offset : Nat) :
    (piece.instruction resolver offset).targets =
      (piece.targets offset).map fun target => target.toNat.toUInt32 := by
  unfold Piece.instruction Instruction.targets Piece.operandAt
  cases hk : piece.opcode.kind with
  | string | field | method | type | token =>
    have hnone : piece.targets offset = [] := by rw [Piece.targets, hk]; rfl
    rw [hnone]
    exact Operand.targets_ofToken _ _ (fun _ => rfl) _
  | _ => simp [Piece.targets, hk, OperandKind.targets, OperandKind.displacements, Operand.targets]

namespace Source

/-! ## One displacement -/

/-- How the target in the bytes of an instruction with the end `base` compares to the offset `n`
that its operand names. -/
structure Aimed (kind : OperandKind) (base n : Nat) (target : Int) : Prop where
  /-- A displacement of one byte leads there. -/
  short : kind = .shortTarget → target = n
  /-- One of four bytes leads there exactly if it has no more than 31 bits and a sign. -/
  exact_iff : target = n ↔ -2 ^ 31 ≤ (n - base : Int) ∧ (n - base : Int) < 2 ^ 31
  /-- What leads elsewhere leads to no offset. -/
  missed : target ≠ n → target < 0 ∨ 2 ^ 32 ≤ target

/-- A displacement in one byte that leads to its target is aimed at it. -/
theorem aimed_short {kind : OperandKind} {base n : Nat} {word : List UInt8}
    (hw : word.length = 1) (h : base + Bytes.signed word = n) :
    Aimed kind base n (base + Bytes.signed word) := by
  obtain ⟨hlow, hhigh⟩ := Bytes.signed_mem hw (show 256 ^ 1 = 2 * 2 ^ 7 from rfl)
  exact ⟨fun _ => h, iff_of_true h (by omega), fun hne => absurd h hne⟩

/-- The low 32 bits of a displacement miss the target by a multiple of 2³². -/
theorem aimed_long {kind : OperandKind} (hk : kind ≠ .shortTarget) {base n : Nat}
    (hb : base < 2 ^ 32) (hn : n < 2 ^ 32) :
    Aimed kind base n (base + Bytes.signed (Bytes.ofInt 4 (n - base))) := by
  rw [Bytes.signed_ofInt]
  have hlow := @Int.le_bmod (n - base) (256 ^ 4) (by decide)
  have hhigh := @Int.bmod_lt (n - base) (256 ^ 4) (by decide)
  have hmod := Int.dvd_self_sub_bmod (x := (n - base : Int)) (m := 256 ^ 4)
  obtain ⟨q, hq⟩ := hmod
  refine ⟨fun h => absurd h hk, ?_, ?_⟩
  · omega
  · omega

/-! ## The targets of a statement -/

/-- The piece of a statement has its opcode and, for each offset that its operand names, a target
that compares to it as its kind of branch has it. -/
structure Statement.Written (leads : List Char → Nat → Prop) (s : Statement) (piece : Piece) :
    Prop where
  opcode : piece.opcode = s.opcode
  sized : piece.Sized
  width : operandWidth s.opcode s.operand = .ok piece.operand.length
  aimed : List.Forall₂ (fun text target => ∃ offset : UInt32, leads text offset.toNat ∧
      Aimed s.opcode.kind (s.offset + piece.size) offset.toNat target)
    (operandTargets s.opcode.kind s.operand) (piece.targets s.offset)

/-- The targets of a piece are exactly the offsets that the operand of the statement names. -/
def Statement.Exact (leads : List Char → Nat → Prop) (s : Statement) (piece : Piece) : Prop :=
  List.Forall₂ (fun text (target : Int) => ∃ offset : UInt32, leads text offset.toNat ∧
      target = offset.toNat)
    (operandTargets s.opcode.kind s.operand) (piece.targets s.offset)

/-- The targets of an instruction are exactly the offsets that the operand of the statement
names. -/
structure Statement.LeadsRight (leads : List Char → Nat → Prop) (s : Statement)
    (inst : Instruction) : Prop where
  opcode : inst.opcode = s.opcode
  offset : inst.offset.toNat = s.offset
  targets : List.Forall₂ (fun text target => leads text target.toNat)
    (operandTargets s.opcode.kind s.operand) inst.targets

/-- What a target names under the labels is an offset of 32 bits, if those of the labels are. -/
theorem exists_offset_of_names {labels : Labels}
    (hl : ∀ name n, labels.lookup (String.ofList name) = some n → n < 2 ^ 32)
    {text : List Char} {n : Nat} (h : Names labels text n) :
    ∃ offset : UInt32, offset.toNat = n := by
  suffices hn : n < 2 ^ 32 from ⟨n.toUInt32, UInt32.toNat_ofNat_of_lt' hn⟩
  unfold Names readTarget at h
  split at h
  · rename_i offset hlookup
    obtain rfl : offset = n := Int.ofNat_inj.mp (Except.ok.inj h)
    exact hl _ _ hlookup
  · split at h
    · rename_i m hm
      cases h
      obtain ⟨_, _, hhigh⟩ := readWithin_eq_ok hm
      exact Int.ofNat_lt.mp (Int.lt_of_le_sub_one hhigh)
    · cases h

section

variable {labels : Labels} {s : Statement} {operand : List UInt8}

/-- An operand has the width that its kind prescribes. -/
theorem sized_of_operandBytes {literals later : Literals}
    (h : operandBytes labels s literals = .ok operand later) (hb : operand.length < 2 ^ 32) :
    (Piece.mk s.opcode operand).Sized := by
  have hwidth := operandWidth_of_operandBytes h
  cases hw : s.opcode.kind.width? with
  | some width =>
    simp only [operandWidth, hw, Except.ok.injEq] at hwidth
    rw [Piece.Sized, OperandKind.Sized, hw, ← hwidth, Option.getD_some]
  | none =>
    have hk : s.opcode.kind = .switch := by
      cases hk : s.opcode.kind <;> rw [hk] at hw <;> first | rfl | cases hw
    rcases operandBytes_eq_ok h with ⟨_, hstring, _⟩ | ⟨hplain, _, _⟩
    · rw [hk] at hstring
      cases hstring
    · rw [hk] at hplain
      obtain ⟨texts, words, _, rfl, hlength, _⟩ := switchTable_eq_ok hplain
      rw [List.length_append, Bytes.length_ofNat] at hlength
      rw [Piece.Sized, hk, OperandKind.sized_switch_iff]
      refine ⟨_, _, rfl, Bytes.length_ofNat 4 _, ?_⟩
      rw [List.length_append, Bytes.length_ofNat] at hb
      rw [Bytes.toNat_ofNat, Nat.mod_eq_of_lt (by omega)]
      omega

/-- The targets of a table are one displacement behind another. -/
theorem aimed_of_switchTable {start : Nat} {text : List Char}
    (hl : ∀ name n, labels.lookup (String.ofList name) = some n → n < 2 ^ 32)
    (h : switchTable labels start text = .ok operand) (hb : start + operand.length < 2 ^ 32) :
    List.Forall₂ (fun text target => ∃ offset : UInt32, Names labels text offset.toNat ∧
        Aimed .switch (start + operand.length) offset.toNat target)
      (operandTargets .switch text)
      (OperandKind.switch.targets (start + operand.length : Nat) operand) := by
  obtain ⟨texts, words, htexts, hoperand, hlength, hwords⟩ := switchTable_eq_ok h
  have htargets : OperandKind.switch.targets (start + operand.length : Nat) operand =
      words.map fun word => ((start + operand.length : Nat) : Int) + Bytes.signed word :=
    targets_of_words hoperand hwords (by omega)
  rw [operandTargets, htexts, htargets, List.forall₂_map_right_iff]
  refine hwords.imp fun text word hword => ?_
  obtain ⟨n, hn, rfl⟩ := hword
  obtain ⟨offset, rfl⟩ := exists_offset_of_names hl hn
  exact ⟨offset, hn, aimed_long (by decide) hb offset.toNat_lt⟩

/-- The bytes of a statement are those of a piece with its opcode and its targets. -/
theorem written_of_operandBytes {literals later : Literals}
    (hl : ∀ name n, labels.lookup (String.ofList name) = some n → n < 2 ^ 32)
    (h : operandBytes labels s literals = .ok operand later)
    (hb : s.offset + s.opcode.size + operand.length < 2 ^ 32) :
    s.Written (Names labels) ⟨s.opcode, operand⟩ := by
  refine ⟨rfl, sized_of_operandBytes h (by omega), operandWidth_of_operandBytes h, ?_⟩
  have hsize : s.offset + (Piece.mk s.opcode operand).size =
      s.offset + s.opcode.size + operand.length := by
    rw [Piece.size_eq, Nat.add_assoc]
  rcases operandBytes_eq_ok h with ⟨_, hstring, _⟩ | ⟨hplain, _, _⟩
  · rw [Piece.targets, hstring]
    exact .nil
  · rw [Piece.targets, hsize]
    cases hk : s.opcode.kind with
    | shortTarget =>
      rw [hk] at hplain
      obtain ⟨n, hn, rfl, hled⟩ := shortDisplacement_eq_ok hplain
      obtain ⟨offset, rfl⟩ := exists_offset_of_names hl hn
      rw [Bytes.length_ofInt]
      refine .cons ⟨offset, hn, ?_⟩ .nil
      exact aimed_short (Bytes.length_ofInt ..) hled
    | target =>
      rw [hk] at hplain
      obtain ⟨n, hn, rfl⟩ := displacement_eq_ok hplain
      obtain ⟨offset, rfl⟩ := exists_offset_of_names hl hn
      rw [Bytes.length_ofInt] at hb ⊢
      refine .cons ⟨offset, hn, ?_⟩ .nil
      exact aimed_long (by decide) hb offset.toNat_lt
    | switch =>
      rw [hk] at hplain
      exact aimed_of_switchTable hl hplain hb
    | _ => exact .nil

end

namespace Statement

variable {leads other : List Char → Nat → Prop} {s : Statement} {piece : Piece}

/-- What a statement was written as may be said with more labels. -/
theorem Written.imp (hl : ∀ text n, leads text n → other text n) (h : s.Written leads piece) :
    s.Written other piece :=
  ⟨h.opcode, h.sized, h.width,
    h.aimed.imp fun _ _ => fun ⟨offset, hleads, haimed⟩ => ⟨offset, hl _ _ hleads, haimed⟩⟩

/-- The targets of a statement are exact if all of them are offsets, since what leads elsewhere
leads to none. -/
theorem Written.exact_iff (h : s.Written leads piece) :
    s.Exact leads piece ↔ ∀ target ∈ piece.targets s.offset, 0 ≤ target ∧ target < 2 ^ 32 := by
  constructor
  · intro he target ht
    obtain ⟨i, hi, rfl⟩ := List.getElem_of_mem ht
    obtain ⟨offset, _, hoffset⟩ := he.get (he.length_eq ▸ hi) hi
    have hlt := offset.toNat_lt
    rw [show (piece.targets s.offset)[i] = (piece.targets s.offset).get ⟨i, hi⟩ from rfl, hoffset]
    omega
  · intro hreach
    refine List.forall₂_iff_zip.mpr ⟨h.aimed.length_eq, fun {text target} hmem => ?_⟩
    obtain ⟨offset, hleads, haimed⟩ := List.forall₂_zip h.aimed hmem
    have hmem := hreach target (List.of_mem_zip hmem).2
    refine ⟨offset, hleads, ?_⟩
    by_contra hne
    have hmissed := haimed.missed hne
    omega

/-- The instruction of a piece with exact targets leads where the statement says. -/
theorem Exact.leadsRight (resolver : Resolver) (he : s.Exact leads piece)
    (ho : piece.opcode = s.opcode) (hb : s.offset < 2 ^ 32) :
    s.LeadsRight leads (piece.instruction resolver s.offset) := by
  refine ⟨ho, UInt32.toNat_ofNat_of_lt' hb, ?_⟩
  rw [Piece.targets_instruction, List.forall₂_map_right_iff]
  refine he.imp fun text target htarget => ?_
  obtain ⟨offset, hleads, rfl⟩ := htarget
  rwa [Int.toNat_natCast, Nat.toUInt32_eq, UInt32.ofNat_toNat]

end Statement

/-! ## The targets of a source -/

section

variable {leads : List Char → Nat → Prop} {statements : List Statement} {pieces : List Piece}
  {start stop : Nat}

/-- The bytes of consecutive statements are those of one piece for each of them. -/
theorem written_of_statementBytes {labels : Labels} {literals later : Literals} {code : List UInt8}
    (hl : ∀ name n, labels.lookup (String.ofList name) = some n → n < 2 ^ 32)
    (h : statementBytes labels statements literals = .ok code later)
    (hc : Consecutive start statements stop) (hb : stop < 2 ^ 32) :
    ∃ pieces, Piece.code pieces = code ∧
      List.Forall₂ (Statement.Written (Names labels)) statements pieces := by
  induction statements generalizing literals code start with
  | nil =>
    cases h
    exact ⟨[], rfl, .nil⟩
  | cons s statements ih =>
    obtain ⟨_, width, hw, hrest⟩ := hc
    obtain ⟨operand, middle, more, hoperand, hmore, rfl⟩ := statementBytes_cons_eq_ok h
    obtain ⟨pieces, rfl, hwritten⟩ := ih hmore hrest
    rw [operandWidth_of_operandBytes hoperand] at hw
    cases hw
    have hle := hrest.le
    have hfirst := written_of_operandBytes hl hoperand (by omega)
    exact ⟨⟨s.opcode, operand⟩ :: pieces, rfl, .cons hfirst hwritten⟩

/-- Behind a statement the next one starts where its piece ends. -/
private theorem Consecutive.tail {s : Statement} {piece : Piece}
    (hc : Consecutive start (s :: statements) stop) (h : s.Written leads piece) :
    s.offset = start ∧ Consecutive (start + piece.size) statements stop := by
  obtain ⟨hstart, width, hw, hrest⟩ := hc
  rw [h.width] at hw
  cases hw
  rw [Nat.add_assoc, ← h.opcode, ← Piece.size_eq] at hrest
  exact ⟨hstart, hrest⟩

/-- The pieces of consecutive statements can be decoded exactly if all targets are exact. -/
theorem valid_iff_exact (hc : Consecutive start statements stop)
    (h : List.Forall₂ (Statement.Written leads) statements pieces) :
    Piece.Valid start pieces ↔ List.Forall₂ (Statement.Exact leads) statements pieces := by
  induction h generalizing start with
  | nil => exact iff_of_true trivial .nil
  | cons hfirst _ ih =>
    obtain ⟨rfl, hrest⟩ := hc.tail hfirst
    rw [Piece.Valid, List.forall₂_cons, ih hrest, hfirst.exact_iff]
    exact and_iff_right hfirst.sized

/-- Statements whose displacements are exact lead to the right offsets. -/
theorem leadsRight_of_exact (resolver : Resolver) (hc : Consecutive start statements stop)
    (hb : stop < 2 ^ 32) (h : List.Forall₂ (Statement.Written leads) statements pieces)
    (he : List.Forall₂ (Statement.Exact leads) statements pieces) :
    List.Forall₂ (Statement.LeadsRight leads) statements
      (Piece.instructions resolver start pieces) := by
  induction h generalizing start with
  | nil => exact .nil
  | cons hfirst _ ih =>
    rw [List.forall₂_cons] at he
    obtain ⟨rfl, hrest⟩ := hc.tail hfirst
    have hlt := Nat.lt_of_le_of_lt hc.le hb
    exact .cons (he.1.leadsRight resolver hfirst.opcode hlt) (ih hrest he.2)

end

/-- Decoding in either mode gives the instructions of a decomposition into valid pieces. -/
theorem exists_pieces_of_decode {resolver : Resolver} {mode : DecodeMode} {code : List UInt8}
    {is : List Instruction} (h : decode resolver mode code = .ok is) :
    ∃ pieces, Piece.code pieces = code ∧ Piece.Valid 0 pieces ∧
      is = Piece.instructions resolver 0 pieces := by
  rw [decode, decodeFrom_eq_ok_iff (Nat.le_refl _)] at h
  obtain ⟨pieces, hcode, hvalid, hresolve⟩ := h
  refine ⟨pieces, hcode, hvalid, ?_⟩
  cases mode with
  | strict => exact (Piece.instructions_of_resolveAll hresolve).1
  | listing => rwa [Piece.resolveAll_listing, Except.ok.injEq, eq_comm] at hresolve

/-- The bytes of a source hold the targets that its operands name, up to what four bytes can hold.
There is one piece for each statement. A short displacement leads to the offset that was named. One
of four bytes, in a branch or in a table, leads there exactly if it is in the range of 32 bits with
a sign, and to no offset otherwise. So the code can be decoded exactly if all targets are the
offsets that were named, and then each instruction leads to the offsets that its statement names. -/
theorem targets_of_assemble {source : String} {literals later : Literals} {code : List UInt8}
    (ha : assemble source literals = .ok code later) (hl : code.length < 2 ^ 32) :
    ∃ (layout : Layout) (pieces : List Piece),
      Layout.ofSource source.toList = .ok layout ∧
      List.Forall₂ Statement.Reads (statementTexts 1 (Text.lines source.toList))
        layout.statements.reverse ∧
      let leads := Leads (Text.lines source.toList) (layout.statements.reverse.map (·.offset))
        code.length
      Piece.code pieces = code ∧
      List.Forall₂ (Statement.Written leads) layout.statements.reverse pieces ∧
      (∀ resolver, (∃ is, decode resolver .listing code = .ok is) ↔
        List.Forall₂ (Statement.Exact leads) layout.statements.reverse pieces) ∧
      ∀ resolver mode is, decode resolver mode code = .ok is →
        List.Forall₂ (Statement.LeadsRight leads) layout.statements.reverse is := by
  obtain ⟨layout, hlayout, hbytes⟩ := assemble_eq_ok ha
  obtain ⟨hreads, hconsecutive, hlabels⟩ := Layout.ofSource_eq_ok hlayout
  have hsize : layout.size = code.length := by
    rw [length_of_statementBytes hbytes hconsecutive, Nat.zero_add]
  have hlabel : ∀ name n, layout.labels.lookup (String.ofList name) = some n → n < 2 ^ 32 := by
    intro name n hn
    rcases hlabels name with ⟨count, _, hlookup⟩ | ⟨_, hlookup⟩
    · rw [hlookup, Option.some.injEq] at hn
      exact hn ▸ Nat.lt_of_le_of_lt (hconsecutive.getD_le count) (hsize ▸ hl)
    · rw [hlookup] at hn
      cases hn
  obtain ⟨pieces, hcode, hnamed⟩ :=
    written_of_statementBytes hlabel hbytes hconsecutive (hsize ▸ hl)
  have hwritten : List.Forall₂
      (Statement.Written (Leads (Text.lines source.toList)
        (layout.statements.reverse.map (·.offset)) code.length))
      layout.statements.reverse pieces := by
    refine hnamed.imp fun s piece h => h.imp fun text n hn => ?_
    exact hsize ▸ leads_of_names hlayout hn
  have hvalid := valid_iff_exact hconsecutive hwritten
  -- Code has only one decomposition, so the pieces that were decoded are those that were written.
  have hunique : ∀ pieces', Piece.code pieces' = code → Piece.Valid 0 pieces' →
      pieces' = pieces := by
    intro pieces' hcode' hvalid'
    refine Piece.code_injective hvalid'.sized ?_ (hcode'.trans hcode.symm)
    intro piece hpiece
    obtain ⟨i, hi, rfl⟩ := List.getElem_of_mem hpiece
    exact (hwritten.get (hwritten.length_eq ▸ hi) hi).sized
  refine ⟨layout, pieces, hlayout, hreads, hcode, hwritten, fun resolver => ?_,
    fun resolver mode is h => ?_⟩
  · rw [← hvalid]
    constructor
    · rintro ⟨is, h⟩
      obtain ⟨pieces', hcode', hvalid', -⟩ := exists_pieces_of_decode h
      rwa [← hunique pieces' hcode' hvalid']
    · intro h
      refine ⟨Piece.instructions resolver 0 pieces, ?_⟩
      rw [decode, decodeFrom_listing_eq_ok_iff (Nat.le_refl _)]
      exact ⟨pieces, hcode, h, rfl⟩
  · obtain ⟨pieces', hcode', hvalid', rfl⟩ := exists_pieces_of_decode h
    obtain rfl := hunique pieces' hcode' hvalid'
    exact leadsRight_of_exact resolver hconsecutive (hsize ▸ hl) hwritten (hvalid.mp hvalid')

/-- A table with a target that no displacement in it reaches, and a short branch back. -/
theorem targets_of_assemble_table :
    let source := "l: switch (l, 4294967295)\nbr.s l"
    let code : List UInt8 := [0x45, 0x02, 0x00, 0x00, 0x00, 0xF3, 0xFF, 0xFF, 0xFF, 0xF2, 0xFF,
      0xFF, 0xFF, 0x2B, 0xF1]
    assemble source .empty = .ok code .empty ∧
    ∃ (layout : Layout) (pieces : List Piece),
      Layout.ofSource source.toList = .ok layout ∧ Piece.code pieces = code ∧
      let leads := Leads (Text.lines source.toList) (layout.statements.reverse.map (·.offset)) 15
      List.Forall₂ (Statement.Written leads) layout.statements.reverse pieces ∧
      ¬ List.Forall₂ (Statement.Exact leads) layout.statements.reverse pieces := by
  intro source code
  have ha : assemble source .empty = .ok code .empty := eq_ok_of_gives (by decide +kernel)
  have hdecode : decode .unknown .listing code = .error (.badBranchTarget 1 (-1)) := by
    decide +kernel
  obtain ⟨layout, pieces, hlayout, _, hcode, hwritten, hexact, _⟩ :=
    targets_of_assemble ha (by decide)
  refine ⟨ha, layout, pieces, hlayout, hcode, hwritten, fun h => ?_⟩
  obtain ⟨is, his⟩ := (hexact .unknown).mpr h
  rw [hdecode] at his
  cases his

/-- A long branch to the last offset is assembled, and its displacement leads six bytes back from
the end of the instruction, in front of the code. -/
theorem wrapped_branch :
    assemble "br 4294967295" .empty = .ok [0x38, 0xFA, 0xFF, 0xFF, 0xFF] .empty ∧
    readTarget [] "4294967295".toList = .ok 4294967295 ∧
    (Piece.mk .br [0xFA, 0xFF, 0xFF, 0xFF]).targets 0 = [-1] ∧
    decode .unknown .listing [0x38, 0xFA, 0xFF, 0xFF, 0xFF] = .error (.badBranchTarget 1 (-1)) := by
  refine ⟨eq_ok_of_gives (by decide +kernel), ?_, ?_, ?_⟩
  · decide +kernel
  · decide +kernel
  · decide +kernel

end Source

end ManagedCode
