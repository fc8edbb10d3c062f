import ManagedCode.Proofs.Source.Assembled
import ManagedCode.Proofs.Widening.Bodies

/-!
# Sources that differ in the width of branches

When a short branch of a source is written in its long form, all later offsets move, and with them
what the labels stand for. A label still leads to the same statement, counted from the first one. So
the code of both sources has the same tokens, and decoding it for execution fails for the same
reason or gives bodies that match.
-/

namespace ManagedCode

/-- Both results are there and in a relation, or both are missing for one reason. -/
inductive SameResult {ε α β : Type} (R : α → β → Prop) : Except ε α → Except ε β → Prop
  | ok {a : α} {b : β} (h : R a b) : SameResult R (.ok a) (.ok b)
  | error (e : ε) : SameResult R (.error e) (.error e)

namespace SameResult

variable {ε α β γ δ : Type} {R : α → β → Prop} {S : γ → δ → Prop}

/-- A result is the same as itself. -/
theorem refl (x : Except ε α) : SameResult Eq x x := by
  cases x with
  | ok a => exact .ok rfl
  | error e => exact .error e

/-- Computations in sequence have related results, or the same error, if each has. -/
theorem bind {x : Except ε α} {y : Except ε β} {f : α → Except ε γ} {g : β → Except ε δ}
    (h : SameResult R x y) (hf : ∀ a b, R a b → SameResult S (f a) (g b)) :
    SameResult S (x >>= f) (y >>= g) := by
  cases h with
  | ok h => exact hf _ _ h
  | error e => exact .error e

/-- The results for related lists are related one by one, or the first error is the same. -/
theorem mapM {f : α → Except ε γ} {g : β → Except ε δ} {as : List α} {bs : List β}
    (h : List.Forall₂ R as bs) (hf : ∀ a b, R a b → SameResult S (f a) (g b)) :
    SameResult (List.Forall₂ S) (as.mapM f) (bs.mapM g) := by
  induction h with
  | nil => exact .ok .nil
  | cons hab _ ih =>
    rw [List.mapM_cons, List.mapM_cons]
    exact (hf _ _ hab).bind fun _ _ hcd => ih.bind fun _ _ hrest => .ok (.cons hcd hrest)

end SameResult

/-- Lists that are related to one list entry by entry are related to each other. -/
theorem forall₂_of_common {α β γ : Type} {R : α → β → Prop} {S : α → γ → Prop} {T : β → γ → Prop}
    {as : List α} {bs : List β} {cs : List γ} (hb : List.Forall₂ R as bs)
    (hc : List.Forall₂ S as cs) (h : ∀ a ∈ as, ∀ b c, R a b → S a c → T b c) :
    List.Forall₂ T bs cs := by
  induction hb generalizing cs with
  | nil =>
    cases hc
    exact .nil
  | cons hab _ ih =>
    cases hc with
    | cons hac hc =>
      rw [List.forall_mem_cons] at h
      exact .cons (h.1 _ _ hab hac) (ih hc h.2)

/-- Decoding the code for execution fails for the same reason or gives bodies that match. -/
def DecodesAlike (code code' : List UInt8) : Prop :=
  ∀ resolver, SameResult Body.Matches (Body.decode resolver .strict code)
    (Body.decode resolver .strict code')

/-! ## Instructions -/

/-- Whether operands of the kind have targets. -/
def OperandKind.hasTargets : OperandKind → Bool
  | .shortTarget | .target | .switch => true
  | _ => false

/-- A long form has a target in place of a short one. -/
theorem kind_of_long? {op op' : Opcode} (h : op.long? = some op') :
    op.kind = .shortTarget ∧ op'.kind = .target := by
  cases op <;> cases h <;> exact ⟨rfl, rfl⟩

/-- A token never stands for a branch target. -/
theorem Resolver.targets_operand {resolver : Resolver} {kind : OperandKind} {token : Token}
    {operand : Operand} (h : resolver.operand .strict kind token = .ok operand) :
    operand.targets = [] := by
  cases kind
  case token =>
    simp only [Resolver.operand] at h
    cases hfound : resolver.type token with
    | error error =>
      rw [hfound] at h
      cases h
      rfl
    | ok type =>
      rw [hfound] at h
      cases h
      rfl
  case string | field | method | type =>
    simp only [Resolver.operand, DecodeMode.settle_strict_eq_ok_iff, map_eq_ok_iff] at h
    obtain ⟨found, -, rfl⟩ := h
    rfl
  all_goals
    cases h
    rfl

namespace Piece

variable {resolver : Resolver} {reach : UInt32 → UInt32 → Prop}

/-- A piece without targets gives the same instruction at each offset. -/
theorem sameResult_resolve {piece : Piece} (hk : piece.opcode.kind.hasTargets = false)
    (offset offset' : Nat) :
    SameResult (Instruction.Matches reach)
      ((Encoded.ofPiece piece offset).resolve resolver .strict)
      ((Encoded.ofPiece piece offset').resolve resolver .strict) := by
  rw [resolve_eq, resolve_eq]
  split
  · cases hfound : resolver.operand .strict piece.opcode.kind piece.token with
    | error error => exact .error error
    | ok operand => exact .ok (.same _ _ _ (.some (.same (Resolver.targets_operand hfound))))
  · rename_i hn
    refine .ok (.same _ _ _ ?_)
    simp only [operandAt]
    cases hkind : piece.opcode.kind <;> simp only [hkind, OperandKind.hasTargets] at hk
    case none => exact .none
    case string | field | method | type | token | signature =>
      simp only [hkind, OperandKind.isToken, not_true] at hn
    all_goals
      first
      | exact .some (.same rfl)
      | cases hk

/-- An operand with targets needs no resolver. -/
theorem resolve_of_hasTargets {piece : Piece} (hk : piece.opcode.kind.hasTargets = true)
    (offset : Nat) :
    (Encoded.ofPiece piece offset).resolve resolver .strict =
      .ok (piece.instruction resolver offset) := by
  have hn : piece.opcode.kind.isToken = false := by
    cases hkind : piece.opcode.kind <;> rw [hkind] at hk <;> first | rfl | cases hk
  rw [resolve_eq, hn]
  rfl

end Piece

/-- An offset at which a piece starts leads to the position of the piece, and the end of the code to
none. -/
theorem Decomposes.indexOf?_length_code_take {resolver : Resolver} {code : List UInt8}
    {pieces : List Piece} {is : List Instruction} (h : Decomposes resolver code pieces is)
    (hl : code.length < 2 ^ 32) {offset : UInt32} {k : Nat}
    (ho : offset.toNat = (Piece.code (pieces.take k)).length) :
    (Body.mk is.toArray).indexOf? offset = if k < pieces.length then some k else none := by
  split
  · rename_i hk
    rw [h.indexOf?_eq_some_iff hl]
    have hlt : k < is.length := by rwa [h.length]
    have hinst := List.getElem?_eq_getElem hlt
    refine ⟨is[k], hinst, UInt32.toNat_inj.mp ?_⟩
    rw [h.offset hl hinst, ho]
  · rename_i hk
    cases hfound : (Body.mk is.toArray).indexOf? offset with
    | none => rfl
    | some i =>
      obtain ⟨inst, hinst, rfl⟩ := (h.indexOf?_eq_some_iff hl).mp hfound
      have hi : i < pieces.length := by
        rw [← h.length]
        exact (List.getElem?_eq_some_iff.mp hinst).1
      have hbefore := Piece.length_code_take_lt (show i < k by omega)
        (List.getElem?_eq_getElem hi)
      rw [h.offset hl hinst] at ho
      omega

namespace Source

/-! ## Lines -/

/-- The mnemonic of the long form of the short branch with the given mnemonic. -/
def longMnemonic? (mnemonic : List Char) : Option (List Char) :=
  (Opcode.ofMnemonic? (String.ofList mnemonic)).bind fun op => op.long?.map (·.mnemonic.toList)

/-- The second statement is the first one, or has the long form of its short branch with the same
operand. -/
def StatementWidened (text text' : List Char) : Prop :=
  text = text' ∨ longMnemonic? (splitStatement text).1 = some (splitStatement text').1 ∧
    (splitStatement text).2 = (splitStatement text').2

/-- The lines have the same labels, and the same statement except that a short branch may be long in
the second one. -/
def LineWidened (line line' : List Char) : Prop :=
  (splitLine line).1 = (splitLine line').1 ∧
    StatementWidened (splitLine line).2 (splitLine line').2

instance : DecidableRel StatementWidened := fun text text' =>
  inferInstanceAs (Decidable (text = text' ∨ _ ∧ _))

instance : DecidableRel LineWidened := fun _ _ => inferInstanceAs (Decidable (_ = _ ∧ _))

/-- The second source is the first one with some short branches in their long forms. -/
def Widened (source source' : String) : Prop :=
  List.Forall₂ LineWidened (Text.lines source.toList) (Text.lines source'.toList)

/-- The targets of all branches and switches are labels of the source. -/
def JumpsToLabels (source : String) : Prop :=
  ∀ entry ∈ statementTexts 1 (Text.lines source.toList), ∀ text ∈ targetTexts entry.2,
    ∃ line ∈ Text.lines source.toList, text ∈ (splitLine line).1

instance : DecidableRel Widened := fun _ _ => inferInstanceAs (Decidable (List.Forall₂ _ _ _))

instance : DecidablePred JumpsToLabels := fun _ =>
  inferInstanceAs (Decidable (∀ entry ∈ _, ∀ text ∈ _, ∃ line ∈ _, _))

/-- The statements are equal except that the second may be the long form of the first, and for their
offsets. -/
structure Statement.Widened (s s' : Statement) : Prop where
  line : s.line = s'.line
  opcode : s.opcode = s'.opcode ∨ s.opcode.long? = some s'.opcode
  operand : s.operand = s'.operand

section Lines

variable {lines lines' : List (List Char)}

/-- A widened name is that of the long form of its opcode. -/
theorem longMnemonic?_eq_some {mnemonic mnemonic' : List Char}
    (h : longMnemonic? mnemonic = some mnemonic') :
    ∃ op op' : Opcode, Opcode.ofMnemonic? (String.ofList mnemonic) = some op ∧
      op.long? = some op' ∧ mnemonic' = op'.mnemonic.toList := by
  obtain ⟨op, hop, h⟩ := Option.bind_eq_some_iff.mp h
  obtain ⟨op', hlong, rfl⟩ := Option.map_eq_some_iff.mp h
  exact ⟨op, op', hop, hlong, rfl⟩

/-- A statement is empty exactly if it is after widening. -/
theorem StatementWidened.isEmpty_eq {text text' : List Char} (h : StatementWidened text text') :
    text.isEmpty = text'.isEmpty := by
  rcases h with rfl | ⟨hlong, _⟩
  · rfl
  · obtain ⟨op, op', hop, _, hmnemonic⟩ := longMnemonic?_eq_some hlong
    cases text with
    | nil =>
      have hnone : Opcode.ofMnemonic? (String.ofList (splitStatement []).1) = none := by
        decide +kernel
      rw [hnone] at hop
      cases hop
    | cons c text =>
      cases text' with
      | nil => exact absurd hmnemonic.symm op'.mnemonic_ne_nil
      | cons c' text' => rfl

/-- The statements of widened lines are those of the lines, widened. -/
theorem forall₂_statementTexts (h : List.Forall₂ LineWidened lines lines') (line : Nat) :
    List.Forall₂ (fun entry entry' => entry.1 = entry'.1 ∧ StatementWidened entry.2 entry'.2)
      (statementTexts line lines) (statementTexts line lines') := by
  induction h generalizing line with
  | nil => exact .nil
  | @cons text text' lines lines' hfirst _ ih =>
    rw [statementTexts_cons line text lines, statementTexts_cons line text' lines']
    refine List.rel_append ?_ (ih (line + 1))
    rw [statementTexts_singleton, statementTexts_singleton, hasStatement, hasStatement,
      hfirst.2.isEmpty_eq]
    split
    · exact .cons ⟨rfl, hfirst.2⟩ .nil
    · exact .nil

/-- What is read from the texts of statements that are widened is widened. -/
theorem Statement.Reads.widened {entry entry' : Nat × List Char} {s s' : Statement}
    (h : s.Reads entry) (h' : s'.Reads entry') (hline : entry.1 = entry'.1)
    (hw : StatementWidened entry.2 entry'.2) : s.Widened s' := by
  have hopcode := h.opcode
  have hopcode' := h'.opcode
  refine ⟨by rw [h.line, h'.line, hline], ?_, ?_⟩
  · rcases hw with hw | ⟨hlong, _⟩
    · rw [hw, hopcode', Option.some.injEq] at hopcode
      exact .inl hopcode.symm
    · obtain ⟨op, op', hop, hl, hmnemonic⟩ := longMnemonic?_eq_some hlong
      rw [hop, Option.some.injEq] at hopcode
      rw [hmnemonic, String.ofList_toList, Opcode.ofMnemonic?_mnemonic,
        Option.some.injEq] at hopcode'
      rw [← hopcode, ← hopcode']
      exact .inr hl
  · rcases hw with hw | ⟨_, hoperand⟩
    · rw [h.operand, h'.operand, hw]
    · rw [h.operand, h'.operand, hoperand]

/-- A label stands behind the same number of statements in both sources. -/
theorem DefinedBehind.count_eq (h : List.Forall₂ LineWidened lines lines') {name : List Char}
    {count count' : Nat} (hd : DefinedBehind lines name count)
    (hd' : DefinedBehind lines' name count') : count = count' := by
  induction h generalizing count count' with
  | nil =>
    obtain ⟨before, line, after, hlines, _⟩ := hd
    cases before <;> cases hlines
  | @cons line line' lines lines' hfirst hrest ih =>
    -- no later line of one source has the label if no later line of the other one has
    have hlater : (∀ later ∈ lines, name ∉ (splitLine later).1) ↔
        ∀ later ∈ lines', name ∉ (splitLine later).1 := by
      clear ih hd hd'
      induction hrest with
      | nil => exact Iff.rfl
      | cons hline _ ih => rw [List.forall_mem_cons, List.forall_mem_cons, hline.1, ih]
    obtain ⟨before, here, after, hlines, hname, hlast, rfl⟩ := hd
    obtain ⟨before', here', after', hlines', hname', hlast', rfl⟩ := hd'
    cases before with
    | nil =>
      cases hlines
      cases before' with
      | nil => rfl
      | cons _ before' =>
        cases hlines'
        exact absurd hname' (hlater.mp hlast here' (by simp))
    | cons _ before =>
      cases hlines
      cases before' with
      | nil =>
        cases hlines'
        exact absurd hname (hlater.mpr hlast' here (by simp))
      | cons _ before' =>
        cases hlines'
        have hcount := ih ⟨before, here, after, rfl, hname, hlast, rfl⟩
          ⟨before', here', after', rfl, hname', hlast', rfl⟩
        rw [List.countP_cons, List.countP_cons, hcount, hasStatement, hasStatement,
          hfirst.2.isEmpty_eq]

end Lines

/-! ## Operands -/

section Operands

variable {labels labels' : Labels} {literals : Literals} {s s' : Statement}
  {operand operand' : List UInt8} {middle middle' : Literals} {resolver : Resolver}
  {reach : UInt32 → UInt32 → Prop}

/-- A text that denotes a branch operand names an offset. -/
theorem Denotes.exists_target {leads : List Char → Nat → Prop} {kind : OperandKind}
    {text : List Char} {operand : Option Operand}
    (h : Denotes leads literals resolver kind text operand)
    (hk : kind = .shortTarget ∨ kind = .target) :
    ∃ n : UInt32, operand = some (.target n) ∧ leads text n.toNat := by
  cases h with
  | target _ value => exact ⟨_, rfl, value⟩
  | «variable» kinds => rcases hk with rfl | rfl <;> simp at kinds
  | token kinds => rcases hk with rfl | rfl <;> simp at kinds
  | _ => rcases hk with hk | hk <;> cases hk

/-- A text that denotes a switch table names an offset for each of its parts. -/
theorem Denotes.exists_switch {leads : List Char → Nat → Prop} {text : List Char}
    {operand : Option Operand} (h : Denotes leads literals resolver .switch text operand) :
    ∃ (texts : List (List Char)) (ns : List UInt32), splitTargets text = .ok texts ∧
      operand = some (.switch ns) ∧ List.Forall₂ (fun text n => leads text n.toNat) texts ns := by
  cases h with
  | switch split values => exact ⟨_, _, split, rfl, values⟩
  | «variable» kinds => simp at kinds
  | target kinds => simp at kinds
  | token kinds => simp at kinds

/-- Opcodes without targets are not widened. -/
theorem Statement.Widened.opcode_eq (hs : s.Widened s')
    (hk : s.opcode.kind.hasTargets = false) : s.opcode = s'.opcode := by
  refine hs.opcode.resolve_right fun hl => ?_
  rw [(kind_of_long? hl).1] at hk
  cases hk

/-- Widening a branch gives a branch. -/
theorem Statement.Widened.hasTargets (hs : s.Widened s')
    (hk : s.opcode.kind.hasTargets = true) : s'.opcode.kind.hasTargets = true := by
  rcases hs.opcode with ho | hl
  · rwa [← ho]
  · rw [(kind_of_long? hl).2]
    rfl

/-- Operands without targets are written in the same way under all labels. -/
theorem operandBytes_eq (hs : s.Widened s') (hk : s.opcode.kind.hasTargets = false) :
    operandBytes labels s = operandBytes labels' s' := by
  have hplain : plainOperand s.opcode.kind labels (s.offset + s.opcode.size) s.operand =
      plainOperand s.opcode.kind labels' (s'.offset + s.opcode.size) s.operand := by
    cases hkind : s.opcode.kind <;> rw [hkind] at hk <;> first | rfl | cases hk
  unfold operandBytes
  rw [hplain, hs.line, hs.operand, hs.opcode_eq hk]

/-- A branch operand adds no literal. -/
theorem literals_eq_of_hasTargets (h : operandBytes labels s literals = .ok operand middle)
    (hk : s.opcode.kind.hasTargets = true) : middle = literals := by
  rcases operandBytes_eq_ok h with ⟨string, hkind, _⟩ | ⟨_, _, hsame⟩
  · rw [hkind] at hk
    cases hk
  · exact hsame

/-- Branches and tables of both sources match. -/
private theorem matches_instruction (hs : s.Widened s') (hk : s.opcode.kind.hasTargets = true)
    (he : Emitted labels middle resolver s.opcode s.offset s.operand operand)
    (he' : Emitted labels' middle' resolver s'.opcode s'.offset s'.operand operand')
    (hr : ∀ t ∈ operandTargets s.opcode.kind s.operand, ∀ n n' : UInt32,
      Names labels t n.toNat → Names labels' t n'.toNat → reach n n') :
    Instruction.Matches reach ((Piece.mk s.opcode operand).instruction resolver s.offset)
      ((Piece.mk s'.opcode operand').instruction resolver s'.offset) := by
  have hd := he.denotes
  have hd' := he'.denotes
  rw [← hs.operand] at hd'
  unfold Piece.instruction
  -- A table of targets has no short form, so only the other branches are widened.
  by_cases hswitch : s.opcode.kind = .switch
  · have ho : s.opcode = s'.opcode := by
      refine hs.opcode.resolve_right fun hl => ?_
      rw [(kind_of_long? hl).1] at hswitch
      cases hswitch
    rw [hswitch] at hd
    rw [← ho, hswitch] at hd'
    obtain ⟨texts, ns, htexts, hns, hall⟩ := hd.exists_switch
    obtain ⟨texts', ns', htexts', hns', hall'⟩ := hd'.exists_switch
    rw [htexts, Except.ok.injEq] at htexts'
    subst htexts'
    rw [← ho, hns, hns']
    have hreach : List.Forall₂ reach ns ns' := by
      refine forall₂_of_common hall hall' fun t ht n n' => hr t ?_ n n'
      simpa [operandTargets, hswitch, htexts, Except.toOption] using ht
    exact .same _ _ _ (.some (.switch hreach))
  · have hkind : s.opcode.kind = .shortTarget ∨ s.opcode.kind = .target := by
      cases hkind : s.opcode.kind <;> simp_all [OperandKind.hasTargets]
    have hkind' : s'.opcode.kind = .shortTarget ∨ s'.opcode.kind = .target := by
      rcases hs.opcode with ho | hl
      · rwa [← ho]
      · exact .inr (kind_of_long? hl).2
    obtain ⟨n, hn, hnames⟩ := hd.exists_target hkind
    obtain ⟨n', hn', hnames'⟩ := hd'.exists_target hkind'
    have hreach : reach n n' := by
      refine hr s.operand ?_ n n' hnames hnames'
      rcases hkind with hkind | hkind <;> simp [operandTargets, hkind]
    rw [hn, hn']
    rcases hs.opcode with ho | hl
    · rw [← ho]
      exact .same _ _ _ (.some (.target hreach))
    · exact .widened hl _ _ hreach

/-- The operands of both statements leave the same string table. -/
theorem literals_eq_of_operandBytes (hs : s.Widened s')
    (h : operandBytes labels s literals = .ok operand middle)
    (h' : operandBytes labels' s' literals = .ok operand' middle') : middle = middle' := by
  cases hk : s.opcode.kind.hasTargets with
  | false =>
    have hsame : operandBytes labels s = operandBytes labels' s' :=
      operandBytes_eq hs hk
    rw [hsame, h'] at h
    cases h
    rfl
  | true =>
    rw [literals_eq_of_hasTargets h hk, literals_eq_of_hasTargets h' (hs.hasTargets hk)]

/-- The pieces of both statements are resolved alike. -/
theorem sameResult_operandBytes (hs : s.Widened s')
    (h : operandBytes labels s literals = .ok operand middle)
    (h' : operandBytes labels' s' literals = .ok operand' middle')
    (he : Emitted labels middle resolver s.opcode s.offset s.operand operand)
    (he' : Emitted labels' middle' resolver s'.opcode s'.offset s'.operand operand')
    (hr : ∀ t ∈ operandTargets s.opcode.kind s.operand, ∀ n n' : UInt32,
      Names labels t n.toNat → Names labels' t n'.toNat → reach n n') :
    SameResult (Instruction.Matches reach)
      ((Encoded.ofPiece ⟨s.opcode, operand⟩ s.offset).resolve resolver .strict)
      ((Encoded.ofPiece ⟨s'.opcode, operand'⟩ s'.offset).resolve resolver .strict) := by
  cases hk : s.opcode.kind.hasTargets with
  | false =>
    have hsame : operandBytes labels s = operandBytes labels' s' :=
      operandBytes_eq hs hk
    rw [hsame, h'] at h
    cases h
    rw [← hs.opcode_eq hk]
    exact Piece.sameResult_resolve hk _ _
  | true =>
    rw [Piece.resolve_of_hasTargets hk, Piece.resolve_of_hasTargets (hs.hasTargets hk)]
    exact .ok (matches_instruction hs hk he he' hr)

end Operands

/-! ## Statements -/

/-- The pieces make up the code of consecutive statements, and start where these do. -/
structure Writes (start : Nat) (statements : List Statement) (stop : Nat) (code : List UInt8)
    (pieces : List Piece) : Prop where
  bytes : Piece.code pieces = code
  valid : Piece.Valid start pieces
  length : pieces.length = statements.length
  offsets : ∀ k, (statements.map (·.offset)).getD k stop =
    start + (Piece.code (pieces.take k)).length

/-- No statements are written as no code. -/
theorem writes_nil (start : Nat) : Writes start [] start [] [] :=
  ⟨rfl, trivial, rfl, fun k => by simp [Piece.code]⟩

/-- A statement that is written is a piece in front of those of the others. -/
theorem Writes.cons {labels : Labels} {literals : Literals} {resolver : Resolver} {s : Statement}
    {statements : List Statement} {stop : Nat} {operand more : List UInt8} {pieces : List Piece}
    (he : Emitted labels literals resolver s.opcode s.offset s.operand operand)
    (h : Writes (s.offset + s.opcode.size + operand.length) statements stop more pieces) :
    Writes s.offset (s :: statements) stop (s.opcode.encode ++ operand ++ more)
      (⟨s.opcode, operand⟩ :: pieces) := by
  have hsize : s.offset + (Piece.mk s.opcode operand).size =
      s.offset + s.opcode.size + operand.length := by
    rw [Piece.size_eq, Nat.add_assoc]
  refine ⟨?_, ⟨he.sized, he.inReach, hsize ▸ h.valid⟩, congrArg Nat.succ h.length, fun k => ?_⟩
  · rw [← h.bytes]
    rfl
  · cases k with
    | zero => rfl
    | succ k =>
      have hrest := h.offsets k
      rw [List.map_cons, List.getD_cons_succ, hrest, ← hsize, List.take_succ_cons, Piece.code,
        Piece.code, List.flatMap_cons, List.length_append, Nat.add_assoc]
      rfl

/-- Code that was written is decoded piece by piece. -/
theorem Writes.decode {statements : List Statement} {stop : Nat} {code : List UInt8}
    {pieces : List Piece} (h : Writes 0 statements stop code pieces) (resolver : Resolver)
    (mode : DecodeMode) :
    ManagedCode.decode resolver mode code = Piece.resolveAll resolver mode 0 pieces := by
  rw [ManagedCode.decode, ← h.bytes, decodeFrom_code h.valid (Nat.le_refl _)]

/-- The offset of a statement leads to its position, and the end to none. -/
theorem Writes.indexOf? {statements : List Statement} {stop : Nat} {code : List UInt8}
    {pieces : List Piece} (h : Writes 0 statements stop code pieces) (hl : code.length < 2 ^ 32)
    {resolver : Resolver} {is : List Instruction}
    (hr : Piece.resolveAll resolver .strict 0 pieces = .ok is) {t : UInt32} {k : Nat}
    (ht : t.toNat = (statements.map (·.offset)).getD k stop) :
    (Body.mk is.toArray).indexOf? t = if k < statements.length then some k else none := by
  have hd : Decomposes resolver code pieces is :=
    ⟨h.bytes, h.valid, (Piece.instructions_of_resolveAll hr).1⟩
  rw [h.offsets, Nat.zero_add] at ht
  rw [hd.indexOf?_length_code_take hl ht, h.length]

/-- Targets that the same text names are in the relation `led`, and all are offsets of 31 bits. -/
def NamesTogether (labels labels' : Labels) (led : Nat → Nat → Prop) (s : Statement) : Prop :=
  ∀ t ∈ operandTargets s.opcode.kind s.operand,
    (∀ n, Names labels t n → n < 2 ^ 31) ∧ (∀ n, Names labels' t n → n < 2 ^ 31) ∧
      ∀ n n', Names labels t n → Names labels' t n' → led n n'

/-- Assembling both lists of statements leaves the same string table, and the pieces are resolved
alike. -/
theorem pieces_of_widened {labels labels' : Labels} {led : Nat → Nat → Prop}
    {statements statements' : List Statement} {literals later later' : Literals}
    {code code' : List UInt8} {start start' stop stop' : Nat}
    (hw : List.Forall₂ Statement.Widened statements statements')
    (h : statementBytes labels statements literals = .ok code later)
    (h' : statementBytes labels' statements' literals = .ok code' later')
    (hc : Consecutive start statements stop) (hc' : Consecutive start' statements' stop')
    (hb : stop < 2 ^ 31) (hb' : stop' < 2 ^ 31)
    (ht : ∀ s ∈ statements, NamesTogether labels labels' led s) :
    later = later' ∧ ∃ pieces pieces', Writes start statements stop code pieces ∧
      Writes start' statements' stop' code' pieces' ∧
      ∀ resolver, SameResult
        (List.Forall₂ (Instruction.Matches fun t t' => led t.toNat t'.toNat))
        (Piece.resolveAll resolver .strict start pieces)
        (Piece.resolveAll resolver .strict start' pieces') := by
  induction hw generalizing literals code code' start start' with
  | nil =>
    cases h
    cases h'
    cases hc
    cases hc'
    exact ⟨rfl, [], [], writes_nil _, writes_nil _, fun _ => .ok .nil⟩
  | @cons s s' statements statements' hs hrest ih =>
    rw [List.forall_mem_cons] at ht
    obtain ⟨rfl, width, hwidth, hc⟩ := hc
    obtain ⟨rfl, width', hwidth', hc'⟩ := hc'
    obtain ⟨operand, middle, more, hoperand, hmore, rfl⟩ := statementBytes_cons_eq_ok h
    obtain ⟨operand', middle', more', hoperand', hmore', rfl⟩ := statementBytes_cons_eq_ok h'
    obtain rfl := literals_eq_of_operandBytes hs hoperand hoperand'
    rw [operandWidth_of_operandBytes hoperand] at hwidth
    rw [operandWidth_of_operandBytes hoperand'] at hwidth'
    cases hwidth
    cases hwidth'
    have hle := hc.le
    have hle' := hc'.le
    -- A widened branch is a branch, so both statements name the targets of their common operand.
    have htargets : ∀ t ∈ operandTargets s'.opcode.kind s'.operand,
        t ∈ operandTargets s.opcode.kind s.operand := by
      rw [hs.operand]
      rcases hs.opcode with ho | hl
      · rw [ho]
        exact fun _ => id
      · rw [(kind_of_long? hl).1, (kind_of_long? hl).2]
        exact fun _ => id
    have he (resolver : Resolver) :
        Emitted labels middle resolver s.opcode s.offset s.operand operand :=
      (emitted_of_operandBytes hoperand (by omega) fun t hmem => (ht.1 t hmem).1).2
    have he' (resolver : Resolver) :
        Emitted labels' middle resolver s'.opcode s'.offset s'.operand operand' :=
      (emitted_of_operandBytes hoperand' (by omega) fun t hmem =>
        (ht.1 t (htargets t hmem)).2.1).2
    obtain ⟨hlater, pieces, pieces', hwrites, hwrites', hresolve⟩ :=
      ih hmore hmore' hc hc' ht.2
    refine ⟨hlater, ⟨s.opcode, operand⟩ :: pieces, ⟨s'.opcode, operand'⟩ :: pieces',
      hwrites.cons (he .unknown), hwrites'.cons (he' .unknown), fun resolver => ?_⟩
    have hfirst := sameResult_operandBytes hs hoperand hoperand' (he resolver) (he' resolver)
      fun t hmem n n' => (ht.1 t hmem).2.2 n.toNat n'.toNat
    refine hfirst.bind fun _ _ hinst => SameResult.bind ?_ fun _ _ hmore => .ok (.cons hinst hmore)
    rw [Piece.size_eq, Piece.size_eq, ← Nat.add_assoc, ← Nat.add_assoc]
    exact hresolve resolver

/-! ## Sources -/

/-- A label that is defined stands behind a number of statements. -/
private theorem Leads.exists_definedBehind {lines : List (List Char)} {offsets : List Nat}
    {size n : Nat} {text : List Char} (h : Leads lines offsets size text n)
    (hd : ∃ line ∈ lines, text ∈ (splitLine line).1) :
    ∃ k, DefinedBehind lines text k ∧ n = offsets.getD k size := by
  cases h with
  | label defined => exact ⟨_, defined, rfl⟩
  | number undefined _ =>
    obtain ⟨line, hline, htext⟩ := hd
    exact absurd htext (undefined line hline)

private theorem exists_label {lines lines' : List (List Char)}
    (hw : List.Forall₂ LineWidened lines lines') {text : List Char}
    (hd : ∃ line ∈ lines, text ∈ (splitLine line).1) :
    ∃ line ∈ lines', text ∈ (splitLine line).1 := by
  obtain ⟨line, hline, htext⟩ := hd
  obtain ⟨i, hi, rfl⟩ := List.getElem_of_mem hline
  have hi' : i < lines'.length := hw.length_eq ▸ hi
  exact ⟨lines'.get ⟨i, hi'⟩, List.get_mem .., (hw.get hi hi').1 ▸ htext⟩

/-- The label of a target leads to the same statement in both sources, or to the end of both. -/
private theorem namesTogether {source source' : String} {layout layout' : Layout}
    (hw : Widened source source') (hj : JumpsToLabels source)
    (hlayout : Layout.ofSource source.toList = .ok layout)
    (hlayout' : Layout.ofSource source'.toList = .ok layout')
    (hl : layout.size < 2 ^ 31) (hl' : layout'.size < 2 ^ 31) {s : Statement}
    (hs : s ∈ layout.statements.reverse) :
    NamesTogether layout.labels layout'.labels (fun n n' => ∃ k,
      n = (layout.statements.reverse.map (·.offset)).getD k layout.size ∧
      n' = (layout'.statements.reverse.map (·.offset)).getD k layout'.size) s := by
  obtain ⟨hreads, hc, _⟩ := Layout.ofSource_eq_ok hlayout
  obtain ⟨_, hc', _⟩ := Layout.ofSource_eq_ok hlayout'
  intro t ht
  have hd : ∃ line ∈ Text.lines source.toList, t ∈ (splitLine line).1 := by
    obtain ⟨i, hi, rfl⟩ := List.getElem_of_mem hs
    have hentry := hreads.get (hreads.length_eq ▸ hi) hi
    exact hj _ (List.get_mem ..) t (hentry.operandTargets_eq ▸ ht)
  have hd' := exists_label hw hd
  refine ⟨fun n hn => ?_, fun n hn => ?_, fun n n' hn hn' => ?_⟩
  · obtain ⟨k, _, rfl⟩ := (leads_of_names hlayout hn).exists_definedBehind hd
    exact Nat.lt_of_le_of_lt (hc.getD_le k) hl
  · obtain ⟨k, _, rfl⟩ := (leads_of_names hlayout' hn).exists_definedBehind hd'
    exact Nat.lt_of_le_of_lt (hc'.getD_le k) hl'
  · obtain ⟨k, hk, rfl⟩ := (leads_of_names hlayout hn).exists_definedBehind hd
    obtain ⟨k', hk', rfl⟩ := (leads_of_names hlayout' hn').exists_definedBehind hd'
    exact ⟨k, rfl, by rw [hk.count_eq hw hk']⟩

private theorem widened_statements {source source' : String} {layout layout' : Layout}
    (hw : Widened source source') (hlayout : Layout.ofSource source.toList = .ok layout)
    (hlayout' : Layout.ofSource source'.toList = .ok layout') :
    List.Forall₂ Statement.Widened layout.statements.reverse layout'.statements.reverse := by
  obtain ⟨hreads, _, _⟩ := Layout.ofSource_eq_ok hlayout
  obtain ⟨hreads', _, _⟩ := Layout.ofSource_eq_ok hlayout'
  have htexts := forall₂_statementTexts hw 1
  have hread : List.Forall₂ (fun entry s => ∃ entry', (entry.1 = entry'.1 ∧
      StatementWidened entry.2 entry'.2) ∧ Statement.Reads entry' s)
      (statementTexts 1 (Text.lines source.toList)) layout'.statements.reverse :=
    forall₂_of_common htexts.flip hreads' fun entry' _ _ _ hentry hs => ⟨entry', hentry, hs⟩
  refine forall₂_of_common hreads hread fun entry _ s s' hs hs' => ?_
  obtain ⟨entry', hentry, hs'⟩ := hs'
  exact hs.widened hs' hentry.1 hentry.2

/-- The code of two sources that differ in the width of branches is decoded alike, and both runs
leave the same string table. -/
theorem decodesAlike_assemble {source source' : String} {literals later later' : Literals}
    {code code' : List UInt8} (hw : Widened source source') (hj : JumpsToLabels source)
    (ha : assemble source literals = .ok code later)
    (ha' : assemble source' literals = .ok code' later') (hl : code.length < 2 ^ 31)
    (hl' : code'.length < 2 ^ 31) :
    later = later' ∧ DecodesAlike code code' := by
  obtain ⟨layout, hlayout, hbytes⟩ := assemble_eq_ok ha
  obtain ⟨layout', hlayout', hbytes'⟩ := assemble_eq_ok ha'
  obtain ⟨_, hc, _⟩ := Layout.ofSource_eq_ok hlayout
  obtain ⟨_, hc', _⟩ := Layout.ofSource_eq_ok hlayout'
  have hsize : layout.size = code.length := by
    rw [length_of_statementBytes hbytes hc, Nat.zero_add]
  have hsize' : layout'.size = code'.length := by
    rw [length_of_statementBytes hbytes' hc', Nat.zero_add]
  have hstatements := widened_statements hw hlayout hlayout'
  obtain ⟨hlater, pieces, pieces', hwrites, hwrites', hresolve⟩ :=
    pieces_of_widened hstatements hbytes hbytes' hc hc' (hsize ▸ hl) (hsize' ▸ hl')
      fun s hs => namesTogether hw hj hlayout hlayout' (hsize ▸ hl) (hsize' ▸ hl') hs
  refine ⟨hlater, fun resolver => ?_⟩
  have hsame := hresolve resolver
  rw [Body.decode, Body.decode, hwrites.decode, hwrites'.decode]
  generalize hx : Piece.resolveAll resolver .strict 0 pieces = x,
    hy : Piece.resolveAll resolver .strict 0 pieces' = y at hsame
  cases hsame with
  | error e => exact .error e
  | @ok is is' hall =>
    -- targets lead to the same statement, so they are found at the same position
    refine .ok (hall.imp fun _ _ => Instruction.Matches.imp fun t t' ⟨k, hk, hk'⟩ => ?_)
    rw [hwrites.indexOf? (Nat.lt_trans hl (by decide)) hx hk,
      hwrites'.indexOf? (Nat.lt_trans hl' (by decide)) hy hk', hstatements.length_eq]

/-- Sources are assembled in turn, each with the table that the one before left. -/
theorem mapM_assemble_cons_eq_ok {source : String} {sources : List String}
    {literals later : Literals} {codes : List (List UInt8)}
    (h : (source :: sources).mapM assemble literals = .ok codes later) :
    ∃ code middle rest, assemble source literals = .ok code middle ∧
      sources.mapM assemble middle = .ok rest later ∧ codes = code :: rest := by
  simp only [List.mapM_cons, bind, EStateM.bind] at h
  split at h
  · rename_i code middle hcode
    split at h
    · rename_i rest final hrest
      cases h
      exact ⟨code, middle, rest, hcode, hrest, rfl⟩
    · cases h
  · cases h

/-- One assembly run over several sources, and one over the sources with some short branches in
their long forms, leave the same string table, and their code is decoded alike. -/
theorem decodesAlike_mapM {sources sources' : List String} {literals later later' : Literals}
    {codes codes' : List (List UInt8)} (hw : List.Forall₂ Widened sources sources')
    (hj : ∀ source ∈ sources, JumpsToLabels source)
    (ha : sources.mapM assemble literals = .ok codes later)
    (ha' : sources'.mapM assemble literals = .ok codes' later')
    (hl : ∀ code ∈ codes, code.length < 2 ^ 31) (hl' : ∀ code ∈ codes', code.length < 2 ^ 31) :
    later = later' ∧ ∀ code code', (code, code') ∈ codes.zip codes' → DecodesAlike code code' := by
  induction hw generalizing literals codes codes' with
  | nil =>
    cases ha
    cases ha'
    exact ⟨rfl, fun _ _ hm => nomatch hm⟩
  | cons hfirst _ ih =>
    obtain ⟨code, middle, rest, hcode, hrest, rfl⟩ := mapM_assemble_cons_eq_ok ha
    obtain ⟨code', middle', rest', hcode', hrest', rfl⟩ := mapM_assemble_cons_eq_ok ha'
    rw [List.forall_mem_cons] at hj hl hl'
    obtain ⟨rfl, hdecode⟩ := decodesAlike_assemble hfirst hj.1 hcode hcode' hl.1 hl'.1
    obtain ⟨hlater, hall⟩ := ih hj.2 hrest hrest' hl.2 hl'.2
    refine ⟨hlater, fun a b hm => ?_⟩
    rw [List.zip_cons_cons, List.mem_cons, Prod.mk.injEq] at hm
    rcases hm with ⟨rfl, rfl⟩ | hm
    · exact hdecode
    · exact hall a b hm

end Source

end ManagedCode
