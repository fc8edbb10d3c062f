import ManagedCode.Execution.Task
import ManagedCode.Proofs.Instruction.Grammar

/-!
# Code for execution

Code that is decoded for execution gives the instructions of its listing, each with an operand of
the form that its opcode asks for: a token that does not resolve is an error, except that of
`ldtoken`. So every instruction of such code says what it asks the machine to do.
-/

namespace ManagedCode

/-- Whether an operand has the form that its kind prescribes. Only a token of any kind may be left
unresolved. -/
def OperandKind.fits (kind : OperandKind) (operand : Option Operand) : Bool :=
  match kind, operand with
  | .none, Option.none => true
  | .shortVariable, some (.variable _) | .variable, some (.variable _) => true
  | .shortInt32, some (.int32 _) | .int32, some (.int32 _) => true
  | .int64, some (.int64 _) => true
  | .float32, some (.float32 _) => true
  | .float64, some (.float64 _) => true
  | .shortTarget, some (.target _) | .target, some (.target _) => true
  | .switch, some (.switch _) => true
  | .string, some (.string _) => true
  | .field, some (.field _) => true
  | .method, some (.method _) => true
  | .type, some (.type _) => true
  | .token, some (.type _) | .token, some (.unresolved _) => true
  | .signature, some (.signature _) => true
  | _, _ => false

/-- Whether the operand of an instruction has the form that its opcode prescribes. -/
def Instruction.hasOperand (inst : Instruction) : Bool := inst.opcode.kind.fits inst.operand

/-! ## Decoding -/

/-- In strict mode an operand is what was found, or there is none. -/
theorem DecodeMode.settle_strict_eq_ok_iff {token : Token} {found : Except ResolveError Operand}
    {operand : Operand} :
    DecodeMode.strict.settle token found = .ok operand ↔ found = .ok operand := by
  cases found <;> simp [settle]

/-- A token that resolves for execution resolves in the same way for a listing. -/
theorem Resolver.operand_listing_of_strict {resolver : Resolver} {kind : OperandKind}
    {token : Token} {operand : Operand} (h : resolver.operand .strict kind token = .ok operand) :
    resolver.operand .listing kind token = .ok operand := by
  unfold Resolver.operand at h ⊢
  split at h
  all_goals first | exact h | rw [DecodeMode.settle_strict_eq_ok_iff] at h; rw [h]; rfl

/-- Whether an operand of the kind is a token. -/
def OperandKind.isToken : OperandKind → Bool
  | .string | .field | .method | .type | .token | .signature => true
  | _ => false

/-- A token that resolves for execution gives an operand of the form of its kind. -/
theorem Resolver.fits_operand {resolver : Resolver} {kind : OperandKind} {token : Token}
    {operand : Operand} (hk : kind.isToken = true)
    (h : resolver.operand .strict kind token = .ok operand) : kind.fits (some operand) = true := by
  cases kind <;> cases hk
  case token =>
    simp only [Resolver.operand] at h
    cases hfound : resolver.type token with
    | error error =>
      rw [hfound] at h
      cases h
      rfl
    | ok type =>
      rw [hfound] at h
      cases h
      rfl
  case signature =>
    cases h
    rfl
  all_goals
    simp only [Resolver.operand, DecodeMode.settle_strict_eq_ok_iff, map_eq_ok_iff] at h
    obtain ⟨found, -, rfl⟩ := h
    rfl

namespace Piece

/-- The token that the operand stands for, if it is one. -/
def token (piece : Piece) : Token := ⟨(Bytes.toNat piece.operand).toUInt32⟩

/-- Only the tokens of a piece are resolved. -/
theorem resolve_eq (resolver : Resolver) (mode : DecodeMode) (piece : Piece) (offset : Nat) :
    (Encoded.ofPiece piece offset).resolve resolver mode =
      if piece.opcode.kind.isToken then
        (resolver.operand mode piece.opcode.kind piece.token).map fun operand =>
          ⟨piece.opcode, offset.toUInt32, some operand⟩
      else .ok (piece.instruction resolver offset) := by
  unfold Encoded.resolve Encoded.ofPiece instruction operandAt
  cases hk : piece.opcode.kind <;>
    simp only [OperandKind.immediate, OperandKind.isToken, targets, hk, if_true] <;> try rfl
  all_goals
    cases hfound : resolver.operand mode _ piece.token <;>
      simp_all [token, Functor.map, Except.map, bind, Except.bind, pure, Except.pure]

/-- A piece that resolves for execution gives its instruction, with an operand of the form of its
kind. -/
theorem instruction_of_resolve {resolver : Resolver} {piece : Piece} {offset : Nat}
    {inst : Instruction}
    (h : (Encoded.ofPiece piece offset).resolve resolver .strict = .ok inst) :
    inst = piece.instruction resolver offset ∧ inst.hasOperand = true := by
  have hlisting := Encoded.resolve_ofPiece resolver piece offset
  rw [resolve_eq] at h hlisting
  split at h
  · rename_i hk
    rw [if_pos hk] at hlisting
    obtain ⟨operand, hoperand, rfl⟩ := map_eq_ok_iff.mp h
    rw [Resolver.operand_listing_of_strict hoperand] at hlisting
    exact ⟨Except.ok.inj hlisting, Resolver.fits_operand hk hoperand⟩
  · rename_i hk
    cases h
    refine ⟨rfl, ?_⟩
    simp only [Instruction.hasOperand, instruction, operandAt]
    cases hkind : piece.opcode.kind <;> first | rfl | simp [hkind, OperandKind.isToken] at hk

/-- Code that is decoded for execution gives the instructions of its listing, with operands of the
form of their kinds. -/
theorem instructions_of_resolveAll {resolver : Resolver} {offset : Nat} {pieces : List Piece}
    {is : List Instruction} (h : resolveAll resolver .strict offset pieces = .ok is) :
    is = instructions resolver offset pieces ∧ ∀ inst ∈ is, inst.hasOperand = true := by
  induction pieces generalizing offset is with
  | nil =>
    cases h
    exact ⟨rfl, fun _ hm => nomatch hm⟩
  | cons piece pieces ih =>
    obtain ⟨inst, hinst, h⟩ := bind_eq_ok_iff.mp h
    obtain ⟨more, hmore, h⟩ := bind_eq_ok_iff.mp h
    cases h
    obtain ⟨rfl, hfirst⟩ := instruction_of_resolve hinst
    obtain ⟨rfl, hrest⟩ := ih hmore
    exact ⟨rfl, List.forall_mem_cons.mpr ⟨hfirst, hrest⟩⟩

end Piece

namespace Body

/-- A body that was decoded for execution. -/
def IsDecoded (body : Body) : Prop :=
  ∃ (resolver : Resolver) (code : List UInt8), Body.decode resolver .strict code = .ok body

/-- No bytes are decoded to the empty body. -/
theorem isDecoded_empty : Body.empty.IsDecoded := ⟨.unknown, [], rfl⟩

/-- A decoded body has the instructions of a decomposition of its code. -/
theorem IsDecoded.decomposes {body : Body} (h : body.IsDecoded) :
    ∃ resolver code pieces, Decomposes resolver code pieces body.instructions.toList ∧
      ∀ inst ∈ body.instructions, inst.hasOperand = true := by
  obtain ⟨resolver, code, h⟩ := h
  obtain ⟨is, his, rfl⟩ := map_eq_ok_iff.mp h
  rw [ManagedCode.decode, decodeFrom_eq_ok_iff (Nat.le_refl _)] at his
  obtain ⟨pieces, hcode, hvalid, hresolve⟩ := his
  obtain ⟨hinstructions, hoperands⟩ := Piece.instructions_of_resolveAll hresolve
  exact ⟨resolver, code, pieces, ⟨hcode, hvalid, hinstructions⟩, by simpa using hoperands⟩

end Body

/-! ## What instructions ask for -/

private theorem simpleTask?_ne_missingOperand (op : Opcode) :
    op.simpleTask? ≠ some .missingOperand := by
  cases op <;> decide

private theorem plainTask?_ne_missingOperand (op : Opcode) :
    op.plainTask? ≠ some .missingOperand := by
  simp [Opcode.plainTask?, Option.orElse_eq_orElse, Option.orElse_eq_or, Option.or_eq_some_iff,
    simpleTask?_ne_missingOperand]

private theorem kind_of_branchTest? {op : Opcode} {test : BranchTest}
    (h : op.branchTest? = some test) : op.kind = .shortTarget ∨ op.kind = .target := by
  cases op <;> first | exact .inl rfl | exact .inr rfl | cases h

private theorem onTarget_ne_missingOperand {kind : OperandKind} {operand : Option Operand}
    (hk : kind = .shortTarget ∨ kind = .target) (h : kind.fits operand = true)
    {task : UInt32 → Task} (ht : ∀ target, task target ≠ .missingOperand) :
    Task.onTarget operand task ≠ .missingOperand := by
  rcases hk with rfl | rfl
  all_goals
    unfold OperandKind.fits at h
    split at h <;> simp_all [Task.onTarget]

private theorem operandTask_ne_missingOperand {op : Opcode} {operand : Option Operand}
    (h : op.kind.fits operand = true) : op.operandTask operand ≠ .missingOperand := by
  intro hmissing
  unfold Opcode.operandTask at hmissing
  split at hmissing
  all_goals try cases hmissing
  -- an operand of the wrong form does not fit, and one of the right form gives a task
  all_goals
    cases operand with
    | none => cases h
    | some operand => cases operand <;> first | (cases h; done) | cases hmissing

/-- An instruction with its operand says what it asks for. -/
theorem Instruction.task_ne_missingOperand {inst : Instruction} (h : inst.hasOperand = true) :
    inst.task ≠ .missingOperand := by
  unfold Instruction.task
  dsimp only
  split
  · rename_i hplain
    rintro rfl
    exact plainTask?_ne_missingOperand _ hplain
  · rename_i htest
    exact onTarget_ne_missingOperand (kind_of_branchTest? htest) h fun _ => nofun
  · exact operandTask_ne_missingOperand h

end ManagedCode
