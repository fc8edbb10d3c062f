import Mathlib.Control.Monad.Basic
import Mathlib.Data.Nat.Init
import ManagedCode.Proofs.Instruction.Strict

/-!
# The two modes of decoding

Both modes read code in the same way and give the same instructions. They differ in one respect:
decoding for execution stops at the first instruction whose string, field, method or type token the
resolver refuses. So a listing shows what is executed, and an error of the listing is that of the
execution unless an earlier token is refused.
-/

namespace ManagedCode

/-! ## Tokens that are refused -/

/-- The error of a look-up that failed. -/
def ResolveError.ofResult? {α : Type} : Except ResolveError α → Option ResolveError
  | .ok _ => none
  | .error error => some error

/-- What the resolver says against the token of a string, field, method or type. A token of another
kind is never refused. -/
def Resolver.refusal? (resolver : Resolver) (kind : OperandKind) (token : Token) :
    Option ResolveError :=
  match kind with
  | .string => ResolveError.ofResult? (resolver.string token)
  | .field => ResolveError.ofResult? (resolver.field token)
  | .method => ResolveError.ofResult? (resolver.callable token)
  | .type => ResolveError.ofResult? (resolver.type token)
  | _ => none

/-- In strict mode an error of resolution is raised, otherwise the modes agree. -/
theorem DecodeMode.settle_strict {α : Type} (token : Token) (found : Except ResolveError α)
    (operand : α → Operand) :
    DecodeMode.strict.settle token (operand <$> found) =
      match ResolveError.ofResult? found with
      | none => DecodeMode.listing.settle token (operand <$> found)
      | some error => .error (.resolve error) := by
  cases found <;> rfl

/-- For execution a token stands for what it does in a listing, unless it is refused. -/
theorem Resolver.operand_strict (resolver : Resolver) (kind : OperandKind) (token : Token) :
    resolver.operand .strict kind token =
      match resolver.refusal? kind token with
      | none => resolver.operand .listing kind token
      | some error => .error (.resolve error) := by
  cases kind <;> first | rfl | exact DecodeMode.settle_strict token _ _

/-- In a listing the token is left where it cannot be resolved. -/
theorem DecodeMode.settle_listing_of_some {α : Type} {token : Token}
    {found : Except ResolveError α} {error : ResolveError} (operand : α → Operand)
    (h : ResolveError.ofResult? found = some error) :
    DecodeMode.listing.settle token (operand <$> found) = .ok (.unresolved token) := by
  cases found with
  | ok value => cases h
  | error error => rfl

/-- In a listing an operand that is refused is its token. -/
theorem Resolver.operand_listing_of_refusal? {resolver : Resolver} {kind : OperandKind}
    {token : Token} {error : ResolveError} (h : resolver.refusal? kind token = some error) :
    resolver.operand .listing kind token = .ok (.unresolved token) := by
  cases kind <;> first | cases h | exact DecodeMode.settle_listing_of_some _ h

namespace Piece

variable {resolver : Resolver} {piece : Piece} {offset : Nat} {error : ResolveError}

/-- What the resolver says against the token of the piece. -/
def refusal? (resolver : Resolver) (piece : Piece) : Option ResolveError :=
  resolver.refusal? piece.opcode.kind piece.token

/-- Only tokens are refused. -/
theorem isToken_of_refusal? (h : piece.refusal? resolver = some error) :
    piece.opcode.kind.isToken = true := by
  unfold refusal? at h
  cases hk : piece.opcode.kind <;> rw [hk] at h <;> first | rfl | cases h

/-- A piece that is not refused gives the instruction of the listing. -/
theorem resolve_strict_of_none (h : piece.refusal? resolver = none) :
    (Encoded.ofPiece piece offset).resolve resolver .strict =
      .ok (piece.instruction resolver offset) := by
  have hoperand := resolver.operand_strict piece.opcode.kind piece.token
  rw [show resolver.refusal? _ _ = none from h] at hoperand
  rw [← Encoded.resolve_ofPiece, resolve_eq, resolve_eq, hoperand]

/-- In strict mode a piece that is refused is an error. -/
theorem resolve_strict_of_some (h : piece.refusal? resolver = some error) :
    (Encoded.ofPiece piece offset).resolve resolver .strict = .error (.resolve error) := by
  have hoperand := resolver.operand_strict piece.opcode.kind piece.token
  rw [show resolver.refusal? _ _ = some error from h] at hoperand
  rw [resolve_eq, if_pos (isToken_of_refusal? h), hoperand]
  rfl

/-- A listing shows the bare token of a piece that is refused. -/
theorem operandAt_of_refusal? (h : piece.refusal? resolver = some error) :
    piece.operandAt resolver offset = some (.unresolved piece.token) := by
  have hlisting := Encoded.resolve_ofPiece resolver piece offset
  rw [resolve_eq, if_pos (isToken_of_refusal? h), Resolver.operand_listing_of_refusal? h,
    Except.map, Except.ok.injEq] at hlisting
  exact (congrArg Instruction.operand hlisting).symm

/-! ## Sequences of pieces -/

/-- Pieces that are not refused give the instructions of the listing. -/
theorem resolveAll_strict_of_none {pieces : List Piece}
    (h : ∀ piece ∈ pieces, piece.refusal? resolver = none) :
    resolveAll resolver .strict offset pieces = .ok (instructions resolver offset pieces) := by
  induction pieces generalizing offset with
  | nil => rfl
  | cons piece pieces ih =>
    rw [List.forall_mem_cons] at h
    rw [resolveAll, resolve_strict_of_none h.1, ih h.2]
    rfl

/-- The first piece that is refused ends the decoding for execution. -/
theorem resolveAll_strict_of_some {before behind : List Piece}
    (hb : ∀ earlier ∈ before, earlier.refusal? resolver = none)
    (h : piece.refusal? resolver = some error) :
    resolveAll resolver .strict offset (before ++ piece :: behind) = .error (.resolve error) := by
  induction before generalizing offset with
  | nil =>
    rw [List.nil_append, resolveAll, resolve_strict_of_some h]
    rfl
  | cons earlier before ih =>
    rw [List.forall_mem_cons] at hb
    rw [List.cons_append, resolveAll, resolve_strict_of_none hb.1, ih hb.2]
    rfl

end Piece

/-! ## Code that may not end with a whole piece -/

/-- Code is read piece by piece up to its end or to bytes that are no piece. -/
theorem exists_pieces_read (offset : Nat) (code : List UInt8) :
    ∃ pieces rest, code = Piece.code pieces ++ rest ∧ Piece.Valid offset pieces ∧
      (rest = [] ∨ rest ≠ [] ∧
        ∃ error, Encoded.read (offset + (Piece.code pieces).length) rest = .error error) := by
  induction h : code.length using Nat.strong_induction_on generalizing offset code with
  | _ n ih =>
    cases hread : Encoded.read offset code with
    | error error =>
      refine ⟨[], code, rfl, trivial, ?_⟩
      by_cases hc : code = []
      · exact .inl hc
      · exact .inr ⟨hc, error, hread⟩
    | ok result =>
      obtain ⟨encoded, behind⟩ := result
      obtain ⟨piece, rfl, hsized, hreach, -⟩ := Encoded.read_eq_ok_iff.mp hread
      have hlt : behind.length < n := by
        rw [← h, List.length_append]
        exact Nat.lt_add_of_pos_left piece.size_pos
      obtain ⟨pieces, rest, rfl, hvalid, hend⟩ := ih _ hlt (offset + piece.size) behind rfl
      refine ⟨piece :: pieces, rest, (List.append_assoc ..).symm, ⟨hsized, hreach, hvalid⟩, ?_⟩
      rwa [Piece.code, List.flatMap_cons, List.length_append, ← Nat.add_assoc]

/-- Bytes that are no piece are an error, unless a token before them is one. -/
theorem decodeFrom_code_append {resolver : Resolver} {mode : DecodeMode} {rounds offset : Nat}
    {pieces : List Piece} {rest : List UInt8} {error : DecodeError}
    (hv : Piece.Valid offset pieces) (hr : (Piece.code pieces ++ rest).length ≤ rounds)
    (hne : rest ≠ [])
    (hread : Encoded.read (offset + (Piece.code pieces).length) rest = .error error) :
    decodeFrom resolver mode rounds offset (Piece.code pieces ++ rest) =
      (Piece.resolveAll resolver mode offset pieces).bind fun _ => .error error := by
  induction pieces generalizing rounds offset with
  | nil =>
    cases rounds with
    | zero => exact absurd (List.length_eq_zero_iff.mp (Nat.le_zero.mp hr)) hne
    | succ rounds =>
      rw [Piece.code, List.flatMap_nil, List.nil_append, decodeFrom_succ _ _ _ _ hne]
      rw [show offset + (Piece.code []).length = offset from rfl] at hread
      rw [hread]
      rfl
  | cons piece pieces ih =>
    obtain ⟨hsized, hreach, hv⟩ := hv
    have hcode : Piece.code (piece :: pieces) ++ rest =
        piece.bytes ++ (Piece.code pieces ++ rest) := List.append_assoc ..
    have hfirst : Encoded.read offset (piece.bytes ++ (Piece.code pieces ++ rest)) =
        .ok (Encoded.ofPiece piece offset, Piece.code pieces ++ rest) :=
      Encoded.read_eq_ok_iff.mpr ⟨piece, rfl, hsized, hreach, rfl⟩
    rw [Piece.code, List.flatMap_cons, List.length_append, ← Nat.add_assoc] at hread
    rw [hcode] at hr ⊢
    cases rounds with
    | zero =>
      have hnil := List.length_eq_zero_iff.mp (Nat.le_zero.mp hr)
      exact absurd (List.append_eq_nil_iff.mp hnil).1 piece.bytes_ne_nil
    | succ rounds =>
      have hmore := ih hv (Piece.length_rest_le hr) hread
      rw [decodeFrom_succ _ _ _ _ (List.append_ne_nil_of_left_ne_nil piece.bytes_ne_nil _), hfirst]
      simp only [bind, Except.bind, Encoded.size_ofPiece hsized, hmore, Piece.resolveAll]
      cases (Encoded.ofPiece piece offset).resolve resolver mode with
      | error error => rfl
      | ok inst => cases Piece.resolveAll resolver mode (offset + piece.size) pieces <;> rfl

/-! ## Execution and listing -/

/-- Decoding for execution agrees with the listing of the code unless one of its pieces is refused.
The first one that is refused, whose token the listing shows, is the error. -/
inductive FollowsListing (resolver : Resolver) (code : List UInt8) (pieces : List Piece) : Prop
  | same (resolved : ∀ piece ∈ pieces, piece.refusal? resolver = none)
      (agrees : decode resolver .strict code = decode resolver .listing code)
  | refused {before behind : List Piece} {piece : Piece} {error : ResolveError}
      (first : pieces = before ++ piece :: behind)
      (resolved : ∀ earlier ∈ before, earlier.refusal? resolver = none)
      (refusal : piece.refusal? resolver = some error)
      (shown : (piece.instruction resolver (Piece.code before).length).operand =
        some (.unresolved piece.token))
      (fails : decode resolver .strict code = .error (.resolve error))

variable {resolver : Resolver} {mode : DecodeMode} {code : List UInt8} {pieces : List Piece}

/-- What is decoded in strict mode is decoded alike in a listing. -/
theorem FollowsListing.listing_of_strict (h : FollowsListing resolver code pieces)
    {is : List Instruction} (hs : decode resolver .strict code = .ok is) :
    decode resolver .listing code = .ok is := by
  cases h with
  | same _ agrees => rw [← agrees, hs]
  | refused _ _ _ _ fails => cases hs.symm.trans fails

/-- It is enough that both modes go on alike behind the pieces. -/
theorem followsListing_of_bind
    {finish : List Instruction → Except DecodeError (List Instruction)}
    (h : ∀ mode,
      decode resolver mode code = (Piece.resolveAll resolver mode 0 pieces).bind finish) :
    FollowsListing resolver code pieces := by
  cases hfirst : pieces.findSome? (Piece.refusal? resolver) with
  | none =>
    have hnone := List.findSome?_eq_none_iff.mp hfirst
    refine .same hnone ?_
    rw [h, h, Piece.resolveAll_strict_of_none hnone, Piece.resolveAll_listing]
  | some error =>
    obtain ⟨before, piece, behind, hpieces, hrefusal, hnone⟩ := List.findSome?_eq_some_iff.mp hfirst
    refine .refused hpieces hnone hrefusal (Piece.operandAt_of_refusal? hrefusal) ?_
    rw [h, hpieces, Piece.resolveAll_strict_of_some hnone hrefusal]
    rfl

/-- Valid code is decoded piece by piece. -/
theorem decode_code (hv : Piece.Valid 0 pieces) :
    decode resolver mode (Piece.code pieces) =
      (Piece.resolveAll resolver mode 0 pieces).bind .ok := by
  rw [decode, decodeFrom_code hv (Nat.le_refl _)]
  cases Piece.resolveAll resolver mode 0 pieces <;> rfl

/-- Either a decomposition gives the listing, or there is none because no instruction can be read
behind the first pieces. The execution follows in both cases. -/
theorem decode_listing_cases (resolver : Resolver) (code : List UInt8) :
    (∃ pieces, Decomposes resolver code pieces (Piece.instructions resolver 0 pieces) ∧
      decode resolver .listing code = .ok (Piece.instructions resolver 0 pieces) ∧
      FollowsListing resolver code pieces) ∨
    ∃ pieces rest error, code = Piece.code pieces ++ rest ∧ Piece.Valid 0 pieces ∧
      Encoded.read (Piece.code pieces).length rest = .error error ∧
      decode resolver .listing code = .error error ∧ FollowsListing resolver code pieces := by
  obtain ⟨pieces, rest, rfl, hv, rfl | ⟨hne, error, hread⟩⟩ := exists_pieces_read 0 code
  · refine .inl ⟨pieces, ⟨(List.append_nil _).symm, hv, rfl⟩, ?_, ?_⟩
    · rw [List.append_nil, decode_code hv, Piece.resolveAll_listing]
      rfl
    · rw [List.append_nil]
      exact followsListing_of_bind fun _ => decode_code hv
  · have hdecode : ∀ mode, decode resolver mode (Piece.code pieces ++ rest) =
        (Piece.resolveAll resolver mode 0 pieces).bind fun _ => .error error :=
      fun mode => decodeFrom_code_append hv (Nat.le_refl _) hne hread
    rw [Nat.zero_add] at hread
    refine .inr ⟨pieces, rest, error, rfl, hv, hread, ?_, followsListing_of_bind hdecode⟩
    rw [hdecode, Piece.resolveAll_listing]
    rfl

/-- A listing shows what is executed. What decodes for execution gives the same instructions and
the same text in a listing. Code with a listing decomposes into pieces: it is executed as listed if
no string, field, method or type token of them is refused, and otherwise the first refusal is the
error. Code without a listing starts with pieces behind which no instruction can be read: that is
the error of the execution too, unless a token of the pieces in front of it is refused. -/
theorem decode_strict_follows_listing (resolver : Resolver) (code : List UInt8) :
    (∀ is, decode resolver .strict code = .ok is → decode resolver .listing code = .ok is) ∧
    (∀ body, Body.decode resolver .strict code = .ok body →
      disassemble resolver code = .ok body.text) ∧
    (∀ is, decode resolver .listing code = .ok is →
      ∃ pieces, Decomposes resolver code pieces is ∧ FollowsListing resolver code pieces) ∧
    ∀ error, decode resolver .listing code = .error error →
      ∃ pieces rest, code = Piece.code pieces ++ rest ∧ Piece.Valid 0 pieces ∧
        Encoded.read (Piece.code pieces).length rest = .error error ∧
        FollowsListing resolver code pieces := by
  have hsame : ∀ is, decode resolver .strict code = .ok is →
      decode resolver .listing code = .ok is := by
    intro is hs
    obtain ⟨_, _, _, hfollows⟩ | ⟨_, _, _, _, _, _, _, hfollows⟩ :=
      decode_listing_cases resolver code
    all_goals exact hfollows.listing_of_strict hs
  refine ⟨hsame, fun body hbody => ?_, fun is hlisting => ?_, fun error hlisting => ?_⟩
  · obtain ⟨is, hs, rfl⟩ := map_eq_ok_iff.mp hbody
    rw [disassemble, hsame is hs]
    rfl
  · obtain ⟨pieces, hpieces, hok, hfollows⟩ | ⟨_, _, _, _, _, _, herror, _⟩ :=
      decode_listing_cases resolver code
    · cases hlisting.symm.trans hok
      exact ⟨pieces, hpieces, hfollows⟩
    · cases hlisting.symm.trans herror
  · obtain ⟨_, _, hok, _⟩ | ⟨pieces, rest, _, hcode, hv, hread, herror, hfollows⟩ :=
      decode_listing_cases resolver code
    · cases hlisting.symm.trans hok
    · cases hlisting.symm.trans herror
      exact ⟨pieces, rest, hcode, hv, hread, hfollows⟩

/-- An unknown string in front of an unknown opcode: the modes report different errors. -/
example :
    decode .unknown .listing [0x72, 0x01, 0x00, 0x00, 0x70, 0x24] =
        .error (.unknownOpcode 5 0x24) ∧
      decode .unknown .strict [0x72, 0x01, 0x00, 0x00, 0x70, 0x24] =
        .error (.resolve (.unknownToken ⟨0x70000001⟩)) := by
  decide +kernel

end ManagedCode
