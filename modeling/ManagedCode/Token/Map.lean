import ManagedCode.Token.Basic

/-!
# Finite maps from tokens

The entries are kept in ascending order of their tokens, each token once. So two maps with the same
entries are equal, and walking a map visits its tokens in order.
-/

namespace ManagedCode

/-- Whether the tokens of the entries ascend strictly. -/
def Token.Ascending {α : Type} (entries : List (Token × α)) : Prop :=
  entries.Pairwise fun a b => a.1.value < b.1.value

/-- A finite map from tokens to values. -/
structure TokenMap (α : Type) where
  /-- The entries in ascending order. -/
  entries : List (Token × α)
  /-- Tokens ascend strictly. -/
  ascending : Token.Ascending entries

namespace TokenMap

variable {α : Type}

instance [DecidableEq α] : DecidableEq (TokenMap α) := fun a b =>
  if h : a.entries = b.entries then isTrue (by cases a; cases b; cases h; rfl)
  else isFalse fun e => h (e ▸ rfl)

/-- The map without entries. -/
def empty : TokenMap α := ⟨[], List.Pairwise.nil⟩

instance : Inhabited (TokenMap α) := ⟨empty⟩

/-- The value at a token. -/
def get? (map : TokenMap α) (token : Token) : Option α :=
  (map.entries.find? fun entry => entry.1 == token).map (·.2)

/-- Puts an entry in its place; an entry of the same token is replaced. -/
def insertEntry (token : Token) (value : α) : List (Token × α) → List (Token × α)
  | [] => [(token, value)]
  | entry :: rest =>
    if token.value < entry.1.value then (token, value) :: entry :: rest
    else if token = entry.1 then (token, value) :: rest
    else entry :: insertEntry token value rest

/-- Every token of the entries after an insertion is the new one or was there before. -/
theorem mem_insertEntry {token : Token} {value : α} {entries : List (Token × α)} {e : Token × α}
    (h : e ∈ insertEntry token value entries) : e = (token, value) ∨ e ∈ entries := by
  induction entries with
  | nil => simpa [insertEntry] using h
  | cons entry rest ih =>
    simp only [insertEntry] at h
    split at h
    · simpa using h
    · split at h
      · rcases List.mem_cons.1 h with h | h
        · exact .inl h
        · exact .inr (List.mem_cons_of_mem _ h)
      · rcases List.mem_cons.1 h with h | h
        · exact .inr (h ▸ List.mem_cons_self)
        · exact (ih h).imp_right (List.mem_cons_of_mem _)

/-- An insertion keeps the tokens ascending. -/
theorem ascending_insertEntry (token : Token) (value : α) {entries : List (Token × α)}
    (h : Token.Ascending entries) : Token.Ascending (insertEntry token value entries) := by
  induction entries with
  | nil => simp [insertEntry, Token.Ascending]
  | cons entry rest ih =>
    obtain ⟨below, rest_ascending⟩ := List.pairwise_cons.1 h
    simp only [insertEntry]
    split
    · next lt =>
      refine List.pairwise_cons.2 ⟨fun e he => ?_, h⟩
      rcases List.mem_cons.1 he with rfl | he
      · exact lt
      · exact UInt32.lt_trans lt (below e he)
    · next not_lt =>
      split
      · next same =>
        subst same
        exact List.pairwise_cons.2 ⟨below, rest_ascending⟩
      · next ne =>
        refine List.pairwise_cons.2 ⟨fun e he => ?_, ih rest_ascending⟩
        rcases mem_insertEntry he with rfl | he
        · have : entry.1.value ≠ token.value := fun eq => ne (by
            cases token; cases hentry : entry.1; simp_all)
          have := UInt32.not_lt.1 not_lt
          exact UInt32.lt_of_le_of_ne this ‹_›
        · exact below e he

/-- The map with the value at `token` set. -/
def insert (map : TokenMap α) (token : Token) (value : α) : TokenMap α :=
  ⟨insertEntry token value map.entries, ascending_insertEntry token value map.ascending⟩

/-- The map of some entries, of which a later one replaces an earlier one of the same token. -/
def ofList (entries : List (Token × α)) : TokenMap α :=
  entries.foldl (fun map entry => map.insert entry.1 entry.2) empty

/-- The entries of both maps; those of `other` win. -/
def merge (map other : TokenMap α) : TokenMap α :=
  other.entries.foldl (fun map entry => map.insert entry.1 entry.2) map

/-- The number of entries. -/
def size (map : TokenMap α) : Nat := map.entries.length

end TokenMap

end ManagedCode
