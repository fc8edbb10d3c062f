import ManagedCode.Text.Lines
import ManagedCode.Text.Literal

/-!
# Dividing what was joined

Joining texts with a separator that occurs in none of them and dividing at the separator gives the
texts again, and so do the lines of texts joined by line feeds. The other way round, the pieces of a
text contain no separator, and with the separators between them they are the text. Blanks are cut
off only where there are any, and reading the inside of a literal undoes writing it.
-/

namespace ManagedCode.Text

/-! ## Blanks -/

/-- A text that neither starts nor ends with a blank. -/
def Trimmed (cs : List Char) : Prop :=
  (∀ c, cs.head? = some c → isBlank c = false) ∧ ∀ c, cs.getLast? = some c → isBlank c = false

private theorem dropWhile_of_head {p : Char → Bool} {cs : List Char}
    (h : ∀ c, cs.head? = some c → p c = false) : cs.dropWhile p = cs := by
  cases cs with
  | nil => rfl
  | cons c cs => rw [List.dropWhile_cons_of_neg (by simp [h c rfl])]

/-- There are no blanks in front of a trimmed text. -/
theorem Trimmed.dropWhile {cs : List Char} (h : Trimmed cs) : cs.dropWhile isBlank = cs :=
  dropWhile_of_head h.1

/-- Nothing is cut off a trimmed text. -/
theorem Trimmed.trim {cs : List Char} (h : Trimmed cs) : trim cs = cs := by
  have hend : ∀ c, cs.reverse.head? = some c → isBlank c = false := by
    intro c hc
    rw [List.head?_reverse] at hc
    exact h.2 c hc
  rw [Text.trim, h.dropWhile, dropEndWhile, dropWhile_of_head hend, List.reverse_reverse]

/-- Trimming takes away a blank in front. -/
theorem Trimmed.trim_blank_cons {cs : List Char} (h : Trimmed cs) : Text.trim (' ' :: cs) = cs := by
  have hdrop : (' ' :: cs).dropWhile isBlank = cs.dropWhile isBlank :=
    List.dropWhile_cons_of_pos (by decide)
  rw [Text.trim, hdrop]
  exact h.trim

/-! ## Separators -/

/-- A text is split where the test holds for the first time. -/
theorem splitFirst?_append {p : Char → Bool} {before : List Char} {c : Char}
    (hb : ∀ c ∈ before, p c = false) (hc : p c = true) (after : List Char) :
    splitFirst? p (before ++ c :: after) = some (before, after) := by
  induction before with
  | nil => simp [splitFirst?, hc]
  | cons b before ih =>
    rw [List.forall_mem_cons] at hb
    simp [splitFirst?, hb.1, ih hb.2]

/-- A text is not split where the test never holds. -/
theorem splitFirst?_eq_none {p : Char → Bool} {cs : List Char} (h : ∀ c ∈ cs, p c = false) :
    splitFirst? p cs = none := by
  induction cs with
  | nil => rfl
  | cons c cs ih =>
    rw [List.forall_mem_cons] at h
    simp [splitFirst?, h.1, ih h.2]

/-- Dividing is what the standard library calls splitting. -/
theorem splitAll_eq_splitOnP (p : Char → Bool) (cs : List Char) :
    splitAll p cs = cs.splitOnP p := by
  induction cs with
  | nil => rfl
  | cons c cs ih =>
    obtain ⟨piece, pieces, hsplit⟩ := List.exists_cons_of_ne_nil (List.splitOnP_ne_nil p cs)
    rw [splitAll, ih, List.splitOnP_cons_eq_if_modifyHead, hsplit]
    rfl

/-- Dividing at a separator gives the texts that were joined with it. -/
theorem splitAll_intercalate {c : Char} {pieces : List (List Char)} (hn : pieces ≠ [])
    (hp : ∀ piece ∈ pieces, c ∉ piece) : splitAll (· == c) ([c].intercalate pieces) = pieces := by
  rw [splitAll_eq_splitOnP]
  exact List.splitOn_intercalate c hp hn

/-- Joining with a separator gives the text that was divided at it. -/
theorem intercalate_splitAll (c : Char) (cs : List Char) :
    [c].intercalate (splitAll (· == c) cs) = cs := by
  rw [splitAll_eq_splitOnP]
  exact List.intercalate_splitOn c

/-- The first piece of a text that starts with no separator starts with that character too. -/
theorem splitAll_cons_of_neg {p : Char → Bool} {c : Char} (hc : p c = false) (cs : List Char) :
    ∃ piece pieces, splitAll p cs = piece :: pieces ∧
      splitAll p (c :: cs) = (c :: piece) :: pieces := by
  obtain ⟨piece, pieces, hsplit⟩ := List.exists_cons_of_ne_nil (List.splitOnP_ne_nil p cs)
  rw [← splitAll_eq_splitOnP] at hsplit
  exact ⟨piece, pieces, hsplit, by simp [splitAll, hc, hsplit]⟩

/-- A separator in front ends an empty piece. -/
theorem splitAll_cons_of_pos {p : Char → Bool} {c : Char} (hc : p c = true) (cs : List Char) :
    splitAll p (c :: cs) = [] :: splitAll p cs := by
  rw [splitAll, if_pos hc]

/-- There is one piece more than there are separators. -/
theorem length_splitAll (p : Char → Bool) (cs : List Char) :
    (splitAll p cs).length = cs.countP p + 1 := by
  induction cs with
  | nil => rfl
  | cons c cs ih =>
    cases hc : p c with
    | true => rw [splitAll_cons_of_pos hc, List.length_cons, ih, List.countP_cons_of_pos hc]
    | false =>
      obtain ⟨piece, pieces, hsplit, hcons⟩ := splitAll_cons_of_neg hc cs
      rw [hcons, List.countP_cons_of_neg (by simp [hc]), ← ih, hsplit]
      rfl

/-- No piece contains a separator. -/
theorem eq_false_of_mem_splitAll {p : Char → Bool} {cs piece : List Char}
    (h : piece ∈ splitAll p cs) {d : Char} (hd : d ∈ piece) : p d = false := by
  induction cs generalizing piece d with
  | nil =>
    rw [List.eq_of_mem_singleton h] at hd
    cases hd
  | cons c cs ih =>
    cases hc : p c with
    | true =>
      rw [splitAll_cons_of_pos hc] at h
      rcases List.mem_cons.mp h with rfl | h
      · cases hd
      · exact ih h hd
    | false =>
      obtain ⟨first, pieces, hsplit, hcons⟩ := splitAll_cons_of_neg hc cs
      rw [hcons] at h
      rw [hsplit] at ih
      rcases List.mem_cons.mp h with rfl | h
      · rcases List.mem_cons.mp hd with rfl | hd
        · exact hc
        · exact ih List.mem_cons_self hd
      · exact ih (List.mem_cons_of_mem _ h) hd

/-- Pieces with separators between them, one after each piece as long as there are any. -/
def interleave : List (List Char) → List Char → List Char
  | piece :: pieces, c :: cs => piece ++ c :: interleave pieces cs
  | pieces, _ => pieces.flatten

/-- The pieces with the separators between them, in the order in which they occur, are the text. -/
theorem interleave_splitAll (p : Char → Bool) (cs : List Char) :
    interleave (splitAll p cs) (cs.filter p) = cs := by
  induction cs with
  | nil => rfl
  | cons c cs ih =>
    cases hc : p c with
    | true =>
      rw [splitAll_cons_of_pos hc, List.filter_cons_of_pos hc]
      exact congrArg (c :: ·) ih
    | false =>
      obtain ⟨piece, pieces, hsplit, hcons⟩ := splitAll_cons_of_neg hc cs
      rw [hsplit] at ih
      rw [hcons, List.filter_cons_of_neg (by simp [hc])]
      refine Eq.trans ?_ (congrArg (c :: ·) ih)
      cases cs.filter p <;> rfl

/-- The pieces of a text between separators. -/
structure Divides (pieces : List (List Char)) (separators text : List Char) : Prop where
  /-- There is one piece more than the separators occur in the text. -/
  length : pieces.length = text.countP separators.contains + 1
  /-- No piece contains a separator. -/
  free : ∀ piece ∈ pieces, ∀ c ∈ piece, c ∉ separators
  /-- With the separators between them, in the order of the text, the pieces are the text. -/
  interleave : interleave pieces (text.filter separators.contains) = text

/-- Splitting divides a text as it should be divided. -/
theorem divides_splitAll (separators text : List Char) :
    Divides (splitAll separators.contains text) separators text where
  length := length_splitAll _ _
  free piece hpiece c hc hmem := by
    have hfree := eq_false_of_mem_splitAll hpiece hc
    rw [List.contains_iff_mem.mpr hmem] at hfree
    cases hfree
  interleave := interleave_splitAll _ _

/-! ## Lines -/

/-- A text that is a line of its own: not empty, without a line feed, and with no carriage return at
its end. -/
structure IsLine (line : List Char) : Prop where
  ne_nil : line ≠ []
  noFeed : '\n' ∉ line
  noReturn : line.getLast? ≠ some '\r'

/-- A line has no return at its end to be dropped. -/
theorem dropReturn_of_isLine {line : List Char} (h : IsLine line) : dropReturn line = line := by
  unfold dropReturn
  split
  · rename_i rest hr
    have hlast : line.getLast? = some '\r' := by
      rw [← List.head?_reverse, hr, List.head?_cons]
    exact absurd hlast h.noReturn
  · rfl

/-- The lines of lines joined by line feeds are these lines. -/
theorem lines_intercalate {ls : List (List Char)} (h : ∀ line ∈ ls, IsLine line) :
    lines (['\n'].intercalate ls) = ls := by
  by_cases hn : ls = []
  · subst hn
    rfl
  · have hsplit := splitAll_intercalate hn fun line hm => (h line hm).noFeed
    have hended : ls.dropLast.map dropReturn = ls.dropLast := by
      refine (List.map_congr_left fun line hm => ?_).trans (List.map_id _)
      exact dropReturn_of_isLine (h line (List.dropLast_subset _ hm))
    have hlast := List.getLast?_eq_some_getLast hn
    have hne := (h _ (List.getLast_mem hn)).ne_nil
    simp only [lines, hsplit, hended, hlast]
    exact List.dropLast_concat_getLast hn

/-! ## Literals -/

private theorem unescapeSign?_of_escapeSign? {c sign : Char} (h : escapeSign? c = some sign) :
    unescapeSign? sign = some c := by
  unfold escapeSign? at h
  split at h <;> cases h <;> rfl

/-- What needs no escape is no backslash, no quote and no line break. -/
theorem ne_of_escapeSign?_eq_none {c : Char} (h : escapeSign? c = none) :
    c ≠ '\\' ∧ c ≠ '"' ∧ c ≠ '\n' := by
  refine ⟨?_, ?_, ?_⟩ <;> rintro rfl <;> cases h

/-- Reading the inside of a literal undoes writing it. -/
theorem unescape_escape (cs : List Char) : unescape (escape cs) = .ok cs := by
  induction cs with
  | nil => rfl
  | cons c cs ih =>
    unfold escape
    split
    · rename_i sign hs
      rw [unescape, unescapeSign?_of_escapeSign? hs, ih]
      rfl
    · rename_i hs
      have hc := (ne_of_escapeSign?_eq_none hs).1
      rw [unescape, ih]
      · rfl
      · exact fun h => absurd h hc
      · exact fun _ _ h => absurd h hc

/-- The inside of a literal has no line feed. -/
theorem feed_not_mem_escape (cs : List Char) : '\n' ∉ escape cs := by
  induction cs with
  | nil => exact List.not_mem_nil
  | cons c cs ih =>
    unfold escape
    split
    · rename_i sign hs
      have hsign : sign ≠ '\n' := by
        rintro rfl
        cases unescapeSign?_of_escapeSign? hs
      simp [ih, hsign.symm]
    · rename_i hs
      have hc := (ne_of_escapeSign?_eq_none hs).2.2
      simp [ih, hc.symm]

end ManagedCode.Text
