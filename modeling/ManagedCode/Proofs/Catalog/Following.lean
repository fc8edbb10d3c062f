import Mathlib.Data.List.Chain
import Mathlib.Data.List.Nodup
import Mathlib.Data.List.Perm.Subperm
import Mathlib.Logic.Relation

/-!
# Following a chain

A partial function leads from an element to the next one. Following it lists the elements from a
first one on, and stops where it leads nowhere or back to an element already met. With rounds enough
for all elements that lead on, the list holds exactly what can be reached, each element once, and
its last element leads back into the list exactly if something that can be reached lies on a cycle.

Both walks of this library are of this form: the one through the base types of a catalog and the one
through the types that a module declares.
-/

namespace ManagedCode

open Relation

variable {α : Type}

/-- One element leads to the other. -/
def LeadsTo (next : α → Option α) (x y : α) : Prop := next x = some y

/-- Every element that can be reached and leads on is one of `all`. -/
def Within (next : α → Option α) (all : List α) (x : α) : Prop :=
  ∀ y, ReflTransGen (LeadsTo next) x y → (next y).isSome → y ∈ all

/-- The rounds are enough for those of `all` that were not met. -/
structure Room (all : List α) (rounds : Nat) (met : List α) : Prop where
  nodup : met.Nodup
  subset : met ⊆ all
  length_lt : all.length < rounds + met.length

/-- The elements from `x` on that are not among those already `met`, at most `rounds` of them. -/
def follow [DecidableEq α] (next : α → Option α) : (rounds : Nat) → (met : List α) → α → List α
  | 0, _, _ => []
  | rounds + 1, met, x =>
    match next x with
    | none => [x]
    | some y => if y ∈ x :: met then [x] else x :: follow next rounds (x :: met) y

section Following

variable {next : α → Option α} {all met : List α} {rounds : Nat} {x y z : α}

/-- A step leads to one next item at most. -/
theorem leadsTo_rightUnique (next : α → Option α) : Relator.RightUnique (LeadsTo next) :=
  fun _ _ _ hb hc => Option.some.inj (hb.symm.trans hc)

/-- What can be reached from a cycle lies on the cycle. -/
theorem onCycle_of_reaches (hc : TransGen (LeadsTo next) x x)
    (hr : ReflTransGen (LeadsTo next) x y) : TransGen (LeadsTo next) y y := by
  induction hr with
  | refl => exact hc
  | tail _ hn ih =>
    obtain ⟨w, hw, hback⟩ := TransGen.head'_iff.mp ih
    rw [leadsTo_rightUnique next hw hn] at hback
    exact .tail' hback hn

/-- At the start, a round more than there are items is enough. -/
theorem room_nil (h : all.length < rounds) : Room all rounds [] := ⟨.nil, by simp, by simpa⟩

/-- There is always a round left. -/
theorem Room.exists_succ (h : Room all rounds met) : ∃ fewer, rounds = fewer + 1 := by
  have hmet : met.length ≤ all.length := (List.subperm_of_subset h.nodup h.subset).length_le
  have hlt := h.length_lt
  exact ⟨rounds - 1, by omega⟩

/-- A visit uses up one round and one item. -/
theorem Room.visit (h : Room all (rounds + 1) met) (hx : x ∈ all) (hm : x ∉ met) :
    Room all rounds (x :: met) where
  nodup := List.nodup_cons.mpr ⟨hm, h.nodup⟩
  subset := List.cons_subset.mpr ⟨hx, h.subset⟩
  length_lt := by
    have hlt := h.length_lt
    simp only [List.length_cons]
    omega

/-- A step stays among the items. -/
theorem Within.step (h : Within next all x) (hn : next x = some y) : Within next all y :=
  fun z hz => h z (.head hn hz)

/-- A chain that comes back to one of its elements is one that runs into a cycle. -/
theorem onCycle_iff_exists_isChain {r : α → α → Prop} :
    (∃ y, ReflTransGen r x y ∧ TransGen r y y) ↔
      ∃ path : List α, path.head? = some x ∧ path.IsChain r ∧ ¬ path.Nodup := by
  constructor
  · rintro ⟨y, hr, hc⟩
    obtain ⟨z, hn, hback⟩ := TransGen.head'_iff.mp hc
    obtain ⟨there, hthere, hlast⟩ := List.exists_isChain_cons_of_relationReflTransGen hr
    obtain ⟨around, haround, hlast'⟩ := List.exists_isChain_cons_of_relationReflTransGen hback
    refine ⟨(x :: there) ++ (z :: around), rfl, ?_, ?_⟩
    · apply List.isChain_append.mpr
      refine ⟨hthere, haround, ?_⟩
      simp only [List.getLast?_eq_some_getLast (List.cons_ne_nil x there), hlast,
        Option.mem_some_iff, List.head?_cons]
      rintro _ rfl _ rfl
      exact hn
    · intro hnodup
      have hy : y ∈ x :: there := hlast ▸ List.getLast_mem _
      have hy' : y ∈ z :: around := hlast' ▸ List.getLast_mem _
      exact List.disjoint_of_nodup_append hnodup hy hy'
  · rintro ⟨path, hhead, hpath, hdup⟩
    induction path generalizing x with
    | nil => cases hhead
    | cons first rest ih =>
      obtain rfl : first = x := Option.some.inj hhead
      by_cases hrest : rest.Nodup
      · have hback : first ∈ rest := by
          by_contra hnew
          exact hdup (List.nodup_cons.mpr ⟨hnew, hrest⟩)
        have hpairs := List.isChain_iff_pairwise.mp (hpath.imp fun _ _ => TransGen.single)
        exact ⟨first, .refl, (List.pairwise_cons.mp hpairs).1 first hback⟩
      · cases rest with
        | nil => exact absurd .nil hrest
        | cons second rest =>
          obtain ⟨hn, hpath⟩ := List.isChain_cons_cons.mp hpath
          obtain ⟨y, hr, hc⟩ := ih rfl hpath hrest
          exact ⟨y, .head hn hr, hc⟩

variable [DecidableEq α]

/-- A walk ends where no step leads on. -/
theorem follow_of_none (hn : next x = none) : follow next (rounds + 1) met x = [x] := by
  simp [follow, hn]

/-- A walk ends where the next step leads to an item that was met. -/
theorem follow_of_met (hn : next x = some y) (hy : y ∈ x :: met) :
    follow next (rounds + 1) met x = [x] := by
  simp only [follow, hn, if_pos hy]

/-- A walk goes on where the next step leads to an item that is new. -/
theorem follow_of_new (hn : next x = some y) (hy : y ∉ x :: met) :
    follow next (rounds + 1) met x = x :: follow next rounds (x :: met) y := by
  simp only [follow, hn, if_neg hy]

/-- A walk meets only what steps lead to. -/
theorem reaches_of_mem_follow (h : y ∈ follow next rounds met x) :
    ReflTransGen (LeadsTo next) x y := by
  induction rounds generalizing met x with
  | zero => cases h
  | succ rounds ih =>
    cases hn : next x with
    | none =>
      rw [follow_of_none hn, List.mem_singleton] at h
      rw [h]
    | some z =>
      by_cases hz : z ∈ x :: met
      · rw [follow_of_met hn hz, List.mem_singleton] at h
        rw [h]
      · rw [follow_of_new hn hz] at h
        rcases List.mem_cons.mp h with rfl | h
        · exact .refl
        · exact .head hn (ih h)

/-- No element is listed that was met before. -/
theorem not_mem_met_of_mem_follow (hx : x ∉ met) (h : y ∈ follow next rounds met x) : y ∉ met := by
  induction rounds generalizing met x with
  | zero => cases h
  | succ rounds ih =>
    cases hn : next x with
    | none =>
      rw [follow_of_none hn, List.mem_singleton] at h
      rwa [h]
    | some z =>
      by_cases hz : z ∈ x :: met
      · rw [follow_of_met hn hz, List.mem_singleton] at h
        rwa [h]
      · rw [follow_of_new hn hz] at h
        rcases List.mem_cons.mp h with rfl | h
        · exact hx
        · exact fun hy => ih hz h (List.mem_cons_of_mem _ hy)

/-- No element is listed twice. -/
theorem nodup_follow (hx : x ∉ met) : (follow next rounds met x).Nodup := by
  induction rounds generalizing met x with
  | zero => exact .nil
  | succ rounds ih =>
    cases hn : next x with
    | none => simp [follow_of_none hn]
    | some z =>
      by_cases hz : z ∈ x :: met
      · simp [follow_of_met hn hz]
      · rw [follow_of_new hn hz, List.nodup_cons]
        exact ⟨fun h => not_mem_met_of_mem_follow hz h List.mem_cons_self, ih hz⟩

/-- Where a round is left the first element is listed first. -/
theorem head?_follow_succ : (follow next (rounds + 1) met x).head? = some x := by
  cases hn : next x with
  | none => simp [follow_of_none hn]
  | some z =>
    by_cases hz : z ∈ x :: met
    · simp [follow_of_met hn hz]
    · simp [follow_of_new hn hz]

/-- A walk meets first where it starts. -/
theorem Room.head?_follow (h : Room all rounds met) :
    (follow next rounds met x).head? = some x := by
  obtain ⟨fewer, rfl⟩ := h.exists_succ
  exact head?_follow_succ

/-- A walk meets where it starts. -/
theorem Room.mem_follow (h : Room all rounds met) : x ∈ follow next rounds met x :=
  List.mem_of_head? h.head?_follow

/-- Each listed element leads to the one listed after it. -/
theorem isChain_follow : (follow next rounds met x).IsChain (LeadsTo next) := by
  induction rounds generalizing met x with
  | zero => exact .nil
  | succ rounds ih =>
    cases hn : next x with
    | none =>
      rw [follow_of_none hn]
      exact .singleton x
    | some z =>
      by_cases hz : z ∈ x :: met
      · rw [follow_of_met hn hz]
        exact .singleton x
      · rw [follow_of_new hn hz]
        apply List.isChain_cons.mpr
        refine ⟨?_, ih⟩
        intro y hy
        cases rounds with
        | zero => cases hy
        | succ rounds =>
          rw [head?_follow_succ] at hy
          cases hy
          exact hn

/-- What a listed element leads to is listed, or was met before. -/
theorem Room.mem_follow_or_mem_met (h : Room all rounds met) (hw : Within next all x)
    (hx : x ∉ met) (hy : y ∈ follow next rounds met x) (hn : next y = some z) :
    z ∈ follow next rounds met x ∨ z ∈ met := by
  induction rounds generalizing met x with
  | zero => cases hy
  | succ rounds ih =>
    cases hnx : next x with
    | none =>
      rw [follow_of_none hnx, List.mem_singleton] at hy
      rw [hy, hnx] at hn
      cases hn
    | some w =>
      by_cases hw' : w ∈ x :: met
      · rw [follow_of_met hnx hw', List.mem_singleton] at hy ⊢
        rw [hy, hnx] at hn
        cases hn
        exact List.mem_cons.mp hw'
      · rw [follow_of_new hnx hw'] at hy ⊢
        have hroom : Room all rounds (x :: met) := h.visit (hw x .refl (by simp [hnx])) hx
        have hlater : z ∈ follow next rounds (x :: met) w ∨ z ∈ x :: met := by
          rcases List.mem_cons.mp hy with rfl | hy
          · rw [hnx] at hn
            cases hn
            exact .inl hroom.mem_follow
          · exact ih hroom (hw.step hnx) hw' hy
        rcases hlater with hlater | hlater
        · exact .inl (List.mem_cons_of_mem _ hlater)
        · rcases List.mem_cons.mp hlater with rfl | hlater
          · exact .inl List.mem_cons_self
          · exact .inr hlater

/-- From a first element, exactly what can be reached is listed. -/
theorem Room.mem_follow_iff (h : Room all rounds []) (hw : Within next all x) :
    y ∈ follow next rounds [] x ↔ ReflTransGen (LeadsTo next) x y := by
  constructor
  · exact reaches_of_mem_follow
  · intro hr
    induction hr with
    | refl => exact h.mem_follow
    | tail _ hn ih => exact (h.mem_follow_or_mem_met hw (by simp) ih hn).resolve_right (by simp)

omit [DecidableEq α] in
private theorem reaches_of_singleton (hz : [x].getLast? = some z) (hy : y ∈ [x]) :
    ReflTransGen (LeadsTo next) y z := by
  have hxz : x = z := by simpa using hz
  rw [List.mem_singleton.mp hy, hxz]

/-- Every listed element leads to the last one. -/
theorem reaches_getLast? (hz : (follow next rounds met x).getLast? = some z)
    (hy : y ∈ follow next rounds met x) : ReflTransGen (LeadsTo next) y z := by
  induction rounds generalizing met x with
  | zero => cases hy
  | succ rounds ih =>
    cases hn : next x with
    | none =>
      rw [follow_of_none hn] at hy hz
      exact reaches_of_singleton hz hy
    | some w =>
      by_cases hw : w ∈ x :: met
      · rw [follow_of_met hn hw] at hy hz
        exact reaches_of_singleton hz hy
      · rw [follow_of_new hn hw] at hy hz
        cases hrest : follow next rounds (x :: met) w with
        | nil =>
          rw [hrest] at hy hz
          exact reaches_of_singleton hz hy
        | cons first rest =>
          have hlast : (follow next rounds (x :: met) w).getLast? = some z := by
            rw [hrest, List.getLast?_cons_cons] at hz
            rw [hrest, hz]
          rcases List.mem_cons.mp hy with rfl | hy
          · have hz' := List.mem_of_getLast? hlast
            exact .head hn (reaches_of_mem_follow hz')
          · exact ih hlast hy

/-- The last element leads back into the list exactly if the chain runs into a cycle. -/
theorem Room.any_contains_iff (h : Room all rounds []) (hw : Within next all x) :
    (((follow next rounds [] x).getLast?.bind next).any (follow next rounds [] x).contains) = true ↔
      ∃ y, ReflTransGen (LeadsTo next) x y ∧ TransGen (LeadsTo next) y y := by
  rw [Option.any_eq_true]
  constructor
  · rintro ⟨z, hz, hlisted⟩
    obtain ⟨last, hlast, hn⟩ := Option.bind_eq_some_iff.mp hz
    refine ⟨last, reaches_of_mem_follow (List.mem_of_getLast? hlast), .head' hn ?_⟩
    exact reaches_getLast? hlast (List.contains_iff_mem.mp hlisted)
  · rintro ⟨y, hr, hc⟩
    have hy : y ∈ follow next rounds [] x := (h.mem_follow_iff hw).mpr hr
    obtain ⟨last, hlast⟩ := Option.ne_none_iff_exists'.mp
      (mt List.getLast?_eq_none_iff.mp (List.ne_nil_of_mem hy))
    obtain ⟨z, hn, -⟩ := TransGen.head'_iff.mp
      (onCycle_of_reaches hc (reaches_getLast? hlast hy))
    have hz := h.mem_follow_or_mem_met hw (by simp) (List.mem_of_getLast? hlast) hn
    refine ⟨z, Option.bind_eq_some_iff.mpr ⟨last, hlast, hn⟩, ?_⟩
    exact List.contains_iff_mem.mpr (hz.resolve_right (by simp))

/-! ## Chains without their first element -/

/-- A further round changes nothing where there is room. -/
theorem Room.follow_succ (h : Room all rounds met) (hw : Within next all x) (hx : x ∉ met) :
    follow next (rounds + 1) met x = follow next rounds met x := by
  induction rounds generalizing met x with
  | zero =>
    obtain ⟨_, hpos⟩ := h.exists_succ
    cases hpos
  | succ rounds ih =>
    cases hn : next x with
    | none => rw [follow_of_none hn, follow_of_none hn]
    | some y =>
      by_cases hy : y ∈ x :: met
      · rw [follow_of_met hn hy, follow_of_met hn hy]
      · have hroom := h.visit (hw x .refl (by simp [hn])) hx
        rw [follow_of_new hn hy, follow_of_new hn hy, ih hroom (hw.step hn) hy]

/-- However many rounds there are, where there is room they give the same. -/
theorem Room.follow_add (h : Room all rounds met) (hw : Within next all x) (hx : x ∉ met)
    (more : Nat) : follow next (rounds + more) met x = follow next rounds met x := by
  induction more with
  | zero => rfl
  | succ more ih =>
    have hroom : Room all (rounds + more) met :=
      ⟨h.nodup, h.subset, by have hlt := h.length_lt; omega⟩
    rw [← Nat.add_assoc, hroom.follow_succ hw hx, ih]

end Following

end ManagedCode
