import ManagedCode.Proofs.Execution.Attainability
import ManagedCode.Proofs.Execution.Changes

/-!
# What no run changes

A program cannot load, forget or retype anything: the catalog and the options stay, every live
object stays live under its handle, and it stays what it is. Strings keep their text, arrays their
element kind and length. What was written to the console stays written. All this is shown of one
change and carried along the changes of a run, which may end with a result or a fault.
-/

namespace ManagedCode

namespace Machine

/-- The second machine still has what the first one has and no program can change. -/
structure Preserves (m m' : Machine) : Prop where
  catalog : m'.catalog = m.catalog
  core : m'.core = m.core
  options : m'.options = m.options
  /-- What was written stays written. -/
  output : ∃ text, m'.output = m.output ++ text
  /-- The heap stays in order. -/
  heap : m'.heap.WellFormed
  /-- Live objects stay live and what they are. -/
  objects : ∀ handle object, m.heap.get? handle = some object →
    ∃ object', m'.heap.get? handle = some object' ∧ object.Keeps object'

/-- A change that leaves the heap and what is loaded preserves what is permanent. -/
theorem Preserves.of_heap_eq {m m' : Machine} (hw : m.heap.WellFormed)
    (hcatalog : m'.catalog = m.catalog) (hcore : m'.core = m.core)
    (hoptions : m'.options = m.options) (houtput : ∃ text, m'.output = m.output ++ text)
    (hheap : m'.heap = m.heap) : m.Preserves m' where
  catalog := hcatalog
  core := hcore
  options := hoptions
  output := houtput
  heap := hheap ▸ hw
  objects := by
    intro handle object ho
    rw [hheap]
    exact ⟨object, ho, .refl object⟩

/-- A machine with a well-formed heap preserves what it has. -/
theorem Preserves.refl {m : Machine} (hw : m.heap.WellFormed) : m.Preserves m :=
  .of_heap_eq hw rfl rfl rfl ⟨"", by simp⟩ rfl

/-- What is preserved in two stages is preserved. -/
theorem Preserves.trans {a b c : Machine} (hab : a.Preserves b) (hbc : b.Preserves c) :
    a.Preserves c where
  catalog := hbc.catalog.trans hab.catalog
  core := hbc.core.trans hab.core
  options := hbc.options.trans hab.options
  output := by
    obtain ⟨first, hfirst⟩ := hab.output
    obtain ⟨second, hsecond⟩ := hbc.output
    exact ⟨first ++ second, by rw [hsecond, hfirst, String.append_assoc]⟩
  heap := hbc.heap
  objects := by
    intro handle object ho
    obtain ⟨object', ho', hkeeps⟩ := hab.objects handle object ho
    obtain ⟨object'', ho'', hkeeps'⟩ := hbc.objects handle object' ho'
    exact ⟨object'', ho'', hkeeps.trans hkeeps'⟩

/-- An edit changes at most the object that the handle names, and that one in kind. -/
theorem preserves_modify {m : Machine} (hw : m.heap.WellFormed) {handle : Handle}
    {f : Object → Object}
    (h : ∀ object, m.heap.get? handle = some object → object.Keeps (f object)) :
    m.Preserves { m with heap := m.heap.modify handle f } where
  catalog := rfl
  core := rfl
  options := rfl
  output := ⟨"", by simp⟩
  heap := hw.modify handle f
  objects := by
    intro other object ho
    rw [Heap.get?_modify]
    by_cases heq : other = handle
    · subst heq
      exact ⟨f object, by simp [ho], h object ho⟩
    · exact ⟨object, by simp [heq, ho], .refl object⟩

/-- One change preserves what no program can change. -/
theorem Change.preserves {m m' : Machine} (h : Change m m') (hw : m.heap.WellFormed) :
    m.Preserves m' := by
  cases h with
  | calls calls => exact .of_heap_eq hw rfl rfl rfl ⟨"", by simp⟩ rfl
  | statics statics => exact .of_heap_eq hw rfl rfl rfl ⟨"", by simp⟩ rfl
  | write text => exact .of_heap_eq hw rfl rfl rfl ⟨text, rfl⟩ rfl
  | files files => exact .of_heap_eq hw rfl rfl rfl ⟨"", by simp⟩ rfl
  | @make object hr hm =>
    refine ⟨rfl, rfl, rfl, ⟨"", by simp⟩, hw.add hr object, ?_⟩
    intro handle found hfound
    exact ⟨found, Heap.get?_add_of_get? hw hfound, .refl found⟩
  | edit hf => exact preserves_modify hw hf

/-- So does every sequence of changes. -/
theorem Leads.preserves {m m' : Machine} (h : m.Leads m') (hw : m.heap.WellFormed) :
    m.Preserves m' := by
  induction h with
  | refl => exact .refl hw
  | tail _ hchange ih => exact ih.trans (hchange.preserves ih.heap)

/-- What a call or a start of the program leaves as it was, whether it returns a result or a fault:
the catalog and the options; every live handle, which still names an object of the same type with as
many slots; the text of every string; the element kind and the length of every array; and what the
console shows, to which it can only add. -/
theorem permanent_in_runs {m : Machine} (hw : m.heap.WellFormed) {fuel : Nat}
    {outcome : Outcome (Option Value)}
    (h : (∃ id arguments, m.call fuel id arguments = some outcome) ∨
      ∃ texts, m.start fuel texts = some outcome) :
    outcome.machine.catalog = m.catalog ∧ outcome.machine.core = m.core ∧
      outcome.machine.options = m.options ∧
      (∀ handle object, m.heap.get? handle = some object →
        ∃ object', outcome.machine.heap.get? handle = some object' ∧
          object'.type = object.type ∧ object'.slots.length = object.slots.length ∧
          object'.text? = object.text? ∧
          ∀ elements, object.elements? = some elements →
            ∃ elements', object'.elements? = some elements' ∧
              elements'.kind = elements.kind ∧ elements'.size = elements.size) ∧
      ∃ text, outcome.machine.output = m.output ++ text := by
  have hleads : m.Leads outcome.machine := by
    rcases h with ⟨id, arguments, hcall⟩ | ⟨texts, hstart⟩
    · exact leads_call hcall
    · exact leads_start hstart
  have hkept := hleads.preserves hw
  refine ⟨hkept.catalog, hkept.core, hkept.options, ?_, hkept.output⟩
  intro handle object ho
  obtain ⟨object', ho', hkeeps⟩ := hkept.objects handle object ho
  exact ⟨object', ho', hkeeps.type, hkeeps.length_slots, hkeeps.text?,
    fun elements he => hkeeps.elements? he⟩

/-- A string that the program writes to the console is still there afterwards. -/
theorem permanent_in_runs_written :
    let m := Outcome.machine (Exec.allocString "text" (Machine.new {} .empty))
    ∃ outcome, m.heap.WellFormed ∧ m.call 0 ⟨29⟩ [.ref ⟨0, 0⟩] = some outcome ∧
      outcome.machine.output = "text\n" ∧ outcome.machine.catalog = m.catalog ∧
      ∃ object, outcome.machine.heap.get? ⟨0, 0⟩ = some object ∧ object.text? = some "text" := by
  intro m
  have hattained : Attainable {} .empty m := .act (.allocString "text") 0 .new rfl
  have hw : m.heap.WellFormed := hattained.heap.1
  have hcall : m.call 0 ⟨29⟩ [.ref ⟨0, 0⟩] =
      some ((m.call 0 ⟨29⟩ [.ref ⟨0, 0⟩]).get (by decide +kernel)) := by
    rw [Option.some_get]
  obtain ⟨hcatalog, -, -, hobjects, -⟩ := permanent_in_runs hw (Or.inl ⟨_, _, hcall⟩)
  obtain ⟨object, hobject, -, -, htext, -⟩ :=
    hobjects ⟨0, 0⟩ ⟨Library.typeId Library.string, [.text "text"]⟩ (by decide +kernel)
  exact ⟨_, hw, hcall, by decide +kernel, hcatalog, object, hobject, htext⟩

end Machine

end ManagedCode
