import Jsni.Index.Basic

/-!
# Faulty type indexes

An index some of whose look-ups fail, each for one type name.
-/

namespace Jsni

/-- The questions that a type index answers. -/
inductive Question where
  | findType
  | superclass
  | interfaces
  | constructors
  | methods
  | fields
deriving DecidableEq, Repr

/-- A question about a type that fails. -/
structure Fault where
  question : Question
  typeName : String
  error : IndexError
deriving DecidableEq, Repr

/-- Answer unless a fault fits the question. The first that fits counts. -/
def Fault.guard (faults : List Fault) (question : Question) (typeName : String)
    (answer : Except IndexError α) : Except IndexError α :=
  match faults.find? fun f => f.question = question ∧ f.typeName = typeName with
  | some f => .error f.error
  | none   => answer

theorem Fault.eq_of_guard_eq_ok {faults : List Fault} {question : Question} {typeName : String}
    {answer : Except IndexError α} {a : α} (h : guard faults question typeName answer = .ok a) :
    answer = .ok a := by
  unfold guard at h
  split at h
  · simp at h
  · exact h

def TypeIndex.withFaults (idx : TypeIndex) (faults : List Fault) : TypeIndex where
  typeNames := idx.typeNames
  findType name := Fault.guard faults .findType name (idx.findType name)
  superclass t := Fault.guard faults .superclass t.name (idx.superclass t)
  interfaces t := Fault.guard faults .interfaces t.name (idx.interfaces t)
  constructors t := Fault.guard faults .constructors t.name (idx.constructors t)
  methods t name := Fault.guard faults .methods t.name (idx.methods t name)
  fields t name := Fault.guard faults .fields t.name (idx.fields t name)
  superclass_known h := idx.superclass_known (Fault.eq_of_guard_eq_ok h)
  interfaces_known h := idx.interfaces_known (Fault.eq_of_guard_eq_ok h)

end Jsni
