import BtApiBase.PyJson

/-!
# The limits of the interpreter

A text or a value may be nested deeper than the interpreter recurses, or hold an
integer of more digits than it converts. Then `json` raises, however well formed
the text or the value is otherwise. Where the limits lie depends on the version,
the settings and the depth of the stack, so they are given from outside.
-/

namespace PyJson

open PyText PyValue

/-- What is raised when a text is read, or a value made a text, that is beyond a limit. -/
structure Limits where
  reading : PyStr → Option PyExc
  writing : PyVal → Option PyExc

/-- Limits that nothing reaches. -/
def Limits.ample : Limits := ⟨fun _ => none, fun _ => none⟩

/-- A result, unless a limit comes before it. -/
def within {α : Type} (limit : Option PyExc) (r : Except PyExc α) : Except PyExc α :=
  match limit with
  | some exc => .error exc
  | none => r

def loadsWithin (limits : Limits) (py : Interp) (s : PyStr) : Except PyExc PyVal :=
  within (limits.reading s) (loads py s)

def writeWithin (limits : Limits) (py : Interp) (v : PyVal) : Except PyExc PyStr :=
  within (limits.writing v) (write py v)

theorem within_eq_ok {α : Type} {limit : Option PyExc} {r : Except PyExc α} {a : α} :
    within limit r = .ok a ↔ limit = none ∧ r = .ok a := by
  cases limit <;> simp [within]

theorem within_isOk {α : Type} {limit : Option PyExc} {r : Except PyExc α} :
    (∃ a, within limit r = .ok a) ↔ limit = none ∧ ∃ a, r = .ok a := by
  simp only [within_eq_ok, exists_and_left]

end PyJson
