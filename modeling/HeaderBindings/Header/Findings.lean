import HeaderBindings.Header.Problem

/-! Reading a header in rounds. A round looks for the next block, reads it or reports it, and
leaves the cursor behind it; the findings of a header are what its rounds find, in order. -/

namespace HeaderBindings.Header

/-- What was read from a header, and the problems that were met on the way. -/
structure Findings (α : Type) where
  items : List α := []
  problems : List Problem := []
deriving DecidableEq, Repr

namespace Findings

/-- Findings followed by later ones. -/
def append (first later : Findings α) : Findings α :=
  ⟨first.items ++ later.items, first.problems ++ later.problems⟩

instance : Append (Findings α) := ⟨append⟩

/-- One item. -/
def item (a : α) : Findings α := { items := [a] }

/-- One problem. -/
def problem (p : Problem) : Findings α := { problems := [p] }

/-- The reports of the problems. -/
def diagnostics (f : Findings α) : List Diagnostic := f.problems.map Problem.diagnostic

@[simp] theorem items_append (a b : Findings α) : (a ++ b).items = a.items ++ b.items := rfl

@[simp] theorem problems_append (a b : Findings α) :
    (a ++ b).problems = a.problems ++ b.problems := rfl

end Findings

/-- The outcome of one round: there is no further block, or something was found and reading goes
on from a later place. -/
inductive Round (α : Type) where
  | finished
  | found (batch : Findings α) (next : Cursor)
deriving DecidableEq, Repr

/-- Repeats a round until it finds no further block. A round that does not move the cursor
forward is the last. -/
def collect (round : Cursor → Except BadCut (Round α)) (s : Cursor) :
    Except BadCut (Findings α) := do
  match (← round s) with
  | .finished => return {}
  | .found batch next =>
    if _h : next.remaining < s.remaining then
      return batch ++ (← collect round next)
    else
      return batch
termination_by s.remaining

end HeaderBindings.Header
