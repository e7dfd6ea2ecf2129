import TxnAssembly.Session.Script

/-!
# Sessions

A session carries out instructions one after the other, from an empty world. No
failure ends it. Each instruction leaves an entry with its reply, the steps that
ran, what they noted and the events of that time.
-/
namespace TxnAssembly.Session

structure Entry where
  reply : Reply
  calls : List String
  notes : List Note
  log : List Event

/-- Steps of a session nest at most this deep. -/
def maxDepth : Nat := 10000

def steps : Meaning Step Journal := .ofPrograms Step.program maxDepth

/-- Carries out one instruction. -/
def perform (i : Instruction Step) (w : World Step Journal) :
    Reply × World Step Journal :=
  match i with
  | .command c =>
    match Run.settle (c.perform steps) w with
    | (.ok result, w) => (.of result, w)
    | (.error _, w) => (.abandoned, w)
  | .census name => (.census (.take w.memory.probe name), w)
  | .malformed fault => (.malformed fault, w)

/-- The world before an instruction: nothing noted and nothing logged yet. -/
def cleared (w : World Step Journal) : World Step Journal :=
  { w with
    engine := { w.engine with log := [] }
    memory := { w.memory with notes := [] } }

def entry (i : Instruction Step) (w : World Step Journal) : Entry × World Step Journal :=
  let before := w.memory.probe.calls.length
  let (reply, w) := perform i (cleared w)
  ({ reply := reply
     calls := w.memory.probe.calls.drop before
     notes := w.memory.notes
     log := w.engine.log }, w)

def entries (is : List (Instruction Step)) (w : World Step Journal) : List Entry :=
  match is with
  | [] => []
  | i :: is =>
    let (first, w) := entry i w
    first :: entries is w

/-- All entries of a session. -/
def transcript (is : List (Instruction Step)) : List Entry :=
  entries is { memory := {} }

end TxnAssembly.Session
