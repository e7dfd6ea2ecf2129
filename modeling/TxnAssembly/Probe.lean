import TxnAssembly.Program

/-!
# Probes

A probe records the names of the steps that ran, in order. A program may have several of
them, and keeps them in its memory. A clone of a probe is a copy of its key, so all steps
that write to clones of one probe write to the same record.
-/
namespace TxnAssembly

structure Probe where
  calls : List String := []
deriving DecidableEq, Repr

namespace Probe

def record (p : Probe) (name : String) : Probe := ⟨p.calls ++ [name]⟩

/-- How often a name has been recorded. -/
def count (p : Probe) (name : String) : Nat := p.calls.count name

def isUntouched (p : Probe) : Bool := p.calls.isEmpty

@[simp] theorem calls_record (p : Probe) (name : String) :
    (p.record name).calls = p.calls ++ [name] := rfl

@[simp] theorem count_record (p : Probe) (name other : String) :
    (p.record name).count other = p.count other + if name = other then 1 else 0 := by
  simp [count, record, List.count_singleton]

end Probe

/-- Tells the probes of a program apart. -/
structure ProbeKey where
  index : Nat
deriving DecidableEq, Repr

/-- A memory with every probe made so far, beside all that a program remembers else. -/
structure Probes (τ : Type) where
  made : Array Probe := #[]
  rest : τ

namespace Probes

variable {τ : Type}

def probe? (m : Probes τ) (p : ProbeKey) : Option Probe := m.made[p.index]?

/-- Makes a probe that has recorded nothing. -/
def openProbe (m : Probes τ) : ProbeKey × Probes τ :=
  (⟨m.made.size⟩, { m with made := m.made.push {} })

def record (m : Probes τ) (p : ProbeKey) (name : String) : Probes τ :=
  { m with made := m.made.modify p.index (·.record name) }

@[simp] theorem probe?_openProbe (m : Probes τ) : m.openProbe.2.probe? m.openProbe.1 = some {} := by
  simp [openProbe, probe?]

/-- What is recorded with a probe is seen in it and in no other. -/
theorem probe?_record (m : Probes τ) (p q : ProbeKey) (name : String) :
    (m.record p name).probe? q =
      if q = p then (m.probe? p).map (·.record name) else m.probe? q := by
  obtain ⟨i⟩ := p
  obtain ⟨j⟩ := q
  by_cases h : j = i
  · subst h
    simp [probe?, record, Array.getElem?_modify]
  · have h' : i ≠ j := fun hij => h hij.symm
    simp [probe?, record, Array.getElem?_modify, h, h']

end Probes

/-- A step that records its name with a probe and has a fixed outcome. -/
structure ProbeStep where
  probe : ProbeKey
  name : String
  outcome : Bool
deriving DecidableEq, Repr

def ProbeStep.program {S τ : Type} (s : ProbeStep) : Program S (Probes τ) :=
  .remember (·.record s.probe s.name) fun _ => .finish s.outcome

/-- A step of a program with probes. -/
inductive Probed (S : Type) where
  | probe (step : ProbeStep)
  | other (step : S)
deriving DecidableEq, Repr

/-- The other steps may do whatever they like, with the probes too. -/
def Probed.program {S τ : Type} (others : S → Program (Probed S) (Probes τ)) (s : Probed S) :
    Program (Probed S) (Probes τ) :=
  match s with
  | probe step => step.program
  | other step => others step

end TxnAssembly
