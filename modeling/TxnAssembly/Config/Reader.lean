import TxnAssembly.Config.Problem
import TxnAssembly.Json.Yields

/-!
# Reading a configuration

A configuration document is a JSON object with keys in any order, or an array
with the settings in a fixed order. Missing settings take their defaults. The
text is read from left to right and the first problem ends the reading.
-/
namespace TxnAssembly.Config

open Json

/-- A problem of form is a problem of the document. -/
def checked {α : Type} (r : Except Fault α) : Except Problem α :=
  r.mapError .fault

@[simp] theorem checked_eq_ok {α : Type} {r : Except Fault α} {a : α} :
    checked r = .ok a ↔ r = .ok a := by
  cases r with
  | error fault => exact ⟨nofun, nofun⟩
  | ok b =>
    show Except.ok b = Except.ok a ↔ _
    rw [Except.ok.injEq, Except.ok.injEq]

/-- A number as a value found. -/
def Found.ofNumber (n : Json.Number) : Found :=
  match n with
  | .natural n => .integer n
  | .negative n => .integer (-n)
  | .real x => .real x

/-- Looks at a value only as far as its kind asks for. Brackets are not read. -/
def lookAt (cs : List Char) : Except Fault Found :=
  match cs with
  | [] => .error .unfinished
  | c :: rest =>
    if c = 'n' then (readWord ['u', 'l', 'l'] rest).map fun _ => .null
    else if c = 't' then (readWord ['r', 'u', 'e'] rest).map fun _ => .boolean true
    else if c = 'f' then (readWord ['a', 'l', 's', 'e'] rest).map fun _ => .boolean false
    else if c = '-' then (readNumber true rest).map fun p => .ofNumber p.1
    else if c.isDigit then (readNumber false (c :: rest)).map fun p => .ofNumber p.1
    else if c = '"' then (readBody rest).map fun p => .text (String.ofList p.1)
    else if c = '[' then .ok .sequence
    else if c = '\x7b' then .ok .map
    else .error .malformed

/-- The problem with a value that does not start as expected. -/
def mismatch (expected : Expected) (cs : List Char) : Problem :=
  match lookAt cs with
  | .error fault => .fault fault
  | .ok found => .wrongKind found expected

/-- A label is a text, or null for no label. -/
def readLabel (cs : List Char) : Except Problem (Option String × List Char) :=
  match skipBlank cs with
  | [] => .error (.fault .unfinished)
  | c :: rest =>
    if c = 'n' then (checked (readWord ['u', 'l', 'l'] rest)).map fun rest => (none, rest)
    else if c = '"' then
      (checked (readBody rest)).map fun p => (some (String.ofList p.1), p.2)
    else .error (mismatch .label (c :: rest))

/-- Reads the name of a policy from behind its opening quote. -/
def readPolicyName (cs : List Char) : Except Problem (RestartPolicy × List Char) :=
  match checked (readBody cs) with
  | .error problem => .error problem
  | .ok (name, rest) =>
    match RestartPolicy.ofName? (String.ofList name) with
    | some policy => .ok (policy, rest)
    | none => .error (.unknownPolicy (String.ofList name))

/-- Reads the null that stands for a policy without content. -/
def readUnit (cs : List Char) : Except Problem (List Char) :=
  match skipBlank cs with
  | [] => .error (.fault .unfinished)
  | c :: rest =>
    if c = 'n' then checked (readWord ['u', 'l', 'l'] rest)
    else .error (mismatch .unit (c :: rest))

/-- Reads the end of an object that may not go on. -/
def readObjectEnd (cs : List Char) : Except Problem (List Char) :=
  match skipBlank cs with
  | [] => .error (.fault .unfinished)
  | c :: rest =>
    if c = Bracket.object.close then .ok rest else .error (.fault .malformed)

/-- Reads a policy given as an object with one entry, from behind the brace. The
entry's key is a text as in any object: nothing else is looked at. -/
def readPolicyEntry (cs : List Char) : Except Problem (RestartPolicy × List Char) :=
  match skipBlank cs with
  | [] => .error (.fault .unfinished)
  | c :: rest =>
    if c = '"' then do
      let (policy, rest) ← readPolicyName rest
      let rest ← checked (readColon rest)
      let rest ← readUnit rest
      let rest ← readObjectEnd rest
      return (policy, rest)
    else .error (.fault .malformed)

/-- A policy is its name, or an object that maps its name to null. -/
def readPolicy (cs : List Char) : Except Problem (RestartPolicy × List Char) :=
  match skipBlank cs with
  | [] => .error (.fault .unfinished)
  | c :: rest =>
    if c = '"' then readPolicyName rest
    else if c = '\x7b' then readPolicyEntry rest
    else .error (.fault .malformed)

/-- Only a natural number of 64 bits is a capacity. -/
def sizeOf (n : Json.Number) : Except Problem UInt64 :=
  match n with
  | .natural n => .ok n.toUInt64
  | .negative n => .error (.negativeSize n)
  | .real x => .error (.wrongKind (.real x) .size)

/-- Reads a capacity whose sign is known. -/
def readSizeAfter (negative : Bool) (cs : List Char) : Except Problem (UInt64 × List Char) :=
  match checked (readNumber negative cs) with
  | .error problem => .error problem
  | .ok (n, rest) => (sizeOf n).map fun size => (size, rest)

def readSize (cs : List Char) : Except Problem (UInt64 × List Char) :=
  match skipBlank cs with
  | [] => .error (.fault .unfinished)
  | c :: rest =>
    if c = '-' then readSizeAfter true rest
    else if c.isDigit then readSizeAfter false (c :: rest)
    else .error (mismatch .size (c :: rest))

/-- The settings that a document has given so far. -/
structure Gathered where
  label : Option (Option String) := none
  restartPolicy : Option RestartPolicy := none
  capacityHint : Option UInt64 := none
deriving DecidableEq, Repr

namespace Gathered

def has (g : Gathered) (f : Field) : Bool :=
  match f with
  | .label => g.label.isSome
  | .restartPolicy => g.restartPolicy.isSome
  | .capacityHint => g.capacityHint.isSome

/-- Settings that the document does not give take their defaults. -/
def config (g : Gathered) : Config :=
  let default : Config := {}
  { label := g.label.getD default.label
    restartPolicy := g.restartPolicy.getD default.restartPolicy
    capacityHint := g.capacityHint.getD default.capacityHint }

end Gathered

/-- Reads the value of one setting. -/
def readField (f : Field) (g : Gathered) (cs : List Char) : Except Problem (Gathered × List Char) :=
  match f with
  | .label => (readLabel cs).map fun p => ({ g with label := some p.1 }, p.2)
  | .restartPolicy => (readPolicy cs).map fun p => ({ g with restartPolicy := some p.1 }, p.2)
  | .capacityHint => (readSize cs).map fun p => ({ g with capacityHint := some p.1 }, p.2)

/-- Reads what follows a key: an unknown key takes any value, a known one may
come only once. -/
def readEntry (key : String) (g : Gathered) (cs : List Char) : Except Problem (Gathered × List Char) :=
  match Field.ofName? key with
  | none => do
    let rest ← checked (readColon cs)
    let rest ← checked (skipAny rest)
    return (g, rest)
  | some f =>
    if g.has f then .error (.repeatedKey f)
    else do
      let rest ← checked (readColon cs)
      readField f g rest

/-- Reads one member of the document's object. -/
def readMember (g : Gathered) (cs : List Char) : Except Problem (Gathered × List Char) :=
  match skipBlank cs with
  | [] => .error (.fault .unfinished)
  | c :: rest =>
    if c = '"' then do
      let (key, rest) ← checked (readBody rest)
      readEntry (String.ofList key) g rest
    else .error (.fault .malformed)

theorem readLabel_yields (cs : List Char) :
    Yields (fun p => p.2.length < cs.length) (readLabel cs) := by
  unfold readLabel
  have hb := skipBlank_length_le cs
  split
  · exact .error _
  · next c rest hc =>
    rw [hc, List.length_cons] at hb
    split
    · exact .map (.mapError ((readWord_yields _ rest).mono fun r hr => by simp; omega))
    · split
      · exact .map (.mapError ((readBody_yields rest).mono fun r hr => by simp; omega))
      · exact .error _

theorem readPolicyName_yields (cs : List Char) :
    Yields (fun p => p.2.length < cs.length) (readPolicyName cs) := by
  unfold readPolicyName
  split
  · exact .error _
  · next name rest h =>
    have := readBody_yields cs _ (checked_eq_ok.1 h)
    split
    · exact .ok this
    · exact .error _

theorem readUnit_yields (cs : List Char) :
    Yields (fun rest => rest.length < cs.length) (readUnit cs) := by
  unfold readUnit
  have hb := skipBlank_length_le cs
  split
  · exact .error _
  · next c rest hc =>
    rw [hc, List.length_cons] at hb
    split
    · exact .mapError ((readWord_yields _ rest).mono fun r hr => by omega)
    · exact .error _

theorem readObjectEnd_yields (cs : List Char) :
    Yields (fun rest => rest.length < cs.length) (readObjectEnd cs) := by
  unfold readObjectEnd
  have hb := skipBlank_length_le cs
  split
  · exact .error _
  · next c rest hc =>
    rw [hc, List.length_cons] at hb
    split
    · exact .ok (by omega)
    · exact .error _

theorem readPolicyEntry_yields (cs : List Char) :
    Yields (fun p => p.2.length < cs.length) (readPolicyEntry cs) := by
  unfold readPolicyEntry
  have hb := skipBlank_length_le cs
  split
  · exact .error _
  · next c rest hc =>
    rw [hc, List.length_cons] at hb
    split
    · refine (readPolicyName_yields rest).bind fun a ha => ?_
      refine (readColon_yields a.2).mapError.bind fun r₁ h₁ => ?_
      refine (readUnit_yields r₁).bind fun r₂ h₂ => ?_
      refine (readObjectEnd_yields r₂).bind fun r₃ h₃ => ?_
      exact .ok (by simp; omega)
    · exact .error _

theorem readPolicy_yields (cs : List Char) :
    Yields (fun p => p.2.length < cs.length) (readPolicy cs) := by
  unfold readPolicy
  have hb := skipBlank_length_le cs
  split
  · exact .error _
  · next c rest hc =>
    rw [hc, List.length_cons] at hb
    split
    · exact (readPolicyName_yields rest).mono fun p hp => by omega
    · split
      · exact (readPolicyEntry_yields rest).mono fun p hp => by omega
      · exact .error _

theorem readSizeAfter_yields (negative : Bool) (cs : List Char) :
    Yields (fun p => p.2.length < cs.length) (readSizeAfter negative cs) := by
  unfold readSizeAfter
  split
  · exact .error _
  · next n rest h =>
    have := readNumber_yields negative cs _ (checked_eq_ok.1 h)
    exact .map fun _ _ => this

theorem readSize_yields (cs : List Char) :
    Yields (fun p => p.2.length < cs.length) (readSize cs) := by
  unfold readSize
  have hb := skipBlank_length_le cs
  split
  · exact .error _
  · next c rest hc =>
    rw [hc, List.length_cons] at hb
    split
    · exact (readSizeAfter_yields true rest).mono fun p hp => by omega
    · split
      · refine (readSizeAfter_yields false (c :: rest)).mono fun p hp => ?_
        rw [List.length_cons] at hp
        omega
      · exact .error _

/-- Every setting takes at least one character. -/
theorem readField_yields (f : Field) (g : Gathered) (cs : List Char) :
    Yields (fun p => p.2.length < cs.length) (readField f g cs) := by
  cases f with
  | label => exact .map (readLabel_yields cs)
  | restartPolicy => exact .map (readPolicy_yields cs)
  | capacityHint => exact .map (readSize_yields cs)

theorem readEntry_yields (key : String) (g : Gathered) (cs : List Char) :
    Yields (fun p => p.2.length < cs.length) (readEntry key g cs) := by
  unfold readEntry
  split
  · refine (readColon_yields cs).mapError.bind fun r₁ h₁ => ?_
    refine (skipAny_yields r₁).mapError.bind fun r₂ h₂ => ?_
    exact .ok (by simp; omega)
  · split
    · exact .error _
    · refine (readColon_yields cs).mapError.bind fun r₁ h₁ => ?_
      exact (readField_yields _ g r₁).mono fun p hp => by omega

theorem readMember_yields (g : Gathered) (cs : List Char) :
    Yields (fun p => p.2.length < cs.length) (readMember g cs) := by
  unfold readMember
  have hb := skipBlank_length_le cs
  split
  · exact .error _
  · next c rest hc =>
    rw [hc, List.length_cons] at hb
    split
    · refine (readBody_yields rest).mapError.bind fun p hp => ?_
      exact (readEntry_yields _ g p.2).mono fun p hp => by omega
    · exact .error _

/-- Reads on behind a member to the end of the document's object. -/
def readMembers (g : Gathered) (cs : List Char) : Except Problem (Gathered × List Char) :=
  match _hb : skipBlank cs with
  | [] => .error (.fault .unfinished)
  | c :: rest =>
    if c = Bracket.object.close then .ok (g, rest)
    else if c = ',' then
      match _hm : readMember g rest with
      | .error problem => .error problem
      | .ok (more, behind) => readMembers more behind
    else .error (.fault .malformed)
termination_by cs.length
decreasing_by
  have hlt := skipBlank_length_le cs
  rw [_hb, List.length_cons] at hlt
  have := readMember_yields g rest _ _hm
  simp only at this
  omega

/-- Reads the document's object from behind its brace. -/
def readObject (cs : List Char) : Except Problem (Gathered × List Char) :=
  match skipBlank cs with
  | [] => .error (.fault .unfinished)
  | c :: rest =>
    if c = Bracket.object.close then .ok ({}, rest)
    else do
      let (g, rest) ← readMember {} (c :: rest)
      readMembers g rest

/-- Reads the end of the document's array, which may not go on. -/
def readArrayEnd (g : Gathered) (cs : List Char) : Except Problem (Gathered × List Char) :=
  match skipBlank cs with
  | [] => .error (.fault .unfinished)
  | c :: rest =>
    if c = Bracket.array.close then .ok (g, rest) else .error (.fault .malformed)

/-- Reads elements behind another one; fewer than the fields may come. -/
def readElements (fields : List Field) (g : Gathered) (cs : List Char) :
    Except Problem (Gathered × List Char) :=
  match fields with
  | [] => readArrayEnd g cs
  | f :: fields =>
    match skipBlank cs with
    | [] => .error (.fault .unfinished)
    | c :: rest =>
      if c = Bracket.array.close then .ok (g, rest)
      else if c = ',' then
        match skipBlank rest with
        | [] => .error (.fault .unfinished)
        | c :: rest =>
          if c = Bracket.array.close then .error (.fault .malformed)
          else do
            let (g, rest) ← readField f g (c :: rest)
            readElements fields g rest
      else .error (.fault .malformed)

/-- Reads the document's array from behind its bracket: the label first, then
the policy and the capacity. -/
def readArray (cs : List Char) : Except Problem (Gathered × List Char) :=
  match skipBlank cs with
  | [] => .error (.fault .unfinished)
  | c :: rest =>
    if c = Bracket.array.close then .ok ({}, rest)
    else do
      let (g, rest) ← readField .label {} (c :: rest)
      readElements [.restartPolicy, .capacityHint] g rest

/-- Reads a document up to its closing bracket. -/
def readDocument (cs : List Char) : Except Problem (Gathered × List Char) :=
  match skipBlank cs with
  | [] => .error (.fault .unfinished)
  | c :: rest =>
    if c = '[' then readArray rest
    else if c = '\x7b' then readObject rest
    else .error (mismatch .document (c :: rest))

/-- Reads a whole text. Only blanks may follow the document. -/
def parse (text : String) : Except Problem Config := do
  let (g, rest) ← readDocument text.toList
  if (skipBlank rest).isEmpty then return g.config else .error (.fault .malformed)

/-- A configuration as it is handed in: a document to read, or settings. -/
inductive Source where
  | document (text : String)
  | settings (list : List Setting)

def Source.read (s : Source) : Except Problem Config :=
  match s with
  | .document text => parse text
  | .settings list => .ok (ofSettings list)

end TxnAssembly.Config
