/-!
# How reading a JSON text can go wrong

A reader takes the characters still to come and returns what it read together
with the characters after it. It fails in one of two ways, and the first
failure in reading order is the one that is reported.
-/
namespace TxnAssembly.Json

/-- `unfinished`: the text ends where more was needed. `malformed`: it goes on
with a character that no JSON text has there. -/
inductive Fault where
  | malformed
  | unfinished
deriving DecidableEq, Repr

/-- What a reader returns: the value read and the rest of the text. -/
abbrev Reading (α : Type) := Except Fault (α × List Char)

/-- The four characters that may stand between two tokens. -/
def isBlank (c : Char) : Bool :=
  c = ' ' || c = '\t' || c = '\n' || c = '\r'

def skipBlank (cs : List Char) : List Char :=
  cs.dropWhile isBlank

theorem skipBlank_length_le (cs : List Char) : (skipBlank cs).length ≤ cs.length :=
  (List.dropWhile_suffix isBlank).length_le

/-- Reads exactly `expected`, one character after the other. -/
def readWord (expected cs : List Char) : Except Fault (List Char) :=
  match expected, cs with
  | [], cs => .ok cs
  | _ :: _, [] => .error .unfinished
  | e :: es, c :: cs => if c = e then readWord es cs else .error .malformed

/-- Reading a word takes off exactly that word. -/
theorem readWord_eq_ok {expected cs rest : List Char} :
    readWord expected cs = .ok rest ↔ cs = expected ++ rest := by
  induction expected generalizing cs with
  | nil => simp [readWord]
  | cons e es ih =>
    cases cs with
    | nil => simp [readWord]
    | cons c cs =>
      by_cases h : c = e
      · simp [readWord, h, ih]
      · simp [readWord, h]

end TxnAssembly.Json
