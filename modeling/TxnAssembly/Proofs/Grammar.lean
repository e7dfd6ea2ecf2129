import TxnAssembly.Json.Number

/-!
# The grammar of JSON texts

A value is what a JSON text stands for, numbers kept as they are written. The grammar relates
a value to each of its texts: blanks may stand around every token, and a character of a
quoted text may be written as itself or as an escape. It does not mention the readers.
-/
namespace TxnAssembly.Json

/-- A row of digits, at least one. -/
def IsDigits (ds : List Char) : Prop := ds ≠ [] ∧ ∀ d ∈ ds, d.isDigit = true

/-- An exponent as it is written. -/
structure Exponent where
  mark : Char
  sign : List Char
  digits : List Char
  mark_eq : mark = 'e' ∨ mark = 'E'
  sign_eq : sign = [] ∨ sign = ['+'] ∨ sign = ['-']
  isDigits : IsDigits digits

def Exponent.written (e : Exponent) : List Char := e.mark :: e.sign ++ e.digits

/-- A number as it is written. The digits before the point have no leading zero. -/
structure Numeral where
  negative : Bool
  whole : List Char
  fraction : Option (List Char)
  exponent : Option Exponent
  isDigits : IsDigits whole
  eq_zero : whole.head? = some '0' → whole = ['0']
  isDigits_fraction : ∀ ds, fraction = some ds → IsDigits ds

namespace Numeral

def fractionWritten (n : Numeral) : List Char :=
  match n.fraction with
  | none => []
  | some ds => '.' :: ds

def exponentWritten (n : Numeral) : List Char :=
  match n.exponent with
  | none => []
  | some e => e.written

/-- The text of the number behind its sign. -/
def unsigned (n : Numeral) : List Char := n.whole ++ (n.fractionWritten ++ n.exponentWritten)

def written (n : Numeral) : List Char := if n.negative then '-' :: n.unsigned else n.unsigned

/-- The number is written with digits alone. -/
def IsPlain (n : Numeral) : Prop := n.negative = false ∧ n.fraction = none ∧ n.exponent = none

instance (n : Numeral) : Decidable n.IsPlain :=
  decidable_of_iff (n.negative = false ∧ n.fraction.isNone = true ∧ n.exponent.isNone = true) <| by
    rw [IsPlain, Option.isNone_iff_eq_none, Option.isNone_iff_eq_none]

/-- A number of the given digits. -/
def plain (ds : List Char) (h : IsDigits ds) (hzero : ds.head? = some '0' → ds = ['0']) :
    Numeral where
  negative := false
  whole := ds
  fraction := none
  exponent := none
  isDigits := h
  eq_zero := hzero
  isDigits_fraction := nofun

theorem isPlain_plain {ds : List Char} {h : IsDigits ds}
    {hzero : ds.head? = some '0' → ds = ['0']} : (plain ds h hzero).IsPlain :=
  ⟨rfl, rfl, rfl⟩

theorem written_plain {ds : List Char} {h : IsDigits ds}
    {hzero : ds.head? = some '0' → ds = ['0']} : (plain ds h hzero).written = ds :=
  List.append_nil ds

end Numeral

/-- What a JSON text stands for. The members of an object are in the order of the text, and
keys may repeat. -/
inductive Value where
  | null
  | boolean (b : Bool)
  | number (n : Numeral)
  | text (s : String)
  | array (items : List Value)
  | object (members : List (String × Value))

/-- A hexadecimal digit with its value, in either case. -/
def IsHex (c : Char) (n : Nat) : Prop :=
  n < 16 ∧ (c = Nat.digitChar n ∨ c = (Nat.digitChar n).toUpper)

/-- Four hexadecimal digits with their value. -/
inductive IsQuad : List Char → Nat → Prop where
  | intro {a b c d : Char} {i j k l : Nat} (ha : IsHex a i) (hb : IsHex b j) (hc : IsHex c k)
    (hd : IsHex d l) : IsQuad [a, b, c, d] (((i * 16 + j) * 16 + k) * 16 + l)

/-- The letters that stand behind a backslash, and the characters they mean. -/
def escapes : List (Char × Char) :=
  [('"', '"'), ('\\', '\\'), ('/', '/'), ('b', '\x08'), ('f', '\x0c'), ('n', '\n'), ('r', '\r'),
    ('t', '\t')]

/-- The characters between two quotes, and the text that they spell. A character beyond the
sixteen-bit range is escaped by two numbers. -/
inductive Spells : List Char → List Char → Prop where
  | nil : Spells [] []
  | plain {c : Char} {body t : List Char} (hquote : c ≠ '"') (hbackslash : c ≠ '\\')
    (hcontrol : 0x20 ≤ c.toNat) (h : Spells body t) : Spells (c :: body) (c :: t)
  | letter {l c : Char} {body t : List Char} (hl : (l, c) ∈ escapes) (h : Spells body t) :
    Spells ('\\' :: l :: body) (c :: t)
  | unit {c : Char} {q body t : List Char} (hc : c.toNat < 0x10000) (hq : IsQuad q c.toNat)
    (h : Spells body t) : Spells ('\\' :: 'u' :: (q ++ body)) (c :: t)
  | pair {c : Char} {q r body t : List Char} (hc : 0x10000 ≤ c.toNat)
    (hq : IsQuad q (0xD800 + (c.toNat - 0x10000) / 0x400))
    (hr : IsQuad r (0xDC00 + (c.toNat - 0x10000) % 0x400)) (h : Spells body t) :
    Spells ('\\' :: 'u' :: (q ++ '\\' :: 'u' :: (r ++ body))) (c :: t)

/-- A character that may stand for itself. -/
def isUnescaped (c : Char) : Bool := c != '"' && c != '\\' && decide (0x20 ≤ c.toNat)

theorem Spells.of_unescaped {t : List Char} (h : t.all isUnescaped = true) : Spells t t := by
  induction t with
  | nil => exact .nil
  | cons c t ih =>
    simp only [List.all_cons, isUnescaped, Bool.and_eq_true, bne_iff_ne, decide_eq_true_eq] at h
    obtain ⟨⟨⟨hquote, hbackslash⟩, hcontrol⟩, h⟩ := h
    exact .plain hquote hbackslash hcontrol (ih h)

/-- Blanks only, or nothing. -/
def IsBlanks (cs : List Char) : Prop := ∀ c ∈ cs, isBlank c = true

/-- A key with its colon. -/
inductive WritesKey : String → List Char → Prop where
  | intro {before body t after : List Char} (hbefore : IsBlanks before) (h : Spells body t)
    (hafter : IsBlanks after) :
    WritesKey (String.ofList t) (before ++ '"' :: (body ++ '"' :: (after ++ [':'])))

mutual

/-- The texts of a value, without the blanks around them. -/
inductive Writes : Value → List Char → Prop where
  | null : Writes .null ['n', 'u', 'l', 'l']
  | yes : Writes (.boolean true) ['t', 'r', 'u', 'e']
  | no : Writes (.boolean false) ['f', 'a', 'l', 's', 'e']
  | number (n : Numeral) : Writes (.number n) n.written
  | text {body t : List Char} (h : Spells body t) :
    Writes (.text (String.ofList t)) ('"' :: (body ++ ['"']))
  | emptyArray {blanks : List Char} (h : IsBlanks blanks) :
    Writes (.array []) ('[' :: (blanks ++ [']']))
  | array {v : Value} {vs : List Value} {cs : List Char} (h : WritesItems (v :: vs) cs) :
    Writes (.array (v :: vs)) ('[' :: (cs ++ [']']))
  | emptyObject {blanks : List Char} (h : IsBlanks blanks) :
    Writes (.object []) ('\x7b' :: (blanks ++ ['\x7d']))
  | object {m : String × Value} {ms : List (String × Value)} {cs : List Char}
    (h : WritesMembers (m :: ms) cs) : Writes (.object (m :: ms)) ('\x7b' :: (cs ++ ['\x7d']))

/-- The texts of the items of an array, at least one. -/
inductive WritesItems : List Value → List Char → Prop where
  | last {v : Value} {before cs after : List Char} (hbefore : IsBlanks before) (h : Writes v cs)
    (hafter : IsBlanks after) : WritesItems [v] (before ++ (cs ++ after))
  | more {v : Value} {vs : List Value} {before cs after rest : List Char}
    (hbefore : IsBlanks before) (h : Writes v cs) (hafter : IsBlanks after)
    (hrest : WritesItems vs rest) : WritesItems (v :: vs) (before ++ (cs ++ (after ++ ',' :: rest)))

/-- The texts of the members of an object, at least one. -/
inductive WritesMembers : List (String × Value) → List Char → Prop where
  | last {key : String} {v : Value} {front before cs after : List Char}
    (hkey : WritesKey key front) (hbefore : IsBlanks before) (h : Writes v cs)
    (hafter : IsBlanks after) : WritesMembers [(key, v)] (front ++ (before ++ (cs ++ after)))
  | more {key : String} {v : Value} {ms : List (String × Value)}
    {front before cs after rest : List Char} (hkey : WritesKey key front)
    (hbefore : IsBlanks before) (h : Writes v cs) (hafter : IsBlanks after)
    (hrest : WritesMembers ms rest) :
    WritesMembers ((key, v) :: ms) (front ++ (before ++ (cs ++ (after ++ ',' :: rest))))

end

/-- A whole text of a value. Blanks may stand around it. -/
def WritesText (v : Value) (text : String) : Prop :=
  ∃ before cs after, IsBlanks before ∧ Writes v cs ∧ IsBlanks after ∧
    text.toList = before ++ (cs ++ after)

end TxnAssembly.Json
