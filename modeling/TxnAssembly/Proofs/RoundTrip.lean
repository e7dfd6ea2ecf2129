import TxnAssembly.Config.Writer
import TxnAssembly.Proofs.Documents

/-!
# Writing a configuration and reading it back

The written form of a configuration is a document with its three settings, each with a value
that the setting accepts. So what it says is the configuration that was written.
-/
namespace TxnAssembly

namespace Json

theorem isHex_hexDigit {n : Nat} (h : n < 16) : IsHex (hexDigit n) n := by
  refine ⟨h, .inl ?_⟩
  revert n
  decide

/-- What the writer makes of a character spells that character. -/
theorem spells_encodeChar (c : Char) {body t : List Char} (h : Spells body t) :
    Spells (encodeChar c ++ body) (c :: t) := by
  rw [encodeChar]
  split_ifs with hquote hbackslash _ _ _ _ _ hcontrol
  -- The first seven are the characters that have a letter.
  iterate 7 exact .letter (by simp [escapes, *]) h
  · have hlt : c.toNat < 0x20 := of_decide_eq_true hcontrol
    have hzero : IsHex '0' 0 := isHex_hexDigit (by decide)
    have hquad := IsQuad.intro hzero hzero (isHex_hexDigit (n := c.toNat / 16) (by omega))
      (isHex_hexDigit (n := c.toNat % 16) (by omega))
    have hvalue : ((0 * 16 + 0) * 16 + c.toNat / 16) * 16 + c.toNat % 16 = c.toNat := by omega
    rw [hvalue] at hquad
    exact .unit (by omega) hquad h
  · have hle : 0x20 ≤ c.toNat :=
      Nat.le_of_not_lt (of_decide_eq_false (Bool.eq_false_iff.2 hcontrol))
    exact .plain hquote hbackslash hle h

theorem spells_flatMap_encodeChar (t : List Char) : Spells (t.flatMap encodeChar) t := by
  induction t with
  | nil => exact .nil
  | cons c t ih => exact spells_encodeChar c ih

theorem writes_encode (s : String) : Writes (.text s) (encode s.toList) := by
  have h := Writes.text (spells_flatMap_encodeChar s.toList)
  rwa [String.ofList_toList] at h

/-- The digits of a number spell it. -/
theorem ofDigits_toDigits (n : Nat) : ofDigits (Nat.toDigits 10 n) = n := by
  calc ofDigits (Nat.toDigits 10 n)
      = Nat.ofDigitChars 10 (Nat.toDigits 10 n) 0 := by
        unfold ofDigits Nat.ofDigitChars digitValue
        simp only [Nat.mul_comm]
        rfl
    _ = n := Nat.ofDigitChars_ten_toDigits

theorem isDigits_toDigits (n : Nat) : IsDigits (Nat.toDigits 10 n) :=
  ⟨Nat.toDigits_ne_nil, fun _ h => Nat.isDigit_of_mem_toDigits (by decide) (by decide) h⟩

/-- They start with zero only for zero itself. -/
theorem toDigits_of_head? (n : Nat) (h : (Nat.toDigits 10 n).head? = some '0') :
    Nat.toDigits 10 n = ['0'] := by
  induction n using Nat.strongRecOn with
  | ind n ih =>
    by_cases hn : n < 10
    · rw [Nat.toDigits_of_lt_base hn] at h ⊢
      rw [Option.some.inj h]
    · rw [Nat.toDigits_of_base_le (by decide) (by omega),
        List.head?_append_of_ne_nil _ Nat.toDigits_ne_nil] at h
      have hzero := ofDigits_toDigits (n / 10)
      rw [ih (n / 10) (by omega) h] at hzero
      have hdiv : 0 = n / 10 := hzero
      omega

/-- A natural number as a value. -/
def Numeral.ofNat (n : Nat) : Numeral :=
  .plain (Nat.toDigits 10 n) (isDigits_toDigits n) (toDigits_of_head? n)

end Json

namespace Config

open Json (Value Writes WritesKey WritesMembers WritesText IsBlanks Spells)

/-- What a configuration says as a document: each setting with its value, in the order in which
they are written. -/
def members (c : Config) : List (String × Value) :=
  [("label", c.label.elim .null .text), ("restart_policy", .text c.restartPolicy.name),
    ("capacity_hint", .number (.ofNat c.capacityHint.toNat))]

theorem isBlanks_nil : IsBlanks [] := nofun

/-- A key of a setting as it is written. -/
theorem writesKey_unescaped {s : String} (h : s.toList.all Json.isUnescaped = true) :
    WritesKey s ([] ++ '"' :: (s.toList ++ '"' :: ([] ++ [':']))) := by
  have hkey := WritesKey.intro isBlanks_nil (.of_unescaped h) isBlanks_nil
  rwa [String.ofList_toList] at hkey

theorem writes_writeLabel (label : Option String) :
    Writes (label.elim .null .text) (writeLabel label) := by
  cases label with
  | none => exact .null
  | some s => exact Json.writes_encode s

theorem writes_ofNat (n : Nat) : Writes (.number (.ofNat n)) (Nat.toDigits 10 n) := by
  have h := Writes.number (.ofNat n)
  rwa [Json.Numeral.ofNat, Json.Numeral.written_plain] at h

/-- The written form is a text of what the configuration says. -/
theorem writesText_toJson (c : Config) : WritesText (.object c.members) c.toJson := by
  have hlast := WritesMembers.last (writesKey_unescaped (s := "capacity_hint") rfl)
    isBlanks_nil (writes_ofNat c.capacityHint.toNat) isBlanks_nil
  have hmore := hlast.more (writesKey_unescaped (s := "restart_policy") rfl)
    isBlanks_nil (Json.writes_encode c.restartPolicy.name) isBlanks_nil
  have hall := hmore.more (writesKey_unescaped (s := "label") rfl)
    isBlanks_nil (writes_writeLabel c.label) isBlanks_nil
  have hobject := Writes.object hall
  have hlabel : "\x7b\"label\":".toList = '\x7b' :: '"' :: ("label".toList ++ ['"', ':']) := by
    decide
  have hpolicy : ",\"restart_policy\":".toList =
      ',' :: '"' :: ("restart_policy".toList ++ ['"', ':']) := by
    decide
  have hcapacity : ",\"capacity_hint\":".toList =
      ',' :: '"' :: ("capacity_hint".toList ++ ['"', ':']) := by
    decide
  rw [members, WritesText]
  refine ⟨[], _, [], isBlanks_nil, hobject, isBlanks_nil, ?_⟩
  unfold toJson write
  simp only [String.toList_ofList, hlabel, hpolicy, hcapacity, List.append_assoc,
    List.cons_append, List.nil_append, List.append_nil]

/-- What a configuration says is taken down as the configuration. -/
theorem members?_members (c : Config) :
    (Gathered.members? {} c.members).map Gathered.config = some c := by
  have hlabel : label? (c.label.elim .null .text) = some c.label := by
    cases c.label <;> rfl
  have hpolicy : policy? (.text c.restartPolicy.name) = some c.restartPolicy :=
    RestartPolicy.ofName?_name c.restartPolicy
  have hcapacity : capacity? (.number (.ofNat c.capacityHint.toNat)) = some c.capacityHint := by
    have hplain : (Json.Numeral.ofNat c.capacityHint.toNat).IsPlain := Json.Numeral.isPlain_plain
    have hvalue : Json.ofDigits (Json.Numeral.ofNat c.capacityHint.toNat).whole =
        c.capacityHint.toNat := Json.ofDigits_toDigits _
    rw [capacity?, hvalue, if_pos ⟨hplain, c.capacityHint.toNat_lt⟩]
    simp
  simp [members, Gathered.members?, Gathered.member?, Field.ofName?, Gathered.has, Gathered.take?,
    hlabel, hpolicy, hcapacity, Gathered.config]

/-- Reading the written form of a configuration gives the configuration back. -/
theorem parse_toJson (c : Config) : parse c.toJson = .ok c := by
  rw [← toOption_eq_some, Gathered.toOption_parse (writesText_toJson c), members?_members]

end Config

end TxnAssembly
