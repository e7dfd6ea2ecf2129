import Mathlib.Data.List.Nodup
import TxnAssembly.Config.Reader
import TxnAssembly.Proofs.Scanning

/-!
# What a document says

Each setting has values that it accepts. A document that is an object is read if every key of
a setting comes at most once and with a value that is accepted, and then the configuration is
the default one with the settings of the document applied, in any order. What else stands in
the object makes no difference.
-/
namespace TxnAssembly.Config

open Json (Writes WritesKey WritesMembers WritesText IsBlanks EndsNumber Spells skipBlank)

section Results

variable {ε ε' α β : Type}

theorem toOption_eq_some {r : Except ε α} {a : α} : r.toOption = some a ↔ r = .ok a := by
  cases r with
  | error e => exact ⟨nofun, nofun⟩
  | ok b => exact ⟨fun h => congrArg _ (Option.some.inj h), fun h => congrArg _ (Except.ok.inj h)⟩

theorem toOption_map (r : Except ε α) (f : α → β) : (r.map f).toOption = r.toOption.map f := by
  cases r <;> rfl

theorem toOption_bind (r : Except ε α) (f : α → Except ε β) :
    (r >>= f).toOption = r.toOption.bind fun a => (f a).toOption := by
  cases r <;> rfl

theorem toOption_checked (r : Except Json.Fault α) : (checked r).toOption = r.toOption := by
  cases r <;> rfl

end Results

/-- The label that a value gives, if it is accepted: null gives none. -/
def label? (v : Json.Value) : Option (Option String) :=
  match v with
  | .text s => some (some s)
  | .null => some none
  | _ => none

/-- Null is the only value without content. -/
def unit? (v : Json.Value) : Option Unit :=
  match v with
  | .null => some ()
  | _ => none

def policy? (v : Json.Value) : Option RestartPolicy :=
  match v with
  | .text s => RestartPolicy.ofName? s
  | .object [(key, .null)] => RestartPolicy.ofName? key
  | _ => none

def capacity? (v : Json.Value) : Option UInt64 :=
  match v with
  | .number n =>
    if n.IsPlain ∧ Json.ofDigits n.whole < Nat.pow 2 64 then some (Json.ofDigits n.whole).toUInt64
    else none
  | _ => none

section Fields

variable {v : Json.Value} {before cs rest : List Char}

theorem skipBlank_value (hbefore : IsBlanks before) (h : Writes v cs) (rest : List Char) :
    skipBlank (before ++ (cs ++ rest)) = cs ++ rest := by
  rw [Json.skipBlank_append hbefore, Json.skipBlank_of_writes h]

theorem toOption_readLabel (hbefore : IsBlanks before) (h : Writes v cs) (rest : List Char) :
    (readLabel (before ++ (cs ++ rest))).toOption = (label? v).map (·, rest) := by
  have hblank := skipBlank_value hbefore h rest
  have hrefused : v.starts 'n' = false → v.starts '"' = false →
      (readLabel (before ++ (cs ++ rest))).toOption = none := by
    intro hnull htext
    obtain ⟨c, tail, rfl, hc⟩ := h.exists_cons
    rw [readLabel, hblank, List.cons_append]
    dsimp only
    rw [if_neg (Json.ne_of_starts hc hnull), if_neg (Json.ne_of_starts hc htext)]
    rfl
  cases h with
  | null =>
    rw [readLabel, hblank]
    rfl
  | @text body t h =>
    rw [readLabel, hblank, List.cons_append, List.append_assoc]
    simp only [Char.reduceEq, if_false, if_true, List.cons_append, List.nil_append,
      Json.readBody_of_spells h]
    rfl
  | _ => exact hrefused rfl rfl

theorem readPolicyName_eq (cs : List Char) : readPolicyName cs =
    (checked (Json.readBody cs)).bind fun p =>
      match RestartPolicy.ofName? (String.ofList p.1) with
      | some policy => .ok (policy, p.2)
      | none => .error (.unknownPolicy (String.ofList p.1)) := by
  rw [readPolicyName]
  cases checked (Json.readBody cs) <;> rfl

theorem toOption_readPolicyName {body t : List Char} (h : Spells body t) (rest : List Char) :
    (readPolicyName (body ++ '"' :: rest)).toOption =
      (RestartPolicy.ofName? (String.ofList t)).map (·, rest) := by
  rw [readPolicyName_eq, Json.readBody_of_spells h]
  cases hname : RestartPolicy.ofName? (String.ofList t) <;>
    simp [checked, Except.mapError, Except.bind, hname, Except.toOption]

theorem toOption_readUnit (hbefore : IsBlanks before) (h : Writes v cs) (rest : List Char) :
    (readUnit (before ++ (cs ++ rest))).toOption = (unit? v).map fun _ => rest := by
  have hblank := skipBlank_value hbefore h rest
  have hrefused : v.starts 'n' = false →
      (readUnit (before ++ (cs ++ rest))).toOption = none := by
    intro hnull
    obtain ⟨c, tail, rfl, hc⟩ := h.exists_cons
    rw [readUnit, hblank, List.cons_append]
    dsimp only
    rw [if_neg (Json.ne_of_starts hc hnull)]
    rfl
  cases h with
  | null =>
    rw [readUnit, hblank]
    rfl
  | _ => exact hrefused rfl

theorem readObjectEnd_close {after : List Char} (hafter : IsBlanks after) (rest : List Char) :
    readObjectEnd (after ++ '\x7d' :: rest) = .ok rest := by
  rw [readObjectEnd, Json.skipBlank_token hafter rfl]
  rfl

theorem readObjectEnd_comma {after : List Char} (hafter : IsBlanks after) (rest : List Char) :
    readObjectEnd (after ++ ',' :: rest) = .error (.fault .malformed) := by
  rw [readObjectEnd, Json.skipBlank_token hafter rfl]
  rfl

theorem readColon_append {after : List Char} (hafter : IsBlanks after) (rest : List Char) :
    Json.readColon (after ++ ':' :: rest) = .ok rest := by
  rw [Json.readColon, Json.skipBlank_token hafter rfl]
  rfl

/-- A policy as an object's first entry: its name, the value, and what follows it. -/
theorem toOption_readPolicyEntry {key : String} {front : List Char} (hkey : WritesKey key front)
    (hbefore : IsBlanks before) (h : Writes v cs) (rest : List Char) :
    (readPolicyEntry (front ++ (before ++ (cs ++ rest)))).toOption =
      (RestartPolicy.ofName? key).bind fun p =>
        (unit? v).bind fun _ => (readObjectEnd rest).toOption.map (p, ·) := by
  obtain ⟨hfront, hspells, hafter⟩ := hkey
  rename_i body t after
  simp only [List.append_assoc, List.cons_append, List.nil_append]
  rw [readPolicyEntry, Json.skipBlank_token hfront rfl]
  simp only [if_true, toOption_bind, toOption_readPolicyName hspells, toOption_checked]
  cases RestartPolicy.ofName? (String.ofList t) with
  | none => rfl
  | some p =>
    simp only [Option.map_some, Option.bind_some, readColon_append hafter]
    show (readUnit (before ++ (cs ++ rest))).toOption.bind _ = _
    rw [toOption_readUnit hbefore h]
    cases unit? v with
    | none => rfl
    | some _ =>
      simp only [Option.map_some, Option.bind_some]
      cases readObjectEnd rest <;> rfl

theorem policy?_entry (key : String) (v : Json.Value) :
    policy? (.object [(key, v)]) = (unit? v).bind fun _ => RestartPolicy.ofName? key := by
  cases v <;> rfl

theorem toOption_readPolicy (hbefore : IsBlanks before) (h : Writes v cs) (rest : List Char) :
    (readPolicy (before ++ (cs ++ rest))).toOption = (policy? v).map (·, rest) := by
  have hblank := skipBlank_value hbefore h rest
  have hrefused : v.starts '"' = false → v.starts '\x7b' = false →
      (readPolicy (before ++ (cs ++ rest))).toOption = none := by
    intro htext hobject
    obtain ⟨c, tail, rfl, hc⟩ := h.exists_cons
    rw [readPolicy, hblank, List.cons_append]
    dsimp only
    rw [if_neg (Json.ne_of_starts hc htext), if_neg (Json.ne_of_starts hc hobject)]
    rfl
  rw [readPolicy, hblank] at hrefused ⊢
  cases h with
  | @text body t h =>
    rw [List.cons_append, List.append_assoc]
    exact toOption_readPolicyName h rest
  | @emptyObject blanks h =>
    rw [List.cons_append, List.append_assoc]
    show (readPolicyEntry (blanks ++ '\x7d' :: rest)).toOption = none
    rw [readPolicyEntry, Json.skipBlank_token h rfl]
    rfl
  | @object m ms cs h =>
    rw [List.cons_append, List.append_assoc]
    show (readPolicyEntry (cs ++ '\x7d' :: rest)).toOption = _
    cases h with
    | @last key v front before cs after hkey hbefore h hafter =>
      simp only [List.append_assoc]
      rw [toOption_readPolicyEntry hkey hbefore h, readObjectEnd_close hafter, policy?_entry]
      cases unit? v <;> cases RestartPolicy.ofName? key <;> rfl
    | @more key v ms front before cs after more hkey hbefore h hafter hmore =>
      simp only [List.append_assoc, List.cons_append]
      rw [toOption_readPolicyEntry hkey hbefore h, readObjectEnd_comma hafter]
      have hnone : policy? (.object ((key, v) :: ms)) = none := by
        cases hmore <;> cases v <;> rfl
      rw [hnone]
      cases unit? v <;> cases RestartPolicy.ofName? key <;> rfl
  | _ => exact hrefused rfl rfl

/-- A number is read as a capacity exactly if it is written with digits alone and fits. -/
theorem toOption_readSizeAfter (n : Json.Numeral) (h : EndsNumber rest) :
    (readSizeAfter n.negative (n.unsigned ++ rest)).toOption =
      (capacity? (.number n)).map (·, rest) := by
  by_cases hn : n.IsPlain ∧ Json.ofDigits n.whole < Nat.pow 2 64
  · rw [readSizeAfter, capacity?, if_pos hn, hn.1.1, n.readNumber_of_isPlain hn.1 hn.2 h]
    rfl
  · rw [readSizeAfter, capacity?, if_neg hn]
    cases hread : Json.readNumber n.negative (n.unsigned ++ rest) with
    | error fault => rfl
    | ok p =>
      obtain ⟨k, r⟩ := p
      cases k with
      | natural k =>
        obtain ⟨hnegative, hfraction, hexponent, hlt⟩ := n.of_readNumber_natural h hread
        exact absurd ⟨⟨hnegative, hfraction, hexponent⟩, hlt⟩ hn
      | negative k => rfl
      | real x => rfl

theorem toOption_readSize (hbefore : IsBlanks before) (h : Writes v cs) (hrest : EndsNumber rest) :
    (readSize (before ++ (cs ++ rest))).toOption = (capacity? v).map (·, rest) := by
  have hblank := skipBlank_value hbefore h rest
  rw [readSize, hblank]
  cases h with
  | number n =>
    have hafter := toOption_readSizeAfter n hrest
    rw [Json.Numeral.written]
    cases hnegative : n.negative with
    | true =>
      rw [hnegative] at hafter
      exact hafter
    | false =>
      obtain ⟨d, ds, hunsigned, hd⟩ := n.exists_unsigned
      rw [hnegative, hunsigned] at hafter
      simp only [Bool.false_eq_true, if_false, hunsigned, List.cons_append, hd, if_true,
        if_neg (Json.ne_of_isDigit hd (d := '-') rfl)]
      exact hafter
  | _ => rfl

end Fields

namespace Gathered

variable {v : Json.Value} {before cs rest : List Char}

/-- Takes the value of a setting down, if it is accepted. -/
def take? (g : Gathered) (f : Field) (v : Json.Value) : Option Gathered :=
  match f with
  | .label => (label? v).map fun l => { g with label := some l }
  | .restartPolicy => (policy? v).map fun p => { g with restartPolicy := some p }
  | .capacityHint => (capacity? v).map fun n => { g with capacityHint := some n }

/-- Takes a member of the document's object down. An unknown key has no effect. -/
def member? (g : Gathered) (m : String × Json.Value) : Option Gathered :=
  match Field.ofName? m.1 with
  | none => some g
  | some f => if g.has f then none else g.take? f m.2

/-- Takes all members down, one after the other. -/
def members? (g : Gathered) (ms : List (String × Json.Value)) : Option Gathered :=
  match ms with
  | [] => some g
  | m :: ms => (g.member? m).bind fun g => g.members? ms

theorem toOption_readField (f : Field) (g : Gathered) (hbefore : IsBlanks before)
    (h : Writes v cs) (hrest : EndsNumber rest) :
    (readField f g (before ++ (cs ++ rest))).toOption = (g.take? f v).map (·, rest) := by
  cases f with
  | label =>
    rw [readField, toOption_map, toOption_readLabel hbefore h, take?]
    cases label? v <;> rfl
  | restartPolicy =>
    rw [readField, toOption_map, toOption_readPolicy hbefore h, take?]
    cases policy? v <;> rfl
  | capacityHint =>
    rw [readField, toOption_map, toOption_readSize hbefore h hrest, take?]
    cases capacity? v <;> rfl

theorem toOption_readMember {key : String} {front : List Char} (g : Gathered)
    (hkey : WritesKey key front) (hbefore : IsBlanks before) (h : Writes v cs)
    (hrest : EndsNumber rest) :
    (readMember g (front ++ (before ++ (cs ++ rest)))).toOption =
      (g.member? (key, v)).map (·, rest) := by
  obtain ⟨hfront, hspells, hafter⟩ := hkey
  rename_i blanks body t after
  simp only [List.append_assoc, List.cons_append, List.nil_append]
  rw [readMember, Json.skipBlank_token hfront rfl]
  simp only [if_true, toOption_bind, toOption_checked, Json.readBody_of_spells hspells]
  show (readEntry (String.ofList t) g (after ++ ':' :: (before ++ (cs ++ rest)))).toOption = _
  rw [readEntry, member?]
  cases Field.ofName? (String.ofList t) with
  | none =>
    simp only [toOption_bind, toOption_checked, readColon_append hafter]
    show (Json.skipAny (before ++ (cs ++ rest))).toOption.bind _ = _
    rw [Json.skipAny_of_writes hbefore h hrest]
    rfl
  | some f =>
    dsimp only
    split
    · rfl
    · simp only [toOption_bind, toOption_checked, readColon_append hafter]
      exact toOption_readField f g hbefore h hrest

theorem readMembers_of_nil (g : Gathered) (hb : skipBlank cs = []) :
    readMembers g cs = .error (.fault .unfinished) := by
  rw [readMembers]
  split
  · rfl
  · next h => rw [hb] at h; cases h

theorem readMembers_cons {c : Char} (g : Gathered) (hb : skipBlank cs = c :: rest) :
    readMembers g cs =
      if c = Json.Bracket.object.close then .ok (g, rest)
      else if c = ',' then (readMember g rest).bind fun p => readMembers p.1 p.2
      else .error (.fault .malformed) := by
  rw [readMembers]
  split
  · next h => rw [hb] at h; cases h
  · next h =>
    rw [hb] at h
    cases h
    cases readMember g rest <;> rfl

theorem readMembers_close {after : List Char} (g : Gathered) (hafter : IsBlanks after)
    (rest : List Char) : readMembers g (after ++ '\x7d' :: rest) = .ok (g, rest) := by
  rw [readMembers_cons g (Json.skipBlank_token hafter rfl rest)]
  rfl

theorem readMembers_comma {after : List Char} (g : Gathered) (hafter : IsBlanks after)
    (rest : List Char) : readMembers g (after ++ ',' :: rest) =
      readMember g rest >>= fun p => readMembers p.1 p.2 := by
  rw [readMembers_cons g (Json.skipBlank_token hafter rfl rest)]
  rfl

/-- The members of the document's object are taken down up to its brace. -/
theorem toOption_readMembers {ms : List (String × Json.Value)} {cs : List Char}
    (h : WritesMembers ms cs) (g : Gathered) (rest : List Char) :
    (readMember g (cs ++ '\x7d' :: rest) >>= fun p => readMembers p.1 p.2).toOption =
      (g.members? ms).map (·, rest) := by
  cases h with
  | @last key v front before cs after hkey hbefore h hafter =>
    have hend : EndsNumber (after ++ '\x7d' :: rest) :=
      Json.endsNumber_append hafter (Json.endsNumber_close .object)
    simp only [List.append_assoc]
    rw [toOption_bind, toOption_readMember g hkey hbefore h hend, members?]
    cases g.member? (key, v) with
    | none => rfl
    | some g' => exact congrArg Except.toOption (readMembers_close g' hafter rest)
  | @more key v ms front before cs after more hkey hbefore h hafter hmore =>
    have hend : EndsNumber (after ++ ',' :: (more ++ '\x7d' :: rest)) :=
      Json.endsNumber_append hafter Json.endsNumber_comma
    simp only [List.append_assoc, List.cons_append]
    rw [toOption_bind, toOption_readMember g hkey hbefore h hend, members?]
    cases g.member? (key, v) with
    | none => rfl
    | some g' =>
      refine (congrArg Except.toOption (readMembers_comma g' hafter _)).trans ?_
      exact toOption_readMembers hmore g' rest

theorem readMember_skipBlank (g : Gathered) (cs : List Char) :
    readMember g (skipBlank cs) = readMember g cs := by
  rw [readMember, readMember, Json.skipBlank_skipBlank]

/-- An object is read as what its members say, up to its brace. -/
theorem toOption_readDocument {ms : List (String × Json.Value)} {cs : List Char}
    (hbefore : IsBlanks before) (h : Writes (.object ms) cs) (rest : List Char) :
    (readDocument (before ++ (cs ++ rest))).toOption =
      (members? {} ms).map (·, rest) := by
  rw [readDocument, skipBlank_value hbefore h]
  cases h with
  | @emptyObject blanks h =>
    rw [List.cons_append, List.append_assoc]
    show (readObject (blanks ++ '\x7d' :: rest)).toOption = _
    rw [readObject, Json.skipBlank_token h rfl]
    rfl
  | @object m ms cs h =>
    rw [List.cons_append, List.append_assoc]
    show (readObject (cs ++ '\x7d' :: rest)).toOption = _
    obtain ⟨tail, hfirst⟩ := h.skipBlank_append ('\x7d' :: rest)
    have hmember := readMember_skipBlank {} (cs ++ '\x7d' :: rest)
    rw [hfirst] at hmember
    rw [readObject, hfirst]
    simp only [if_neg (show '"' ≠ Json.Bracket.object.close by decide), hmember]
    exact toOption_readMembers h {} rest

/-- A text is read as its document is, since only blanks stand behind that. -/
theorem toOption_parse_of_readDocument {o : Option Gathered} {text : String}
    (h : WritesText v text)
    (hread : ∀ {before cs}, IsBlanks before → Writes v cs → ∀ rest,
      (readDocument (before ++ (cs ++ rest))).toOption = o.map (·, rest)) :
    (parse text).toOption = o.map Gathered.config := by
  obtain ⟨before, cs, after, hbefore, h, hafter, htext⟩ := h
  have hnothing : (skipBlank after).isEmpty = true := by
    rw [← List.append_nil after, Json.skipBlank_append hafter]
    rfl
  rw [parse, htext, toOption_bind, hread hbefore h]
  cases o with
  | none => rfl
  | some g =>
    simp only [Option.map_some, Option.bind_some, hnothing, if_true]
    rfl

/-- So a text that is an object is read as what its members say. -/
theorem toOption_parse {ms : List (String × Json.Value)} {text : String}
    (h : WritesText (.object ms) text) :
    (parse text).toOption = (members? {} ms).map Gathered.config :=
  toOption_parse_of_readDocument h fun hbefore h rest => toOption_readDocument hbefore h rest

end Gathered

/-- The values that a setting may have. -/
def Field.Accepts (f : Field) (v : Json.Value) : Prop :=
  match f with
  | .label => v = .null ∨ ∃ s, v = .text s
  | .restartPolicy => ∃ p : RestartPolicy, v = .text p.name ∨ v = .object [(p.name, .null)]
  | .capacityHint => ∃ n, v = .number n ∧ n.IsPlain ∧ Json.ofDigits n.whole < Nat.pow 2 64

/-- The settings that a document's members are about, in the order of the members. -/
def knownKeys (ms : List (String × Json.Value)) : List Field :=
  ms.filterMap fun m => Field.ofName? m.1

/-- The setting that an accepted value stands for. A label that is null stands for none. -/
def Field.setting? (f : Field) (v : Json.Value) : Option Setting :=
  match f with
  | .label => (label? v).bind (·.map .label)
  | .restartPolicy => (policy? v).map .restartPolicy
  | .capacityHint => (capacity? v).map .capacityHint

def settingsOf (ms : List (String × Json.Value)) : List Setting :=
  ms.filterMap fun m => (Field.ofName? m.1).bind fun f => f.setting? m.2

section Members

variable {m : String × Json.Value} {f : Field} (ms : List (String × Json.Value))

theorem knownKeys_cons_unknown (h : Field.ofName? m.1 = none) :
    knownKeys (m :: ms) = knownKeys ms :=
  List.filterMap_cons_none h

theorem knownKeys_cons_known (h : Field.ofName? m.1 = some f) :
    knownKeys (m :: ms) = f :: knownKeys ms :=
  List.filterMap_cons_some h

theorem settingsOf_cons_unknown (h : Field.ofName? m.1 = none) :
    settingsOf (m :: ms) = settingsOf ms :=
  List.filterMap_cons_none (by rw [h]; rfl)

theorem settingsOf_cons_known (h : Field.ofName? m.1 = some f) :
    settingsOf (m :: ms) = (f.setting? m.2).toList ++ settingsOf ms := by
  have hbind : ((Field.ofName? m.1).bind fun f => f.setting? m.2) = f.setting? m.2 := by
    rw [h]
    rfl
  cases hsetting : f.setting? m.2 with
  | none => exact List.filterMap_cons_none (hbind.trans hsetting)
  | some s => exact List.filterMap_cons_some (hbind.trans hsetting)

end Members

/-- A name is that of the policy that it names. -/
theorem ofName?_eq_some {s : String} {p : RestartPolicy} :
    RestartPolicy.ofName? s = some p ↔ s = p.name := by
  constructor
  · intro h
    rw [RestartPolicy.ofName?] at h
    split at h
    · next hs =>
      cases h
      exact hs
    · split at h
      · next hs =>
        cases h
        exact hs
      · cases h
  · rintro rfl
    exact RestartPolicy.ofName?_name p

theorem policy?_eq_some {v : Json.Value} {p : RestartPolicy} :
    policy? v = some p ↔ v = .text p.name ∨ v = .object [(p.name, .null)] := by
  constructor
  · intro h
    unfold policy? at h
    split at h
    · exact .inl (congrArg _ (ofName?_eq_some.1 h))
    · next key =>
      obtain rfl := ofName?_eq_some.1 h
      exact .inr rfl
    · cases h
  · rintro (rfl | rfl) <;> exact RestartPolicy.ofName?_name p

namespace Gathered

variable {g g' : Gathered} {f : Field} {v : Json.Value} {ms : List (String × Json.Value)}

/-- A value is taken down exactly if it is accepted. -/
theorem exists_take?_iff : (∃ g', g.take? f v = some g') ↔ f.Accepts v := by
  cases f with
  | label => cases v <;> simp [take?, label?, Field.Accepts]
  | restartPolicy => simp [take?, Field.Accepts, policy?_eq_some]
  | capacityHint => cases v <;> simp [take?, capacity?, Field.Accepts]

theorem has_take? (h : g.take? f v = some g') (f' : Field) :
    g'.has f' = (decide (f' = f) || g.has f') := by
  cases f with
  | label | restartPolicy | capacityHint =>
    obtain ⟨x, -, rfl⟩ := Option.map_eq_some_iff.1 h
    cases f' <;> simp [has]

/-- All members are taken down exactly if each setting comes at most once, none is there
already, and every value is accepted. -/
theorem exists_members?_iff : (∃ g', g.members? ms = some g') ↔
    (knownKeys ms).Nodup ∧ (∀ f ∈ knownKeys ms, g.has f = false) ∧
      ∀ m ∈ ms, ∀ f, Field.ofName? m.1 = some f → f.Accepts m.2 := by
  induction ms generalizing g with
  | nil => simp [members?, knownKeys]
  | cons m ms ih =>
    cases hkey : Field.ofName? m.1 with
    | none =>
      have hmember : g.members? (m :: ms) = g.members? ms := by
        rw [members?, member?, hkey]
        rfl
      rw [hmember, ih, knownKeys_cons_unknown ms hkey]
      simp [hkey]
    | some f =>
      have hkeys := knownKeys_cons_known ms hkey
      cases hhas : g.has f with
      | true =>
        have hmember : g.members? (m :: ms) = none := by
          rw [members?, member?, hkey]
          simp [hhas]
        rw [hmember, hkeys]
        simp [hhas]
      | false =>
        have hmember : g.members? (m :: ms) = (g.take? f m.2).bind fun g => g.members? ms := by
          rw [members?, member?, hkey]
          simp [hhas]
        -- The next state has the setting too, so it may not come again.
        have hnext : (∃ g', g.members? (m :: ms) = some g') ↔
            f.Accepts m.2 ∧ (knownKeys ms).Nodup ∧
              (∀ f' ∈ knownKeys ms, f' ≠ f ∧ g.has f' = false) ∧
              ∀ m ∈ ms, ∀ f, Field.ofName? m.1 = some f → f.Accepts m.2 := by
          rw [hmember, ← g.exists_take?_iff]
          cases htake : g.take? f m.2 with
          | none => simp
          | some g₁ => simp [ih, has_take? htake]
        rw [hnext, hkeys, List.nodup_cons]
        simp only [List.forall_mem_cons, hkey, hhas, Option.some.injEq, forall_eq', true_and]
        grind

/-- What is taken down is one setting more, or none if a label is null. -/
theorem config_take? (hhas : g.has f = false) (h : g.take? f v = some g') :
    g'.config = (f.setting? v).elim g.config g.config.set := by
  cases f with
  | label =>
    obtain ⟨l, hl, rfl⟩ := Option.map_eq_some_iff.1 h
    rw [Field.setting?, hl]
    cases l with
    | some s => rfl
    | none =>
      have hnone : g.label = none := Option.isNone_iff_eq_none.1 (by simpa [has] using hhas)
      simp [config, hnone]
  | restartPolicy =>
    obtain ⟨p, hp, rfl⟩ := Option.map_eq_some_iff.1 h
    rw [Field.setting?, hp]
    rfl
  | capacityHint =>
    obtain ⟨n, hn, rfl⟩ := Option.map_eq_some_iff.1 h
    rw [Field.setting?, hn]
    rfl

theorem config_members? (h : g.members? ms = some g') :
    g'.config = (settingsOf ms).foldl Config.set g.config := by
  induction ms generalizing g with
  | nil =>
    cases h
    rfl
  | cons m ms ih =>
    obtain ⟨g₁, hmember, h⟩ := Option.bind_eq_some_iff.1 h
    rw [ih h]
    cases hkey : Field.ofName? m.1 with
    | none =>
      rw [member?, hkey] at hmember
      cases hmember
      rw [settingsOf_cons_unknown ms hkey]
    | some f =>
      rw [member?, hkey] at hmember
      simp only at hmember
      split at hmember
      · cases hmember
      · next hhas =>
        rw [config_take? (Bool.eq_false_iff.2 hhas) hmember, settingsOf_cons_known ms hkey]
        cases f.setting? m.2 <;> rfl

end Gathered

/-- What a setting is about. -/
def Setting.field (s : Setting) : Field :=
  match s with
  | .label _ => .label
  | .restartPolicy _ => .restartPolicy
  | .capacityHint _ => .capacityHint

theorem field_of_setting? {f : Field} {v : Json.Value} {s : Setting} (h : f.setting? v = some s) :
    s.field = f := by
  cases f with
  | label =>
    obtain ⟨l, -, h⟩ := Option.bind_eq_some_iff.1 h
    obtain ⟨t, -, rfl⟩ := Option.map_eq_some_iff.1 h
    rfl
  | restartPolicy | capacityHint =>
    obtain ⟨x, -, rfl⟩ := Option.map_eq_some_iff.1 h
    rfl

/-- Settings that are about different things can be applied in either order. -/
theorem set_comm (c : Config) {s s' : Setting} (h : s.field ≠ s'.field) :
    (c.set s).set s' = (c.set s').set s := by
  cases s <;> cases s' <;> first | rfl | exact absurd rfl h

/-- Members that come once give settings that are about different things. -/
theorem nodup_settingsOf {ms : List (String × Json.Value)} (h : (knownKeys ms).Nodup) :
    ((settingsOf ms).map Setting.field).Nodup := by
  refine List.Nodup.sublist ?_ h
  clear h
  induction ms with
  | nil => exact List.Sublist.refl _
  | cons m ms ih =>
    cases hkey : Field.ofName? m.1 with
    | none =>
      rw [knownKeys_cons_unknown ms hkey, settingsOf_cons_unknown ms hkey]
      exact ih
    | some f =>
      rw [knownKeys_cons_known ms hkey, settingsOf_cons_known ms hkey]
      cases hsetting : f.setting? m.2 with
      | none => exact ih.cons f
      | some s =>
        rw [Option.toList_some, List.singleton_append, List.map_cons, field_of_setting? hsetting]
        exact ih.cons_cons f

/-- Then their order makes no difference. -/
theorem ofSettings_of_perm {ms : List (String × Json.Value)} (h : (knownKeys ms).Nodup)
    {settings : List Setting} (hperm : settings.Perm (settingsOf ms)) :
    ofSettings settings = ofSettings (settingsOf ms) := by
  refine hperm.foldl_eq' (fun s hs s' hs' c => ?_) _
  by_cases heq : s = s'
  · rw [heq]
  · refine set_comm c fun hfield => heq ?_
    exact List.inj_on_of_nodup_map (nodup_settingsOf h) (hperm.mem_iff.1 hs)
      (hperm.mem_iff.1 hs') hfield

/-- A text that is an object is read exactly if no setting comes twice and every setting has a
value that it accepts. The configuration is then the default one with the settings of the
document applied, in any order. -/
theorem parse_object {text : String} {ms : List (String × Json.Value)}
    (h : WritesText (.object ms) text) :
    ((∃ c, parse text = .ok c) ↔
      (knownKeys ms).Nodup ∧ ∀ m ∈ ms, ∀ f, Field.ofName? m.1 = some f → f.Accepts m.2) ∧
    ∀ c, parse text = .ok c → ∀ settings : List Setting, settings.Perm (settingsOf ms) →
      c = ofSettings settings := by
  have hparse := Gathered.toOption_parse h
  constructor
  · have hmembers : (∃ g', Gathered.members? {} ms = some g') ↔ _ := Gathered.exists_members?_iff
    have hfresh : ∀ f ∈ knownKeys ms, ({} : Gathered).has f = false := by
      intro f _
      cases f <;> rfl
    rw [and_iff_right hfresh] at hmembers
    rw [← hmembers]
    simp only [← toOption_eq_some, hparse, Option.map_eq_some_iff]
    exact ⟨fun ⟨_, g, hg, _⟩ => ⟨g, hg⟩, fun ⟨g, hg⟩ => ⟨g.config, g, hg, rfl⟩⟩
  · intro c hc settings hperm
    rw [← toOption_eq_some, hparse] at hc
    obtain ⟨g, hg, rfl⟩ := Option.map_eq_some_iff.1 hc
    rw [ofSettings_of_perm (Gathered.exists_members?_iff.1 ⟨g, hg⟩).1 hperm]
    exact Gathered.config_members? hg

/-- A key may stand behind an escape: the first document gives its label once, the second one
gives it twice. An unknown key may repeat. -/
theorem parse_object_escaped :
    parse "\x7b\"\\u006Cabel\": \"a\", \"x\": [true],\n\"x\": null\x7d" =
      .ok { label := some "a" } ∧
    ¬∃ c, parse "\x7b\"\\u006Cabel\": null, \"label\": null\x7d" = .ok c := by
  have hnone : IsBlanks [] := nofun
  have hspace : IsBlanks [' '] := by simp [IsBlanks, Json.isBlank]
  have hline : IsBlanks ['\n'] := by simp [IsBlanks, Json.isBlank]
  have hlabel : WritesKey "label" ([] ++ '"' :: ('\\' :: 'u' :: (['0', '0', '6', 'C'] ++
      ['a', 'b', 'e', 'l']) ++ '"' :: ([] ++ [':']))) := by
    refine .intro (t := 'l' :: ['a', 'b', 'e', 'l']) hnone (.unit (by decide) ?_ ?_) hnone
    · exact .intro (i := 0) (j := 0) (k := 6) (l := 12) ⟨by decide, by decide⟩
        ⟨by decide, by decide⟩ ⟨by decide, by decide⟩ ⟨by decide, by decide⟩
    · exact .of_unescaped rfl
  constructor
  · have hx {blanks : List Char} (h : IsBlanks blanks) :
        WritesKey "x" (blanks ++ '"' :: (['x'] ++ '"' :: ([] ++ [':']))) :=
      .intro (t := ['x']) h (.of_unescaped rfl) hnone
    have h : WritesText
        (.object [("label", .text "a"), ("x", .array [.boolean true]), ("x", .null)])
        "\x7b\"\\u006Cabel\": \"a\", \"x\": [true],\n\"x\": null\x7d" := by
      have hthird := WritesMembers.last (hx hline) hspace .null hnone
      have hsecond := hthird.more (hx hspace) hspace (.array (.last hnone .yes hnone)) hnone
      have hfirst := hsecond.more hlabel hspace (.text (t := ['a']) (.of_unescaped rfl)) hnone
      exact ⟨[], _, [], hnone, .object hfirst, hnone, rfl⟩
    obtain ⟨c, hc⟩ := (parse_object h).1.2 ⟨by decide, by simp [Field.ofName?, Field.Accepts]⟩
    rw [hc, (parse_object h).2 c hc _ (List.Perm.refl _)]
    rfl
  · have hagain : WritesKey "label" ([' '] ++ '"' :: (['l', 'a', 'b', 'e', 'l'] ++
        '"' :: ([] ++ [':']))) :=
      .intro (t := ['l', 'a', 'b', 'e', 'l']) hspace (.of_unescaped rfl) hnone
    have h : WritesText (.object [("label", .null), ("label", .null)])
        "\x7b\"\\u006Cabel\": null, \"label\": null\x7d" := by
      have hmembers := (WritesMembers.last hagain hspace .null hnone).more hlabel hspace .null hnone
      exact ⟨[], _, [], hnone, .object hmembers, hnone, rfl⟩
    exact fun hread => absurd ((parse_object h).1.1 hread).1 (by decide)

end TxnAssembly.Config
