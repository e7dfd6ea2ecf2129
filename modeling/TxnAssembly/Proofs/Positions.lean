import TxnAssembly.Proofs.Documents

/-!
# Documents that are arrays

A document may give its settings by position instead of by name: the label, then the policy,
then the capacity. Arrays and objects have readers of their own, which take the same values
down. So an array is read exactly as an object that gives its items to the settings in this
order, and an array with more items than there are settings is not read at all.
-/
namespace TxnAssembly.Config

open Json (Writes WritesItems WritesText IsBlanks EndsNumber skipBlank)

/-- The settings in the order of an array's items. -/
def Field.order : List Field := [.label, .restartPolicy, .capacityHint]

/-- The members of an object that gives values to the first of some settings. -/
def keyed (fields : List Field) (vs : List Json.Value) : List (String × Json.Value) :=
  fields.zipWith (fun f v => (f.name, v)) vs

theorem readField_skipBlank (f : Field) (g : Gathered) (cs : List Char) :
    readField f g (skipBlank cs) = readField f g cs := by
  cases f with
  | label => rw [readField, readField, readLabel, readLabel, Json.skipBlank_skipBlank]
  | restartPolicy => rw [readField, readField, readPolicy, readPolicy, Json.skipBlank_skipBlank]
  | capacityHint => rw [readField, readField, readSize, readSize, Json.skipBlank_skipBlank]

section Elements

variable {f : Field} {fields : List Field} {after cs : List Char}

/-- An array may end behind any of its items. -/
theorem readElements_close (fields : List Field) (g : Gathered) (hafter : IsBlanks after)
    (rest : List Char) : readElements fields g (after ++ ']' :: rest) = .ok (g, rest) := by
  cases fields with
  | nil =>
    rw [readElements, readArrayEnd, Json.skipBlank_token hafter rfl]
    rfl
  | cons f fields =>
    rw [readElements, Json.skipBlank_token hafter rfl]
    rfl

/-- Behind the item of the last setting it may not go on. -/
theorem readElements_nil_comma (g : Gathered) (hafter : IsBlanks after) (rest : List Char) :
    readElements [] g (after ++ ',' :: rest) = .error (.fault .malformed) := by
  rw [readElements, readArrayEnd, Json.skipBlank_token hafter rfl]
  rfl

theorem readElements_cons_comma {c : Char} {tail : List Char} (g : Gathered)
    (hafter : IsBlanks after) (hfirst : skipBlank cs = c :: tail)
    (hc : c ≠ Json.Bracket.array.close) :
    readElements (f :: fields) g (after ++ ',' :: cs) =
      readField f g cs >>= fun p => readElements fields p.1 p.2 := by
  rw [← readField_skipBlank, hfirst, readElements, Json.skipBlank_token hafter rfl]
  simp only [if_neg (show ',' ≠ Json.Bracket.array.close by decide), if_true, hfirst, if_neg hc]

end Elements

namespace Gathered

/-- Takes the items of an array down, one setting after the other. -/
def items? (g : Gathered) (fields : List Field) (vs : List Json.Value) : Option Gathered :=
  match fields, vs with
  | _, [] => some g
  | [], _ :: _ => none
  | f :: fields, v :: vs => (g.take? f v).bind fun g => g.items? fields vs

/-- The items of the document's array are taken down up to its bracket. -/
theorem toOption_readItems {vs : List Json.Value} {cs : List Char} (h : WritesItems vs cs)
    (f : Field) (fields : List Field) (g : Gathered) (rest : List Char) :
    (readField f g (cs ++ ']' :: rest) >>= fun p => readElements fields p.1 p.2).toOption =
      (g.items? (f :: fields) vs).map (·, rest) := by
  cases h with
  | @last v before cs after hbefore h hafter =>
    have hend : EndsNumber (after ++ ']' :: rest) :=
      Json.endsNumber_append hafter (Json.endsNumber_close .array)
    simp only [List.append_assoc]
    rw [toOption_bind, toOption_readField f g hbefore h hend, items?]
    cases g.take? f v with
    | none => rfl
    | some g' =>
      refine (congrArg Except.toOption (readElements_close fields g' hafter rest)).trans ?_
      cases fields <;> rfl
  | @more v vs before cs after more hbefore h hafter hmore =>
    have hend : EndsNumber (after ++ ',' :: (more ++ ']' :: rest)) :=
      Json.endsNumber_append hafter Json.endsNumber_comma
    simp only [List.append_assoc, List.cons_append]
    rw [toOption_bind, toOption_readField f g hbefore h hend, items?]
    cases g.take? f v with
    | none => rfl
    | some g' =>
      simp only [Option.map_some, Option.bind_some]
      cases fields with
      | nil =>
        rw [readElements_nil_comma g' hafter]
        cases hmore <;> rfl
      | cons f' fields =>
        obtain ⟨c, tail, hfirst, hc⟩ := hmore.skipBlank_append (']' :: rest)
        rw [readElements_cons_comma g' hafter hfirst hc]
        exact toOption_readItems hmore f' fields g' rest

/-- An array is read as what its items say, up to its bracket. -/
theorem toOption_readDocument_array {vs : List Json.Value} {before cs : List Char}
    (hbefore : IsBlanks before) (h : Writes (.array vs) cs) (rest : List Char) :
    (readDocument (before ++ (cs ++ rest))).toOption =
      (items? {} Field.order vs).map (·, rest) := by
  rw [readDocument, skipBlank_value hbefore h]
  cases h with
  | @emptyArray blanks h =>
    rw [List.cons_append, List.append_assoc]
    show (readArray (blanks ++ ']' :: rest)).toOption = _
    rw [readArray, Json.skipBlank_token h rfl]
    rfl
  | @array v vs cs h =>
    rw [List.cons_append, List.append_assoc]
    show (readArray (cs ++ ']' :: rest)).toOption = _
    obtain ⟨c, tail, hfirst, hc⟩ := h.skipBlank_append (']' :: rest)
    have hlabel := readField_skipBlank .label {} (cs ++ ']' :: rest)
    rw [hfirst] at hlabel
    rw [readArray, hfirst]
    simp only [if_neg hc, hlabel]
    exact toOption_readItems h .label [.restartPolicy, .capacityHint] {} rest

/-- So a text that is an array is read as what its items say. -/
theorem toOption_parse_array {vs : List Json.Value} {text : String}
    (h : WritesText (.array vs) text) :
    (parse text).toOption = (items? {} Field.order vs).map Gathered.config :=
  toOption_parse_of_readDocument h fun hbefore h rest => toOption_readDocument_array hbefore h rest

variable {g : Gathered} {fields : List Field} {vs : List Json.Value}

/-- Every item needs a setting. -/
theorem items?_eq_none (h : fields.length < vs.length) : g.items? fields vs = none := by
  induction fields generalizing g vs with
  | nil =>
    cases vs with
    | nil => cases h
    | cons v vs => rfl
  | cons f fields ih =>
    cases vs with
    | nil => cases h
    | cons v vs =>
      rw [items?, Option.bind_eq_none_iff]
      intro g' _
      exact ih (Nat.lt_of_succ_lt_succ h)

/-- To take items down is to take the members down that give them to the settings in order. -/
theorem items?_eq_members? (h : vs.length ≤ fields.length) (hfields : fields.Nodup)
    (hfree : ∀ f ∈ fields, g.has f = false) :
    g.items? fields vs = g.members? (keyed fields vs) := by
  induction fields generalizing g vs with
  | nil =>
    cases vs with
    | nil => rfl
    | cons v vs => cases h
  | cons f fields ih =>
    cases vs with
    | nil => rfl
    | cons v vs =>
      obtain ⟨hf, hnodup⟩ := List.nodup_cons.1 hfields
      have hmember : g.member? (f.name, v) = g.take? f v := by
        simp [member?, hfree f List.mem_cons_self]
      rw [items?, keyed, List.zipWith_cons_cons, members?, hmember]
      refine Option.bind_congr fun g' hg' => ?_
      refine ih (Nat.le_of_succ_le_succ h) hnodup fun f' hf' => ?_
      -- What has been taken down is another setting than those that are left.
      rw [has_take? hg', hfree f' (List.mem_cons_of_mem f hf'), Bool.or_false]
      exact decide_eq_false fun heq => hf (heq ▸ hf')

end Gathered

/-- An array is read exactly if an object is that gives the same values to the first settings,
and then both give the same configuration, in which the settings that are left have their
defaults. An array with an item too many is not read. -/
theorem parse_array {vs : List Json.Value} {text : String} (h : WritesText (.array vs) text) :
    (vs.length ≤ Field.order.length →
      (∀ object, WritesText (.object (keyed Field.order vs)) object →
        ∀ c, parse text = .ok c ↔ parse object = .ok c) ∧
      ∀ c, parse text = .ok c → c = ofSettings (settingsOf (keyed Field.order vs))) ∧
    (Field.order.length < vs.length → ∀ c, parse text ≠ .ok c) := by
  have harray := Gathered.toOption_parse_array h
  refine ⟨fun hlength => ?_, fun hlength c hc => ?_⟩
  · have hitems : Gathered.items? {} Field.order vs =
        Gathered.members? {} (keyed Field.order vs) :=
      Gathered.items?_eq_members? hlength (by decide) fun f _ => by cases f <;> rfl
    rw [hitems] at harray
    refine ⟨fun object hobject c => ?_, fun c hc => ?_⟩
    · rw [← toOption_eq_some, ← toOption_eq_some, harray, Gathered.toOption_parse hobject]
    · rw [← toOption_eq_some, harray] at hc
      obtain ⟨g, hg, rfl⟩ := Option.map_eq_some_iff.1 hc
      exact Gathered.config_members? hg
  · rw [← toOption_eq_some, harray, Gathered.items?_eq_none hlength] at hc
    cases hc

/-- An array of two items and an object with two members say the same. With three settings
given, a further item makes the array one that is not read. -/
theorem parse_array_of_two :
    parse "[\"a\", \"restart\"]" = .ok { label := some "a", restartPolicy := .restart } ∧
      (∀ c, parse "[\"a\", \"restart\"]" = .ok c ↔
        parse "\x7b\"label\":\"a\",\"restart_policy\": \"restart\"\x7d" = .ok c) ∧
      ∀ c, parse "[null,\"reject\",4,null]" ≠ .ok c := by
  have hnone : IsBlanks [] := by simp [IsBlanks]
  have hspace : IsBlanks [' '] := by simp [IsBlanks, Json.isBlank]
  have htext {t : List Char} (h : t.all Json.isUnescaped = true) :
      Writes (.text (String.ofList t)) ('"' :: (t ++ ['"'])) := .text (.of_unescaped h)
  have hkey {t : List Char} (h : t.all Json.isUnescaped = true) :
      Json.WritesKey (String.ofList t) ([] ++ '"' :: (t ++ '"' :: ([] ++ [':']))) :=
    .intro hnone (.of_unescaped h) hnone
  have hlabel := htext (t := "a".toList) rfl
  have hrestart := htext (t := "restart".toList) rfl
  have hreject := htext (t := "reject".toList) rfl
  have harray : WritesText (.array [.text "a", .text "restart"]) "[\"a\", \"restart\"]" :=
    ⟨[], _, [], hnone, .array (.more hnone hlabel hnone (.last hspace hrestart hnone)), hnone, rfl⟩
  have hobject : WritesText (.object (keyed Field.order [.text "a", .text "restart"]))
      "\x7b\"label\":\"a\",\"restart_policy\": \"restart\"\x7d" := by
    have hsecond := Json.WritesMembers.last (hkey (t := "restart_policy".toList) rfl) hspace
      hrestart hnone
    have hfirst := hsecond.more (hkey (t := "label".toList) rfl) hnone hlabel hnone
    exact ⟨[], _, [], hnone, .object hfirst, hnone, rfl⟩
  have hlong : ∃ four, WritesText (.array [.null, .text "reject", .number four, .null])
      "[null,\"reject\",4,null]" := by
    have hdigits : Json.IsDigits ['4'] := ⟨by simp, by simp⟩
    have hfour := Writes.number (.plain ['4'] hdigits (by decide))
    have hitems := Json.WritesItems.more hnone hfour hnone (.last hnone .null hnone)
    have hall := Json.WritesItems.more hnone .null hnone (hitems.more hnone hreject hnone)
    exact ⟨_, [], _, [], hnone, .array hall, hnone, rfl⟩
  obtain ⟨four, hlong⟩ := hlong
  refine ⟨?_, ((parse_array harray).1 (by decide)).1 _ hobject,
    (parse_array hlong).2 (by simp [Field.order])⟩
  rw [← toOption_eq_some, Gathered.toOption_parse_array harray]
  rfl

end TxnAssembly.Config
