import TxnAssembly.Json.Value

/-!
# What a successful reading guarantees

`Yields P r` says that `P` holds of the value of `r`, if `r` has one. A chain of
readings is followed step by step through it; its first use is that every
reader shortens the text.
-/
namespace TxnAssembly.Json

variable {ε ε' α β : Type}

/-- A failed computation yields everything. -/
def Yields (P : α → Prop) (r : Except ε α) : Prop :=
  ∀ a, r = .ok a → P a

namespace Yields

theorem error {P : α → Prop} (e : ε) : Yields P (.error e : Except ε α) := by
  intro a h; simp at h

theorem ok {P : α → Prop} {a : α} (h : P a) : Yields P (.ok a : Except ε α) := by
  intro b hb
  simp only [Except.ok.injEq] at hb
  exact hb ▸ h

theorem mono {P Q : α → Prop} {r : Except ε α} (h : Yields P r) (imp : ∀ a, P a → Q a) :
    Yields Q r :=
  fun a ha => imp a (h a ha)

theorem map {P : β → Prop} {r : Except ε α} {f : α → β} (h : Yields (fun a => P (f a)) r) :
    Yields P (r.map f) := by
  cases r with
  | error e => exact error e
  | ok a => exact ok (h a rfl)

theorem bind {P : α → Prop} {Q : β → Prop} {r : Except ε α} {f : α → Except ε β}
    (h : Yields P r) (next : ∀ a, P a → Yields Q (f a)) : Yields Q (r >>= f) := by
  cases r with
  | error e => exact error e
  | ok a => exact next a (h a rfl)

theorem mapError {P : α → Prop} {r : Except ε α} {f : ε → ε'} (h : Yields P r) :
    Yields P (r.mapError f) := by
  cases r with
  | error e => exact error _
  | ok a => exact ok (h a rfl)

end Yields

theorem readWord_yields (expected cs : List Char) :
    Yields (fun rest => rest.length ≤ cs.length) (readWord expected cs) :=
  fun _ h => readWord_length_le h

theorem readBody_yields (cs : List Char) :
    Yields (fun p => p.2.length < cs.length) (readBody cs) :=
  fun _ h => readBody_length h

theorem readNumber_yields (negative : Bool) (cs : List Char) :
    Yields (fun p => p.2.length < cs.length) (readNumber negative cs) :=
  fun _ h => readNumber_length h

theorem readColon_yields (cs : List Char) :
    Yields (fun rest => rest.length < cs.length) (readColon cs) :=
  fun _ h => readColon_length h

theorem skipAny_yields (cs : List Char) :
    Yields (fun rest => rest.length < cs.length) (skipAny cs) :=
  fun _ h => skipAny_length h

end TxnAssembly.Json
