/-!
# Named slots

A slot holds one value under a name. Filling a used slot loses the old value;
whoever does so looks it up first and decides what losing it means.
-/
namespace TxnAssembly

structure Slots (α : Type) where
  entries : List (String × α) := []
  distinct : (entries.map Prod.fst).Nodup := by exact List.nodup_nil

namespace Slots

variable {α : Type}

def get? (s : Slots α) (name : String) : Option α :=
  s.entries.lookup name

def isNamed (name : String) (entry : String × α) : Bool := entry.1 == name

/-- Empties a slot. -/
def erase (s : Slots α) (name : String) : Slots α where
  entries := s.entries.eraseP (isNamed name)
  distinct := s.distinct.sublist (List.eraseP_sublist.map Prod.fst)

theorem not_mem_erase (s : Slots α) (name : String) :
    name ∉ (s.erase name).entries.map Prod.fst := by
  obtain ⟨entries, distinct⟩ := s
  simp only [erase]
  induction entries with
  | nil => simp
  | cons entry rest ih =>
    rw [List.map_cons, List.nodup_cons] at distinct
    by_cases h : entry.1 = name
    · subst h
      simpa [isNamed] using distinct.1
    · rw [List.eraseP_cons_of_neg (by simpa [isNamed] using h)]
      rw [List.map_cons, List.mem_cons, not_or]
      exact ⟨Ne.symm h, ih distinct.2⟩

/-- Fills a slot, whatever it held. -/
def put (s : Slots α) (name : String) (a : α) : Slots α where
  entries := (name, a) :: (s.erase name).entries
  distinct := by
    rw [List.map_cons, List.nodup_cons]
    exact ⟨s.not_mem_erase name, (s.erase name).distinct⟩

@[simp] theorem get?_empty (name : String) : ({} : Slots α).get? name = none := rfl

@[simp] theorem get?_erase_self (s : Slots α) (name : String) :
    (s.erase name).get? name = none := by
  have h := s.not_mem_erase name
  simp only [get?, List.lookup_eq_none_iff]
  intro entry hentry
  refine bne_iff_ne.2 ?_
  rintro rfl
  exact h (List.mem_map_of_mem hentry)

theorem get?_erase_of_ne (s : Slots α) {name other : String} (h : other ≠ name) :
    (s.erase name).get? other = s.get? other := by
  obtain ⟨entries, distinct⟩ := s
  simp only [get?, erase]
  clear distinct
  induction entries with
  | nil => rfl
  | cons entry rest ih =>
    by_cases hk : entry.1 = name
    · rw [List.eraseP_cons_of_pos (by simpa [isNamed] using hk)]
      rw [List.lookup_cons, beq_eq_false_iff_ne.2 (hk ▸ h)]
    · rw [List.eraseP_cons_of_neg (by simpa [isNamed] using hk)]
      rw [List.lookup_cons, List.lookup_cons, ih]

@[simp] theorem get?_put_self (s : Slots α) (name : String) (a : α) :
    (s.put name a).get? name = some a := by
  simp [get?, put]

theorem get?_put_of_ne (s : Slots α) {name other : String} (a : α) (h : other ≠ name) :
    (s.put name a).get? other = s.get? other := by
  rw [← get?_erase_of_ne s h]
  simp [get?, put, List.lookup_cons, beq_eq_false_iff_ne.2 h]

/-- What the slots hold, without the names. -/
def values (s : Slots α) : List α := s.entries.map Prod.snd

@[simp] theorem values_empty : ({} : Slots α).values = [] := rfl

@[simp] theorem values_put (s : Slots α) (name : String) (a : α) :
    (s.put name a).values = a :: (s.erase name).values := rfl

theorem mem_entries_iff (s : Slots α) {name : String} {a : α} :
    (name, a) ∈ s.entries ↔ s.get? name = some a := by
  obtain ⟨entries, distinct⟩ := s
  simp only [get?]
  induction entries with
  | nil => simp
  | cons entry rest ih =>
    rw [List.map_cons, List.nodup_cons] at distinct
    obtain ⟨key, b⟩ := entry
    by_cases h : name = key
    · subst h
      have hrest : (name, a) ∉ rest := fun hmem =>
        distinct.1 (List.mem_map.2 ⟨(name, a), hmem, rfl⟩)
      simp [hrest, eq_comm]
    · simp [List.lookup_cons, h, ih distinct.2, beq_eq_false_iff_ne.2 h]

theorem mem_values_iff (s : Slots α) {a : α} :
    a ∈ s.values ↔ ∃ name, s.get? name = some a := by
  simp [values, ← mem_entries_iff]

/-- Emptying a slot loses what it held and nothing else. -/
theorem values_perm_erase (s : Slots α) (name : String) :
    s.values.Perm ((s.get? name).toList ++ (s.erase name).values) := by
  obtain ⟨entries, distinct⟩ := s
  simp only [values, get?, erase]
  clear distinct
  induction entries with
  | nil => simp
  | cons entry rest ih =>
    obtain ⟨key, a⟩ := entry
    by_cases h : key = name
    · subst h
      simp [isNamed]
    · rw [List.eraseP_cons_of_neg (by simpa [isNamed] using h), List.lookup_cons,
        beq_eq_false_iff_ne.2 (Ne.symm h), List.map_cons, List.map_cons]
      exact (ih.cons a).trans List.perm_middle.symm

end Slots

end TxnAssembly
