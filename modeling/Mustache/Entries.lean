/-!
# Mustache — entries in order

A table from names to values that remembers the order in which the names
came: putting a new name adds it at the end, putting a known one keeps
its place and replaces its value. Maps in the data, section procedures,
block bodies and helpers are all tables of this kind.
-/

namespace Mustache

/-- Named values in insertion order. -/
abbrev Entries (α : Type) := List (String × α)

namespace Entries

variable {α β : Type}

/-- The value under a name. -/
def get? : Entries α → String → Option α
  | [], _ => none
  | (k, v) :: m, name => if k = name then some v else get? m name

/-- Whether a name is there. -/
def has (m : Entries α) (name : String) : Bool := (get? m name).isSome

/-- Put a value under a name: in the name's place if it is there, at the
end if not. -/
def insert : Entries α → String → α → Entries α
  | [], name, value => [(name, value)]
  | (k, v) :: m, name, value =>
    if k = name then (k, value) :: m else (k, v) :: insert m name value

/-- Put a value under a name unless the name is there already. -/
def insertNew (m : Entries α) (name : String) (value : α) : Entries α :=
  if has m name then m else insert m name value

/-- The table without a name. -/
def erase (m : Entries α) (name : String) : Entries α :=
  m.filter fun entry => entry.1 ≠ name

/-- The names, in order. -/
def names (m : Entries α) : List String := m.map (·.1)

/-- The table that results from putting the pairs one after the other: a
repeated name keeps its first place and its last value. -/
def ofPairs (pairs : List (String × α)) : Entries α :=
  pairs.foldl (fun m p => insert m p.1 p.2) []

/-- The same pairs in ascending order of their names. -/
def sorted (m : Entries α) : Entries α := m.mergeSort fun a b => !decide (b.1 < a.1)

@[simp] theorem get?_nil (name : String) : get? ([] : Entries α) name = none := rfl

/-- What was put is what is found. -/
@[simp] theorem get?_insert_self (m : Entries α) (name : String) (value : α) :
    get? (insert m name value) name = some value := by
  induction m with
  | nil => simp [insert, get?]
  | cons entry m ih =>
    obtain ⟨k, v⟩ := entry
    by_cases h : k = name <;> simp [insert, get?, h, ih]

/-- Putting one name leaves what stands under another. -/
theorem get?_insert_of_ne {m : Entries α} {name other : String} (value : α) (h : other ≠ name) :
    get? (insert m name value) other = get? m other := by
  induction m with
  | nil => simp [insert, get?, Ne.symm h]
  | cons entry m ih =>
    obtain ⟨k, v⟩ := entry
    by_cases hk : k = name
    · subst hk; simp [insert, get?, Ne.symm h]
    · rw [insert, if_neg hk]
      by_cases ho : k = other
      · rw [get?, if_pos ho, get?, if_pos ho]
      · rw [get?, if_neg ho, get?, if_neg ho, ih]

end Entries

end Mustache
