/-!
# Mustache — pools

Things that can change while others hold on to them are kept in a pool
and known by their position there. Nothing is ever taken out, so a
position stays good.
-/

namespace Mustache

/-- Things of one kind, each known by its position. -/
structure Pool (α : Type) where
  items : List α

namespace Pool

variable {α : Type}

def empty : Pool α := ⟨[]⟩

/-- The thing at a position. -/
def get? (pool : Pool α) (ref : Nat) : Option α := pool.items[ref]?

/-- The position of a new thing, and the pool with it. -/
def add (pool : Pool α) (item : α) : Nat × Pool α := (pool.items.length, ⟨pool.items ++ [item]⟩)

/-- The pool with another thing at a position. -/
def put (pool : Pool α) (ref : Nat) (item : α) : Pool α := ⟨pool.items.set ref item⟩

/-- A new thing is found at the position it was given. -/
@[simp] theorem get?_add_self (pool : Pool α) (item : α) :
    (pool.add item).2.get? (pool.add item).1 = some item := by
  simp [add, get?]

/-- A new thing leaves the others where they are. -/
theorem get?_add_of_get? {pool : Pool α} {ref : Nat} {found : α} (item : α)
    (h : pool.get? ref = some found) : (pool.add item).2.get? ref = some found := by
  have hlt : ref < pool.items.length := (List.getElem?_eq_some_iff.1 h).1
  simpa [add, get?, List.getElem?_append_left hlt] using h

/-- What was put at a position is found there. -/
theorem get?_put_self {pool : Pool α} {ref : Nat} {found : α} (item : α)
    (h : pool.get? ref = some found) : (pool.put ref item).get? ref = some item := by
  have hlt : ref < pool.items.length := (List.getElem?_eq_some_iff.1 h).1
  simp [put, get?, hlt]

/-- Putting at one position leaves the others alone. -/
theorem get?_put_of_ne (pool : Pool α) {ref other : Nat} (item : α) (h : other ≠ ref) :
    (pool.put ref item).get? other = pool.get? other := by
  simp [put, get?, List.getElem?_set_ne (Ne.symm h)]

end Pool

end Mustache
