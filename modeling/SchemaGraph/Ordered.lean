/-!
# Ordered lists

Sorting by insertion, and ascending lists of numbers used as finite sets.
Sorting is stable: elements that the order does not separate keep their places.
-/

namespace SchemaGraph.Ordered

variable {α : Type}

/-- Puts `a` in front of the first element that is not strictly before it. -/
def insert (le : α → α → Bool) (a : α) : List α → List α
  | [] => [a]
  | b :: rest => if le a b then a :: b :: rest else b :: insert le a rest

/-- The elements of a list in ascending order. -/
def sort (le : α → α → Bool) : List α → List α
  | [] => []
  | a :: rest => insert le a (sort le rest)

/-- Adds a number to an ascending list without repetitions. -/
def insertNat (n : Nat) : List Nat → List Nat
  | [] => [n]
  | m :: rest =>
    if n < m then n :: m :: rest
    else if n = m then m :: rest
    else m :: insertNat n rest

/-- The ascending list without repetitions of the numbers in a list. -/
def natSet (ns : List Nat) : List Nat :=
  ns.foldl (fun set n => insertNat n set) []

theorem mem_insertNat {n m : Nat} {set : List Nat} :
    m ∈ insertNat n set ↔ m = n ∨ m ∈ set := by
  induction set with
  | nil => simp [insertNat]
  | cons k rest ih =>
      unfold insertNat
      split
      · simp
      · split
        · next h => subst h; simp
        · simp only [List.mem_cons, ih]
          exact or_left_comm

end SchemaGraph.Ordered
