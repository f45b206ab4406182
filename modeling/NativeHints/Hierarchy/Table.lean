import NativeHints.Text.Basic

/-!
# Tables

A table maps texts to values.  It is a list of pairs in increasing order of the
keys, so two tables with the same entries are the same list, whatever the
order in which the entries were put in.
-/

namespace NativeHints

/-- A map from texts, in order of the keys. -/
abbrev Table (α : Type) := List (Text × α)

namespace Table

variable {α : Type}

/-- The table with a value put under a key, in place of the one it had. -/
def put (key : Text) (value : α) : Table α → Table α
  | [] => [(key, value)]
  | (k, v) :: t =>
      if key = k then (key, value) :: t
      else if key < k then (key, value) :: (k, v) :: t
      else (k, v) :: put key value t

/-- The value under a key. -/
def find? (key : Text) : Table α → Option α
  | [] => none
  | (k, v) :: t => if key = k then some v else find? key t

/-- What is found after a value has been put. -/
theorem find?_put (key other : Text) (value : α) (t : Table α) :
    find? other (put key value t) = if other = key then some value else find? other t := by
  induction t with
  | nil => simp [put, find?]
  | cons entry t ih =>
      obtain ⟨k, v⟩ := entry
      unfold put
      split
      · next h => subst h; simp only [find?]; split <;> rfl
      · split
        · simp only [find?]
        · simp only [find?, ih]
          by_cases h : other = k
          · subst h
            simp_all [eq_comm]
          · simp [h]

end Table

end NativeHints
