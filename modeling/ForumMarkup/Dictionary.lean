/-!
Contract: finite maps from names to values.

Owns:
- `Dictionary`, the pairs in strictly ascending order of their keys, which is
  also the order in which they are listed;
- `set` and `ofList`, where a later value replaces an earlier one;
- the look-ups `get?` and `contains`.

Main statements: `get?_set_self` and `get?_set_of_ne`, which determine every
later look-up.

Keys are compared by code points, which is the order of their UTF-8 bytes.
-/

set_option autoImplicit false

namespace ForumMarkup

/-- A map from keys to values, listed by ascending key. -/
@[ext]
structure Dictionary (α : Type) where
  entries : List (String × α)
  ascending : entries.Pairwise fun left right => left.1 < right.1
  deriving DecidableEq

namespace Dictionary

variable {α : Type}

/-- Puts a pair in its place, over an earlier pair of the same key. -/
def insertEntry (key : String) (value : α) : List (String × α) → List (String × α)
  | [] => [(key, value)]
  | (other, old) :: rest =>
      if key < other then (key, value) :: (other, old) :: rest
      else if key = other then (key, value) :: rest
      else (other, old) :: insertEntry key value rest

/-- No pair comes in but the one that is put in its place. -/
theorem mem_insertEntry {key : String} {value : α} {entries : List (String × α)}
    {entry : String × α} (member : entry ∈ insertEntry key value entries) :
    entry = (key, value) ∨ entry ∈ entries := by
  fun_induction insertEntry key value entries with
  | case1 => simpa using member
  | case2 => simpa using member
  | case3 old rest _ =>
      rcases List.mem_cons.1 member with here | there
      · exact .inl here
      · exact .inr (List.mem_cons_of_mem _ there)
  | case4 other old rest _ _ ih =>
      rcases List.mem_cons.1 member with here | there
      · exact .inr (here ▸ List.mem_cons_self)
      · exact (ih there).imp id (List.mem_cons_of_mem _)

/-- Keys stay in ascending order. -/
theorem pairwise_insertEntry (key : String) (value : α) {entries : List (String × α)}
    (ascending : entries.Pairwise fun left right => left.1 < right.1) :
    (insertEntry key value entries).Pairwise fun left right => left.1 < right.1 := by
  fun_induction insertEntry key value entries with
  | case1 => simp
  | case2 other old rest before =>
      refine List.pairwise_cons.2 ⟨fun entry member => ?_, ascending⟩
      rcases List.mem_cons.1 member with rfl | later
      · exact before
      · exact String.lt_trans before ((List.pairwise_cons.1 ascending).1 entry later)
  | case3 old rest _ =>
      exact List.pairwise_cons.2 (List.pairwise_cons.1 ascending)
  | case4 other old rest notBefore different ih =>
      obtain ⟨least, tail⟩ := List.pairwise_cons.1 ascending
      refine List.pairwise_cons.2 ⟨fun entry member => ?_, ih tail⟩
      rcases mem_insertEntry member with rfl | old
      · refine String.not_le.1 fun reversed => different ?_
        exact String.le_antisymm reversed (String.not_lt.1 notBefore)
      · exact least entry old

def empty : Dictionary α := ⟨[], List.Pairwise.nil⟩

instance : Inhabited (Dictionary α) := ⟨empty⟩
instance : EmptyCollection (Dictionary α) := ⟨empty⟩

def set (map : Dictionary α) (key : String) (value : α) : Dictionary α :=
  ⟨insertEntry key value map.entries, pairwise_insertEntry key value map.ascending⟩

/-- The map given by pairs, of which a later one wins. -/
def ofList (pairs : List (String × α)) : Dictionary α :=
  pairs.foldl (fun map pair => map.set pair.1 pair.2) empty

def get? (map : Dictionary α) (key : String) : Option α :=
  map.entries.lookup key

def contains (map : Dictionary α) (key : String) : Bool :=
  (map.get? key).isSome

def size (map : Dictionary α) : Nat :=
  map.entries.length

def toList (map : Dictionary α) : List (String × α) :=
  map.entries

theorem lookup_insertEntry_self (key : String) (value : α) (entries : List (String × α)) :
    (insertEntry key value entries).lookup key = some value := by
  fun_induction insertEntry key value entries with
  | case1 => simp
  | case2 => simp
  | case3 => simp
  | case4 other old rest _ different ih =>
      rw [List.lookup_cons, beq_false_of_ne different, ih]

theorem lookup_insertEntry_of_ne {key other : String} (value : α)
    (entries : List (String × α)) (different : other ≠ key) :
    (insertEntry key value entries).lookup other = entries.lookup other := by
  fun_induction insertEntry key value entries with
  | case1 => rw [List.lookup_cons, beq_false_of_ne different]
  | case2 => rw [List.lookup_cons, beq_false_of_ne different]
  | case3 =>
      rw [List.lookup_cons, beq_false_of_ne different, List.lookup_cons,
        beq_false_of_ne different]
  | case4 found old rest _ _ ih => rw [List.lookup_cons, List.lookup_cons, ih]

@[simp]
theorem get?_set_self (map : Dictionary α) (key : String) (value : α) :
    (map.set key value).get? key = some value :=
  lookup_insertEntry_self key value map.entries

theorem get?_set_of_ne (map : Dictionary α) {key other : String} (value : α)
    (different : other ≠ key) :
    (map.set key value).get? other = map.get? other :=
  lookup_insertEntry_of_ne value map.entries different

end Dictionary
end ForumMarkup
