import ForumMarkup.Dictionary

/-!
Contract: maps that are given by all their pairs.

Main statement: `ofList_of_perm`, the pairs of a map, in any order, give it back.
-/

set_option autoImplicit false

namespace ForumMarkup.Dictionary

variable {α : Type}

theorem insertEntry_perm {key : String} (value : α) {entries : List (String × α)}
    (fresh : ∀ entry ∈ entries, entry.1 ≠ key) :
    (insertEntry key value entries).Perm ((key, value) :: entries) := by
  fun_induction insertEntry key value entries with
  | case1 => exact .refl _
  | case2 => exact .refl _
  | case3 old rest _ => exact absurd rfl (fresh (key, old) List.mem_cons_self)
  | case4 other old rest _ _ ih =>
      have later := ih fun entry member => fresh entry (List.mem_cons_of_mem _ member)
      exact (later.cons (other, old)).trans (.swap _ _ _)

/-- Setting distinct new keys adds the pairs and changes no other. -/
theorem foldl_set_perm {pairs : List (String × α)}
    (distinct : pairs.Pairwise fun left right => left.1 ≠ right.1) (map : Dictionary α)
    (fresh : ∀ pair ∈ pairs, ∀ entry ∈ map.entries, entry.1 ≠ pair.1) :
    (pairs.foldl (fun map pair => map.set pair.1 pair.2) map).entries.Perm
      (pairs ++ map.entries) := by
  induction pairs generalizing map with
  | nil => exact .refl _
  | cons pair more ih =>
      obtain ⟨others, distinctMore⟩ := List.pairwise_cons.1 distinct
      obtain ⟨freshPair, freshMore⟩ := List.forall_mem_cons.1 fresh
      have inserted : (map.set pair.1 pair.2).entries.Perm (pair :: map.entries) :=
        insertEntry_perm pair.2 freshPair
      refine (ih distinctMore (map.set pair.1 pair.2) fun next later entry member => ?_).trans ?_
      · rcases List.mem_cons.1 (inserted.mem_iff.1 member) with rfl | old
        · exact others next later
        · exact freshMore next later entry old
      · exact (inserted.append_left more).trans List.perm_middle

/-- The keys of a map are distinct. -/
theorem distinct_entries (map : Dictionary α) :
    map.entries.Pairwise fun left right => left.1 ≠ right.1 := by
  refine map.ascending.imp fun before same => ?_
  rw [same] at before
  exact String.lt_irrefl _ before

/-- A map is given by its pairs in any order. -/
theorem ofList_of_perm {pairs : List (String × α)} {map : Dictionary α}
    (listed : pairs.Perm map.entries) : ofList pairs = map := by
  have distinct : pairs.Pairwise fun left right => left.1 ≠ right.1 :=
    listed.symm.pairwise map.distinct_entries Ne.symm
  have entries : (ofList pairs).entries.Perm map.entries := by
    have held := foldl_set_perm distinct empty fun _ _ _ none => nomatch none
    rw [show (empty : Dictionary α).entries = [] from rfl, List.append_nil] at held
    exact held.trans listed
  refine Dictionary.ext ?_
  refine entries.eq_of_pairwise ?_ (ofList pairs).ascending map.ascending
  intro left right _ _ before after
  exact absurd (String.lt_trans before after) (String.lt_irrefl _)

end ForumMarkup.Dictionary
