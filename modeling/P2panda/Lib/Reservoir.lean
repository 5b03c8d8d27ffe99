import Mathlib.Data.List.Nodup

/- Reservoir sampling, as `rand`'s `IteratorRandom::choose_multiple` does it: the first
   `amount` elements fill the reservoir; then the `i`-th element after them draws an index
   below `i + 1 + amount` and, when the index is a slot of the reservoir, replaces that
   slot. The random draws are an input: `draws i` is the number drawn for the `i`-th
   element after the reservoir, and `gen_index(rng, ubound)` is `draws i % ubound`, so
   every index the generator can return is one some `draws` gives.

   Whatever the draws:
   * `length_chooseMultiple`: the sample has `min amount l.length` elements;
   * `mem_of_mem_chooseMultiple`: each is an element of the input;
   * `nodup_chooseMultiple`: from an input without duplicates, the sample has none.
   The loop keeps a reservoir without duplicates and disjoint from what is left to visit
   (`nodup_replaceLoop`). -/
namespace Reservoir

variable {α : Type}

/-- The loop over the elements after the reservoir, from the `i`-th on. A slot past the end
of the reservoir is not one (`get_mut` returns `None`), and `List.set` leaves the list as it
is there. -/
def replaceLoop (draws : Nat → Nat) (amount : Nat) : Nat → List α → List α → List α
  | _, [], reservoir => reservoir
  | i, elem :: rest, reservoir =>
    replaceLoop draws amount (i + 1) rest (reservoir.set (draws i % (i + 1 + amount)) elem)

/-- `choose_multiple(rng, amount)`: a reservoir of the first `amount` elements, whose slots
the later elements replace at random, when there are `amount` elements to fill it. -/
def chooseMultiple (draws : Nat → Nat) (l : List α) (amount : Nat) : List α :=
  let reservoir := l.take amount
  if reservoir.length = amount then replaceLoop draws amount 0 (l.drop amount) reservoir
  else reservoir

variable (draws : Nat → Nat) (amount : Nat)

theorem length_replaceLoop :
    ∀ (i : Nat) (rest reservoir : List α),
      (replaceLoop draws amount i rest reservoir).length = reservoir.length
  | _, [], _ => rfl
  | i, elem :: rest, reservoir => by
    rw [replaceLoop, length_replaceLoop, List.length_set]

theorem mem_replaceLoop :
    ∀ (i : Nat) (rest reservoir : List α) (x : α),
      x ∈ replaceLoop draws amount i rest reservoir → x ∈ reservoir ∨ x ∈ rest
  | _, [], _, _, hx => .inl hx
  | i, elem :: rest, reservoir, x, hx => by
    rw [replaceLoop] at hx
    rcases mem_replaceLoop (i + 1) rest _ x hx with hx | hx
    · rcases List.mem_or_eq_of_mem_set hx with hx | rfl
      · exact .inl hx
      · exact .inr List.mem_cons_self
    · exact .inr (List.mem_cons_of_mem _ hx)

/-- A reservoir without duplicates and disjoint from the elements left, which have none,
stays without duplicates: each element it takes in is new to it. -/
theorem nodup_replaceLoop :
    ∀ (i : Nat) (rest reservoir : List α), reservoir.Nodup → rest.Nodup →
      (∀ x ∈ reservoir, x ∉ rest) → (replaceLoop draws amount i rest reservoir).Nodup
  | _, [], _, hres, _, _ => hres
  | i, elem :: rest, reservoir, hres, hrest, hdisj => by
    rw [replaceLoop]
    obtain ⟨helem, hrest'⟩ := List.nodup_cons.mp hrest
    have hnew : elem ∉ reservoir := fun h => hdisj elem h List.mem_cons_self
    refine nodup_replaceLoop (i + 1) rest _ (hres.set hnew) hrest' fun x hx hxr => ?_
    rcases List.mem_or_eq_of_mem_set hx with hx | rfl
    · exact hdisj x hx (List.mem_cons_of_mem _ hxr)
    · exact helem hxr

theorem length_chooseMultiple (l : List α) :
    (chooseMultiple draws l amount).length = min amount l.length := by
  dsimp only [chooseMultiple]
  split
  · next hfull =>
    rw [length_replaceLoop, hfull]
    -- a full reservoir took `amount` elements, so there were that many
    have : amount ≤ l.length := by
      rw [← hfull, List.length_take]
      exact Nat.min_le_right _ _
    omega
  · exact List.length_take

theorem mem_of_mem_chooseMultiple {l : List α} {x : α} (h : x ∈ chooseMultiple draws l amount) :
    x ∈ l := by
  dsimp only [chooseMultiple] at h
  split at h
  · rcases mem_replaceLoop draws amount 0 _ _ x h with h | h
    · exact List.mem_of_mem_take h
    · exact List.mem_of_mem_drop h
  · exact List.mem_of_mem_take h

theorem nodup_chooseMultiple {l : List α} (hl : l.Nodup) :
    (chooseMultiple draws l amount).Nodup := by
  have hsplit : (l.take amount ++ l.drop amount).Nodup := by
    rw [List.take_append_drop]
    exact hl
  obtain ⟨htake, hdrop, hdisj⟩ := List.nodup_append.mp hsplit
  dsimp only [chooseMultiple]
  split
  · exact nodup_replaceLoop draws amount 0 _ _ htake hdrop fun x hx hxd => hdisj x hx x hxd rfl
  · exact htake

end Reservoir
