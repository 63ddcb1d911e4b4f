import TableSchema.Batch

/-!
# The order in which a batch is finished does not matter

After any number of steps the slots of the finished items hold what is found for them and the others
are empty (`Batch.Finished`). A schedule finishes every item, so what is collected is what one
worker would find that goes through the items from the first to the last (`Batch.collect_eq_map`).
-/

namespace TableSchema.Batch

variable {α β : Type} {f : α → β} {items : List α}

/-- The slots are those of a batch of which the places in `finished` are finished. -/
def Finished (f : α → β) (items : List α) (finished : List Nat) (slots : List (Option β)) : Prop :=
  ∀ place, slots[place]? =
    items[place]?.map fun item => if place ∈ finished then some (f item) else none

/-- At first nothing is finished. -/
theorem finished_nil (f : α → β) (items : List α) :
    Finished f items [] (items.map fun _ => none) := by
  intro place
  rw [List.getElem?_map]
  cases items[place]? <;> rfl

/-- One more item is finished. -/
theorem Finished.finish {finished : List Nat} {slots : List (Option β)}
    (h : Finished f items finished slots) (place : Nat) :
    Finished f items (place :: finished) (finish f items slots place) := by
  intro other
  have hslot := h other
  unfold Batch.finish
  rw [List.getElem?_set]
  -- Finishing a place again does not change what is in its slot.
  by_cases heq : place = other
  · subst heq
    rw [if_pos rfl]
    cases hitem : items[place]? with
    | none => simpa [hitem] using hslot
    | some item =>
      rw [hitem, Option.map_some] at hslot
      have hlt := (List.getElem?_eq_some_iff.1 hslot).1
      simp [hlt]
  · simpa [heq, Ne.symm heq] using hslot

/-- Finishing the places of `order` one after the other finishes all of them. -/
theorem Finished.foldl {finished order : List Nat} {slots : List (Option β)}
    (h : Finished f items finished slots) :
    Finished f items (order.reverse ++ finished) (order.foldl (Batch.finish f items) slots) := by
  induction order generalizing finished slots with
  | nil => exact h
  | cons place order ih =>
    rw [List.reverse_cons, List.append_assoc]
    exact ih (h.finish place)

/-- When every place is finished, every slot holds what is found for its item. -/
theorem Finished.eq_map {finished : List Nat} {slots : List (Option β)}
    (h : Finished f items finished slots) (hall : ∀ place < items.length, place ∈ finished) :
    slots = items.map fun item => some (f item) := by
  apply List.ext_getElem?
  intro place
  rw [h place, List.getElem?_map]
  cases hitem : items[place]? with
  | none => rfl
  | some item =>
    have hplace := hall place (List.getElem?_eq_some_iff.1 hitem).1
    simp [hplace]

/-- Whatever the schedule, what is collected is what is found for the items, in their order. -/
theorem collect_eq_map (f : α → β) (items : List α) (schedule : Schedule items.length) :
    collect f items schedule = items.map f := by
  have hfinished : Finished f items (schedule.order.reverse ++ [])
      (slotsAfter f items schedule.order) := (finished_nil f items).foldl
  have hall : ∀ place < items.length, place ∈ schedule.order.reverse ++ [] := by
    intro place hlt
    have hmem := schedule.perm.mem_iff.2 (List.mem_range.2 hlt)
    simpa using hmem
  unfold collect
  rw [hfinished.eq_map hall, List.filterMap_map]
  exact congrFun List.filterMap_eq_map items

end TableSchema.Batch
