/-!
# Batches

A batch applies a function to every item of a list. The workers of the batch finish the items in any
order, which a `Schedule` fixes. What is found for an item goes into the slot at its place, and the
slots are collected from the first to the last.
-/

namespace TableSchema

/-- The places of a batch in the order in which they are finished. -/
structure Schedule (size : Nat) where
  /-- The places. -/
  order : List Nat
  /-- Every place is finished once. -/
  perm : order.Perm (List.range size)

/-- The places from the first to the last. -/
def Schedule.inOrder (size : Nat) : Schedule size :=
  ⟨List.range size, .refl _⟩

namespace Batch

variable {α β : Type}

/-- Finish the item at a place. -/
def finish (f : α → β) (items : List α) (slots : List (Option β)) (place : Nat) :
    List (Option β) :=
  slots.set place (items[place]?.map f)

/-- The slots once the places of `order` are finished. -/
def slotsAfter (f : α → β) (items : List α) (order : List Nat) : List (Option β) :=
  order.foldl (finish f items) (items.map fun _ => none)

/-- What is found for the items, in the order of the items. -/
def collect (f : α → β) (items : List α) (schedule : Schedule items.length) : List β :=
  (slotsAfter f items schedule.order).filterMap id

end Batch

end TableSchema
