set_option autoImplicit false

/-! # Ordered sets

A set that remembers the order in which its elements were first given. It is a list without
duplicates; adding an element that is already there changes nothing, any other goes to the end. -/

namespace SelectionMask

/-- A list without duplicates, in order of first insertion. -/
structure OrderedSet (α : Type) where
  /-- The elements, in order of first insertion. -/
  toList : List α
  nodup : toList.Nodup

namespace OrderedSet

variable {α : Type}

/-- The set without elements. -/
def empty : OrderedSet α :=
  ⟨[], List.nodup_nil⟩

instance : EmptyCollection (OrderedSet α) := ⟨empty⟩

instance : Membership α (OrderedSet α) := ⟨fun s a => a ∈ s.toList⟩

instance [DecidableEq α] (a : α) (s : OrderedSet α) : Decidable (a ∈ s) :=
  inferInstanceAs (Decidable (a ∈ s.toList))

@[ext] theorem ext {s t : OrderedSet α} (h : s.toList = t.toList) : s = t := by
  cases s; cases t; cases h; rfl

@[simp] theorem toList_empty : (empty : OrderedSet α).toList = [] := rfl

@[simp] theorem mem_toList {a : α} {s : OrderedSet α} : a ∈ s.toList ↔ a ∈ s := Iff.rfl

theorem nodup_concat {a : α} {as : List α} (h : as.Nodup) (ha : a ∉ as) : (as ++ [a]).Nodup := by
  refine List.nodup_append.2 ⟨h, by simp, ?_⟩
  intro b hb c hc
  rw [List.mem_singleton.1 hc]
  exact fun hba => ha (hba ▸ hb)

/-- The number of elements. -/
def size (s : OrderedSet α) : Nat :=
  s.toList.length

variable [DecidableEq α]

/-- Put an element at the end, unless the set holds it already. -/
def add (s : OrderedSet α) (a : α) : OrderedSet α :=
  if h : a ∈ s.toList then s else ⟨s.toList ++ [a], nodup_concat s.nodup h⟩

/-- Add the elements of a list from left to right. -/
def update (s : OrderedSet α) (as : List α) : OrderedSet α :=
  as.foldl add s

/-- The set of a list's elements, each where it first stands. -/
def ofList (as : List α) : OrderedSet α :=
  empty.update as

theorem toList_add (s : OrderedSet α) (a : α) :
    (s.add a).toList = if a ∈ s then s.toList else s.toList ++ [a] := by
  unfold add
  by_cases h : a ∈ s.toList
  · rw [dif_pos h, if_pos (mem_toList.1 h)]
  · rw [dif_neg h, if_neg (fun hm => h (mem_toList.2 hm))]

@[simp] theorem update_nil (s : OrderedSet α) : s.update [] = s := rfl

@[simp] theorem update_cons (s : OrderedSet α) (a : α) (as : List α) :
    s.update (a :: as) = (s.add a).update as := rfl

theorem update_append (s : OrderedSet α) (as bs : List α) :
    s.update (as ++ bs) = (s.update as).update bs :=
  List.foldl_append ..

end OrderedSet

end SelectionMask
