import Mathlib.Data.Finset.Card
import SelectionMask.OrderedSet.History
import SelectionMask.Proofs.OrderedSet.FirstOccurrence

set_option autoImplicit false

/-! # An ordered set through its history

A set that is built from a list and then goes through any steps is the set of one long list: the first
one, followed by what each step has handed over (`OrderedSet.after_ofList`). One step puts its
elements at the end of that list (`OrderedSet.step_ofList`); updating a set with itself and copying
it hand over nothing, although both go through all the elements again. What is known of the set of a
list so holds at every moment of a history: `OrderedSet.history_keeps_first_occurrences`. -/

namespace SelectionMask

namespace OrderedSet

variable {α : Type} [DecidableEq α]

theorem eraseDups_of_nodup {as : List α} (h : as.Nodup) : as.eraseDups = as := by
  induction as with
  | nil => rfl
  | cons a as ih =>
      obtain ⟨ha, has⟩ := List.nodup_cons.1 h
      have hkept : (as.filter fun b => !b == a) = as := by
        refine List.filter_eq_self.2 fun b hb => ?_
        have hne : b ≠ a := fun hba => ha (hba ▸ hb)
        simpa using hne
      rw [List.eraseDups_cons, hkept, ih has]

/-! ## Steps -/

/-- A copy is equal to the set. -/
theorem ofList_toList (s : OrderedSet α) : ofList s.toList = s := by
  ext1
  rw [toList_ofList, eraseDups_of_nodup s.nodup]

theorem update_toList (s : OrderedSet α) : s.update s.toList = s :=
  update_of_subset fun _ ha => mem_toList.1 ha

/-- A step puts the elements that it hands over at the end of those given before. -/
theorem step_ofList (as : List α) (st : OrderedStep α) :
    (ofList as).step st = ofList (as ++ st.given) := by
  cases st with
  | add a => exact (ofList_concat as a).symm
  | update bs => exact (update_append empty as bs).symm
  | updateSelf => simp [step, OrderedStep.given, update_toList]
  | copy => simp [step, OrderedStep.given, ofList_toList]
  | contains _ | nonempty | print => simp [step, OrderedStep.given]

/-! ## Histories -/

theorem after_append (s : OrderedSet α) (earlier later : List (OrderedStep α)) :
    s.after (earlier ++ later) = (s.after earlier).after later :=
  List.foldl_append ..

/-- **A history builds the set of all that was given in it.** -/
theorem after_ofList (init : List α) (steps : List (OrderedStep α)) :
    (ofList init).after steps = ofList (init ++ steps.flatMap OrderedStep.given) := by
  induction steps generalizing init with
  | nil => rw [List.flatMap_nil, List.append_nil, after, List.foldl_nil]
  | cons st rest ih =>
      calc (ofList init).after (st :: rest)
          = ((ofList init).step st).after rest := rfl
        _ = (ofList (init ++ st.given)).after rest := by rw [step_ofList]
        _ = ofList (init ++ (st :: rest).flatMap OrderedStep.given) := by
            rw [ih, List.flatMap_cons, List.append_assoc]

/-- A set only grows, and only at its end. -/
theorem isPrefix_after (s : OrderedSet α) (steps : List (OrderedStep α)) :
    s.toList <+: (s.after steps).toList := by
  have hset : s.after steps = ofList (s.toList ++ steps.flatMap OrderedStep.given) := by
    rw [← after_ofList, ofList_toList]
  rw [hset, toList_ofList, eraseDups_append_eq, eraseDups_of_nodup s.nodup]
  exact List.prefix_append ..

theorem size_ofList (as : List α) : (ofList as).size = as.toFinset.card := by
  have hsame : (ofList as).toList.toFinset = as.toFinset := by
    ext a
    rw [List.mem_toFinset, List.mem_toFinset, mem_toList, mem_ofList]
  rw [← hsame, List.toFinset_card_of_nodup (ofList as).nodup, size]

/-- Each step is answered by the set as it is after the steps before. -/
theorem getElem?_run (write : α → String) (s : OrderedSet α) (steps : List (OrderedStep α))
    (index : Nat) :
    (s.run write steps)[index]? = steps[index]?.map fun st =>
      let now := s.after (steps.take index)
      (now.answer write st, now.step st) := by
  induction steps generalizing s index with
  | nil => rfl
  | cons st rest ih =>
      cases index with
      | zero => rfl
      | succ index => exact ih (s.step st) index

/-- **A set keeps first occurrences through its whole history.** Build a set from a list, play any
    steps, and stop at any moment. The set then lists all that has been given so far, the first list
    and after it what the steps up to here have handed over, with each element where it first stands.
    So no element is listed twice, there are as many as different ones have been given, and an
    element is in the set just if it was given; updating the set with itself or copying it changes
    nothing, and neither does an update that has got through part of the elements; and however the
    history goes on, the elements stay in front of those that are still to come. What the history
    shows next is what this set answers, and the set after one more step. -/
theorem history_keeps_first_occurrences (write : α → String) (init : List α)
    (earlier later : List (OrderedStep α)) :
    let start := ofList init
    let now := start.after earlier
    let given := init ++ earlier.flatMap OrderedStep.given
    now.toList = given.eraseDups ∧
      now.toList.Nodup ∧
      now.size = given.toFinset.card ∧
      (∀ a, a ∈ now ↔ a ∈ given) ∧
      now.step .updateSelf = now ∧
      (∀ count, now.update (now.toList.take count) = now) ∧
      now.step .copy = now ∧
      now.toList <+: (start.after (earlier ++ later)).toList ∧
      (start.run write (earlier ++ later))[earlier.length]? = later.head?.map fun st =>
        (now.answer write st, start.after (earlier ++ [st])) := by
  intro start now given
  have hnow : now = ofList given := after_ofList init earlier
  refine ⟨?_, now.nodup, ?_, fun a => ?_, update_toList now, fun count => ?_, ofList_toList now, ?_,
    ?_⟩
  · rw [hnow, toList_ofList]
  · rw [hnow, size_ofList]
  · rw [hnow, mem_ofList]
  · exact update_of_subset fun a ha => mem_toList.1 (List.mem_of_mem_take ha)
  · rw [after_append]
    exact isPrefix_after now later
  · have hnext : (earlier ++ later)[earlier.length]? = later.head? := by
      rw [List.getElem?_append_right (Nat.le_refl _), Nat.sub_self, List.head?_eq_getElem?]
    rw [getElem?_run, List.take_left, hnext]
    congr 1
    funext st
    rw [after_append]
    rfl

example : ((ofList ["b", "a", "b"]).after
    [.updateSelf, .add "c", .copy, .contains "a", .update ["a", "d", "c"]]).toList
      = ["b", "a", "c", "d"] := by
  decide +kernel

end OrderedSet

end SelectionMask
