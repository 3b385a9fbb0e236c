import Mathlib.Data.List.Induction
import SelectionMask.OrderedSet.Basic

set_option autoImplicit false

/-! # An ordered set keeps first occurrences

The set built from a list holds each element where it first stands in the list. So the order of the
set is inherited from any order that the list is in, although the set forgets where the other
occurrences were: `OrderedSet.pairwise_ofList_map`. -/

namespace SelectionMask

namespace OrderedSet

variable {α β : Type} [DecidableEq α]

theorem ofList_concat (as : List α) (a : α) : ofList (as ++ [a]) = (ofList as).add a := by
  rw [ofList, update_append]
  rfl

/-- The set of a list is the list with later occurrences erased. -/
theorem toList_ofList (as : List α) : (ofList as).toList = as.eraseDups := by
  induction as using List.reverseRecOn with
  | nil => rfl
  | append_singleton as a ih =>
      have hmem : a ∈ ofList as ↔ a ∈ as := by rw [← mem_toList, ih, List.mem_eraseDups]
      rw [ofList_concat, toList_add, ih, List.eraseDups_append]
      by_cases ha : a ∈ as
      · rw [if_pos (hmem.2 ha)]
        simp [List.removeAll, ha]
      · rw [if_neg (fun h => ha (hmem.1 h))]
        simp [List.removeAll, ha, List.eraseDups_cons]

theorem mem_ofList {a : α} {as : List α} : a ∈ ofList as ↔ a ∈ as := by
  rw [← mem_toList, toList_ofList, List.mem_eraseDups]

theorem mem_update {a : α} {s : OrderedSet α} {as : List α} :
    a ∈ s.update as ↔ a ∈ s ∨ a ∈ as := by
  induction as generalizing s with
  | nil => simp
  | cons b rest ih =>
      have hadd : a ∈ s.add b ↔ a ∈ s ∨ a = b := by
        rw [← mem_toList, toList_add]
        by_cases hb : b ∈ s
        · rw [if_pos hb, mem_toList, iff_self_or]
          rintro rfl
          exact hb
        · simp [hb]
      rw [update_cons, ih, hadd, List.mem_cons, or_assoc]

/-- Adding what is already there changes nothing. -/
theorem update_of_subset {s : OrderedSet α} {as : List α} (h : ∀ a ∈ as, a ∈ s) :
    s.update as = s := by
  induction as with
  | nil => rfl
  | cons a rest ih =>
      have hadd : s.add a = s := by
        ext1
        rw [toList_add, if_pos (h a List.mem_cons_self)]
      rw [update_cons, hadd]
      exact ih fun b hb => h b (List.mem_cons_of_mem a hb)

/-- What comes of a source that has been there before has been added before, so repeated sources
    can be erased first. -/
theorem update_flatMap_eraseDups [DecidableEq β] (s : OrderedSet α) (f : β → List α)
    (bs : List β) : s.update (bs.eraseDups.flatMap f) = s.update (bs.flatMap f) := by
  induction bs using List.reverseRecOn with
  | nil => rfl
  | append_singleton bs b ih =>
      rw [List.eraseDups_append, List.flatMap_append, List.flatMap_append, update_append,
        update_append, ih]
      by_cases hb : b ∈ bs
      · have hagain : (s.update (bs.flatMap f)).update (f b) = s.update (bs.flatMap f) := by
          refine update_of_subset fun a ha => mem_update.2 (.inr ?_)
          exact List.mem_flatMap.2 ⟨b, hb, ha⟩
        simp [List.removeAll, hb, hagain]
      · simp [List.removeAll, hb, List.eraseDups_cons]

theorem eraseDups_flatMap_eraseDups [DecidableEq β] (f : β → List α) (bs : List β) :
    (bs.eraseDups.flatMap f).eraseDups = (bs.flatMap f).eraseDups :=
  calc (bs.eraseDups.flatMap f).eraseDups
      = (ofList (bs.eraseDups.flatMap f)).toList := (toList_ofList _).symm
    _ = (ofList (bs.flatMap f)).toList := congrArg toList (update_flatMap_eraseDups empty f bs)
    _ = (bs.flatMap f).eraseDups := toList_ofList _

theorem update_eraseDups (s : OrderedSet α) (as : List α) :
    s.update as.eraseDups = s.update as := by
  simpa using update_flatMap_eraseDups s (fun a => [a]) as

theorem eraseDups_map_eraseDups [DecidableEq β] (f : β → α) (bs : List β) :
    (bs.eraseDups.map f).eraseDups = (bs.map f).eraseDups := by
  rw [List.map_eq_flatMap, List.map_eq_flatMap]
  exact eraseDups_flatMap_eraseDups (fun b => [f b]) bs

/-- What each source gives can be changed if it has the same first occurrences. -/
theorem eraseDups_flatMap_congr {f g : β → List α} {bs : List β}
    (h : ∀ b ∈ bs, (f b).eraseDups = (g b).eraseDups) :
    (bs.flatMap f).eraseDups = (bs.flatMap g).eraseDups := by
  have hupdate : ∀ s : OrderedSet α, s.update (bs.flatMap f) = s.update (bs.flatMap g) := by
    induction bs with
    | nil => exact fun _ => rfl
    | cons b rest ih =>
        intro s
        have hb : s.update (f b) = s.update (g b) := by
          rw [← update_eraseDups s (f b), h b List.mem_cons_self, update_eraseDups]
        rw [List.flatMap_cons, List.flatMap_cons, update_append, update_append, hb,
          ih fun c hc => h c (List.mem_cons_of_mem b hc)]
  rw [← toList_ofList, ← toList_ofList (bs.flatMap g), ofList, ofList, hupdate]

/-- It is the same to leave elements out before or after repetitions are erased. -/
theorem eraseDups_filter (keep : α → Bool) (as : List α) :
    (as.filter keep).eraseDups = as.eraseDups.filter keep := by
  induction as using List.reverseRecOn with
  | nil => rfl
  | append_singleton as a ih =>
      rw [List.filter_append, List.eraseDups_append, List.eraseDups_append, List.filter_append, ih]
      congr 1
      by_cases ha : a ∈ as <;> by_cases hkeep : keep a <;>
        simp [List.removeAll, List.eraseDups_cons, ha, hkeep]

/-- A second list adds what is new in it. -/
theorem eraseDups_append_eq (as bs : List α) :
    (as ++ bs).eraseDups = as.eraseDups ++ bs.eraseDups.filter (· ∉ as.eraseDups) := by
  rw [List.eraseDups_append, List.removeAll, eraseDups_filter]
  simp

/-- **The set of a list stands in the order of first occurrences.** If the list is in order, the
    first source of an element comes before every source of the elements after it. -/
theorem pairwise_ofList_map {r : β → β → Prop} (f : β → α) {bs : List β} (h : bs.Pairwise r) :
    (ofList (bs.map f)).toList.Pairwise fun p q =>
      ∃ b ∈ bs, f b = p ∧ ∀ c ∈ bs, f c = q → r b c := by
  rw [toList_ofList]
  -- The recursion of the erasure: the head stays, and what it repeats goes from the rest.
  induction hn : bs.length using Nat.strongRecOn generalizing bs with
  | ind n ih =>
      subst hn
      cases bs with
      | nil => exact List.Pairwise.nil
      | cons b rest =>
          obtain ⟨hb, hrest⟩ := List.pairwise_cons.1 h
          have hlen : (rest.filter fun c => !f c == f b).length < (b :: rest).length :=
            Nat.lt_succ_of_le (List.length_filter_le _ rest)
          have htail := ih _ hlen (hrest.sublist List.filter_sublist) rfl
          have hne : ∀ q ∈ ((rest.filter fun c => !f c == f b).map f).eraseDups, q ≠ f b := by
            intro q hq
            rw [List.mem_eraseDups] at hq
            obtain ⟨c, hc, rfl⟩ := List.mem_map.1 hq
            simpa using (List.mem_filter.1 hc).2
          rw [List.map_cons, List.eraseDups_cons, List.filter_map]
          refine List.pairwise_cons.2 ⟨?_, htail.imp_of_mem ?_⟩
          · intro q hq
            refine ⟨b, List.mem_cons_self, rfl, fun c hc hcq => ?_⟩
            rcases List.mem_cons.1 hc with rfl | hc
            · exact absurd hcq.symm (hne q hq)
            · exact hb c hc
          · rintro p q - hq ⟨b', hb', hp, hall⟩
            refine ⟨b', List.mem_cons_of_mem b (List.mem_filter.1 hb').1, hp, fun c hc hcq => ?_⟩
            rcases List.mem_cons.1 hc with rfl | hc
            · exact absurd hcq.symm (hne q hq)
            · exact hall c (List.mem_filter.2 ⟨hc, by simpa [hcq] using hne q hq⟩) hcq

end OrderedSet

end SelectionMask
