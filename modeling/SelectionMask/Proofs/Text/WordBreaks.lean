import SelectionMask.Hooks.Metadata
import SelectionMask.Proofs.Text.Pattern

set_option autoImplicit false

/-! # The places of the breaks

Snake case works its way through a name word by word, but where it breaks the name can be told at each
position from the characters around it: the one in front, and those that follow in the same run of
upper-case letters and digits (`SnakeCase.BreaksBefore`). So the segment of a member that has none of
its own is known position by position: `segment_breaks_words`. -/

namespace SelectionMask

namespace SnakeCase

variable {c d : Char} {cs : List Char}

/-! ## Marked positions -/

/-- The text with a mark in front of each of the picked positions. -/
def markBefore (mark : Char) (picked : Nat → Prop) [DecidablePred picked] (cs : List Char) :
    List Char :=
  (cs.mapIdx fun j c => if picked j then [mark, c] else [c]).flatten

section

variable {mark : Char} {picked picked' : Nat → Prop} [DecidablePred picked] [DecidablePred picked']

theorem markBefore_cons :
    markBefore mark picked (c :: cs)
      = (if picked 0 then [mark, c] else [c]) ++ markBefore mark (fun j => picked (j + 1)) cs := by
  rw [markBefore, List.mapIdx_cons, List.flatten_cons, markBefore]

theorem markBefore_congr (h : ∀ j, picked j ↔ picked' j) (cs : List Char) :
    markBefore mark picked cs = markBefore mark picked' cs := by
  simp only [markBefore, h]

theorem map_markBefore (f : Char → Char) (cs : List Char) :
    (markBefore mark picked cs).map f = markBefore (f mark) picked (cs.map f) := by
  induction cs generalizing picked with
  | nil => rfl
  | cons c cs ih =>
      rw [List.map_cons, markBefore_cons, markBefore_cons, List.map_append, ih]
      split <;> rfl

end

/-! ## The rule -/

/-- What follows a position in the run of upper-case letters and digits that the position is in. -/
def runBehind (cs : List Char) (j : Nat) : List Char :=
  (cs.drop (j + 1)).takeWhile inRun

/-- There is a break in front of the position: an upper-case letter stands there, and in front of it
    stands either a lower-case letter, or an upper-case letter or digit when no other upper-case
    letter follows in the run. -/
def BreaksBefore (cs : List Char) (j : Nat) : Prop :=
  0 < j ∧ cs[j]?.any Char.isUpper ∧
    (cs[j - 1]?.any Char.isLower ∨ cs[j - 1]?.any inRun ∧ ¬(runBehind cs j).any Char.isUpper)

instance (cs : List Char) : DecidablePred (BreaksBefore cs) := fun j =>
  inferInstanceAs (Decidable (0 < j ∧ cs[j]?.any Char.isUpper ∧
    (cs[j - 1]?.any Char.isLower ∨ cs[j - 1]?.any inRun ∧ ¬(runBehind cs j).any Char.isUpper)))

theorem not_breaksBefore_zero : ¬BreaksBefore cs 0 :=
  fun h => Nat.lt_irrefl 0 h.1

theorem breaksBefore_one_iff :
    BreaksBefore (c :: d :: cs) 1 ↔
      d.isUpper ∧ (c.isLower ∨ inRun c ∧ ¬(cs.takeWhile inRun).any Char.isUpper) := by
  simp [BreaksBefore, runBehind]

/-- Whether there is a break does not depend on what stands further in front. -/
theorem breaksBefore_cons_iff {j : Nat} :
    BreaksBefore (c :: cs) (j + 2) ↔ BreaksBefore cs (j + 1) := by
  simp [BreaksBefore, runBehind]

theorem lastUpper_eq_zero_iff : lastUpper cs = 0 ↔ ¬(cs.takeWhile inRun).any Char.isUpper := by
  induction cs with
  | nil => simp [lastUpper]
  | cons c cs ih =>
      by_cases hrun : inRun c
      · rw [List.takeWhile_cons_of_pos hrun, List.any_cons, Bool.or_eq_true, not_or, ← ih,
          lastUpper, if_pos hrun]
        cases lastUpper cs <;> simp
      · rw [List.takeWhile_cons_of_neg hrun, lastUpper_of_not_inRun hrun]
        simp

/-- **The breaks are where the rule says.** -/
theorem breakWords_eq_markBefore (cs : List Char) :
    breakWords 0 cs = markBefore '_' (BreaksBefore cs) cs := by
  induction cs with
  | nil => rfl
  | cons c cs ih =>
      cases cs with
      | nil =>
          rw [breakWords_tail (by simp), markBefore_cons, if_neg not_breaksBefore_zero]
          rfl
      | cons d cs =>
          -- The first two characters settle the break between them, the tail settles all others.
          have htail : markBefore '_' (fun j => BreaksBefore (c :: d :: cs) (j + 1 + 1)) cs
              = markBefore '_' (fun j => BreaksBefore (d :: cs) (j + 1)) cs :=
            markBefore_congr (fun _ => breaksBefore_cons_iff) cs
          rw [markBefore_cons, if_neg not_breaksBefore_zero] at ih
          rw [breakWords_cons_cons, ih, markBefore_cons, if_neg not_breaksBefore_zero,
            markBefore_cons, htail]
          simp only [lastUpper_eq_zero_iff, ← breaksBefore_one_iff]
          split <;> rfl

end SnakeCase

open SnakeCase

/-- The name in lower case, with an underscore in front of each break. -/
theorem snakeCase_eq_markBefore (name : Name) :
    snakeCase name = String.ofList
      (markBefore '_' (BreaksBefore name.toList) (name.toList.map Char.toLower)) := by
  rw [snakeCase, breakWords_eq_markBefore, map_markBefore]
  rfl

/-- **Where the segment of a member is broken.** If the metadata of a type leaves the segment out, the
    segment is the type's name with an underscore behind each match of the pattern for words, in lower
    case. This is the name in lower case with one underscore in front of certain of its characters, and
    nothing else put in, taken out or moved: in front of the upper-case letters that follow a lower-case
    letter, or that follow an upper-case letter or a digit and are the last upper-case letter of their
    run of upper-case letters and digits. -/
theorem segment_breaks_words (n : Narrowing)
    (hunset : ∀ m ∈ n.concreteMetadata, m.segment = .unset) :
    let name := n.concreteType.toList
    n.segment = some (String.ofList ((wordPattern.markMatches '_' name).map Char.toLower)) ∧
      n.segment
        = some (String.ofList (markBefore '_' (BreaksBefore name) (name.map Char.toLower))) := by
  intro name
  have hsnake : n.segment = some (snakeCase n.concreteType) := by
    rw [Narrowing.segment]
    cases hmetadata : n.concreteMetadata with
    | none => rfl
    | some m => simp [memberSegment, hunset m hmetadata]
  constructor
  · rw [hsnake, markMatches_wordPattern, snakeCase]
  · rw [hsnake, snakeCase_eq_markBefore]

/-- A name with underscores of its own, with runs of capitals and digits, and with a capital at its
    end. -/
theorem segment_breaks_words_of_acronyms :
    let n : Narrowing :=
      ⟨"Media", "__HTTPServer2GoX9Y_aBC", some ⟨.unset, []⟩, ⟨"media", .named "Media", none⟩⟩
    (∀ m ∈ n.concreteMetadata, m.segment = .unset) ∧
      n.segment = some "__http_server2_go_x9_y_a_b_c" := by
  intro n
  have hunset : ∀ m ∈ n.concreteMetadata, m.segment = .unset := by decide
  exact ⟨hunset, (segment_breaks_words n hunset).2.trans (by decide +kernel)⟩

end SelectionMask
