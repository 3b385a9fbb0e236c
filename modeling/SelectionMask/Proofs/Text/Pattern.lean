import SelectionMask.Proofs.Text.SnakeCase

set_option autoImplicit false

/-! # Snake case as a substitution

The words that end in front of an upper-case letter can also be described by a pattern: one lower-case
letter, or else a run of upper-case letters and digits, and an upper-case letter next to it. A match is
searched for from left to right. Where one may start, a run is first taken whole and then given up
character by character until an upper-case letter is next; behind a match the search goes on, in the
text that the match has left.

`Pattern.lengths` lists the matches at the front of a text in the order in which they are tried, and
`Pattern.markMatches` puts a mark behind each match that the search comes to. With the pattern for
words this is what `breakWords` does: `SnakeCase.markMatches_wordPattern`. -/

namespace SelectionMask

/-- What may stand at the front of a text. -/
inductive Pattern where
  /-- One character of a class. -/
  | one (accepts : Char → Bool)
  /-- One or more characters of a class, as many as the rest allows. -/
  | many (accepts : Char → Bool)
  /-- The first pattern, or else the second one. -/
  | either (p q : Pattern)
  /-- The pattern with a character of a class behind it, which is not part of the match. -/
  | before (p : Pattern) (next : Char → Bool)

namespace Pattern

/-- The lengths of the runs of a class at the front, the longest one first. -/
def runLengths (accepts : Char → Bool) : List Char → List Nat
  | [] => []
  | c :: cs => if accepts c then (runLengths accepts cs).map (· + 1) ++ [1] else []

/-- The lengths of the matches at the front, in the order in which they are tried. No pattern matches
    the empty text. -/
def lengths : Pattern → List Char → List Nat
  | one _, [] => []
  | one accepts, c :: _ => if accepts c then [1] else []
  | many accepts, cs => runLengths accepts cs
  | either p q, cs => p.lengths cs ++ q.lengths cs
  | before p next, cs => (p.lengths cs).filter fun n => cs[n]?.any next

/-- Put a mark behind each match, from left to right. -/
def markMatches (p : Pattern) (mark : Char) : List Char → List Char
  | [] => []
  | c :: cs =>
      match (p.lengths (c :: cs)).head? with
      | some (n + 1) => c :: cs.take n ++ mark :: markMatches p mark (cs.drop n)
      | _ => c :: markMatches p mark cs
termination_by cs => cs.length
decreasing_by all_goals simp only [List.length_drop, List.length_cons]; omega

end Pattern

namespace SnakeCase

open Pattern

variable {c d : Char} {cs : List Char}

/-- A word that ends in front of an upper-case letter. -/
def wordPattern : Pattern :=
  .before (.either (.one Char.isLower) (.many inRun)) Char.isUpper

/-! ## The first match -/

/-- The runs that an upper-case letter follows, the longest one first. -/
def runsBeforeUpper (cs : List Char) : List Nat :=
  (runLengths inRun cs).filter fun n => cs[n]?.any Char.isUpper

theorem runsBeforeUpper_of_not_inRun (h : ¬inRun c) : runsBeforeUpper (c :: cs) = [] := by
  rw [runsBeforeUpper, runLengths, if_neg h, List.filter_nil]

/-- A run is gone on with before it is ended. -/
theorem runsBeforeUpper_cons_cons (h : inRun c) :
    runsBeforeUpper (c :: d :: cs)
      = (runsBeforeUpper (d :: cs)).map (· + 1) ++ if d.isUpper then [1] else [] := by
  rw [runsBeforeUpper, runLengths, if_pos h, List.filter_append, List.filter_map]
  congr 1
  by_cases hd : d.isUpper <;> simp [hd]

/-- The run that is tried with success ends in front of the last upper-case letter. -/
theorem head?_runsBeforeUpper (h : inRun c) (cs : List Char) :
    (runsBeforeUpper (c :: cs)).head? = if lastUpper cs = 0 then none else some (lastUpper cs) := by
  -- The longer runs are those of the rest, so its first success is tried before a run of one.
  induction cs generalizing c with
  | nil => simp [runsBeforeUpper, runLengths, h, lastUpper]
  | cons d cs ih =>
      rw [runsBeforeUpper_cons_cons h, List.head?_append, List.head?_map]
      by_cases hd : inRun d
      · rw [ih hd, lastUpper, if_pos hd]
        cases lastUpper cs with
        | zero => by_cases hupper : d.isUpper <;> simp [hupper]
        | succ n => simp
      · have hupper : ¬d.isUpper := fun hupper => hd (inRun_of_isUpper hupper)
        rw [runsBeforeUpper_of_not_inRun hd, lastUpper_of_not_inRun hd]
        simp [hupper]

theorem lengths_wordPattern_of_isLower (h : c.isLower) :
    wordPattern.lengths (c :: cs) = if cs[0]?.any Char.isUpper then [1] else [] := by
  have hrun : ¬inRun c := fun hrun => not_isLower_of_inRun hrun h
  simp [wordPattern, lengths, runLengths, h, hrun, List.filter_cons]

theorem lengths_wordPattern_of_not_isLower (h : ¬c.isLower) :
    wordPattern.lengths (c :: cs) = runsBeforeUpper (c :: cs) := by
  simp [wordPattern, lengths, runsBeforeUpper, h]

/-- **The first match at the front is the word there.** -/
theorem head?_lengths_wordPattern (c : Char) (cs : List Char) :
    (wordPattern.lengths (c :: cs)).head?
      = if wordLength (c :: cs) = 0 then none else some (wordLength (c :: cs)) := by
  by_cases hlower : c.isLower
  · rw [lengths_wordPattern_of_isLower hlower]
    cases cs with
    | nil => simp [wordLength, hlower]
    | cons d cs =>
        rw [wordLength_of_isLower hlower]
        by_cases hupper : d.isUpper <;> simp [hupper]
  · rw [lengths_wordPattern_of_not_isLower hlower]
    by_cases hrun : inRun c
    · rw [head?_runsBeforeUpper hrun, wordLength_of_inRun hrun]
    · rw [runsBeforeUpper_of_not_inRun hrun]
      simp [wordLength, hlower, hrun]

/-! ## All matches -/

theorem lt_length_of_mem_lengths {n : Nat} (h : n ∈ wordPattern.lengths cs) : n < cs.length := by
  have hnext : cs[n]?.any Char.isUpper := (List.mem_filter.1 h).2
  refine Nat.lt_of_not_le fun hlong => ?_
  rw [List.getElem?_eq_none hlong] at hnext
  simp at hnext

/-- A word is copied and followed by an underscore. -/
theorem breakWords_succ {n : Nat} (h : n < cs.length) :
    breakWords (n + 1) cs = cs.take (n + 1) ++ '_' :: breakWords 0 (cs.drop (n + 1)) := by
  induction cs generalizing n with
  | nil => simp at h
  | cons c cs ih =>
      cases n with
      | zero => simp [breakWords]
      | succ n =>
          have hn : n < cs.length := by simpa using h
          simp [breakWords, ih hn]

/-- **Snake case breaks a name by the substitution for words.** -/
theorem markMatches_wordPattern (cs : List Char) :
    wordPattern.markMatches '_' cs = breakWords 0 cs := by
  -- Behind a match the search goes on in what is left, which need not be the tail.
  induction hlen : cs.length using Nat.strongRecOn generalizing cs with
  | ind len ih =>
      subst hlen
      cases cs with
      | nil => rw [markMatches, breakWords]
      | cons c cs =>
          have hhead := head?_lengths_wordPattern c cs
          rw [markMatches, ← breakWords_wordLength]
          rcases hword : wordLength (c :: cs) with _ | n
          · rw [hword, if_pos rfl] at hhead
            rw [hhead, ih cs.length (by simp) cs rfl]
            simp [breakWords, hword]
          · rw [hword, if_neg (Nat.succ_ne_zero n)] at hhead
            have hshort : n + 1 < (c :: cs).length :=
              lt_length_of_mem_lengths (List.mem_of_head? hhead)
            rw [hhead, breakWords_succ (Nat.lt_of_succ_lt hshort)]
            have hrest : (cs.drop n).length < (c :: cs).length := by
              rw [List.length_drop, List.length_cons]
              omega
            simp [ih _ hrest (cs.drop n) rfl]

end SnakeCase

end SelectionMask
