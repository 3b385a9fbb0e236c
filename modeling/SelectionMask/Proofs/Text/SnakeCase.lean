import Mathlib.Tactic.Tauto
import SelectionMask.Proofs.Document.Segments
import SelectionMask.Text.SnakeCase

set_option autoImplicit false

/-! # Where snake case breaks a name

A word of several characters is copied until its last one, so it has to be known how much of the word
is still to come. Yet the same break is found if the rest of the word is read afresh
(`breakWords_wordLength`). So the breaks can be told from the characters around them: there is one in
front of an upper-case letter that follows a lower-case letter, or that is the last upper-case letter
of a run and not its first character (`breakWords_cons_cons`).

A name in which each upper-case letter is followed by a lower-case one is broken in front of each of
them but the first. Such a name can be told from its snake case: `snakeCase_inj`. -/

namespace SelectionMask

namespace SnakeCase

variable {c d : Char} {cs : List Char}

/-! ## Letters -/

theorem isUpper_iff : c.isUpper ↔ 65 ≤ c.toNat ∧ c.toNat ≤ 90 :=
  decide_eq_true_iff

theorem isLower_iff : c.isLower ↔ 97 ≤ c.toNat ∧ c.toNat ≤ 122 :=
  Bool.and_eq_true_iff.trans (and_congr decide_eq_true_iff decide_eq_true_iff)

theorem isDigit_iff : c.isDigit ↔ 48 ≤ c.toNat ∧ c.toNat ≤ 57 :=
  Bool.and_eq_true_iff.trans (and_congr decide_eq_true_iff decide_eq_true_iff)

theorem isAlpha_iff : c.isAlpha ↔ c.isUpper ∨ c.isLower :=
  Bool.or_eq_true_iff

theorem isAlphanum_iff : c.isAlphanum ↔ c.isAlpha ∨ c.isDigit :=
  Bool.or_eq_true_iff

theorem not_isUpper_of_isLower (h : c.isLower) : ¬c.isUpper := by
  rw [isLower_iff] at h
  rw [isUpper_iff]
  omega

theorem not_isAlpha_of_isDigit (h : c.isDigit) : ¬c.isAlpha := by
  rw [isDigit_iff] at h
  rw [isAlpha_iff, isUpper_iff, isLower_iff]
  omega

/-- There are twenty-six upper-case letters, so what is true of all can be checked one by one. -/
theorem toLower_of_isUpper (h : c.isUpper) : c.toLower.isAlpha ∧ c.toLower.toUpper = c := by
  have hbounds := isUpper_iff.1 h
  obtain ⟨n, hn, hc⟩ : ∃ n < 26, c = Char.ofNat (65 + n) := by
    refine ⟨c.toNat - 65, by omega, ?_⟩
    rw [Nat.add_sub_cancel' hbounds.1, Char.ofNat_toNat]
  subst hc
  revert n
  decide +kernel

theorem toLower_eq_self (h : ¬c.isUpper) : c.toLower = c :=
  dif_neg fun hbounds => h (isUpper_iff.2 hbounds)

/-! ## Runs -/

theorem inRun_of_isUpper (h : c.isUpper) : inRun c := by
  simp [inRun, h]

theorem not_isLower_of_inRun (h : inRun c) : ¬c.isLower := by
  rcases Bool.or_eq_true_iff.1 h with hupper | hdigit
  · exact fun hlower => not_isUpper_of_isLower hlower hupper
  · exact fun hlower => not_isAlpha_of_isDigit hdigit (isAlpha_iff.2 (.inr hlower))

theorem lastUpper_of_not_inRun (h : ¬inRun c) : lastUpper (c :: cs) = 0 := by
  rw [lastUpper, if_neg h]

theorem lastUpper_eq_one_iff : lastUpper (c :: cs) = 1 ↔ c.isUpper ∧ lastUpper cs = 0 := by
  by_cases hrun : inRun c
  · rw [lastUpper, if_pos hrun]
    cases lastUpper cs <;> simp
  · have hupper : ¬c.isUpper := fun hupper => hrun (inRun_of_isUpper hupper)
    simp [lastUpper_of_not_inRun hrun, hupper]

theorem lastUpper_eq_add_two_iff {n : Nat} :
    lastUpper (c :: cs) = n + 2 ↔ inRun c ∧ lastUpper cs = n + 1 := by
  by_cases hrun : inRun c
  · rw [lastUpper, if_pos hrun]
    cases lastUpper cs with
    | zero => by_cases hupper : c.isUpper <;> simp [hupper]
    | succ k => simp [hrun]
  · simp [lastUpper_of_not_inRun hrun, hrun]

/-! ## Words -/

theorem wordLength_of_isLower (h : c.isLower) :
    wordLength (c :: d :: cs) = if d.isUpper then 1 else 0 := by
  rw [wordLength, if_pos h]

theorem wordLength_of_inRun (h : inRun c) : wordLength (c :: cs) = lastUpper cs := by
  rw [wordLength.eq_def]
  simp [not_isLower_of_inRun h, h]

/-- A word that is a single character. -/
theorem wordLength_eq_one_iff :
    wordLength (c :: d :: cs) = 1 ↔ d.isUpper ∧ (c.isLower ∨ inRun c ∧ lastUpper cs = 0) := by
  by_cases hlower : c.isLower
  · simp [wordLength_of_isLower hlower, hlower]
  · by_cases hrun : inRun c
    · simp [wordLength_of_inRun hrun, lastUpper_eq_one_iff, hlower, hrun]
    · simp [wordLength, hlower, hrun]

/-- Behind the first character of a longer word stands a word that ends at the same place. -/
theorem wordLength_of_wordLength_cons {n : Nat} (h : wordLength (c :: cs) = n + 2) :
    wordLength cs = n + 1 := by
  cases cs with
  | nil => simp [wordLength, lastUpper] at h
  | cons d cs =>
      by_cases hlower : c.isLower
      · rw [wordLength_of_isLower hlower] at h
        split at h <;> omega
      · by_cases hrun : inRun c
        · rw [wordLength_of_inRun hrun, lastUpper_eq_add_two_iff] at h
          rw [wordLength_of_inRun h.1, h.2]
        · simp [wordLength, hlower, hrun] at h

/-- The rest of a word is copied as if it were read afresh. -/
theorem breakWords_wordLength (cs : List Char) :
    breakWords (wordLength cs) cs = breakWords 0 cs := by
  cases cs with
  | nil => rfl
  | cons c cs =>
      rcases h : wordLength (c :: cs) with _ | _ | n
      · rfl
      · simp [breakWords, h]
      · simp [breakWords, h]

theorem breakWords_cons (c : Char) (cs : List Char) :
    breakWords 0 (c :: cs) =
      c :: if wordLength (c :: cs) = 1 then '_' :: breakWords 0 cs else breakWords 0 cs := by
  rcases h : wordLength (c :: cs) with _ | _ | n
  · simp [breakWords, h]
  · simp [breakWords, h]
  · have hrest := breakWords_wordLength cs
    rw [wordLength_of_wordLength_cons h] at hrest
    simp [breakWords, h, hrest]

/-- **Where the breaks are**: a character is followed by one if the next is an upper-case letter, and
    it is itself a lower-case letter, or in a run that has no upper-case letter further on. -/
theorem breakWords_cons_cons (c d : Char) (cs : List Char) :
    breakWords 0 (c :: d :: cs) =
      c :: if d.isUpper ∧ (c.isLower ∨ inRun c ∧ lastUpper cs = 0) then
        '_' :: breakWords 0 (d :: cs) else breakWords 0 (d :: cs) := by
  rw [breakWords_cons]
  simp only [wordLength_eq_one_iff]

/-- Nothing but underscores is put into the name. -/
theorem mem_breakWords {x : Char} (h : x ∈ breakWords 0 cs) : x = '_' ∨ x ∈ cs := by
  induction cs with
  | nil => exact .inr h
  | cons c cs ih =>
      rw [breakWords_cons] at h
      split at h <;> simp only [List.mem_cons] at h ⊢ <;> tauto

/-! ## Names made of words -/

/-- An upper-case letter, a lower-case letter, and then any lower-case letters and digits. -/
inductive IsCapitalised : List Char → Prop
  | mk {u l : Char} {rest : List Char} :
      u.isUpper → l.isLower → (∀ c ∈ rest, c.isLower ∨ c.isDigit) → IsCapitalised (u :: l :: rest)

theorem breakWords_of_not_isUpper (hd : ¬d.isUpper) :
    breakWords 0 (c :: d :: cs) = c :: breakWords 0 (d :: cs) := by
  rw [breakWords_cons_cons, if_neg fun h => hd h.1]

theorem not_isUpper_of_isLower_or_isDigit (h : c.isLower ∨ c.isDigit) : ¬c.isUpper := by
  rcases h with hlower | hdigit
  · exact not_isUpper_of_isLower hlower
  · exact fun hupper => not_isAlpha_of_isDigit hdigit (isAlpha_iff.2 (.inl hupper))

/-- Without an upper-case letter there is no break. -/
theorem breakWords_tail (hcs : ∀ x ∈ cs, x.isLower ∨ x.isDigit) :
    breakWords 0 (c :: cs) = c :: cs := by
  induction cs generalizing c with
  | nil => simp [breakWords, wordLength, lastUpper]
  | cons d cs ih =>
      obtain ⟨hd, hcs⟩ := List.forall_mem_cons.1 hcs
      rw [breakWords_of_not_isUpper (not_isUpper_of_isLower_or_isDigit hd), ih hcs]

/-- The break in front of the next word. -/
theorem breakWords_tail_append (hc : c.isLower ∨ c.isDigit)
    (hcs : ∀ x ∈ cs, x.isLower ∨ x.isDigit) {u l : Char} (hu : u.isUpper) (hl : l.isLower)
    (rest : List Char) :
    breakWords 0 (c :: cs ++ u :: l :: rest) = c :: cs ++ '_' :: breakWords 0 (u :: l :: rest) := by
  induction cs generalizing c with
  | nil =>
      have hrun : ¬inRun l := fun h => not_isLower_of_inRun h hl
      have hend : c.isLower ∨ inRun c ∧ lastUpper (l :: rest) = 0 := by
        refine hc.imp_right fun hdigit => ⟨by simp [inRun, hdigit], lastUpper_of_not_inRun hrun⟩
      exact (breakWords_cons_cons c u _).trans (by rw [if_pos ⟨hu, hend⟩]; rfl)
  | cons d cs ih =>
      obtain ⟨hd, hcs⟩ := List.forall_mem_cons.1 hcs
      rw [List.cons_append, List.cons_append,
        breakWords_of_not_isUpper (not_isUpper_of_isLower_or_isDigit hd)]
      exact congrArg (c :: ·) (ih hd hcs)

/-- **Each word but the first has a break in front of it.** -/
theorem breakWords_flatten {words : List (List Char)} (h : ∀ w ∈ words, IsCapitalised w) :
    breakWords 0 words.flatten = ['_'].intercalate words := by
  induction words with
  | nil => rfl
  | cons w words ih =>
      obtain ⟨hw, hwords⟩ := List.forall_mem_cons.1 h
      obtain @⟨u, l, rest, -, hl, hrest⟩ := hw
      have hlower := not_isUpper_of_isLower hl
      cases words with
      | nil =>
          rw [List.intercalate_singleton, List.flatten_cons, List.flatten_nil, List.append_nil,
            breakWords_of_not_isUpper hlower, breakWords_tail hrest]
      | cons w' words =>
          obtain @⟨u', l', rest', hu', hl', -⟩ := (List.forall_mem_cons.1 hwords).1
          have hnext := breakWords_tail_append (.inl hl) hrest hu' hl' (rest' ++ words.flatten)
          rw [List.intercalate_cons_cons, ← ih hwords]
          calc breakWords 0 (u :: l :: rest ++ (u' :: l' :: (rest' ++ words.flatten)))
              = u :: breakWords 0 (l :: rest ++ u' :: l' :: (rest' ++ words.flatten)) :=
                breakWords_of_not_isUpper hlower
            _ = u :: (l :: rest ++ '_' :: breakWords 0 (u' :: l' :: (rest' ++ words.flatten))) := by
                rw [hnext]
            _ = _ := by simp

/-! ## Lower case -/

/-- A character that is no letter is the lower case of nothing else. -/
theorem toLower_eq_iff {x : Char} (hx : ¬x.isAlpha) : c.toLower = x ↔ c = x := by
  by_cases hupper : c.isUpper
  · have halpha : c.isAlpha := isAlpha_iff.2 (.inl hupper)
    refine iff_of_false (fun h => hx ?_) fun h => hx (h ▸ halpha)
    exact h ▸ (toLower_of_isUpper hupper).1
  · rw [toLower_eq_self hupper]

theorem notMem_map_toLower {x : Char} (hx : ¬x.isAlpha) (h : x ∉ cs) :
    x ∉ cs.map Char.toLower := by
  intro hmem
  obtain ⟨c, hc, hlower⟩ := List.mem_map.1 hmem
  exact h ((toLower_eq_iff hx).1 hlower ▸ hc)

theorem map_intercalate (f : Char → Char) (x : Char) (words : List (List Char)) :
    ([x].intercalate words).map f = [f x].intercalate (words.map (List.map f)) := by
  induction words with
  | nil => rfl
  | cons w words ih =>
      cases words with
      | nil => simp
      | cons w' words => simp_all [List.intercalate_cons_cons]

theorem IsCapitalised.isAlphanum {w : List Char} (h : IsCapitalised w) :
    ∀ c ∈ w, c.isAlphanum := by
  obtain ⟨hu, hl, hrest⟩ := h
  refine List.forall_mem_cons.2 ⟨?_, List.forall_mem_cons.2 ⟨?_, fun c hc => ?_⟩⟩
  · exact isAlphanum_iff.2 (.inl (isAlpha_iff.2 (.inl hu)))
  · exact isAlphanum_iff.2 (.inl (isAlpha_iff.2 (.inr hl)))
  · rcases hrest c hc with hlower | hdigit
    · exact isAlphanum_iff.2 (.inl (isAlpha_iff.2 (.inr hlower)))
    · exact isAlphanum_iff.2 (.inr hdigit)

theorem map_eq_self {α : Type} {f : α → α} {l : List α} (h : ∀ x ∈ l, f x = x) : l.map f = l :=
  (List.map_congr_left h).trans (List.map_id' l)

/-- The first character in upper case. -/
def capitalise : List Char → List Char
  | [] => []
  | c :: cs => c.toUpper :: cs

theorem IsCapitalised.capitalise_map_toLower {w : List Char} (h : IsCapitalised w) :
    capitalise (w.map Char.toLower) = w := by
  obtain @⟨u, l, rest, hu, hl, hrest⟩ := h
  have htail : (l :: rest).map Char.toLower = l :: rest := by
    refine map_eq_self fun c hc => ?_
    have hplain : c.isLower ∨ c.isDigit := by
      rcases List.mem_cons.1 hc with rfl | hc
      · exact .inl hl
      · exact hrest c hc
    exact toLower_eq_self (not_isUpper_of_isLower_or_isDigit hplain)
  rw [List.map_cons, capitalise, htail, (toLower_of_isUpper hu).2]

theorem map_capitalise_map_toLower {words : List (List Char)} (h : ∀ w ∈ words, IsCapitalised w) :
    (words.map (List.map Char.toLower)).map capitalise = words := by
  rw [List.map_map]
  exact map_eq_self fun w hw => (h w hw).capitalise_map_toLower

end SnakeCase

open SnakeCase

/-- The name is made of one or more words that begin with an upper-case letter and a lower-case one,
    and go on with lower-case letters and digits. -/
def CamelCase (name : Name) : Prop :=
  ∃ words : List (List Char), words ≠ [] ∧ (∀ w ∈ words, IsCapitalised w) ∧
    name.toList = words.flatten

/-- A name made of words has them with underscores between in snake case, in lower case. -/
theorem toList_snakeCase {name : Name} {words : List (List Char)}
    (hwords : ∀ w ∈ words, IsCapitalised w) (hname : name.toList = words.flatten) :
    (snakeCase name).toList = ['_'].intercalate (words.map (List.map Char.toLower)) := by
  rw [snakeCase, String.toList_ofList, hname, breakWords_flatten hwords, map_intercalate]
  rfl

theorem splitOn_snakeCase {name : Name} {words : List (List Char)} (hne : words ≠ [])
    (hwords : ∀ w ∈ words, IsCapitalised w) (hname : name.toList = words.flatten) :
    (snakeCase name).toList.splitOn '_' = words.map (List.map Char.toLower) := by
  rw [toList_snakeCase hwords hname]
  refine List.splitOn_intercalate '_' ?_ (by simpa using hne)
  intro lowered hlowered
  obtain ⟨w, hw, rfl⟩ := List.mem_map.1 hlowered
  refine notMem_map_toLower (by decide) fun hmem => ?_
  exact absurd ((hwords w hw).isAlphanum _ hmem) (by decide)

/-- **Names made of words can be told from their snake case.** -/
theorem snakeCase_inj {name name' : Name} (h : CamelCase name) (h' : CamelCase name')
    (hsame : snakeCase name = snakeCase name') : name = name' := by
  obtain ⟨words, hne, hwords, hname⟩ := h
  obtain ⟨words', hne', hwords', hname'⟩ := h'
  have hlowered : words.map (List.map Char.toLower) = words'.map (List.map Char.toLower) := by
    rw [← splitOn_snakeCase hne hwords hname, hsame, splitOn_snakeCase hne' hwords' hname']
  have hsplit : words = words' := by
    rw [← map_capitalise_map_toLower hwords, hlowered, map_capitalise_map_toLower hwords']
  exact String.toList_injective (by rw [hname, hname', hsplit])

/-- Snake case brings no dot into a name. -/
theorem DotFree.snakeCase {name : Name} (h : DotFree name) : DotFree (snakeCase name) := by
  have hbroken : '.' ∉ breakWords 0 name.toList := fun hmem => by
    rcases mem_breakWords hmem with hdot | hmem
    · exact absurd hdot (by decide)
    · exact h hmem
  rw [DotFree, SelectionMask.snakeCase, String.toList_ofList]
  exact notMem_map_toLower (by decide) hbroken

theorem CamelCase.dotFree {name : Name} (h : CamelCase name) : DotFree name := by
  obtain ⟨words, -, hwords, hname⟩ := h
  intro hdot
  rw [hname] at hdot
  obtain ⟨w, hw, hmem⟩ := List.mem_flatten.1 hdot
  exact absurd ((hwords w hw).isAlphanum _ hmem) (by decide)

end SelectionMask
