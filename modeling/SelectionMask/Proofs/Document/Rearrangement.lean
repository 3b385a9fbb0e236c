import Mathlib.Data.List.Forall2
import Mathlib.Order.BoundedOrder.Lattice
import SelectionMask.Document.FragmentTable

set_option autoImplicit false

/-! # Queries arranged in another way

Two queries may select the same and differ only in how their selections are arranged: in which order
they stand, how often one is repeated, and whether the selections of a field are written together or
in several fields of its name. `Selection.Rearranged` relates such selection sets. Each rule is
about the first selections of a set, and `perm` brings any others there; `branch` and `fragment`
lead into the sets below.

What is found in selections one by one and joined does not depend on any of this, as long as it does
not for the selections below a field or a fragment: `Selection.Rearranged.joined_eq`. -/

namespace SelectionMask

/-! ## Joins -/

section Joined

variable {α β : Type} [SemilatticeSup β] [OrderBot β]

/-- What is found in each element, joined. -/
def joined (found : α → β) (as : List α) : β :=
  as.foldr (fun a others => found a ⊔ others) ⊥

@[simp] theorem joined_nil (found : α → β) : joined found [] = ⊥ := rfl

@[simp] theorem joined_cons (found : α → β) (a : α) (as : List α) :
    joined found (a :: as) = found a ⊔ joined found as := rfl

theorem joined_append (found : α → β) (as others : List α) :
    joined found (as ++ others) = joined found as ⊔ joined found others := by
  induction as with
  | nil => simp
  | cons a rest ih => simp [ih, sup_assoc]

theorem joined_perm (found : α → β) {as others : List α} (h : as.Perm others) :
    joined found as = joined found others := by
  induction h with
  | nil => rfl
  | cons a _ ih => simp [ih]
  | swap a b rest => simp [sup_left_comm]
  | trans _ _ ih ih' => exact ih.trans ih'

theorem joined_eq_of_forall₂ (found : α → β) {as others : List α}
    (h : List.Forall₂ (fun a other => found a = found other) as others) :
    joined found as = joined found others := by
  induction h with
  | nil => rfl
  | cons ha _ ih => rw [joined_cons, joined_cons, ha, ih]

end Joined

/-! ## Rearrangements -/

/-- The second selections are the first ones arranged in another way, at any depth. -/
inductive Selection.Rearranged : List Selection → List Selection → Prop
  | symm {ss others : List Selection} : Rearranged ss others → Rearranged others ss
  | trans {ss between others : List Selection} :
      Rearranged ss between → Rearranged between others → Rearranged ss others
  /-- In another order. -/
  | perm {ss others : List Selection} : ss.Perm others → Rearranged ss others
  /-- With a selection repeated. -/
  | twice {s : Selection} {rest : List Selection} : Rearranged (s :: rest) (s :: s :: rest)
  /-- With the selections of a field in two fields of its name, whatever the aliases are. -/
  | split {name : Name} {aliasName first second : Option String}
      {below others rest : List Selection} :
      Rearranged (.branch name aliasName (below ++ others) :: rest)
        (.branch name first below :: .branch name second others :: rest)
  /-- With the selections of a field arranged in another way. -/
  | branch {name : Name} {aliasName : Option String} {below others rest : List Selection} :
      Rearranged below others →
      Rearranged (.branch name aliasName below :: rest) (.branch name aliasName others :: rest)
  /-- With the selections of a fragment arranged in another way. -/
  | fragment {condition : Option Name} {body others rest : List Selection} :
      Rearranged body others →
      Rearranged (.fragment condition body :: rest) (.fragment condition others :: rest)

theorem Selection.Rearranged.refl (ss : List Selection) : Rearranged ss ss :=
  .perm (.refl ss)

/-- **What is found in selections does not depend on their arrangement**, if what is found in a
    field or a fragment does not depend on the arrangement of its selections, and a field whose
    selections are split in two finds the same. -/
theorem Selection.Rearranged.joined_eq {β : Type} [SemilatticeSup β] [OrderBot β]
    {found : Selection → β}
    (hsplit : ∀ name aliasName first second below others,
      found (.branch name aliasName (below ++ others))
        = found (.branch name first below) ⊔ found (.branch name second others))
    (hbranch : ∀ name aliasName below others, Rearranged below others →
      found (.branch name aliasName below) = found (.branch name aliasName others))
    (hfragment : ∀ condition body others, Rearranged body others →
      found (.fragment condition body) = found (.fragment condition others))
    {ss others : List Selection} (h : Rearranged ss others) :
    joined found ss = joined found others := by
  induction h with
  | symm _ ih => exact ih.symm
  | trans _ _ ih ih' => exact ih.trans ih'
  | perm hperm => exact joined_perm found hperm
  | twice => rw [joined_cons, joined_cons, joined_cons, sup_left_idem]
  | @split name aliasName first second below others rest =>
      rw [joined_cons, joined_cons, joined_cons, hsplit name aliasName first second, sup_assoc]
  | branch hbelow _ => rw [joined_cons, joined_cons, hbranch _ _ _ _ hbelow]
  | fragment hbody _ => rw [joined_cons, joined_cons, hfragment _ _ _ hbody]

/-- The definition is on the same type, and its selections are arranged in another way. -/
def Fragment.Rearranged (f other : Fragment) : Prop :=
  f.condition = other.condition ∧ Selection.Rearranged f.selections other.selections

/-- The same names are defined, each definition arranged in another way. -/
def FragmentTable.Rearranged (table other : FragmentTable) : Prop :=
  ∀ name, Option.Rel Fragment.Rearranged (table.find? name) (other.find? name)

namespace FragmentTable

variable {table other : FragmentTable} {name : Name}

theorem Rearranged.refl (table : FragmentTable) : table.Rearranged table := by
  intro name
  cases table.find? name with
  | none => exact .none
  | some f => exact .some ⟨rfl, .refl f.selections⟩

theorem Rearranged.find?_eq_none (h : table.Rearranged other) (hfind : table.find? name = none) :
    other.find? name = none := by
  have hname := h name
  rw [hfind] at hname
  cases hother : other.find? name with
  | none => rfl
  | some f => simp [hother] at hname

theorem Rearranged.find?_eq_some (h : table.Rearranged other) {f : Fragment}
    (hfind : table.find? name = some f) :
    ∃ f', other.find? name = some f' ∧ f.Rearranged f' := by
  have hname := h name
  rw [hfind] at hname
  cases hother : other.find? name with
  | none => simp [hother] at hname
  | some f' => exact ⟨f', rfl, by simpa [hother] using hname⟩

/-- A definition arranged in another way. -/
theorem Rearranged.insert (h : table.Rearranged other) (name : Name) {f f' : Fragment}
    (hf : f.Rearranged f') : (table.insert name f).Rearranged (other.insert name f') := by
  intro asked
  rw [find?_insert, find?_insert]
  by_cases hname : name = asked
  · rw [if_pos hname, if_pos hname]
    exact .some hf
  · rw [if_neg hname, if_neg hname]
    exact h asked

end FragmentTable

/-- The root nodes stand in another order, and the selections of each are arranged in another
    way. -/
def RootNode.Rearranged (roots others : List RootNode) : Prop :=
  ∃ between, roots.Perm between ∧
    List.Forall₂ (fun root other => Selection.Rearranged root.selections other.selections)
      between others

end SelectionMask
