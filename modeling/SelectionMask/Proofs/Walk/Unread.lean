import SelectionMask.Proofs.Document.Chains
import SelectionMask.Proofs.Document.Hidden
import SelectionMask.Proofs.Walk.Steps

set_option autoImplicit false

/-! # What a walk leaves unread

Where a selection is visited, what stands in it may be read or not: `Frame.Reads` says in which place
the selections of a fragment are read, and `Visit.Skipped` at which visits nothing that stands in the
selection is read at all. The latter can be computed. -/

namespace SelectionMask

/-! ## Reading and skipping -/

/-- The strategy begins with a request for the member's own paths. One that does not begin with it
    never makes one. -/
def Strategy.Asks : Strategy → Prop
  | ask _ => True
  | attempt _ _ => True
  | _ => False

instance (s : Strategy) : Decidable s.Asks :=
  match s with
  | .answer _ => isFalse id
  | .refuse _ => isFalse id
  | .ask _ => isTrue trivial
  | .attempt _ _ => isTrue trivial

/-- The place in which the walk reads the selections of a fragment on a type, if it does: the
    fragment's own, or that of a member whose paths the hook asks for. -/
inductive Frame.Reads (env : Env) (frame : Frame) (condition : Name) : Frame → Prop
  | inPlace : env.schema.Enters condition frame.type → Reads env frame condition frame
  | member {hook : NarrowingHook} {field : FieldDef} {target : NamedType} :
      env.hooks.narrowing = some hook → env.schema.IsAbstract frame.type →
      env.schema.type? condition = some target → frame.enclosing = some field →
      (hook ⟨frame.type, condition, target.metadata, field⟩).Asks →
      Reads env frame condition ⟨condition, some field⟩

/-- A hook gives the field no name, if it comes to asking for one. -/
def Env.Drops (env : Env) (type name : Name) (aliasName : Option String) : Prop :=
  ∀ definition, env.schema.fieldNamed type name = .ok definition →
    ∀ extra, env.hooks.extraPathsAt ⟨type, definition, aliasName⟩ = .ok extra →
      ∀ given, env.hooks.namesAt ⟨type, definition, aliasName⟩ = .ok given → given = none

/-- No hook asks for the paths of the fragment's type as a member of the one at hand. -/
def Frame.Unasked (env : Env) (frame : Frame) (condition : Name) : Prop :=
  ∀ hook ∈ env.hooks.narrowing, ∀ target ∈ env.schema.type? condition, ∀ field ∈ frame.enclosing,
    ¬ (hook ⟨frame.type, condition, target.metadata, field⟩).Asks

/-- What stands in a selection is not read where it is visited. -/
inductive Visit.Skipped (env : Env) (v : Visit) : Prop
  /-- It asks for the name of the type. -/
  | typename : v.selection.fieldName? = some typenameField → Skipped env v
  /-- It is a field that is dropped. -/
  | dropped {name : Name} {aliasName : Option String} :
      v.selection.bare = .leaf name aliasName → env.Drops v.frame.type name aliasName → Skipped env v
  /-- It is a fragment that is not read in place: one on an unrelated type is ignored, and so is one
      on another type than the abstract one at hand, unless a hook asks for its paths. -/
  | passed {condition : Option Name} {body : List Selection} :
      v.selection = .fragment condition body →
      ¬ env.schema.Enters (conditionAt condition v.frame.type) v.frame.type →
      (env.schema.IsAbstract v.frame.type →
        v.frame.Unasked env (conditionAt condition v.frame.type)) → Skipped env v

section

variable {env : Env} {frame : Frame} {names : List Name} {node : Address}

theorem Visit.Skipped.drops {s : Selection} (h : Visit.Skipped env ⟨frame, names, node, s⟩)
    {name : Name} {aliasName : Option String} (hs : s.bare = .leaf name aliasName)
    (hname : name ≠ typenameField) : env.Drops frame.type name aliasName := by
  cases h with
  | typename htypename => cases s <;> simp_all [Selection.bare, Selection.fieldName?]
  | dropped hbare hdrops =>
      obtain ⟨rfl, rfl⟩ := Selection.leaf.inj (hs.symm.trans hbare)
      exact hdrops
  | passed hfragment => cases hfragment; cases hs

theorem Visit.Skipped.not_reads {condition : Option Name} {body : List Selection}
    (h : Visit.Skipped env ⟨frame, names, node, .fragment condition body⟩) (inner : Frame) :
    ¬ frame.Reads env (conditionAt condition frame.type) inner := by
  intro hreads
  cases h with
  | typename hs => cases hs
  | dropped hs => cases hs
  | passed hs hskips hunasked =>
      cases hs
      cases hreads with
      | inPlace henters => exact hskips henters
      | member hhook habstract htarget hfield hasks =>
          exact hunasked habstract _ hhook _ htarget _ hfield hasks

theorem Visit.not_skipped_spread {name : Name} :
    ¬ Visit.Skipped env ⟨frame, names, node, .spread name⟩ := by
  intro h
  cases h with
  | typename hs => cases hs
  | dropped hs => cases hs
  | passed hs => cases hs

theorem Visit.not_skipped_other {kind : String} :
    ¬ Visit.Skipped env ⟨frame, names, node, .other kind⟩ := by
  intro h
  cases h with
  | typename hs => cases hs
  | dropped hs => cases hs
  | passed hs => cases hs

end

/-! ## Deciding whether a selection is skipped -/

instance decidableForallOk {ε α : Type} (r : Except ε α) (p : α → Prop) [DecidablePred p] :
    Decidable (∀ a, r = .ok a → p a) :=
  match r with
  | .error _ => isTrue nofun
  | .ok a => decidable_of_iff (p a) ⟨fun h _ hb => Except.ok.inj hb ▸ h, fun h => h a rfl⟩

instance (env : Env) (type name : Name) (aliasName : Option String) :
    Decidable (env.Drops type name aliasName) :=
  inferInstanceAs (Decidable (∀ definition, env.schema.fieldNamed type name = .ok definition →
    ∀ extra, env.hooks.extraPathsAt ⟨type, definition, aliasName⟩ = .ok extra →
      ∀ given, env.hooks.namesAt ⟨type, definition, aliasName⟩ = .ok given → given = none))

instance (env : Env) (frame : Frame) (condition : Name) :
    Decidable (frame.Unasked env condition) :=
  inferInstanceAs (Decidable (∀ hook ∈ env.hooks.narrowing,
    ∀ target ∈ env.schema.type? condition, ∀ field ∈ frame.enclosing,
      ¬ (hook ⟨frame.type, condition, target.metadata, field⟩).Asks))

instance (env : Env) (v : Visit) : Decidable (v.Skipped env) :=
  match v with
  | ⟨frame, _, _, .leaf name aliasName⟩ | ⟨frame, _, _, .branch name aliasName _⟩ =>
      decidable_of_iff (name = typenameField ∨ env.Drops frame.type name aliasName) (by
        constructor
        · rintro (rfl | hdrops)
          · exact .typename rfl
          · exact .dropped rfl hdrops
        · exact fun h => (Decidable.em _).imp_right fun hname => h.drops rfl hname)
  | ⟨frame, _, _, .fragment condition _⟩ =>
      decidable_of_iff (¬ env.schema.Enters (conditionAt condition frame.type) frame.type ∧
        (env.schema.IsAbstract frame.type →
          frame.Unasked env (conditionAt condition frame.type))) (by
        constructor
        · rintro ⟨hskips, hunasked⟩
          exact .passed rfl hskips hunasked
        · rintro (htypename | hleaf | ⟨hs, hskips, hunasked⟩)
          · cases htypename
          · cases hleaf
          · cases hs
            exact ⟨hskips, hunasked⟩)
  | ⟨_, _, _, .spread _⟩ => isFalse Visit.not_skipped_spread
  | ⟨_, _, _, .other _⟩ => isFalse Visit.not_skipped_other

end SelectionMask
