import SelectionMask.Failure
import SelectionMask.Journal

set_option autoImplicit false

/-! # Walks

A walk is a computation that may fail, that leaves events behind, and that keeps the names of the
fragments it is expanding, the innermost last. The names survive a failure: whoever catches one goes
on with the names as they stand then. `Walk.within` is the only step that changes them, and it takes
back its change whether its body succeeds or fails. -/

namespace SelectionMask

/-- What a walk comes to. -/
structure Run (α : Type) where
  outcome : Except Failure α
  /-- The fragments still being expanded when it ends. -/
  expanding : List Name
  /-- What happened on the way, in order. -/
  events : List Event

/-- The run, with events that happened before it. -/
def Run.after {α : Type} (r : Run α) (earlier : List Event) : Run α :=
  { r with events := earlier ++ r.events }

@[simp] theorem Run.after_nil {α : Type} (r : Run α) : r.after [] = r := rfl

/-- A computation on the names of the fragments being expanded. -/
structure Walk (α : Type) where
  run : List Name → Run α

namespace Walk

variable {α β γ : Type}

@[ext] theorem ext {v w : Walk α} (h : ∀ expanding, v.run expanding = w.run expanding) : v = w := by
  cases v; cases w
  exact congrArg mk (funext h)

/-- End at once with a value. -/
protected def pure (a : α) : Walk α :=
  ⟨fun expanding => ⟨.ok a, expanding, []⟩⟩

/-- Go on after a success. A failure ends the walk. -/
protected def bind (w : Walk α) (f : α → Walk β) : Walk β :=
  ⟨fun expanding =>
    match w.run expanding with
    | ⟨.ok a, left, events⟩ => ((f a).run left).after events
    | ⟨.error failure, left, events⟩ => ⟨.error failure, left, events⟩⟩

instance : Monad Walk where
  pure := Walk.pure
  bind := Walk.bind

@[simp] theorem run_pure (a : α) (expanding : List Name) :
    (pure a : Walk α).run expanding = ⟨.ok a, expanding, []⟩ := rfl

theorem run_bind (w : Walk α) (f : α → Walk β) (expanding : List Name) :
    (w >>= f).run expanding =
      match w.run expanding with
      | ⟨.ok a, left, events⟩ => ((f a).run left).after events
      | ⟨.error failure, left, events⟩ => ⟨.error failure, left, events⟩ := rfl

theorem run_bind_of_ok {w : Walk α} {f : α → Walk β} {expanding left : List Name} {a : α}
    {events : List Event} (h : w.run expanding = ⟨.ok a, left, events⟩) :
    (w >>= f).run expanding = ((f a).run left).after events := by
  rw [run_bind, h]

theorem run_bind_of_error {w : Walk α} {f : α → Walk β} {expanding left : List Name}
    {failure : Failure} {events : List Event}
    (h : w.run expanding = ⟨.error failure, left, events⟩) :
    (w >>= f).run expanding = ⟨.error failure, left, events⟩ := by
  rw [run_bind, h]

instance : LawfulMonad Walk := LawfulMonad.mk' Walk
  (by
    intro α w
    ext expanding
    change (w >>= pure).run expanding = w.run expanding
    rw [run_bind]
    rcases h : w.run expanding with ⟨_ | a, left, events⟩ <;> simp [Run.after])
  (by
    intro α β a f
    ext expanding
    simp [run_bind, Run.after])
  (by
    intro α β γ w f g
    ext expanding
    simp only [run_bind]
    rcases w.run expanding with ⟨_ | a, left, events⟩
    · rfl
    · dsimp only
      rcases h : (f a).run left with ⟨_ | b, left', events'⟩
      · simp [Run.after]
      · simp [Run.after, List.append_assoc])

/-- End at once with a failure. -/
def fail (failure : Failure) : Walk α :=
  ⟨fun expanding => ⟨.error failure, expanding, []⟩⟩

/-- Leave an event. -/
def emit (event : Event) : Walk Unit :=
  ⟨fun expanding => ⟨.ok (), expanding, [event]⟩⟩

/-- Leave a note. -/
def note (note : Note) : Walk Unit :=
  emit (.note note)

/-- Leave the visit of a selection. -/
def visit (frame : Frame) (node : Address) (selection : Selection) : Walk Unit :=
  ⟨fun names => ⟨.ok (), names, [.visit ⟨frame, names, node, selection⟩]⟩⟩

/-- The fragments being expanded. -/
def expanding : Walk (List Name) :=
  ⟨fun names => ⟨.ok names, names, []⟩⟩

/-- The value of a look-up; its error blames the node. -/
def blaming (node : Option Address) : Except MaskError α → Walk α
  | .ok a => pure a
  | .error error => fail (.mask error node)

/-- The value a hook gives, or its refusal. -/
def hooked : Except String α → Walk α
  | .ok a => pure a
  | .error text => fail (.refused text)

/-- Walk inside the expansion of a fragment: its name is put last for the body, and the last name
    is taken off when the body ends, however it ends. -/
def within (name : Name) (body : Walk α) : Walk α :=
  ⟨fun expanding =>
    let r := body.run (expanding ++ [name])
    { r with expanding := r.expanding.dropLast }⟩

/-- An outcome in which an error of the query counts as a result. Other failures stay failures. -/
def settle : Except Failure α → Except Failure (Except MaskError α)
  | .ok a => .ok (.ok a)
  | .error (.mask error _) => .ok (.error error)
  | .error failure => .error failure

/-- The walk, with an error of the query as a result to go on from. -/
def caught (w : Walk α) : Walk (Except MaskError α) :=
  ⟨fun expanding =>
    let r := w.run expanding
    ⟨settle r.outcome, r.expanding, r.events⟩⟩

@[simp] theorem run_fail (failure : Failure) (names : List Name) :
    (fail failure : Walk α).run names = ⟨.error failure, names, []⟩ := rfl

@[simp] theorem run_emit (event : Event) (names : List Name) :
    (emit event).run names = ⟨.ok (), names, [event]⟩ := rfl

@[simp] theorem run_visit (frame : Frame) (node : Address) (s : Selection) (names : List Name) :
    (visit frame node s).run names = ⟨.ok (), names, [.visit ⟨frame, names, node, s⟩]⟩ := rfl

@[simp] theorem run_expanding (names : List Name) :
    expanding.run names = ⟨.ok names, names, []⟩ := rfl

@[simp] theorem run_within (name : Name) (body : Walk α) (names : List Name) :
    (within name body).run names =
      ⟨(body.run (names ++ [name])).outcome, (body.run (names ++ [name])).expanding.dropLast,
        (body.run (names ++ [name])).events⟩ := rfl

@[simp] theorem run_note (n : Note) (names : List Name) :
    (note n).run names = ⟨.ok (), names, [.note n]⟩ := rfl

@[simp] theorem blaming_ok (node : Option Address) (a : α) :
    blaming node (.ok a) = pure a := rfl

@[simp] theorem blaming_error (node : Option Address) (error : MaskError) :
    (blaming node (.error error) : Walk α) = fail (.mask error node) := rfl

@[simp] theorem hooked_ok (a : α) : hooked (.ok a) = pure a := rfl

@[simp] theorem hooked_error (text : String) :
    (hooked (.error text) : Walk α) = fail (.refused text) := rfl

@[simp] theorem run_caught (w : Walk α) (names : List Name) :
    w.caught.run names =
      ⟨settle (w.run names).outcome, (w.run names).expanding, (w.run names).events⟩ := rfl

end Walk

end SelectionMask
