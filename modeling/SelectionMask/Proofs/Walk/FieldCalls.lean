import SelectionMask.Proofs.Walk.Sources

set_option autoImplicit false

/-! # The calls of the hooks for fields

With both hooks for fields set, a field is asked about twice, for its extra paths and then for its
names, and in between nothing else happens. `FieldCalls` describes the journals that are made up in
this way: the two calls stand right behind the visit of the field, a note that the field is dropped
right behind them, and a journal breaks off after a call that is refused. A refusal goes through
every hook that catches errors, so it is the end of the whole run.

The journals of two walks, one after the other, are of this form if the first one is not refused
(`FieldCalls.append`). So it is enough to look at one field (`Walk.asksInTurn_selection_of_field`),
and all that is walked around it follows by induction on the depth of the walk. -/

namespace SelectionMask

/-- The text of the failure, if a hook refused. -/
def Failure.refusal? : Failure → Option String
  | refused text => some text
  | _ => none

/-- The text with which a hook refused, if that ended the run. -/
def refusal? {α : Type} : Except Failure α → Option String
  | .ok _ => none
  | .error failure => failure.refusal?

theorem refusal?_eq_some_iff {α : Type} {r : Except Failure α} {text : String} :
    refusal? r = some text ↔ r = .error (.refused text) := by
  rcases r with failure | a
  · cases failure <;> simp [refusal?, Failure.refusal?]
  · simp [refusal?]

/-- A hook event in the trace stands in the journal. -/
theorem exists_split_of_traceOf {es : List Event} {event : HookEvent} {pre post : List HookEvent}
    (h : traceOf es = pre ++ event :: post) :
    ∃ before after, es = before ++ .hook event :: after ∧ traceOf before = pre ∧
      traceOf after = post := by
  obtain ⟨before, later, rfl, hpre, hlater⟩ := List.filterMap_eq_append_iff.1 h
  obtain ⟨others, e, after, rfl, hothers, he, hpost⟩ := List.filterMap_eq_cons_iff.1 hlater
  have hnothing : traceOf others = [] := List.filterMap_eq_nil_iff.2 hothers
  cases e with
  | hook event' =>
      obtain rfl : event' = event := Option.some.inj he
      refine ⟨before ++ others, after, (List.append_assoc _ _ _).symm, ?_, hpost⟩
      rw [traceOf_append, hnothing, List.append_nil]
      exact hpre
  | visit | note => cases he

/-- The event has nothing to do with a field: it is no call of a hook for fields, and no note that a
    field is dropped. -/
def Event.IsPlain : Event → Prop
  | hook (.extraPathsAsked _ _) => False
  | hook (.fieldNamesAsked _ _) => False
  | note (.skipped _ _) => False
  | _ => True

/-- The visit is of a field that the schema has, and the site is what the hooks are told of it. -/
structure Visit.Shows (schema : Schema) (v : Visit) (site : FieldSite) : Prop where
  selection : v.selection.bare = .leaf site.field.name site.aliasName
  named : site.field.name ≠ typenameField
  found : schema.fieldNamed v.frame.type site.field.name = .ok site.field
  type : v.frame.type = site.parentType

/-- The note that the field is dropped. -/
def FieldSite.dropped (site : FieldSite) : Note :=
  .skipped site.parentType site.field.name

/-- What is noted about a field once its names are known: that it is dropped, if it has none. -/
def FieldSite.noted (site : FieldSite) : Option (OneOrMany String) → List Event
  | none => [.note site.dropped]
  | some _ => []

/-- The note that an event brings about, if it is a call for the names of a field that has none. -/
def HookEvent.dropped? (naming : NameHook) : HookEvent → Option Note
  | fieldNamesAsked site _ =>
      match naming site with
      | .ok none => some site.dropped
      | _ => none
  | _ => none

/-- The note says that a field is dropped. -/
def Note.isSkipped : Note → Bool
  | skipped _ _ => true
  | _ => false

/-- The journal of a run in which the hooks for fields are called in turn, given the refusal that ends
    it, if one does. -/
inductive FieldCalls (schema : Schema) (extra : ExtraHook) (naming : NameHook) :
    Option String → List Event → Prop
  | nil {refusal : Option String} : FieldCalls schema extra naming refusal []
  | plain {refusal : Option String} {e : Event} {rest : List Event} :
      e.IsPlain → FieldCalls schema extra naming refusal rest →
      FieldCalls schema extra naming refusal (e :: rest)
  | asked {refusal : Option String} {v : Visit} {site : FieldSite} {added : List String}
      {given : Option (OneOrMany String)} {rest : List Event} :
      v.Shows schema site → extra site = .ok added → naming site = .ok given →
      FieldCalls schema extra naming refusal rest →
      FieldCalls schema extra naming refusal
        (.visit v :: .hook (.extraPathsAsked site v.node) :: .hook (.fieldNamesAsked site v.node) ::
          (site.noted given ++ rest))
  | extraRefused {v : Visit} {site : FieldSite} {text : String} :
      v.Shows schema site → extra site = .error text →
      FieldCalls schema extra naming (some text) [.visit v, .hook (.extraPathsAsked site v.node)]
  | namesRefused {v : Visit} {site : FieldSite} {added : List String} {text : String} :
      v.Shows schema site → extra site = .ok added → naming site = .error text →
      FieldCalls schema extra naming (some text)
        [.visit v, .hook (.extraPathsAsked site v.node), .hook (.fieldNamesAsked site v.node)]

/-! ## Journals -/

namespace FieldCalls

variable {schema : Schema} {extra : ExtraHook} {naming : NameHook} {refusal : Option String}
  {es es' : List Event}

theorem append (h : FieldCalls schema extra naming none es)
    (h' : FieldCalls schema extra naming refusal es') :
    FieldCalls schema extra naming refusal (es ++ es') := by
  generalize hnone : (none : Option String) = ended at h
  induction h with
  | nil => exact h'
  | plain he _ ih => exact .plain he (ih hnone)
  | asked hv hadded hgiven _ ih =>
      rw [List.cons_append, List.cons_append, List.cons_append, List.append_assoc]
      exact .asked hv hadded hgiven (ih hnone)
  | extraRefused | namesRefused => cases hnone

/-- An event stands behind the first one, if that is another one. -/
theorem split_cons {α : Type} {a e : α} {l pre post : List α} (h : a :: l = pre ++ e :: post)
    (hne : a ≠ e) : ∃ pre', pre = a :: pre' ∧ l = pre' ++ e :: post := by
  rcases List.cons_eq_append_iff.1 h with ⟨rfl, hsame⟩ | ⟨pre', rfl, hrest⟩
  · exact absurd (List.cons.inj hsame).1.symm hne
  · exact ⟨pre', rfl, hrest⟩

/-- A hook event stands behind what is noted about a field. -/
theorem split_noted {site : FieldSite} {given : Option (OneOrMany String)} {event : HookEvent}
    {pre post : List Event} (h : site.noted given ++ es = pre ++ .hook event :: post) :
    ∃ pre', pre = site.noted given ++ pre' ∧ es = pre' ++ .hook event :: post := by
  cases given with
  | none => exact split_cons h (by simp)
  | some names => exact ⟨pre, rfl, h⟩

/-- A call for extra paths stands right behind a visit of the field. If it is refused, it is the last
    event; if not, the call for the names follows. -/
theorem of_extraPathsAsked (h : FieldCalls schema extra naming refusal es) {site : FieldSite}
    {node : Address} {pre post : List Event}
    (hsplit : es = pre ++ .hook (.extraPathsAsked site node) :: post) :
    ∃ before v, pre = before ++ [.visit v] ∧ v.node = node ∧ v.Shows schema site ∧
      ((∃ text, extra site = .error text ∧ refusal = some text ∧ post = []) ∨
        ∃ added rest, extra site = .ok added ∧
          post = .hook (.fieldNamesAsked site node) :: rest) := by
  induction h generalizing pre with
  | nil => simp at hsplit
  | plain he _ ih =>
      obtain ⟨later, rfl, hrest⟩ := split_cons hsplit (by rintro rfl; exact he)
      obtain ⟨before, v, rfl, hv⟩ := ih hrest
      exact ⟨_ :: before, v, rfl, hv⟩
  | @asked _ v asked _ given _ hv hadded _ _ ih =>
      obtain ⟨calls, rfl, hcalls⟩ := split_cons hsplit (by simp)
      rcases List.cons_eq_append_iff.1 hcalls with ⟨rfl, hsame⟩ | ⟨names, rfl, hnames⟩
      · obtain ⟨⟨rfl, rfl⟩, rfl⟩ := by simpa using hsame
        exact ⟨[], v, rfl, rfl, hv, .inr ⟨_, _, hadded, rfl⟩⟩
      · obtain ⟨noted, rfl, hnoted⟩ := split_cons hnames (by simp)
        obtain ⟨later, rfl, hrest⟩ := split_noted hnoted
        obtain ⟨before, w, rfl, hw⟩ := ih hrest
        exact ⟨.visit v :: .hook (.extraPathsAsked asked v.node) ::
          .hook (.fieldNamesAsked asked v.node) :: (asked.noted given ++ before), w, by simp, hw⟩
  | extraRefused hv hrefused =>
      obtain ⟨calls, rfl, hcalls⟩ := split_cons hsplit (by simp)
      obtain ⟨rfl, ⟨rfl, rfl⟩, rfl⟩ := by simpa [List.cons_eq_append_iff] using hcalls
      exact ⟨[], _, rfl, rfl, hv, .inl ⟨_, hrefused, rfl, rfl⟩⟩
  | namesRefused hv hadded _ =>
      obtain ⟨calls, rfl, hcalls⟩ := split_cons hsplit (by simp)
      obtain ⟨rfl, ⟨rfl, rfl⟩, rfl⟩ := by simpa [List.cons_eq_append_iff] using hcalls
      exact ⟨[], _, rfl, rfl, hv, .inr ⟨_, [], hadded, rfl⟩⟩

/-- A call for names stands right behind the call for extra paths, and that behind a visit of the
    field. If it is refused, it is the last event; if not, what is noted of the field follows. -/
theorem of_fieldNamesAsked (h : FieldCalls schema extra naming refusal es) {site : FieldSite}
    {node : Address} {pre post : List Event}
    (hsplit : es = pre ++ .hook (.fieldNamesAsked site node) :: post) :
    ∃ before v added, pre = before ++ [.visit v, .hook (.extraPathsAsked site node)] ∧
      v.node = node ∧ v.Shows schema site ∧ extra site = .ok added ∧
      ((∃ text, naming site = .error text ∧ refusal = some text ∧ post = []) ∨
        ∃ given rest, naming site = .ok given ∧ post = site.noted given ++ rest) := by
  induction h generalizing pre with
  | nil => simp at hsplit
  | plain he _ ih =>
      obtain ⟨later, rfl, hrest⟩ := split_cons hsplit (by rintro rfl; exact he)
      obtain ⟨before, v, added, rfl, hv⟩ := ih hrest
      exact ⟨_ :: before, v, added, rfl, hv⟩
  | @asked _ v asked _ given _ hv hadded hgiven _ ih =>
      obtain ⟨calls, rfl, hcalls⟩ := split_cons hsplit (by simp)
      obtain ⟨names, rfl, hnames⟩ := split_cons hcalls (by simp)
      rcases List.cons_eq_append_iff.1 hnames with ⟨rfl, hsame⟩ | ⟨noted, rfl, hnoted⟩
      · obtain ⟨⟨rfl, rfl⟩, rfl⟩ := by simpa using hsame
        exact ⟨[], v, _, rfl, rfl, hv, hadded, .inr ⟨_, _, hgiven, rfl⟩⟩
      · obtain ⟨later, rfl, hrest⟩ := split_noted hnoted
        obtain ⟨before, w, added, rfl, hw⟩ := ih hrest
        exact ⟨.visit v :: .hook (.extraPathsAsked asked v.node) ::
          .hook (.fieldNamesAsked asked v.node) :: (asked.noted given ++ before), w, added, by simp,
          hw⟩
  | extraRefused _ _ => simp [List.cons_eq_append_iff] at hsplit
  | namesRefused hv hadded hrefused =>
      obtain ⟨calls, rfl, hcalls⟩ := split_cons hsplit (by simp)
      obtain ⟨names, rfl, hnames⟩ := split_cons hcalls (by simp)
      obtain ⟨rfl, ⟨rfl, rfl⟩, rfl⟩ := by simpa [List.cons_eq_append_iff] using hnames
      exact ⟨[], _, _, rfl, rfl, hv, hadded, .inl ⟨_, hrefused, rfl, rfl⟩⟩

/-- The notes that fields are dropped are as the calls for names have it. -/
theorem filter_isSkipped (h : FieldCalls schema extra naming refusal es) :
    (logOf es).filter Note.isSkipped = (traceOf es).filterMap (HookEvent.dropped? naming) := by
  induction h with
  | nil => rfl
  | @plain _ e _ he _ ih =>
      cases e with
      | visit v => exact ih
      | hook event =>
          cases event with
          | extraPathsAsked | fieldNamesAsked => exact he.elim
          | narrowingAsked | membersAnswered => exact ih
      | note n =>
          cases n with
          | skipped => exact he.elim
          | _ => exact ih
  | @asked _ v site _ given rest _ _ hgiven _ ih =>
      cases given with
      | none =>
          change site.dropped :: (logOf rest).filter Note.isSkipped =
            (.extraPathsAsked site v.node :: .fieldNamesAsked site v.node :: traceOf rest).filterMap
              (HookEvent.dropped? naming)
          simp [List.filterMap_cons, HookEvent.dropped?, hgiven, ih]
      | some names =>
          change (logOf rest).filter Note.isSkipped =
            (.extraPathsAsked site v.node :: .fieldNamesAsked site v.node :: traceOf rest).filterMap
              (HookEvent.dropped? naming)
          simp [List.filterMap_cons, HookEvent.dropped?, hgiven, ih]
  | extraRefused _ _ => rfl
  | @namesRefused v site _ _ _ _ hrefused =>
      change [] = [.extraPathsAsked site v.node, .fieldNamesAsked site v.node].filterMap
        (HookEvent.dropped? naming)
      simp [List.filterMap_cons, HookEvent.dropped?, hrefused]

end FieldCalls

namespace Walk

variable {α β : Type} {schema : Schema} {extra : ExtraHook} {naming : NameHook}
  {names : List Name}

/-- The journal of the walk is made up in this way. -/
def AsksInTurn (schema : Schema) (extra : ExtraHook) (naming : NameHook) (names : List Name)
    (w : Walk α) : Prop :=
  FieldCalls schema extra naming (refusal? (w.run names).outcome) (w.run names).events

/-! ## Single steps -/

theorem asksInTurn_pure (a : α) : AsksInTurn schema extra naming names (pure a) :=
  .nil

theorem asksInTurn_fail (failure : Failure) :
    AsksInTurn schema extra naming names (fail failure : Walk α) :=
  .nil

theorem asksInTurn_blaming (node : Option Address) (found : Except MaskError α) :
    AsksInTurn schema extra naming names (blaming node found) := by
  cases found with
  | ok a => exact asksInTurn_pure a
  | error error => exact asksInTurn_fail _

theorem AsksInTurn.bind {w : Walk α} {f : α → Walk β} (h : AsksInTurn schema extra naming names w)
    (hw : w.Restores) (hf : ∀ a, AsksInTurn schema extra naming names (f a)) :
    AsksInTurn schema extra naming names (w >>= f) := by
  unfold AsksInTurn at h ⊢
  have hnames := hw names
  rcases hrun : w.run names with ⟨failure | a, left, events⟩ <;> rw [hrun] at h hnames
  · rw [run_bind_of_error hrun]
    exact h
  · obtain rfl : left = names := hnames
    rw [run_bind_of_ok hrun]
    exact h.append (hf a)

theorem asksInTurn_emit_bind {e : Event} (he : e.IsPlain) {f : Unit → Walk β}
    (hf : AsksInTurn schema extra naming names (f ())) :
    AsksInTurn schema extra naming names (emit e >>= f) :=
  .plain he hf

theorem asksInTurn_visit_bind {frame : Frame} {node : Address} {s : Selection} {f : Unit → Walk β}
    (hf : AsksInTurn schema extra naming names (f ())) :
    AsksInTurn schema extra naming names (visit frame node s >>= f) :=
  .plain trivial hf

/-- No hook catches a refusal. -/
theorem AsksInTurn.caught {w : Walk α} (h : AsksInTurn schema extra naming names w) :
    AsksInTurn schema extra naming names w.caught := by
  have hsame : refusal? (settle (w.run names).outcome) = refusal? (w.run names).outcome := by
    rcases (w.run names).outcome with failure | a
    · cases failure <;> rfl
    · rfl
  unfold AsksInTurn
  rw [run_caught, hsame]
  exact h

theorem AsksInTurn.follow {members : Walk (List String)}
    (h : AsksInTurn schema extra naming names members) (hm : members.Restores) (s : Strategy) :
    AsksInTurn schema extra naming names (s.follow members) := by
  induction s with
  | answer paths => exact asksInTurn_pure paths
  | refuse text => exact asksInTurn_fail _
  | ask next ih => exact h.bind hm ih
  | attempt next handle ihn ihh =>
      rw [Strategy.follow_attempt]
      refine h.caught.bind hm.caught fun result => ?_
      cases result with
      | ok paths => exact ihn paths
      | error error => exact ihh error

/-! ## Fields -/

section

variable {env : Env} {descend : Descend} {frame : Frame} {node : Address}

/-- What follows once the names of a field are known. -/
def afterNames (descend : Descend) (node : Address) (site : FieldSite)
    (ss : Option (List Selection)) (added : List String) :
    Option (OneOrMany String) → Walk (List String)
  | none => do
      note site.dropped
      return added
  | some given => return added ++ (← pathsBelow descend site.field node given.toList ss)

theorem exists_pathsOf_eq_field {s : Selection} {name : Name} {aliasName : Option String}
    (hs : s.bare = .leaf name aliasName) (env : Env) (descend : Descend) (frame : Frame)
    (node : Address) :
    ∃ ss, pathsOf env descend frame node s
      = field env descend frame.type node name aliasName ss := by
  cases s with
  | leaf | branch =>
      obtain ⟨rfl, rfl⟩ := Selection.leaf.inj hs
      exact ⟨_, rfl⟩
  | _ => cases hs

/-- What a field does with both hooks, one step after the other. -/
theorem field_of_hooks (hextra : env.hooks.extraPaths = some extra)
    (hnaming : env.hooks.fieldNames = some naming) (site : FieldSite)
    (hname : site.field.name ≠ typenameField)
    (hfound : env.schema.fieldNamed site.parentType site.field.name = .ok site.field)
    (ss : Option (List Selection)) :
    field env descend site.parentType node site.field.name site.aliasName ss = (do
      emit (.hook (.extraPathsAsked site node))
      let added ← hooked (extra site)
      emit (.hook (.fieldNamesAsked site node))
      let given ← hooked (naming site)
      afterNames descend node site ss added given) := by
  rw [field_of_found hname hfound, extraPathsOf, namesOf, hextra, hnaming]
  simp only [bind_assoc, pure_bind]
  refine congrArg _ (funext fun _ => congrArg _ (funext fun added => congrArg _ (funext fun _ =>
    congrArg _ (funext fun given => ?_))))
  cases given <;> rfl

/-- A field that is dropped: it is visited, its hooks are asked, and nothing below it is walked. -/
theorem events_selection_of_dropped (hextra : env.hooks.extraPaths = some extra)
    (hnaming : env.hooks.fieldNames = some naming) {v : Visit} {site : FieldSite}
    (hv : v.Shows env.schema site) {added : List String} (hadded : extra site = .ok added)
    (hgiven : naming site = .ok none) :
    ((selection env descend v.frame v.node v.selection).run v.expanding).events =
      [.visit v, .hook (.extraPathsAsked site v.node), .hook (.fieldNamesAsked site v.node),
        .note site.dropped] := by
  obtain ⟨hs, hname, hfound, htype⟩ := hv
  obtain ⟨ss, hpaths⟩ := exists_pathsOf_eq_field hs env descend v.frame v.node
  rw [htype] at hfound
  rw [selection, hpaths, htype, field_of_hooks hextra hnaming site hname hfound, hadded, hgiven]
  rfl

/-- Every walk that is one level deeper asks in turn. -/
def BelowAsksInTurn (schema : Schema) (extra : ExtraHook) (naming : NameHook)
    (descend : Descend) : Prop :=
  ∀ names frame node ss, AsksInTurn schema extra naming names (descend frame node ss)

section

variable (hextra : env.hooks.extraPaths = some extra) (hnaming : env.hooks.fieldNames = some naming)

include hextra hnaming in
/-- **A field asks in turn.** It is visited before its hooks are called. -/
theorem asksInTurn_selection_of_field (hd : descend.Restores)
    (hbelow : BelowAsksInTurn env.schema extra naming descend) {s : Selection} {name : Name}
    {aliasName : Option String} (hs : s.bare = .leaf name aliasName) :
    AsksInTurn env.schema extra naming names (selection env descend frame node s) := by
  obtain ⟨ss, hpaths⟩ := exists_pathsOf_eq_field hs env descend frame node
  rw [selection, hpaths]
  by_cases hname : name = typenameField
  · rw [field, if_pos hname]
    exact asksInTurn_visit_bind (asksInTurn_pure _)
  · cases hfound : env.schema.fieldNamed frame.type name with
    | error error =>
        rw [field_of_error hname hfound]
        exact asksInTurn_visit_bind (asksInTurn_fail _)
    | ok definition =>
        obtain rfl : definition.name = name := Schema.name_of_fieldNamed hfound
        let site : FieldSite := ⟨frame.type, definition, aliasName⟩
        have hv : Visit.Shows env.schema ⟨frame, names, node, s⟩ site := ⟨hs, hname, hfound, rfl⟩
        rw [field_of_hooks hextra hnaming site hname hfound]
        cases hadded : extra site with
        | error text => exact .extraRefused hv hadded
        | ok added =>
            cases hgiven : naming site with
            | error text => exact .namesRefused hv hadded hgiven
            | ok given =>
                cases given with
                | none => exact .asked hv hadded hgiven .nil
                | some given =>
                    have hpaths : AsksInTurn env.schema extra naming names
                        (pathsBelow descend definition node given.toList ss) := by
                      cases ss with
                      | none => exact asksInTurn_pure _
                      | some ss => exact (hbelow _ _ _ _).bind (hd _ _ _) fun _ => asksInTurn_pure _
                    exact .asked hv hadded hgiven
                      (hpaths.bind (restores_pathsBelow hd _ _ _ _) fun _ => asksInTurn_pure _)

/-! ## Fragments and selection sets -/

theorem asksInTurn_narrow (hd : descend.Restores)
    (hbelow : BelowAsksInTurn schema extra naming descend) (hook : NarrowingHook) (n : Narrowing)
    (ss : List Selection) : AsksInTurn schema extra naming names (narrow descend hook n node ss) := by
  refine asksInTurn_emit_bind (by trivial) ?_
  refine AsksInTurn.follow ?_ (restores_memberPaths hd n node ss) (hook n)
  refine (hbelow _ _ _ _).bind (hd _ _ _) fun paths => ?_
  exact asksInTurn_emit_bind (by trivial) (asksInTurn_pure _)

theorem asksInTurn_enterFragment (hd : descend.Restores)
    (hbelow : BelowAsksInTurn schema extra naming descend) (condition : Name)
    (ss : List Selection) :
    AsksInTurn schema extra naming names (enterFragment env descend frame condition node ss) := by
  unfold enterFragment
  refine (asksInTurn_blaming _ _).bind (restores_blaming _ _) fun target => ?_
  refine (asksInTurn_blaming _ _).bind (restores_blaming _ _) fun current => ?_
  split
  · split
    · exact hbelow _ _ _ _
    · split
      · exact asksInTurn_emit_bind (by trivial) (asksInTurn_pure _)
      · split
        · exact asksInTurn_fail _
        · exact asksInTurn_narrow hd hbelow _ _ _
  · split
    · exact asksInTurn_emit_bind (by trivial) (asksInTurn_pure _)
    · exact hbelow _ _ _ _

theorem asksInTurn_spread (hd : descend.Restores)
    (hbelow : BelowAsksInTurn schema extra naming descend) (name : Name) :
    AsksInTurn schema extra naming names (spread env descend frame node name) := by
  unfold spread
  split
  · exact asksInTurn_fail _
  · refine AsksInTurn.bind .nil restores_expanding fun names' => ?_
    split
    · exact asksInTurn_fail _
    · exact asksInTurn_enterFragment hd hbelow _ _

include hextra hnaming in
theorem asksInTurn_selection (hd : descend.Restores)
    (hbelow : BelowAsksInTurn env.schema extra naming descend) (s : Selection) :
    AsksInTurn env.schema extra naming names (selection env descend frame node s) := by
  cases s with
  | leaf | branch => exact asksInTurn_selection_of_field hextra hnaming hd hbelow rfl
  | spread name => exact asksInTurn_visit_bind (asksInTurn_spread hd hbelow name)
  | fragment condition body =>
      exact asksInTurn_visit_bind (asksInTurn_enterFragment hd hbelow _ body)
  | other kind => exact asksInTurn_visit_bind (asksInTurn_fail _)

include hextra hnaming in
theorem asksInTurn_selectionsFrom (hd : descend.Restores)
    (hbelow : BelowAsksInTurn env.schema extra naming descend) (ss : List Selection) (index : Nat) :
    AsksInTurn env.schema extra naming names
      (selectionsFrom env descend frame node index ss) := by
  induction ss generalizing index with
  | nil => exact asksInTurn_pure _
  | cons s rest ih =>
      rw [selectionsFrom_cons]
      refine (asksInTurn_selection hextra hnaming hd hbelow s).bind (restores_selection hd _ _ _)
        fun _ => ?_
      exact (ih _).bind (restores_selectionsFrom hd _ _ _ _) fun _ => asksInTurn_pure _

include hextra hnaming in
/-- **A walk asks in turn**, by induction on the bound on its depth. -/
theorem belowAsksInTurn_selections :
    BelowAsksInTurn env.schema extra naming (selections env) := by
  have hbound : ∀ depth, BelowAsksInTurn env.schema extra naming (selectionsUpTo env depth) := by
    intro depth
    induction depth with
    | zero => exact fun _ _ _ _ => asksInTurn_fail _
    | succ depth ih =>
        exact fun names frame node ss =>
          asksInTurn_selectionsFrom hextra hnaming (restores_selectionsUpTo env depth) ih ss 0
  exact fun names frame node ss => hbound _ names frame node ss

/-! ## Whole computations -/

include hextra hnaming in
theorem asksInTurn_mergeRoots (type : Name) (roots : List RootNode) (index : Nat)
    (found : OrderedSet String) :
    AsksInTurn env.schema extra naming names (mergeRoots env type index roots found) := by
  induction roots generalizing index found with
  | nil => exact asksInTurn_pure _
  | cons root rest ih =>
      exact (belowAsksInTurn_selections hextra hnaming _ _ _ _).bind (restores_selections env _ _ _)
        fun _ => ih _ _

include hextra hnaming in
theorem asksInTurn_mask (type : Name) (roots : List RootNode) :
    AsksInTurn env.schema extra naming names (mask env type roots) := by
  unfold mask
  refine (asksInTurn_blaming _ _).bind (restores_blaming _ _) fun _ => ?_
  refine asksInTurn_emit_bind (by trivial) ?_
  refine (asksInTurn_mergeRoots hextra hnaming type roots 0 .empty).bind
    (restores_mergeRoots type roots 0 _) fun found => ?_
  exact asksInTurn_emit_bind (by trivial) (asksInTurn_pure _)

end

end

end Walk

/-- All that happens while the selection is visited. -/
def Visit.journal (env : Env) (v : Visit) : List Event :=
  ((Walk.selection env (Walk.selections env) v.frame v.node v.selection).run v.expanding).events

/-- **The hooks for fields are called in turn.** Let both of them be set, whatever is done about
    members. In the trace of a computation, whether it fails or not:

    * a call for extra paths is followed at once by the call for the names of the same field at the
      same node, unless it is refused: then it is the last event of the trace, and the refusal is what
      the computation comes to;
    * right before a call for names there is the call for the extra paths of the field;
    * each call is about an object type of the schema and one of its fields as it is declared.

    The notes that fields are dropped are those of the calls for names that gave none, in the same
    order. While such a field is visited, nothing happens but the visit, the two calls and the note. -/
theorem maskPaths_asks_fields_in_turn (schema : Schema) (fragments : FragmentTable)
    (extra : ExtraHook) (naming : NameHook) (narrowing : Option NarrowingHook) (type : Name)
    (roots : List RootNode) :
    let env : Env := ⟨schema, fragments, ⟨some naming, some extra, narrowing⟩⟩
    let report := maskPaths type roots fragments schema (some env.hooks)
    let trace := traceOf report.events
    (∀ pre site node post, trace = pre ++ .extraPathsAsked site node :: post →
      (∃ text, extra site = .error text ∧ report.outcome = .error (.refused text) ∧ post = []) ∨
        ∃ added rest, extra site = .ok added ∧ post = .fieldNamesAsked site node :: rest) ∧
    (∀ pre site node post, trace = pre ++ .fieldNamesAsked site node :: post →
      ∃ before, pre = before ++ [.extraPathsAsked site node]) ∧
    (∀ site node, (.extraPathsAsked site node ∈ trace ∨ .fieldNamesAsked site node ∈ trace) →
      ∃ t, schema.type? site.parentType = some t ∧ t.isObject ∧
        t.field? site.field.name = some site.field) ∧
    (logOf report.events).filter Note.isSkipped = trace.filterMap (HookEvent.dropped? naming) ∧
    ∀ pre site node post, report.events = pre ++ .hook (.fieldNamesAsked site node) :: post →
      naming site = .ok none →
      ∃ before v rest, v.node = node ∧ v.selection.bare = .leaf site.field.name site.aliasName ∧
        pre = before ++ [.visit v, .hook (.extraPathsAsked site node)] ∧
        post = .note site.dropped :: rest ∧
        v.journal env = [.visit v, .hook (.extraPathsAsked site node),
          .hook (.fieldNamesAsked site node), .note site.dropped] := by
  intro env report trace
  have hturn : Walk.AsksInTurn env.schema extra naming [] (Walk.mask env type roots) :=
    Walk.asksInTurn_mask rfl rfl type roots
  have hcalls : FieldCalls schema extra naming (refusal? report.outcome) report.events := hturn
  refine ⟨?_, ?_, ?_, hcalls.filter_isSkipped, ?_⟩
  · intro pre site node post hsplit
    obtain ⟨before, after, hevents, -, rfl⟩ := exists_split_of_traceOf hsplit
    obtain ⟨_, v, -, -, -, hnext⟩ := hcalls.of_extraPathsAsked hevents
    rcases hnext with ⟨text, hrefused, hended, rfl⟩ | ⟨added, rest, hadded, rfl⟩
    · exact .inl ⟨text, hrefused, refusal?_eq_some_iff.1 hended, rfl⟩
    · exact .inr ⟨added, traceOf rest, hadded, rfl⟩
  · intro pre site node post hsplit
    obtain ⟨before, after, hevents, rfl, -⟩ := exists_split_of_traceOf hsplit
    obtain ⟨earlier, v, _, rfl, -⟩ := hcalls.of_fieldNamesAsked hevents
    exact ⟨traceOf earlier, traceOf_append _ _⟩
  · intro site node hcall
    exact Schema.fieldNamed_eq_ok_iff.1 (Walk.field_of_mem_traceOf hcall).2
  · intro pre site node post hsplit hgiven
    obtain ⟨before, v, added, rfl, rfl, hv, hadded, hnext⟩ := hcalls.of_fieldNamesAsked hsplit
    rcases hnext with ⟨text, hrefused, -⟩ | ⟨given, rest, hnames, rfl⟩
    · cases hgiven.symm.trans hrefused
    · obtain rfl : none = given := Except.ok.inj (hgiven.symm.trans hnames)
      exact ⟨before, v, rest, rfl, hv.selection, rfl, rfl,
        Walk.events_selection_of_dropped rfl rfl hv hadded hgiven⟩

/-- An ordinary field, one that is dropped with its selections, and one that is refused, so that the
    field behind it is not asked about. -/
example :
    let user : FieldDef := ⟨"user", .named "User", none⟩
    let name : FieldDef := ⟨"name", .named "ID", none⟩
    let schema : Schema :=
      ⟨[⟨"Query", .object [name, user, ⟨"secret", .named "ID", none⟩] [], none⟩,
        ⟨"User", .object [name] [], none⟩]⟩
    let rules : HookRules :=
      ⟨some (.table [("user", .value none), ("secret", .refuse "not allowed")] .own),
        some (.table [("name", .value ["label"])] []), none⟩
    let report := maskPaths "Query" [.operation [.leaf "name" none,
      .branch "user" none [.leaf "name" none], .leaf "secret" (some "s"), .leaf "name" none]]
      ∅ schema (some rules.hooks)
    let asked (field : FieldDef) (aliasName : Option String) (index : Nat) : List HookEvent :=
      [.extraPathsAsked ⟨"Query", field, aliasName⟩ ((Address.root 0).child index),
        .fieldNamesAsked ⟨"Query", field, aliasName⟩ ((Address.root 0).child index)]
    traceOf report.events = asked name none 0 ++ asked user none 1
        ++ asked ⟨"secret", .named "ID", none⟩ (some "s") 2 ∧
      logOf report.events = [.computing "Query" 1, .skipped "Query" "user"] ∧
      report.outcome = .error (.refused "not allowed") :=
  ⟨rfl, rfl, rfl⟩

end SelectionMask
