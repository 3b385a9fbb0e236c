import SelectionMask.Hooks.Metadata

set_option autoImplicit false

/-! # Hooks written as rules

Hooks that are described by data: tables with a default. A table is asked for the field under its
type (`Type.field`) and then for the field alone; an entry may be a value or a refusal, and the
default decides about what the table does not hold. -/

namespace SelectionMask

/-- An entry of a rule table: a value or a refusal with its text. -/
inductive RuleEntry (α : Type) where
  | value (a : α)
  | refuse (text : String)
deriving DecidableEq, Repr

/-- What the entry comes to. -/
def RuleEntry.result {α : Type} : RuleEntry α → Except String α
  | value a => .ok a
  | refuse text => .error text

/-- Entries under their keys. -/
abbrev RuleTable (α : Type) := List (String × RuleEntry α)

namespace RuleTable

variable {α : Type}

/-- The entry under a key. -/
def find? (table : RuleTable α) (key : String) : Option (RuleEntry α) :=
  (List.find? (fun entry => entry.1 == key) table).map Prod.snd

/-- The entry for a field: under its type, else alone. -/
def forField? (table : RuleTable α) (site : FieldSite) : Option (RuleEntry α) :=
  match table.find? (site.parentType ++ "." ++ site.field.name) with
  | some entry => some entry
  | none => table.find? site.field.name

end RuleTable

/-! ## Names -/

/-- The name of a field that the table does not hold. -/
inductive NameDefault where
  /-- The field's own name. -/
  | own
  /-- No name: the field is dropped. -/
  | dropped
  /-- The name in lower case (ASCII). -/
  | lower
  /-- The name behind the name of its type. -/
  | qualified
  /-- The alias if there is one that is not empty, else the name. -/
  | aliasOrOwn
  /-- The name, and the name in upper case (ASCII). -/
  | ownAndUpper
deriving DecidableEq, Repr

/-- The names that the default gives. -/
def NameDefault.names (site : FieldSite) : NameDefault → Option (OneOrMany String)
  | own => some (.one site.field.name)
  | dropped => none
  | lower => some (.one site.field.name.toLower)
  | qualified => some (.one (site.parentType ++ "." ++ site.field.name))
  | aliasOrOwn =>
      match site.aliasName with
      | none => some (.one site.field.name)
      | some text => some (.one (if text = "" then site.field.name else text))
  | ownAndUpper => some (.many [site.field.name, site.field.name.toUpper])

/-- How fields are named. -/
inductive NameRule where
  | metadata
  | table (entries : RuleTable (Option (OneOrMany String))) (default : NameDefault)
deriving DecidableEq, Repr

/-- The hook that a rule describes. -/
def NameRule.hook : NameRule → NameHook
  | metadata => Hooks.metadataNames
  | table entries default => fun site =>
      match entries.forField? site with
      | some entry => entry.result
      | none => .ok (default.names site)

/-! ## Extra paths -/

/-- A template with the type's name put in for `{type}`, and then the field's for `{field}`. -/
def fillTemplate (site : FieldSite) (template : String) : String :=
  (template.replace "\x7btype\x7d" site.parentType).replace "\x7bfield\x7d" site.field.name

/-- What is added next to fields. -/
inductive ExtraRule where
  | metadata
  | table (entries : RuleTable (List String)) (templates : List String)
deriving DecidableEq, Repr

/-- The hook that a rule describes. -/
def ExtraRule.hook : ExtraRule → ExtraHook
  | metadata => Hooks.metadataExtraPaths
  | table entries templates => fun site =>
      match entries.forField? site with
      | some entry => entry.result
      | none => .ok (templates.map (fillTemplate site))

/-! ## Narrowing -/

/-- The segment of a member that the table does not hold. -/
inductive SegmentDefault where
  /-- The segment that its metadata or its name gives. -/
  | own
  /-- The name of the member. -/
  | concrete
  /-- The name of the abstract type and that of the member, with an underscore between. -/
  | abstractAndConcrete
  /-- None: the member is left out. -/
  | dropped
deriving DecidableEq, Repr

/-- The segment that the default gives. -/
def SegmentDefault.segment (n : Narrowing) : SegmentDefault → Option String
  | own => n.segment
  | concrete => some n.concreteType
  | abstractAndConcrete => some (n.abstractType ++ "_" ++ n.concreteType)
  | dropped => none

/-- How members get their segments: by their names in a table, else by the default. -/
structure SegmentRule where
  entries : RuleTable (Option String)
  default : SegmentDefault
deriving DecidableEq, Repr

/-- The segment that the rule gives. -/
def SegmentRule.segment (rule : SegmentRule) (n : Narrowing) : Except String (Option String) :=
  match rule.entries.find? n.concreteType with
  | some entry => entry.result
  | none => .ok (rule.default.segment n)

/-- What is done about members. -/
inductive NarrowingRule where
  /-- Their paths under their segments. -/
  | segments (rule : SegmentRule)
  /-- Their paths as they are. -/
  | members
  /-- The same paths for every member. -/
  | constant (paths : List String)
  /-- Their paths as they are, and once more under their segments. -/
  | membersAndSegments (rule : SegmentRule)
  /-- Their paths, or an entry that shows the error. -/
  | guarded
  /-- The same, done twice. -/
  | guardedTwice
  /-- Always refuse. -/
  | refuse (text : String)
deriving DecidableEq, Repr

/-- The hook that a rule describes. -/
def NarrowingRule.hook : NarrowingRule → NarrowingHook
  | segments rule => Hooks.underSegments rule.segment
  | members => fun _ => .members
  | constant paths => fun _ => .answer paths
  | membersAndSegments rule => fun n => .members ++ Hooks.underSegments rule.segment n
  | guarded => fun _ => .guarded
  | guardedTwice => fun _ => .guarded ++ .guarded
  | refuse text => fun _ => .refuse text

/-! ## All three -/

/-- A rule for each hook, or none. -/
structure HookRules where
  fieldNames : Option NameRule
  extraPaths : Option ExtraRule
  narrowing : Option NarrowingRule
deriving DecidableEq, Repr

/-- The hooks that the rules describe. -/
def HookRules.hooks (rules : HookRules) : Hooks :=
  ⟨rules.fieldNames.map NameRule.hook, rules.extraPaths.map ExtraRule.hook,
    rules.narrowing.map NarrowingRule.hook⟩

end SelectionMask
