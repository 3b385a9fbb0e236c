import SelectionMask.Schema.Basic

set_option autoImplicit false

/-! # Built-in types

The types that a schema has without declaring them: the scalars `String` and `Boolean`, the scalars
`Int`, `Float` and `ID` as far as its fields refer to them, and the types in which a schema
describes itself. -/

namespace SelectionMask

namespace NamedType

/-- A scalar without metadata. -/
def plainScalar (name : Name) : NamedType :=
  ⟨name, .scalar, none⟩

/-- An enum without metadata. -/
def plainEnum (name : Name) : NamedType :=
  ⟨name, .enum, none⟩

/-- An object type without interfaces or metadata, from the names and types of its fields. -/
def plainObject (name : Name) (fields : List (Name × String)) : NamedType :=
  ⟨name, .object (fields.map fun ⟨field, type⟩ => ⟨field, TypeRef.ofString type, none⟩) [], none⟩

end NamedType

/-- The types in which a schema describes itself. -/
def introspectionTypes : List NamedType :=
  [.plainObject "__Schema"
    [("description", "String"), ("types", "[__Type!]!"), ("queryType", "__Type!"),
      ("mutationType", "__Type"), ("subscriptionType", "__Type"),
      ("directives", "[__Directive!]!")],
   .plainObject "__Directive"
    [("name", "String!"), ("description", "String"), ("isRepeatable", "Boolean!"),
      ("locations", "[__DirectiveLocation!]!"), ("args", "[__InputValue!]!"),
      ("isDeprecated", "Boolean!"), ("deprecationReason", "String")],
   .plainEnum "__DirectiveLocation",
   .plainObject "__Type"
    [("kind", "__TypeKind!"), ("name", "String"), ("description", "String"),
      ("specifiedByURL", "String"), ("fields", "[__Field!]"), ("interfaces", "[__Type!]"),
      ("possibleTypes", "[__Type!]"), ("enumValues", "[__EnumValue!]"),
      ("inputFields", "[__InputValue!]"), ("ofType", "__Type"), ("isOneOf", "Boolean")],
   .plainObject "__Field"
    [("name", "String!"), ("description", "String"), ("args", "[__InputValue!]!"),
      ("type", "__Type!"), ("isDeprecated", "Boolean!"), ("deprecationReason", "String")],
   .plainObject "__InputValue"
    [("name", "String!"), ("description", "String"), ("type", "__Type!"),
      ("defaultValue", "String"), ("isDeprecated", "Boolean!"), ("deprecationReason", "String")],
   .plainObject "__EnumValue"
    [("name", "String!"), ("description", "String"), ("isDeprecated", "Boolean!"),
      ("deprecationReason", "String")],
   .plainEnum "__TypeKind"]

/-- The scalars that every schema has. -/
def standingScalars : List Name :=
  ["String", "Boolean"]

/-- The scalars that a schema has as soon as a field refers to them. -/
def onDemandScalars : List Name :=
  ["Int", "Float", "ID"]

namespace Schema

/-- Whether a field of a declared type refers to the type. -/
def refersTo (s : Schema) (name : Name) : Bool :=
  s.types.any fun t => t.fields.any fun f => f.namedType == name

/-- The types that the schema has without declaring them. -/
def builtins (s : Schema) : List NamedType :=
  standingScalars.map .plainScalar
    ++ (onDemandScalars.filter s.refersTo).map .plainScalar
    ++ introspectionTypes

end Schema

end SelectionMask
