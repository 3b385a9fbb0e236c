import SelectionMask.Schema.Metadata
import SelectionMask.Schema.TypeRef

set_option autoImplicit false

/-! # Schemas

The types of a GraphQL schema, against which a query is read. A type has a name, a kind with what
belongs to that kind, and perhaps metadata. Only fields and abstractness guide a walk; the
interfaces of an object type and the members of a union say which objects an abstract type stands
for. -/

namespace SelectionMask

/-- The kinds of type that a schema can report about itself. -/
inductive TypeKind where
  | scalar
  | object
  | interface
  | union
  | enum
  | inputObject
  | list
  | nonNull
deriving DecidableEq, Repr

/-- The kind in capitals, as introspection spells it. -/
def TypeKind.name : TypeKind → String
  | scalar => "SCALAR"
  | object => "OBJECT"
  | interface => "INTERFACE"
  | union => "UNION"
  | enum => "ENUM"
  | inputObject => "INPUT_OBJECT"
  | list => "LIST"
  | nonNull => "NON_NULL"

/-- The kinds in the order of their declaration. -/
def TypeKind.all : List TypeKind :=
  [scalar, object, interface, union, enum, inputObject, list, nonNull]

/-- The kind spelled by a text. -/
def TypeKind.ofName? (text : String) : Option TypeKind :=
  all.find? fun kind => kind.name == text

/-- A field as an object or interface type defines it. -/
structure FieldDef where
  name : Name
  type : TypeRef
  metadata : Option FieldMetadata
deriving DecidableEq, Repr

/-- The type that selections below the field are read at. -/
def FieldDef.namedType (f : FieldDef) : Name :=
  f.type.namedType

/-- What makes up a named type of each kind. -/
inductive TypeShape where
  | object (fields : List FieldDef) (interfaces : List Name)
  | interface (fields : List FieldDef)
  | union (members : List Name)
  | enum
  | scalar
  | inputObject
deriving DecidableEq, Repr

/-- A type that a schema declares under a name. -/
structure NamedType where
  name : Name
  shape : TypeShape
  metadata : Option TypeMetadata
deriving DecidableEq, Repr

namespace NamedType

/-- The kind of the type. -/
def kind (t : NamedType) : TypeKind :=
  match t.shape with
  | .object _ _ => .object
  | .interface _ => .interface
  | .union _ => .union
  | .enum => .enum
  | .scalar => .scalar
  | .inputObject => .inputObject

/-- The fields of an object or interface type; other types have none. -/
def fields (t : NamedType) : List FieldDef :=
  match t.shape with
  | .object fields _ => fields
  | .interface fields => fields
  | _ => []

/-- The interfaces an object type lists. -/
def interfaces (t : NamedType) : List Name :=
  match t.shape with
  | .object _ interfaces => interfaces
  | _ => []

/-- The members of a union. -/
def members (t : NamedType) : List Name :=
  match t.shape with
  | .union members => members
  | _ => []

/-- Whether the type is an object type. -/
def isObject (t : NamedType) : Bool :=
  t.kind == .object

/-- Whether values of the type are of some other type: interfaces and unions. -/
def isAbstract (t : NamedType) : Bool :=
  t.kind == .interface || t.kind == .union

/-- The field of a name. -/
def field? (t : NamedType) (name : Name) : Option FieldDef :=
  t.fields.find? fun f => f.name == name

/-- The names of the fields, in the order of their characters' code points. -/
def sortedFieldNames (t : NamedType) : List Name :=
  (t.fields.map FieldDef.name).mergeSort fun a b => decide (a ≤ b)

/-- A field that is found has the name it was looked up by. -/
theorem name_of_field? {t : NamedType} {name : Name} {f : FieldDef}
    (h : t.field? name = some f) : f.name = name := by
  simpa using List.find?_some h

/-- A field that is found is one of the type's fields. -/
theorem mem_fields_of_field? {t : NamedType} {name : Name} {f : FieldDef}
    (h : t.field? name = some f) : f ∈ t.fields :=
  List.mem_of_find?_eq_some h

end NamedType

/-- The types that a schema declares. -/
structure Schema where
  types : List NamedType
deriving DecidableEq, Repr

end SelectionMask
