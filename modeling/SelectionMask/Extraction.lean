import SelectionMask.OrderedSet.Basic
import SelectionMask.Walk.Basic

set_option autoImplicit false

/-! # Extracting a mask

A field mask tells a server in dotted paths which fields a GraphQL query asks for. The mask of a
list of nodes at a type holds the paths of all their selections, in the order in which they are
first met and without repetition. The type has to exist, also if nothing is selected at it; it need
not be an object type.

There are several ways to ask for it: with everything given, from what a resolver is told about the
field it resolves, or through an extractor that holds the hooks. -/

namespace SelectionMask

/-- What a computation of a mask comes to: the paths or the failure, and what happened before. -/
structure Report where
  outcome : Except Failure (List String)
  events : List Event

namespace Walk

/-- Add the paths of the nodes, in turn, to those found so far. The first node has the given
    index. -/
def mergeRoots (env : Env) (type : Name) :
    Nat → List RootNode → OrderedSet String → Walk (OrderedSet String)
  | _, [], found => return found
  | index, node :: rest, found => do
      let paths ← selections env ⟨type, none⟩ (.root index) node.selections
      mergeRoots env type (index + 1) rest (found.update paths)

/-- The mask of the nodes at a type. -/
def mask (env : Env) (type : Name) (nodes : List RootNode) : Walk (List String) := do
  let _ ← blaming none (env.schema.typeNamed type)
  note (.computing type nodes.length)
  let found ← mergeRoots env type 0 nodes .empty
  note (.computed found.size type)
  return found.toList

end Walk

/-- The mask of the nodes at a type; no fragment is being expanded at the start. -/
def Env.mask (env : Env) (type : Name) (nodes : List RootNode) : Report :=
  let r := (Walk.mask env type nodes).run []
  ⟨r.outcome, r.events⟩

/-- The mask of the nodes at a type, with everything that it depends on. No hooks given means that
    none is set. -/
def maskPaths (type : Name) (nodes : List RootNode) (fragments : FragmentTable) (schema : Schema)
    (hooks : Option Hooks) : Report :=
  Env.mask ⟨schema, fragments, hooks.getD .unset⟩ type nodes

/-- What a resolver is told about the field it resolves. -/
structure ResolveInfo where
  /-- All the places in the document where the field is selected. -/
  nodes : List RootNode
  fragments : FragmentTable
  schema : Schema

/-- The mask of the field that is being resolved. -/
def ResolveInfo.maskPaths (info : ResolveInfo) (type : Name) (hooks : Option Hooks) : Report :=
  SelectionMask.maskPaths type info.nodes info.fragments info.schema hooks

/-- Hooks, bound once for many computations. -/
structure Extractor where
  hooks : Hooks

namespace Extractor

/-- The extractor of the given hooks, or of none. -/
def ofHooks (hooks : Option Hooks) : Extractor :=
  ⟨hooks.getD .unset⟩

/-- The mask of the nodes at a type. -/
def maskPaths (extractor : Extractor) (type : Name) (nodes : List RootNode)
    (fragments : FragmentTable) (schema : Schema) : Report :=
  SelectionMask.maskPaths type nodes fragments schema (some extractor.hooks)

/-- The mask of the field that is being resolved. -/
def maskPathsOf (extractor : Extractor) (type : Name) (info : ResolveInfo) : Report :=
  info.maskPaths type (some extractor.hooks)

end Extractor

/-- The paths of one node, repetitions kept, with an enclosing field and fragments that are already
    being expanded. -/
def Env.collect (env : Env) (frame : Frame) (expanding : List Name) (node : RootNode) :
    Run (List String) :=
  (Walk.selections env frame .single node.selections).run expanding

end SelectionMask
