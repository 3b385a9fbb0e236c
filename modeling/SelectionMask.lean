import SelectionMask.Hooks.Rules
import SelectionMask.OrderedSet.History
import SelectionMask.Session
import SelectionMask.Value.Rule
import SelectionMask.Proofs.Walk.Comparison
import SelectionMask.Proofs.Walk.Depth
import SelectionMask.Proofs.Walk.Inlining
import SelectionMask.Proofs.Document.Chains
import SelectionMask.Proofs.OrderedSet.FirstOccurrence
import SelectionMask.Proofs.OrderedSet.History
import SelectionMask.Proofs.Walk.Returns
import SelectionMask.Proofs.Walk.DefaultWalk
import SelectionMask.Proofs.Schema.Fields
import SelectionMask.Proofs.Document.Offences
import SelectionMask.Proofs.Walk.Steps
import SelectionMask.Proofs.Walk.Roots
import SelectionMask.Proofs.Walk.FirstOffence
import SelectionMask.Proofs.Document.MetadataPaths
import SelectionMask.Proofs.Walk.MetadataWalk
import SelectionMask.Proofs.Document.Renaming
import SelectionMask.Proofs.Walk.RenamedWalk
import SelectionMask.Proofs.Walk.Enclosing
import SelectionMask.Proofs.Walk.ChildMask
import SelectionMask.Proofs.Document.Nesting
import SelectionMask.Proofs.Walk.Visits
import SelectionMask.Proofs.Walk.Nesting
import SelectionMask.Proofs.Schema.Trails
import SelectionMask.Proofs.Walk.Rebuilding
import SelectionMask.Proofs.Walk.PrefixFree
import SelectionMask.Proofs.Document.Rearrangement
import SelectionMask.Proofs.Hooks.PathSets
import SelectionMask.Proofs.Walk.FoundPaths
import SelectionMask.Proofs.Walk.RearrangedWalk
import SelectionMask.Proofs.Document.Hidden
import SelectionMask.Proofs.Walk.Lookups
import SelectionMask.Proofs.Walk.Unread
import SelectionMask.Proofs.Walk.Shadows
import SelectionMask.Proofs.Walk.Mirrors
import SelectionMask.Proofs.Walk.Skipping
import SelectionMask.Proofs.Walk.Extension
import SelectionMask.Proofs.Document.Validity
import SelectionMask.Proofs.Walk.ValidWalk
import SelectionMask.Proofs.Session.History
import SelectionMask.Proofs.Walk.Merging
import SelectionMask.Proofs.Walk.Blame
import SelectionMask.Proofs.Walk.Misuse
import SelectionMask.Proofs.Walk.MemberMask
import SelectionMask.Proofs.Walk.Sources
import SelectionMask.Proofs.Walk.Narrowings
import SelectionMask.Proofs.Document.Unaliased
import SelectionMask.Proofs.Hooks.Blind
import SelectionMask.Proofs.Walk.Unadorned
import SelectionMask.Proofs.Document.Flattening
import SelectionMask.Proofs.Walk.Flattening
import SelectionMask.Proofs.Hooks.Supplements
import SelectionMask.Proofs.Walk.ExtraPaths
import SelectionMask.Proofs.Document.Typename
import SelectionMask.Proofs.Walk.Typename
import SelectionMask.Proofs.Walk.FieldCalls
import SelectionMask.Proofs.Text.SnakeCase
import SelectionMask.Proofs.Text.Pattern
import SelectionMask.Proofs.Text.WordBreaks
import SelectionMask.Proofs.Walk.MemberSegments
import SelectionMask.Proofs.Walk.Expansion
