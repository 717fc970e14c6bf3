import QueryForest.Compile.Builder

/-!
# Registries of builders

A registry knows builders by variant, and for terms also by field.  The field
of a term comes first, then the variant of the node, then the variants that it
can be treated as, nearest first.
-/

namespace QueryForest

/-- Builders by variant and by field. -/
structure Registry (Artifact : Type) where
  variants : Table Variant (Builder Artifact) := {}
  fields : Table String (Builder Artifact) := {}

namespace Registry

variable {Artifact : Type}

def empty : Registry Artifact := {}

/-- Register the builder of a variant, in place of a former one. -/
def register (registry : Registry Artifact) (variant : Variant)
    (builder : Builder Artifact) : Registry Artifact :=
  { registry with variants := registry.variants.insert variant builder }

def registerField (registry : Registry Artifact) (field : String)
    (builder : Builder Artifact) : Registry Artifact :=
  { registry with fields := registry.fields.insert field builder }

/-- The builder of the field that the term of a node names. -/
def fieldBuilder? (registry : Registry Artifact) (kind : Kind) :
    Option (Builder Artifact) := do
  registry.fields.get? (← (← kind.term?).field)

def builder? (registry : Registry Artifact) (kind : Kind) :
    Option (Builder Artifact) :=
  match registry.fieldBuilder? kind with
  | some builder => some builder
  | none => (kind.variant :: kind.fallbacks).findSome? registry.variants.get?

def contains (registry : Registry Artifact) (variant : Variant) : Bool :=
  (registry.variants.get? variant).isSome

/-- The variants that have a builder, in the order of their registration. -/
def registered (registry : Registry Artifact) : List Variant :=
  registry.variants.entries.map Prod.fst

end Registry

end QueryForest
