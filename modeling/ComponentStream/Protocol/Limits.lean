import ComponentStream.Shape.Lenient

/-!
# Resource limits

The message source is a probabilistic generator, so what it may build is bounded: the number of components, the
depth of their nesting, the size of their properties and, if the host wants it, their types.  No bound is zero.
-/

namespace ComponentStream.Protocol

open Json (Value)
open Shape (Check)

/-- The four limits, by name. -/
inductive LimitKind where
  | maxComponents | maxDepth | maxPropsSize | allowedTypes
  deriving DecidableEq, Repr

def LimitKind.name : LimitKind → String
  | .maxComponents => "max_components"
  | .maxDepth => "max_depth"
  | .maxPropsSize => "max_props_size"
  | .allowedTypes => "allowed_component_types"

/-- Bounds on a component tree. -/
structure Limits where
  maxComponents : Nat
  maxDepth : Nat
  maxPropsSize : Nat
  /-- The types that may enter the tree; none listed means all. -/
  allowedTypes : List String
  deriving DecidableEq, Repr

/-- A hundred components, ten levels, ten thousand bytes of properties, every type. -/
def Limits.standard : Limits := ⟨100, 10, 10000, []⟩

def Limits.allows (l : Limits) (type : String) : Bool :=
  l.allowedTypes.isEmpty || l.allowedTypes.contains type

/-- A field with a value to use when it is absent. -/
def fieldOr {α : Type} (fields : Assoc Value) (name : String) (read : Value → Check α) (standard : α) :
    Check α :=
  match Assoc.get? name fields with
  | some v => (read v).under (.key name)
  | none => .ok standard

def distinct (names : List String) : List String :=
  names.foldl (fun seen name => if seen.contains name then seen else seen ++ [name]) []

/-- The fault of every field that is not among the declared ones. -/
def extraFaults (declared : List String) (fields : Assoc Value) : Check Unit :=
  match fields.filter fun f => !declared.contains f.1 with
  | [] => .ok ()
  | extra => .error (extra.map fun f => ⟨[.key f.1], .extra⟩)

/-- The limits that an object describes; absent ones are the standard ones, unknown members are faults. -/
def Limits.check (v : Value) : Check Limits :=
  (Shape.members (.notRecord "ResourceLimits") v).andThen fun fields =>
    ((fieldOr fields "max_components" Shape.Lenient.positiveInteger Limits.standard.maxComponents).both
      ((fieldOr fields "max_depth" Shape.Lenient.positiveInteger Limits.standard.maxDepth).both
        ((fieldOr fields "max_props_size" Shape.Lenient.positiveInteger Limits.standard.maxPropsSize).both
          ((fieldOr fields "allowed_component_types" (Shape.Lenient.strings .notSet) []).both
            (extraFaults ["max_components", "max_depth", "max_props_size", "allowed_component_types"]
              fields))))).map
    fun (components, depth, size, types, _) => ⟨components, depth, size, distinct types⟩

end ComponentStream.Protocol
