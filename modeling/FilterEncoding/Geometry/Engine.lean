import FilterEncoding.Distance
import FilterEncoding.Geometry.Rectangle
import FilterEncoding.Geometry.WellKnownText

/-!
# Geometry engines

Projection and buffering belong to the deployment and are supplied as a record of functions.  An
engine answers `none` where it cannot transform; the input is then used as it is.
-/

namespace FilterEncoding.Geometry

/-- What a deployment can do with shapes.  Reference systems are given as they are written. -/
structure Engine where
  reprojectShape : Shape → String → String → Option Shape
  reprojectRectangle : Rectangle → String → String → Option Rectangle
  buffer : Shape → Float → Option Shape := fun _ _ => none
  inchesPerUnit : DistanceUnit → Float := DistanceUnit.inchesPerUnit
  wkt : Shape → String := Shape.wkt

namespace Engine

/-- The engine of a deployment without a projection library. -/
def none : Engine where
  reprojectShape := fun _ _ _ => .none
  reprojectRectangle := fun _ _ _ => .none

/-- Apply a transformation between two reference systems.  A value stays as it is when one of them
is not known, when they are equal up to letter case, or when there is no transformation. -/
def transform {α : Type} (f : α → String → String → Option α) (a : α)
    (source target : Option String) : α :=
  match source, target with
  | some source, some target =>
      if Text.same source target then a else (f a source target).getD a
  | _, _ => a

/-- A shape in another reference system. -/
def project (e : Engine) (s : Shape) (source target : Option String) : Shape :=
  transform e.reprojectShape s source target

/-- A rectangle in another reference system. -/
def projectRectangle (e : Engine) (r : Rectangle) (source target : Option String) : Rectangle :=
  transform e.reprojectRectangle r source target

@[simp]
theorem transform_self {α : Type} (f : α → String → String → Option α) (a : α)
    (crs : Option String) : transform f a crs crs = a := by
  cases crs <;> simp [transform]

end Engine

end FilterEncoding.Geometry
