import Toolpath.Geometry.Point

/-!
# What can be wrong with a shape

The causes for which the geometry refuses: a matrix that is no pose, and an arc that cannot be
drawn. A cause holds the numbers that show it, and the wording is one function of the cause.

`other` cases hold a reason in words, for callers with checks of their own.
-/

namespace Toolpath

/-- Why a 4×4 matrix is no pose. -/
inductive PoseDefect (α : Type) where
  | nonFinite
  | bottomRow (x y z w : α)
  | notOrthonormal (deviation : α)
  | reflection (det : α)
  | other (reason : String)
deriving Repr, DecidableEq

/-- Which point of an arc was to be found. -/
inductive ArcPoint where
  | via
  | center
deriving Repr, DecidableEq

/-- Why no arc has a defined normal, or no finite point. -/
inductive ArcDefect (α : Type) where
  | nonFiniteEnds
  | flatChord (start target : Point α)
  | nonFinite (what : ArcPoint) (result : Point α)
  | other (reason : String)
deriving Repr, DecidableEq

/-- Why a geometric request is refused. -/
inductive GeometryError (α : Type) where
  /-- The matrix has another shape than 4×4. -/
  | invalidPose (rows columns : Nat)
  | malformedPose (defect : PoseDefect α)
  /-- The radius does not reach over half the chord, or is not finite. -/
  | invalidArcRadius (radius halfChord : α)
  | degenerate (defect : ArcDefect α)
deriving Repr, DecidableEq

namespace GeometryError

variable {α : Type}

/-- The request was for a pose. -/
def isPoseError : GeometryError α → Bool
  | invalidPose .. | malformedPose _ => true
  | invalidArcRadius .. | degenerate _ => false

/-- The request was for an arc. -/
def isArcError : GeometryError α → Bool
  | invalidArcRadius .. | degenerate _ => true
  | invalidPose .. | malformedPose _ => false

end GeometryError

/-! ## Wording -/

open Decimal

/-- The wording of a defect. A refused last row is shown entry by entry, each in full. -/
def PoseDefect.message : PoseDefect Float → String
  | nonFinite => "matrix contains non-finite entries"
  | bottomRow x y z w =>
    "bottom row must be [0, 0, 0, 1], got [" ++ ", ".intercalate ([x, y, z, w].map tagged) ++ "]"
  | notOrthonormal deviation =>
    "rotation block is not orthonormal (max |RᵀR - I| = " ++ scientific 3 deviation ++ ")"
  | reflection det => "rotation block is a reflection (det = " ++ fixed 6 det ++ ")"
  | other reason => reason

/-- The name of an arc's point. -/
def ArcPoint.name : ArcPoint → String
  | via => "secondary point"
  | center => "center"

@[inherit_doc PoseDefect.message]
def ArcDefect.message : ArcDefect Float → String
  | nonFiniteEnds => "arc endpoints must be finite"
  | flatChord start target =>
    "chord from " ++ start.text ++ " to " ++ target.text
      ++ " has no length in the XY plane; arc normal is undefined"
  | nonFinite what result => "arc " ++ what.name ++ " is not finite: " ++ result.text
  | other reason => reason

/-- The wording of a geometric error. -/
def GeometryError.message : GeometryError Float → String
  | invalidPose rows columns =>
    "Invalid pose: expected a 4x4 homogeneous matrix, got " ++ natural rows ++ "x"
      ++ natural columns
  | malformedPose defect => "Malformed pose: " ++ defect.message
  | invalidArcRadius radius halfChord =>
    "Invalid arc radius " ++ fixed 6 radius ++ ": must be at least half the chord length ("
      ++ fixed 6 halfChord ++ ")"
  | degenerate defect => "Degenerate geometry: " ++ defect.message

end Toolpath
