import Toolpath.Geometry.Point

/-!
# Matrices

The 3×3 matrices that turn points, and grids of any shape as they come from outside. Entries carry
their row and column in their names; a product's entry is the sum of its three terms from left to
right.
-/

namespace Toolpath

/-- A 3×3 matrix. -/
@[ext]
structure Matrix3 (α : Type) where
  m11 : α
  m12 : α
  m13 : α
  m21 : α
  m22 : α
  m23 : α
  m31 : α
  m32 : α
  m33 : α
deriving Repr, DecidableEq, Inhabited

namespace Matrix3

open Scalar

variable {α : Type} [Scalar α]

/-- The matrix that turns nothing. -/
def identity : Matrix3 α where
  m11 := 1.0
  m12 := 0.0
  m13 := 0.0
  m21 := 0.0
  m22 := 1.0
  m23 := 0.0
  m31 := 0.0
  m32 := 0.0
  m33 := 1.0

/-- Rows and columns exchanged. -/
def transpose (a : Matrix3 α) : Matrix3 α where
  m11 := a.m11
  m12 := a.m21
  m13 := a.m31
  m21 := a.m12
  m22 := a.m22
  m23 := a.m32
  m31 := a.m13
  m32 := a.m23
  m33 := a.m33

/-- The sum of three products, from left to right: one entry of a matrix product. -/
def dot3 (a₁ a₂ a₃ b₁ b₂ b₃ : α) : α := a₁ * b₁ + a₂ * b₂ + a₃ * b₃

/-- The matrix product: the right factor turns first. -/
def mul (a b : Matrix3 α) : Matrix3 α where
  m11 := dot3 a.m11 a.m12 a.m13 b.m11 b.m21 b.m31
  m12 := dot3 a.m11 a.m12 a.m13 b.m12 b.m22 b.m32
  m13 := dot3 a.m11 a.m12 a.m13 b.m13 b.m23 b.m33
  m21 := dot3 a.m21 a.m22 a.m23 b.m11 b.m21 b.m31
  m22 := dot3 a.m21 a.m22 a.m23 b.m12 b.m22 b.m32
  m23 := dot3 a.m21 a.m22 a.m23 b.m13 b.m23 b.m33
  m31 := dot3 a.m31 a.m32 a.m33 b.m11 b.m21 b.m31
  m32 := dot3 a.m31 a.m32 a.m33 b.m12 b.m22 b.m32
  m33 := dot3 a.m31 a.m32 a.m33 b.m13 b.m23 b.m33

/-- The difference, entry by entry. -/
def sub (a b : Matrix3 α) : Matrix3 α where
  m11 := a.m11 - b.m11
  m12 := a.m12 - b.m12
  m13 := a.m13 - b.m13
  m21 := a.m21 - b.m21
  m22 := a.m22 - b.m22
  m23 := a.m23 - b.m23
  m31 := a.m31 - b.m31
  m32 := a.m32 - b.m32
  m33 := a.m33 - b.m33

instance : Mul (Matrix3 α) := ⟨mul⟩
instance : Sub (Matrix3 α) := ⟨sub⟩

/-- The point that a matrix turns a point into. -/
def apply (a : Matrix3 α) (p : Point α) : Point α where
  x := dot3 a.m11 a.m12 a.m13 p.x p.y p.z
  y := dot3 a.m21 a.m22 a.m23 p.x p.y p.z
  z := dot3 a.m31 a.m32 a.m33 p.x p.y p.z

/-- The sum of the diagonal. -/
def trace (a : Matrix3 α) : α := a.m11 + a.m22 + a.m33

/-- The determinant, expanded along the first row. -/
def det (a : Matrix3 α) : α :=
  a.m11 * (a.m22 * a.m33 - a.m32 * a.m23) - a.m12 * (a.m21 * a.m33 - a.m31 * a.m23)
    + a.m13 * (a.m21 * a.m32 - a.m31 * a.m22)

/-- The entries row by row. -/
def toList (a : Matrix3 α) : List α :=
  [a.m11, a.m12, a.m13, a.m21, a.m22, a.m23, a.m31, a.m32, a.m33]

/-- The largest absolute value of an entry, the entries taken column by column. -/
def maxAbs (a : Matrix3 α) : α := largestAbs a.transpose.toList

/-- The columns of a matrix: where it turns the three axes. -/
def column1 (a : Matrix3 α) : Point α := ⟨a.m11, a.m21, a.m31⟩

@[inherit_doc column1]
def column2 (a : Matrix3 α) : Point α := ⟨a.m12, a.m22, a.m32⟩

@[inherit_doc column1]
def column3 (a : Matrix3 α) : Point α := ⟨a.m13, a.m23, a.m33⟩

end Matrix3

/-! ## Grids of any shape -/

/-- A list cut into pieces of one length; what is left over at the end is dropped. -/
def pieces {β : Type} (width : Nat) : (count : Nat) → List β → List (List β)
  | 0, _ => []
  | count + 1, xs => xs.take width :: pieces width count (xs.drop width)

/-- A grid of numbers, with its shape beside it because an empty grid has one too. -/
structure Grid (α : Type) where
  rows : Nat
  columns : Nat
  lines : List (List α)
deriving Repr, DecidableEq

/-- The grid whose entries, read row by row, are the given ones. -/
def Grid.ofRows {α : Type} (rows columns : Nat) (entries : List α) : Grid α where
  rows := rows
  columns := columns
  lines := pieces columns rows entries

end Toolpath
