import Toolpath.Console.Diagnosis
import Toolpath.Proofs.CheckedPoses

/-!
# One matrix in two forms

A matrix is given as the list of its entries row by row, with a shape beside it, or as a grid. From
the list to the grid its rows are cut apart, and from either the blocks of a pose are picked. This
module says that nothing is lost or exchanged on these ways: the entry in a row and a column of the
grid is the one at their place in the list (`Grid.cell?_ofRows`), and sixteen entries are the rows
of one pose (`Pose.exists_toRows_eq`).

The law (`forms_agree`): both forms are judged alike, the shape before any entry, and so are the
inverse and the angles of what a grid shows. The rows of a pose that passes the check are read back
as that pose. All of it holds of any scalars, since no entry is computed with on the way.
-/

namespace Toolpath

/-! ## Grids by their entries -/

namespace Grid

variable {α : Type}

/-- The entry in a row and a column, both counted from zero. -/
def cell? (g : Grid α) (row column : Nat) : Option α :=
  g.lines[row]?.bind fun cells => cells[column]?

end Grid

/-- The piece in one place starts after those before it. -/
theorem getElem?_pieces {β : Type} {width count row : Nat} (inside : row < count) (xs : List β) :
    (pieces width count xs)[row]? = some ((xs.drop (row * width)).take width) := by
  induction count generalizing row xs with
  | zero => cases inside
  | succ count ih =>
    cases row with
    | zero => simp [pieces]
    | succ row =>
      have after := ih (Nat.lt_of_succ_lt_succ inside) (xs.drop width)
      rw [List.drop_drop] at after
      simp only [pieces, List.getElem?_cons_succ, after, Nat.succ_mul, Nat.add_comm]

/-- A grid has its entries where the list has them row by row. -/
theorem Grid.cell?_ofRows {α : Type} {rows columns row column : Nat} (entries : List α)
    (inRows : row < rows) (inColumns : column < columns) :
    (ofRows rows columns entries).cell? row column = entries[row * columns + column]? := by
  unfold cell? ofRows
  simp only [getElem?_pieces inRows, Option.bind_some, List.getElem?_take_of_lt inColumns,
    List.getElem?_drop]

namespace Pose

variable {α : Type}

/-- Sixteen entries are the rows of a pose. -/
theorem exists_toRows_eq {entries : List α} (length : entries.length = 16) :
    ∃ a : Pose α, a.toRows = entries := by
  match entries, length with
  | [a, b, c, x, d, e, f, y, g, h, i, z, p, q, r, w], _ =>
    exact ⟨⟨⟨a, b, c, d, e, f, g, h, i⟩, ⟨x, y, z⟩, ⟨p, q, r, w⟩⟩, rfl⟩

/-! ## How a form is judged -/

variable [Scalar α]

theorem ofRows?_of_shape {rows columns : Nat} (other : ¬(rows = 4 ∧ columns = 4))
    (entries : List α) : ofRows? rows columns entries = .error (.invalidPose rows columns) := by
  unfold ofRows?
  split
  · exact absurd ⟨rfl, rfl⟩ other
  · rfl

theorem ofGrid?_of_shape {g : Grid α} (other : ¬(g.rows = 4 ∧ g.columns = 4)) :
    ofGrid? g = .error (.invalidPose g.rows g.columns) := by
  unfold ofGrid?
  split
  next rows columns _ => exact absurd ⟨rows, columns⟩ other
  next => rfl

/-- What passes the check is kept as it is. -/
theorem eq_of_checked {a b : Pose α} (passed : checked a = .ok b) : a = b := by
  unfold checked at passed
  dsimp only at passed
  split_ifs at passed
  cases passed
  rfl

/-- **A grid built from a list is judged as the list is.** -/
theorem ofGrid?_ofRows {rows columns : Nat} {entries : List α}
    (length : entries.length = rows * columns) :
    ofGrid? (Grid.ofRows rows columns entries) = ofRows? rows columns entries := by
  by_cases shape : rows = 4 ∧ columns = 4
  · obtain ⟨rfl, rfl⟩ := shape
    obtain ⟨a, rfl⟩ := exists_toRows_eq length
    rw [ofGrid?_toRows, ofRows?_toRows]
  · rw [ofRows?_of_shape shape]
    exact ofGrid?_of_shape shape

/-- **All forms of a matrix agree.** A grid has each entry of the list that it is built from in its
row and column, and is judged as the list is. Its inverse and its angles are those of the one pose
that either shows, and fail with the one error that either gives. A shape other than four by four is
refused as what it is, whatever the entries are. Sixteen entries are the rows of a pose, and are
judged by the check of poses. A pose that passes the check is read back from its rows. -/
theorem forms_agree :
    (∀ (rows columns : Nat) (entries : List α), entries.length = rows * columns →
      let grid := Grid.ofRows rows columns entries
      let outcome := ofRows? rows columns entries
      (∀ row column, row < rows → column < columns →
        grid.cell? row column = entries[row * columns + column]?) ∧
      ofGrid? grid = outcome ∧
      invertGrid grid = outcome.map inverse ∧
      eulerOfGrid grid = outcome.map toEuler ∧
      (¬(rows = 4 ∧ columns = 4) → outcome = .error (.invalidPose rows columns)) ∧
      (rows = 4 ∧ columns = 4 → ∃ a : Pose α, a.toRows = entries ∧ outcome = checked a)) ∧
    ∀ a b : Pose α, checked a = .ok b → ofRows? 4 4 a.toRows = .ok a := by
  constructor
  · intro rows columns entries length grid outcome
    have judged : ofGrid? grid = outcome := ofGrid?_ofRows length
    refine ⟨fun _ _ => Grid.cell?_ofRows entries, judged, ?_, ?_, ?_, ?_⟩
    · unfold invertGrid
      rw [judged]
    · unfold eulerOfGrid
      rw [judged]
    · intro other
      exact ofRows?_of_shape other entries
    · rintro ⟨rfl, rfl⟩
      obtain ⟨a, rfl⟩ := exists_toRows_eq length
      exact ⟨a, rfl, ofRows?_toRows a⟩
  · intro a b passed
    obtain rfl := eq_of_checked passed
    exact (ofRows?_toRows a).trans passed

/-- A quarter turn about the third axis, whose block is as good a rotation when its rows and columns
are exchanged, and the same entries in two rows of eight. -/
theorem forms_agree_quarter_turn :
    let a : Pose Float := ⟨⟨0.0, -1.0, 0.0, 1.0, 0.0, 0.0, 0.0, 0.0, 1.0⟩, ⟨10.0, 20.0, 30.0⟩,
      LastRow.fixed⟩
    a.toRows.length = 4 * 4 ∧ a.toRows.length = 2 * 8 ∧ checked a = .ok a ∧
      ofRows? 4 4 a.toRows = .ok a ∧
      invertGrid (Grid.ofRows 4 4 a.toRows) = .ok a.inverse ∧
      ofGrid? (Grid.ofRows 2 8 a.toRows) = .error (.invalidPose 2 8) := by
  intro a
  have passed : checked a = .ok a := by decide +kernel
  have read : ofRows? 4 4 a.toRows = .ok a := forms_agree.2 a a passed
  obtain ⟨_, _, inverted, _⟩ := forms_agree.1 4 4 a.toRows rfl
  obtain ⟨_, judged, _, _, refused, _⟩ := forms_agree.1 2 8 a.toRows rfl
  rw [read] at inverted
  exact ⟨rfl, rfl, passed, read, inverted, judged.trans (refused (by decide))⟩

end Pose

/-! ## On request -/

namespace Console.Diagnosis

/-- What is answered to entries that fill their rows is decided by the list alone. The inverse of a
matrix whose angles are found is found as well. -/
theorem poseOf_of_rows {rows columns : Nat} {entries : List Float} (some : rows ≠ 0)
    (length : entries.length = rows * columns) :
    poseOf rows entries =
      ((Pose.ofRows? rows columns entries).mapError .matrixRefused).map fun pose =>
        ["📍 位置 + 欧拉角: " ++ pose.toEuler.text,
          "🔄 逆位姿: " ++ pose.inverse.text,
          "🧭 四元数: " ++ (Pose.ofEuler pose.toEuler).toQuaternion.text] := by
  have width : entries.length / rows = columns := by
    rw [length]
    exact Nat.mul_div_cancel_left columns (Nat.pos_of_ne_zero some)
  have filled : ¬(rows = 0 ∨ entries.length % rows ≠ 0) := by
    simp [some, length]
  have cut : grid rows entries = .ok (Grid.ofRows rows columns entries) := by
    unfold grid
    rw [if_neg filled, width]
  unfold poseOf Pose.eulerOfGrid Pose.invertGrid
  rw [cut]
  show ((Except.map _ (Pose.ofGrid? _)).mapError _ >>= _) = _
  simp only [Pose.ofGrid?_ofRows length]
  cases Pose.ofRows? rows columns entries with
  | error e => rfl
  | ok pose => rfl

end Console.Diagnosis

end Toolpath
