import Toolpath.Proofs.ArcCircle
import Toolpath.Proofs.RotationGroup

/-!
# Symmetries of arcs

An arc belongs to its ends, its radius and its sense, and to no place or direction of the level
plane. This module moves a request and says what becomes of the points that are found.

A `LevelMotion` turns the level plane, or mirrors it, and shifts space. The frame of an arc goes
along with it (`frame_moved`): the middle as a point, the normal as a direction, and the two lengths
stay. A mirror image turns the other way, which is the whole of the handedness here. A frame depends
on the order of the ends only through the direction of the chord, so that the way back in the other
sense has the same frame, and the other sense alone has the opposite normal.

The law (`via_center_symmetric`): the halfway point and the centre both have the five symmetries, on
what is found and on what is refused. It is a law of exact arithmetic.
-/

namespace Toolpath

open Scalar

/-- The other sense. -/
def RotationSense.opposite : RotationSense → RotationSense
  | clockwise => counterClockwise
  | counterClockwise => clockwise

namespace GeometryError

variable {α : Type}

/-- The same error of a request that was moved: the points it shows are moved. -/
def moved (g : Point α → Point α) : GeometryError α → GeometryError α
  | .degenerate (.flatChord start target) => .degenerate (.flatChord (g start) (g target))
  | .degenerate (.nonFinite what p) => .degenerate (.nonFinite what (g p))
  | e => e

/-- The same error of a request for the way back. -/
def reversed : GeometryError α → GeometryError α
  | .degenerate (.flatChord start target) => .degenerate (.flatChord target start)
  | e => e

end GeometryError

namespace Arc

/-! ## Motions -/

/-- A turn about a vertical axis, or a mirror image in a vertical plane, with any shift. -/
structure LevelMotion where
  cos : ℝ
  sin : ℝ
  unit : cos ^ 2 + sin ^ 2 = 1
  mirrored : Bool
  shift : Point ℝ

namespace LevelMotion

variable (g : LevelMotion)

/-- Minus one for a mirror image. -/
noncomputable def hand : ℝ := if g.mirrored then -1 else 1

theorem hand_sq : g.hand ^ 2 = 1 := by
  unfold hand
  split <;> norm_num

/-- What becomes of a direction. -/
noncomputable def turn (v : Point ℝ) : Point ℝ :=
  ⟨g.cos * v.x - g.hand * (g.sin * v.y), g.sin * v.x + g.hand * (g.cos * v.y), v.z⟩

/-- What becomes of a point. -/
noncomputable def move (p : Point ℝ) : Point ℝ := g.turn p + g.shift

/-- What becomes of a sense. -/
def senseOf (sense : RotationSense) : RotationSense :=
  if g.mirrored then sense.opposite else sense

theorem turn_sub (p q : Point ℝ) : g.move q - g.move p = g.turn (q - p) := by
  simp only [move, turn, Point.add_real, Point.sub_real]
  ext <;> ring

/-- The shadow of a direction keeps its length. -/
theorem shadow_turn (v : Point ℝ) :
    (g.turn v).x ^ 2 + (g.turn v).y ^ 2 = v.x ^ 2 + v.y ^ 2 := by
  simp only [turn]
  linear_combination (v.x ^ 2 + g.hand ^ 2 * v.y ^ 2) * g.unit + v.y ^ 2 * g.hand_sq

theorem normXY_turn (v : Point ℝ) : (g.turn v).normXY = v.normXY := by
  rw [Point.normXY_real, Point.normXY_real, shadow_turn]

theorem norm_turn (v : Point ℝ) : (g.turn v).norm = v.norm := by
  rw [Point.norm_real, Point.norm_real, shadow_turn]
  rfl

/-- A mirror image changes sides. -/
theorem side_senseOf (sense : RotationSense) : side (g.senseOf sense) = g.hand * side sense := by
  unfold senseOf hand
  cases g.mirrored <;> cases sense <;> simp [side, RotationSense.opposite]

/-- A chord that is turned has its sideways direction turned, to the side that its sense is moved
to. -/
theorem sideways_turn (chord : Point ℝ) (sense : RotationSense) :
    sideways (g.turn chord) (g.senseOf sense) = g.turn (sideways chord sense) := by
  simp only [sideways_real, side_senseOf, turn, Point.mk.injEq, and_true]
  constructor
  · linear_combination -side sense * g.cos * chord.y * g.hand_sq
  · linear_combination -side sense * g.sin * chord.y * g.hand_sq

end LevelMotion

/-! ## Frames -/

/-- A frame that is moved. -/
noncomputable def Frame.moved (g : LevelMotion) (f : Frame ℝ) : Frame ℝ :=
  { f with midpoint := g.move f.midpoint, normal := g.turn f.normal }

theorem Frame.along_moved (g : LevelMotion) (f : Frame ℝ) (t : ℝ) :
    (f.moved g).along t = g.move (f.along t) := by
  simp only [along, moved, LevelMotion.move, LevelMotion.turn, Point.add_real, Point.mul_real]
  ext <;> ring

theorem spanned_moved (g : LevelMotion) (start target : Point ℝ) (radius : ℝ)
    (sense : RotationSense) : spanned (g.move start) (g.move target) radius (g.senseOf sense) =
      (spanned start target radius sense).moved g := by
  simp only [spanned, Frame.moved, LevelMotion.turn_sub, LevelMotion.normXY_turn,
    LevelMotion.norm_turn, LevelMotion.sideways_turn, Frame.mk.injEq, and_true]
  simp only [LevelMotion.move, LevelMotion.turn, Point.add_real, Point.div_real, two_real]
  constructor
  · ext <;> ring
  · ext <;> ring

/-- **The frame of an arc goes along with a motion**, and so does what is refused. -/
theorem frame_moved (g : LevelMotion) (start target : Point ℝ) (radius : ℝ)
    (sense : RotationSense) : frame (g.move start) (g.move target) radius (g.senseOf sense) =
      ((frame start target radius sense).map (Frame.moved g)).mapError (.moved g.move) := by
  simp only [frame_real, LevelMotion.turn_sub, LevelMotion.normXY_turn, LevelMotion.norm_turn,
    spanned_moved]
  split_ifs <;> rfl

/-- The chord of the way back is as long, and so is its shadow. -/
theorem lengths_reversed (start target : Point ℝ) :
    (start - target).normXY = (target - start).normXY ∧
      (start - target).norm = (target - start).norm := by
  simp only [Point.normXY_real, Point.norm_real, Point.sub_real]
  constructor <;> congr 1 <;> ring

theorem spanned_reversed (start target : Point ℝ) (radius : ℝ) (sense : RotationSense) :
    spanned target start radius sense.opposite = spanned start target radius sense := by
  obtain ⟨shadow, length⟩ := lengths_reversed start target
  have middle : target + start = start + target := by
    simp only [Point.add_real, add_comm]
  have turned : sideways (start - target) sense.opposite = sideways (target - start) sense := by
    cases sense <;> simp [sideways, RotationSense.opposite, Point.sub_real]
  simp only [spanned, shadow, length, middle, turned]

/-- The way back in the other sense has the same frame. -/
theorem frame_reversed (start target : Point ℝ) (radius : ℝ) (sense : RotationSense) :
    frame target start radius sense.opposite =
      (frame start target radius sense).mapError .reversed := by
  obtain ⟨shadow, length⟩ := lengths_reversed start target
  simp only [frame_real, shadow, length, spanned_reversed]
  split_ifs <;> rfl

/-- In the other sense the same way lies opposite. -/
theorem along_opposite (start target : Point ℝ) (radius t : ℝ) :
    (spanned start target radius .counterClockwise).along t =
      start + target - (spanned start target radius .clockwise).along t := by
  simp only [spanned, Frame.along, sideways_real, side, Point.add_real, Point.sub_real,
    Point.mul_real, Point.div_real, two_real]
  ext <;> ring

/-! ## Points that are found -/

/-- The mirror image of a point in the vertical plane that lies across the direction of an angle, so
far from the origin. -/
noncomputable def mirror (angle distance : ℝ) (p : Point ℝ) : Point ℝ :=
  let n : Point ℝ := ⟨Real.cos angle, Real.sin angle, 0⟩
  p - n * (2.0 * (n.dot p - distance))

/-- The symmetries of a way to find a point for an arc. -/
structure Symmetries
    (find : Point ℝ → Point ℝ → ℝ → RotationSense → Except (GeometryError ℝ) (Point ℝ)) :
    Prop where
  /-- The way back, turning the other way, has the same point. -/
  reversed (start target : Point ℝ) (radius : ℝ) (sense : RotationSense) :
    find target start radius sense.opposite = (find start target radius sense).mapError .reversed
  /-- The points of both senses are found together, opposite each other about the middle. -/
  opposite (start target : Point ℝ) (radius : ℝ) :
    find start target radius .counterClockwise =
      (find start target radius .clockwise).map fun p => start + target - p
  sum (start target p q : Point ℝ) (radius : ℝ)
    (clockwise : find start target radius .clockwise = .ok p)
    (counterClockwise : find start target radius .counterClockwise = .ok q) :
    p + q = start + target
  shifted (v start target : Point ℝ) (radius : ℝ) (sense : RotationSense) :
    find (start + v) (target + v) radius sense =
      ((find start target radius sense).map (· + v)).mapError (.moved (· + v))
  turned (angle : ℝ) (start target : Point ℝ) (radius : ℝ) (sense : RotationSense) :
    let turn := (Pose.rotZ angle).transform
    find (turn start) (turn target) radius sense =
      ((find start target radius sense).map turn).mapError (.moved turn)
  /-- A mirror image turns the other way. -/
  mirrored (angle distance : ℝ) (start target : Point ℝ) (radius : ℝ) (sense : RotationSense) :
    let image := mirror angle distance
    find (image start) (image target) radius sense.opposite =
      ((find start target radius sense).map image).mapError (.moved image)

namespace LevelMotion

/-- A shift alone. -/
noncomputable def ofShift (v : Point ℝ) : LevelMotion where
  cos := 1
  sin := 0
  unit := by norm_num
  mirrored := false
  shift := v

/-- A turn about the Z axis. -/
noncomputable def ofAngle (angle : ℝ) : LevelMotion where
  cos := Real.cos angle
  sin := Real.sin angle
  unit := Real.cos_sq_add_sin_sq angle
  mirrored := false
  shift := ⟨0, 0, 0⟩

/-- A mirror image: it turns a direction by twice the angle between it and the plane. -/
noncomputable def ofMirror (angle distance : ℝ) : LevelMotion where
  cos := 1 - 2.0 * Real.cos angle ^ 2
  sin := -(2.0 * Real.cos angle * Real.sin angle)
  unit := by
    rw [two_real]
    linear_combination 4 * Real.cos angle ^ 2 * Real.sin_sq_add_cos_sq angle
  mirrored := true
  shift := ⟨2.0 * distance * Real.cos angle, 2.0 * distance * Real.sin angle, 0⟩

theorem move_ofShift (v : Point ℝ) : (ofShift v).move = (· + v) := by
  funext p
  simp only [move, turn, ofShift, hand, Point.add_real]
  ext <;> simp

theorem move_ofAngle (angle : ℝ) : (ofAngle angle).move = (Pose.rotZ angle).transform := by
  funext p
  rw [Pose.rotZ_real]
  simp only [move, turn, ofAngle, hand, Pose.transform, Pose.ofParts, Matrix3.apply_real,
    Matrix3.aboutZ, Matrix3.aboutX, Matrix3.cycle, Point.zero, Point.add_real, zero_real]
  ext
  · simp
    ring
  · simp
  · simp

theorem move_ofMirror (angle distance : ℝ) :
    (ofMirror angle distance).move = mirror angle distance := by
  funext p
  simp only [move, turn, ofMirror, hand, mirror, Point.dot_real, Point.add_real, Point.sub_real,
    Point.mul_real, two_real]
  ext
  · simp
    ring
  · simp
    linear_combination 2 * p.y * Real.sin_sq_add_cos_sq angle
  · simp

end LevelMotion

/-- What is read off the frame along its normal, at an offset that the lengths of the frame and the
radius determine, has the symmetries of frames. -/
theorem symmetric_of_along
    {find : Point ℝ → Point ℝ → ℝ → RotationSense → Except (GeometryError ℝ) (Point ℝ)}
    (offset : ℝ → Frame ℝ → ℝ)
    (found : ∀ start target radius sense, find start target radius sense =
      (frame start target radius sense).map fun f => f.along (offset radius f))
    (lengths : ∀ radius (f f' : Frame ℝ), f.halfChord = f'.halfChord → f.apothem = f'.apothem →
      offset radius f = offset radius f') : Symmetries find := by
  have moved (g : LevelMotion) (start target : Point ℝ) (radius : ℝ) (sense : RotationSense) :
      find (g.move start) (g.move target) radius (g.senseOf sense) =
        ((find start target radius sense).map g.move).mapError (.moved g.move) := by
    rw [found, found, frame_moved]
    cases frame start target radius sense with
    | error e => rfl
    | ok f =>
      have same : offset radius (f.moved g) = offset radius f := lengths _ _ _ rfl rfl
      simp only [Except.map, Except.mapError, f.along_moved, same]
  have opposite (start target : Point ℝ) (radius : ℝ) :
      find start target radius .counterClockwise =
        (find start target radius .clockwise).map fun p => start + target - p := by
    have same : offset radius (spanned start target radius .counterClockwise) =
      offset radius (spanned start target radius .clockwise) := lengths _ _ _ rfl rfl
    rw [found, found, frame_real, frame_real]
    split_ifs
    · simp only [Except.map, same, along_opposite]
    · rfl
    · rfl
  refine ⟨?_, opposite, ?_, ?_, ?_, ?_⟩
  · intro start target radius sense
    rw [found, found, frame_reversed]
    cases frame start target radius sense <;> rfl
  · intro start target p q radius clockwise counterClockwise
    rw [opposite, clockwise] at counterClockwise
    cases counterClockwise
    simp only [Point.add_real, Point.sub_real, add_sub_cancel]
  · intro v start target radius sense
    have shifted := moved (.ofShift v) start target radius sense
    rw [LevelMotion.move_ofShift] at shifted
    exact shifted
  · intro angle start target radius sense
    have turned := moved (.ofAngle angle) start target radius sense
    rw [LevelMotion.move_ofAngle] at turned
    exact turned
  · intro angle distance start target radius sense
    have mirrored := moved (.ofMirror angle distance) start target radius sense
    rw [LevelMotion.move_ofMirror] at mirrored
    exact mirrored

/-! ## The law -/

/-- A point read off the frame is always finite. -/
theorem read_real (what : ArcPoint) (read : Frame ℝ → Point ℝ) (start target : Point ℝ)
    (radius : ℝ) (sense : RotationSense) :
    (frame start target radius sense >>= fun f => finite what (read f)) =
      (frame start target radius sense).map read := by
  have finite_real (p : Point ℝ) : finite what p = .ok p := if_pos p.isFinite_real
  simp only [finite_real]
  cases frame start target radius sense <;> rfl

/-- **Arcs keep their symmetries.** The halfway point and the centre are the same for the way back
in the other sense; those of the two senses add up to the two ends; and they go along with the ends
when these are shifted, turned about the Z axis, or mirrored in a vertical plane, which changes the
sense. What is refused is refused alike. -/
theorem via_center_symmetric :
    Symmetries (via : Point ℝ → Point ℝ → ℝ → RotationSense → _) ∧
      Symmetries (center : Point ℝ → Point ℝ → ℝ → RotationSense → _) := by
  constructor
  · refine symmetric_of_along (fun radius f => f.sagitta radius)
      (fun _ _ radius => read_real .via (fun f => f.along (f.sagitta radius)) _ _ radius) ?_
    intro radius f f' halfChord apothem
    simp only [Frame.sagitta, halfChord, apothem]
  · refine symmetric_of_along
      (fun radius f => (if le 0.0 radius then -1.0 else 1.0) * f.apothem)
      (fun _ _ radius => read_real .center
        (fun f => f.along ((if le 0.0 radius then -1.0 else 1.0) * f.apothem)) _ _ radius) ?_
    intro radius f f' _ apothem
    simp only [apothem]

end Arc

end Toolpath
