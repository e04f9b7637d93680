import Toolpath.Proofs.ArcRequests
import Toolpath.Proofs.LineErrors
import Toolpath.Proofs.SimulatedRun

/-!
# The same line once more

A line that has moved a simulated arm finds its own work done when it comes again: its words set
what is set already, and the arm stands where they say. What is left of it is a motion from a
position to that position. A straight one is carried out as the first time. An arc has no chord,
and is refused before the arm hears of it.

`InEffect` is what a line leaves behind that moved the arm (`inEffect_of_moved`), and all that its
next run depends on. A straight line keeps it and adds a record, and a refused arc changes nothing,
so either goes on for as often as the line comes. The law (`interpretLine_repeated`) says both, of
the next time and of any number of times.

A line that goes home is left out, since it leaves the axes elsewhere than the arm.
-/

namespace Toolpath

open Scalar

/-! ## Words that say what is so already -/

/-- The last word of a kind says again what it said. -/
theorem Word.getD_getD_last? {β : Type} (reading : Word → Option β) (words : List Word) (old : β) :
    (last? reading words).getD ((last? reading words).getD old) =
      (last? reading words).getD old := by
  cases last? reading words with
  | none => rfl
  | some b => rfl

/-- Words name the same values a second time. -/
theorem AxisState.named_named (s : AxisState Float) (words : List Word) :
    (s.named words).named words = s.named words := by
  unfold named
  simp only [Word.getD_getD_last?]

/-- A line that does not go home keeps what it made of the values. -/
theorem Kept.performed_performed (k : Kept) {line : Line} (stays : line.homes = false) :
    (k.performed line).performed line = k.performed line := by
  unfold performed
  simp only [stays, Bool.false_eq_true, if_false, AxisState.named_named, Word.getD_getD_last?]

/-! ## Motions that lead nowhere -/

namespace Arc

/-- No halfway point is found between ends of which one is not finite. -/
theorem finiteEnds_of_via {start target p : Point Float} {radius : Float} {sense : RotationSense}
    (found : via start target radius sense = .ok p) : FiniteEnds start target := by
  by_contra infinite
  have refused := (judgeable_float start target radius).frame_of_refused (.ends infinite) sense
  unfold via at found
  rw [refused] at found
  cases found

/-- There is no arc from a point to itself, whatever the radius and the sense. -/
theorem via_self {p : Point Float} (finite : p.isFinite = true) (radius : Float)
    (sense : RotationSense) :
    via p p radius sense = .error (.degenerate (.flatChord p p)) := by
  obtain ⟨x, y, z⟩ := p.isFinite_iff_coordinates.mp finite
  have chord : p - p = ⟨0.0, 0.0, 0.0⟩ :=
    Point.ext (Decimal.sub_self_float x) (Decimal.sub_self_float y) (Decimal.sub_self_float z)
  have short : lt (p - p).shadow.norm Tolerance.degenerateChord = true := by
    rw [chord]
    decide +kernel
  have refused := (judgeable_float p p radius).frame_of_refused (.chord ⟨finite, finite⟩ short) sense
  unfold via
  rw [refused]
  rfl

end Arc

namespace MotionMode

variable {mode : MotionMode} {current : Pose Float} {axes : AxisState Float}
  {command : MotionCommand Float}

/-- A straight motion planned from its own target is the same motion. -/
theorem plan_target_of_straight (straight : mode.isArc = false)
    (planned : mode.plan current axes = .ok command) :
    mode.plan command.target axes = .ok command := by
  cases mode with
  | rapid | linear =>
    cases planned
    rfl
  | clockwiseArc | counterClockwiseArc => cases straight

/-- An arc planned from its own target has no chord. -/
theorem plan_target_of_arc (arc : mode.isArc = true)
    (planned : mode.plan current axes = .ok command) :
    mode.plan command.target axes = .error (.degenerate (.flatChord axes.target axes.target)) := by
  cases mode with
  | rapid | linear => cases arc
  | clockwiseArc | counterClockwiseArc =>
    obtain ⟨p, found, rfl⟩ := planArc_eq_ok.mp planned
    have ends := Arc.finiteEnds_of_via found
    show (Arc.via axes.target axes.target axes.radius _ >>= _) = _
    rw [Arc.via_self ends.2]
    rfl

end MotionMode

namespace Interpreter

/-! ## What a line leaves behind -/

/-- The interpreter with more records of its arm, and nothing else changed. -/
def recorded (i : Interpreter SimulatedArm) (gained : List ActuationRecord) :
    Interpreter SimulatedArm :=
  { i with arm := { i.arm with records := i.arm.records ++ gained } }

theorem recorded_recorded (i : Interpreter SimulatedArm) (gained more : List ActuationRecord) :
    (i.recorded gained).recorded more = i.recorded (gained ++ more) := by
  have whole : i.arm.records ++ gained ++ more = i.arm.records ++ (gained ++ more) :=
    Array.ext' (by simp only [Array.toList_appendList, List.append_assoc])
  unfold recorded
  rw [← whole]

/-- A line has set its values, and has moved the arm to where it stands by a command that the arm
would carry out again. -/
structure InEffect (i : Interpreter SimulatedArm) (source : String) (line : Line)
    (mode : MotionMode) (command : MotionCommand Float) : Prop where
  read : Line.read i.config.strict source = .ok line
  moving : Word.last? Word.mode? line.words = some mode
  stays : line.homes = false
  kept : i.kept.performed line = i.kept
  planned : ∃ earlier, mode.plan earlier i.axes = .ok command
  there : i.arm.pose = command.target
  unarmed : i.arm.fault = none
  near : SimulatedArm.refusal? i.arm.reachLimit command = none

variable {i : Interpreter SimulatedArm} {source : String} {line : Line} {mode : MotionMode}
  {command : MotionCommand Float}

theorem interpretLine_kept_of_read (accepted : Line.read i.config.strict source = .ok line) :
    (i.interpretLine source).2.kept = i.kept.performed line := by
  rw [interpretLine_of_read i accepted]
  exact perform_kept i line

/-- **A line that moved the arm is in effect**, and the arm has one record more. -/
theorem inEffect_of_moved {after : Interpreter SimulatedArm} {skipped : List String}
    (accepted : Line.read i.config.strict source = .ok line) (stays : line.homes = false)
    (ran : i.interpretLine source = (.ok ⟨.moved command, skipped⟩, after)) :
    ∃ mode, after.InEffect source line mode command ∧ skipped = line.skipped ∧
      after.config = i.config ∧ after.arm.records = i.arm.records.push ⟨command, i.config.wait⟩ := by
  have kept : after.kept = i.kept.performed line := by
    have followed := interpretLine_kept_of_read accepted
    rw [ran] at followed
    exact followed
  obtain ⟨went, config⟩ := lineStep ran
  generalize reached : after.arm = arm at went
  generalize answered : (.ok ⟨.moved command, skipped⟩ : LineResult) = result at went
  cases went with
  | refused | unplanned | faulted | beyond => cases answered
  | still =>
    have none := congrArg LineResult.command? answered
    rw [command?_stillReport] at none
    cases none
  | @moved _ mode _ issued unarmed near =>
    obtain ⟨read, moving, planned⟩ := issued
    cases read.symm.trans accepted
    cases answered
    have axes : after.axes = i.axes.named line.words := by
      have named := congrArg Kept.axes kept
      simp only [Kept.performed, stays, Bool.false_eq_true, if_false] at named
      exact named
    refine ⟨mode, ?_, rfl, config, rfl⟩
    exact {
      read := by rw [config]; exact accepted
      moving := moving
      stays := stays
      kept := by rw [kept, Kept.performed_performed _ stays]
      planned := ⟨i.arm.pose, by rw [axes]; exact planned⟩
      there := by rw [reached]
      unarmed := by rw [reached]; exact unarmed
      near := by rw [reached]; exact near }

namespace InEffect

variable (h : i.InEffect source line mode command)

include h

/-- More records do not touch what a line has done. -/
theorem recorded (gained : List ActuationRecord) :
    (i.recorded gained).InEffect source line mode command :=
  ⟨h.read, h.moving, h.stays, h.kept, h.planned, h.there, h.unarmed, h.near⟩

theorem named : i.axes.named line.words = i.axes := by
  have axes := congrArg Kept.axes h.kept
  simp only [Kept.performed, h.stays, Bool.false_eq_true, if_false] at axes
  exact axes

/-! ## The line again -/

/-- Nothing happens but the motion. -/
theorem interpretLine_of_dispatch {outcome : Except MotionError (MotionCommand Float)}
    {arm : SimulatedArm} (ran : mode.dispatch i.arm i.axes i.config.wait = (outcome, arm)) :
    i.interpretLine source = (report line mode outcome, { i with arm := arm }) := by
  rw [← h.named] at ran
  have performed := perform_moving i h.moving ran
  rw [← interpretLine_of_read i h.read] at performed
  have answered : (i.interpretLine source).1 = report line mode outcome := by rw [performed]
  have moved : (i.interpretLine source).2.arm = arm := by rw [performed]
  have kept : (i.interpretLine source).2.kept = i.kept := by
    rw [interpretLine_kept_of_read h.read]
    exact h.kept
  exact Prod.ext answered (eq_of_kept moved kept)

/-- A straight line moves again and is written down again. -/
theorem interpretLine_of_straight (straight : mode.isArc = false) :
    i.interpretLine source =
      (.ok ⟨.moved command, line.skipped⟩, i.recorded [⟨command, i.config.wait⟩]) := by
  obtain ⟨earlier, planned⟩ := h.planned
  have again := MotionMode.plan_target_of_straight straight planned
  rw [← h.there] at again
  have told : Arm.perform i.arm command i.config.wait =
      (.ok (), (i.recorded [⟨command, i.config.wait⟩]).arm) := by
    show SimulatedArm.perform i.arm command i.config.wait = _
    unfold SimulatedArm.perform
    simp only [h.unarmed, h.near, ← h.there]
    rw [← h.unarmed]
    rfl
  have ran : mode.dispatch i.arm i.axes i.config.wait =
      (.ok command, (i.recorded [⟨command, i.config.wait⟩]).arm) := by
    unfold MotionMode.dispatch
    simp only [Arm.currentPose, again, told]
  exact h.interpretLine_of_dispatch ran

/-- An arc is refused, and nothing changes. -/
theorem interpretLine_of_arc (arc : mode.isArc = true) :
    i.interpretLine source = (.error (.motion line.text mode
      (.geometry (.degenerate (.flatChord i.axes.target i.axes.target)))), i) := by
  obtain ⟨earlier, planned⟩ := h.planned
  have again := MotionMode.plan_target_of_arc arc planned
  rw [← h.there] at again
  have ran : mode.dispatch i.arm i.axes i.config.wait = (.error (.geometry
      (.degenerate (.flatChord i.axes.target i.axes.target))), i.arm) := by
    unfold MotionMode.dispatch
    simp only [Arm.currentPose, again]
  exact h.interpretLine_of_dispatch ran

/-! ## Any number of times -/

theorem interpretLines_of_straight (straight : mode.isArc = false) (count : Nat) :
    i.interpretLines (List.replicate count source) =
      (List.replicate count (.ok ⟨.moved command, line.skipped⟩),
        i.recorded (List.replicate count ⟨command, i.config.wait⟩)) := by
  induction count generalizing i with
  | zero => rfl
  | succ count ih =>
    have rest := ih (h.recorded [⟨command, i.config.wait⟩])
    rw [recorded_recorded] at rest
    simp only [List.replicate_succ, interpretLines, h.interpretLine_of_straight straight, rest]
    rfl

theorem interpretLines_of_arc (arc : mode.isArc = true) (count : Nat) :
    i.interpretLines (List.replicate count source) =
      (List.replicate count (.error (.motion line.text mode
        (.geometry (.degenerate (.flatChord i.axes.target i.axes.target))))), i) := by
  induction count with
  | zero => rfl
  | succ count ih =>
    simp only [List.replicate_succ, interpretLines, h.interpretLine_of_arc arc, ih]

end InEffect

/-- **A line that moved the arm, once more.** A straight one answers the same, leaves one more record
like the first and nothing else changed. An arc fails because it leads nowhere, and leaves
everything as it is, records included. So it stays, for as often as the line comes. -/
theorem interpretLine_repeated {after : Interpreter SimulatedArm} {skipped : List String}
    (accepted : Line.read i.config.strict source = .ok line) (stays : line.homes = false)
    (ran : i.interpretLine source = (.ok ⟨.moved command, skipped⟩, after)) :
    let record : ActuationRecord := ⟨command, i.config.wait⟩
    after.arm.records = i.arm.records.push record ∧
    ∃ mode, line.mode? = some mode ∧
      match mode with
      | .rapid | .linear =>
        after.interpretLine source = (.ok ⟨.moved command, skipped⟩, after.recorded [record]) ∧
        ∀ count, after.interpretLines (List.replicate count source) =
          (List.replicate count (.ok ⟨.moved command, skipped⟩),
            after.recorded (List.replicate count record))
      | .clockwiseArc | .counterClockwiseArc =>
        let nowhere : ArcDefect Float := .flatChord after.axes.target after.axes.target
        let error : InterpreterError := .motion line.text mode (.geometry (.degenerate nowhere))
        after.interpretLine source = (.error error, after) ∧
        ∀ count, after.interpretLines (List.replicate count source) =
          (List.replicate count (.error error), after) := by
  intro record
  obtain ⟨mode, inEffect, rfl, config, records⟩ := inEffect_of_moved accepted stays ran
  refine ⟨records, mode, line.mode?_eq_last?.trans inEffect.moving, ?_⟩
  have waited : record = ⟨command, after.config.wait⟩ := by rw [config]
  rw [waited]
  cases mode with
  | rapid | linear =>
    exact ⟨inEffect.interpretLine_of_straight rfl, inEffect.interpretLines_of_straight rfl⟩
  | clockwiseArc | counterClockwiseArc =>
    exact ⟨inEffect.interpretLine_of_arc rfl, inEffect.interpretLines_of_arc rfl⟩

/-- Half a circle, and once more. The first run moves the arm from the origin to its target, and the
second one has no way to go. -/
theorem interpretLine_repeated_half_circle :
    let i := new (SimulatedArm.atPose Pose.identity)
    let line : Line := ⟨"G2 X10 R5", [.motion 2 .clockwiseArc, .axis .x 10.0, .axis .r 5.0]⟩
    let command : MotionCommand Float := .circular (Pose.identity.withPosition ⟨5.0, 5.0, 0.0⟩)
      (Pose.identity.withPosition ⟨10.0, 0.0, 0.0⟩)
    let after := (i.interpretLine "G2 X10 R5").2
    let there := after.axes.target
    Line.read i.config.strict "G2 X10 R5" = .ok line ∧ line.homes = false ∧
      i.interpretLine "G2 X10 R5" = (.ok ⟨.moved command, []⟩, after) ∧
      there = ⟨10.0, 0.0, 0.0⟩ ∧
      after.interpretLine "G2 X10 R5" = (.error (.motion line.text .clockwiseArc
        (.geometry (.degenerate (.flatChord there there)))), after) := by
  intro i line command after there
  have accepted : Line.read i.config.strict "G2 X10 R5" = .ok line := rfl
  have answered : (i.interpretLine "G2 X10 R5").1 = .ok ⟨.moved command, []⟩ := by decide +kernel
  have ran : i.interpretLine "G2 X10 R5" = (.ok ⟨.moved command, []⟩, after) :=
    Prod.ext answered rfl
  have reached : there = ⟨10.0, 0.0, 0.0⟩ := by decide +kernel
  obtain ⟨_, mode, chosen, again⟩ := interpretLine_repeated accepted rfl ran
  cases chosen
  exact ⟨accepted, rfl, ran, reached, again.1⟩

end Interpreter

end Toolpath
