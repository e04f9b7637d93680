import Toolpath.Proofs.Doubles
import Toolpath.Proofs.SimulatedRun

/-!
# Finite values and one turn

Numbers enter an interpreter in two places, its settings and the words of its lines, and both refuse
what is not finite. Positions enter a command in two places, the axes and the halfway point of an
arc, and the latter is refused where it is not finite. This module says that there is no third
place: over every run the values stay finite, and so does every position that a command is given.
The turn of the arm is passed on from pose to pose and never computed with.

`Sound` is what the values of an interpreter keep, over every arm. `Holds` adds what the simulated
arm keeps. The law (`run_stays_finite`) holds of every run, and of the line after it: what planning
puts into a pose is finite, also where the arm itself stands at a position that is not.

It does not bound the values: finite numbers of any size stay allowed.
-/

namespace Toolpath

/-! ## Values -/

/-- Every axis is finite. -/
def AxisState.Finite (s : AxisState Float) : Prop := ∀ axis, (s.get axis).isFinite = true

/-- A feed rate that lines may set. -/
def FeedRate (rate : Float) : Prop := rate.isFinite = true ∧ 0.0 < rate

namespace AxisState

theorem finite_zero : AxisState.Finite zero := by
  intro axis
  cases axis <;> rfl

theorem Finite.set {s : AxisState Float} (h : s.Finite) (axis : Axis) {value : Float}
    (finite : value.isFinite = true) : (s.set axis value).Finite := by
  intro other
  by_cases same : other = axis
  · rw [same, get_set_self]
    exact finite
  · rw [get_set_of_ne s same]
    exact h other

theorem Finite.home {s : AxisState Float} (h : s.Finite) : s.home.Finite := by
  intro axis
  have zero : (0.0 : Float).isFinite = true := rfl
  cases axis with
  | x | y | z => exact zero
  | r => exact h .r

theorem Finite.target {s : AxisState Float} (h : s.Finite) : s.target.isFinite = true :=
  Bool.and_eq_true_iff.mpr ⟨Bool.and_eq_true_iff.mpr ⟨h .x, h .y⟩, h .z⟩

end AxisState

/-- A word that carries a number carries one that a line may set. -/
def Word.Sound : Word → Prop
  | axis _ value => value.isFinite = true
  | feed rate => FeedRate rate
  | motion .. | spindle _ | unsupported _ => True

theorem Word.isFinite_of_real? {cs : List Char} {x : Float} (read : real? cs = some x) :
    x.isFinite = true :=
  (Option.filter_eq_some_iff.mp read).2

/-- Reading gives no other words. -/
theorem Word.sound_of_read {raw : List Char} {w : Word} (read : Word.read raw = .ok w) :
    w.Sound := by
  unfold Word.read at read
  split at read
  · cases read
    trivial
  · split at read
    · split at read
      · cases read
      · split at read <;> cases read <;> trivial
    · split at read <;> cases read <;> trivial
    · split at read
      next => cases read
      next rate real =>
        split at read
        next => cases read
        next above =>
          cases read
          exact ⟨isFinite_of_real? real,
            (Decimal.not_le_zero_iff (isFinite_of_real? real)).mp above⟩
    · split at read
      · cases read
        trivial
      · split at read
        next => cases read
        next x real =>
          cases read
          exact isFinite_of_real? real

/-- A line that is read holds no other words. -/
theorem Line.sound_of_readWords {strict : Bool} {text : String} {raws : List (List Char)}
    {words : List Word} (read : readWords strict text raws = .ok words) : ∀ w ∈ words, w.Sound := by
  induction raws generalizing words with
  | nil =>
    cases read
    intro w present
    cases present
  | cons raw rest ih =>
    unfold readWords at read
    split at read
    · cases read
    next first firstRead =>
      split at read
      · cases read
      · cases later : readWords strict text rest with
        | error fault =>
          rw [later] at read
          cases read
        | ok others =>
          rw [later] at read
          cases read
          intro w present
          rcases List.mem_cons.mp present with rfl | present
          · exact Word.sound_of_read firstRead
          · exact ih later w present

theorem Line.sound_of_read {strict : Bool} {source : String} {line : Line}
    (read : Line.read strict source = .ok line) : ∀ w ∈ line.words, w.Sound := by
  unfold Line.read at read
  cases words : readWords strict (String.ofList (strip source.toList))
      (Text.words (strip source.toList)) with
  | error fault =>
    simp only [words] at read
    cases read
  | ok ws =>
    simp only [words] at read
    cases read
    exact sound_of_readWords words

namespace Interpreter

variable {ρ : Type}

/-- The values that an interpreter keeps are finite, and its feed rate is positive. -/
structure Sound (i : Interpreter ρ) : Prop where
  axes : i.axes.Finite
  feedRate : FeedRate i.feedRate

theorem Sound.applyWord {i : Interpreter ρ} (h : i.Sound) {w : Word} (sound : w.Sound) :
    (applyWord i w).Sound := by
  cases w with
  | axis which value => exact ⟨h.axes.set which sound, h.feedRate⟩
  | feed rate => exact ⟨h.axes, sound⟩
  | spindle on => exact ⟨h.axes, h.feedRate⟩
  | motion code mode | unsupported text => exact h

theorem Sound.applyWords {i : Interpreter ρ} (h : i.Sound) {words : List Word}
    (sound : ∀ w ∈ words, w.Sound) : (i.applyWords words).Sound := by
  induction words generalizing i with
  | nil => exact h
  | cons w ws ih =>
    have first := h.applyWord (sound w List.mem_cons_self)
    exact ih first fun v present => sound v (List.mem_cons_of_mem w present)

/-- The axes that a motion is planned for are finite. -/
theorem Sound.named {i : Interpreter ρ} (h : i.Sound) {line : Line}
    (sound : ∀ w ∈ line.words, w.Sound) : (i.axes.named line.words).Finite := by
  rw [← applyWords_axes]
  exact (h.applyWords sound).axes

/-- **A line keeps the values sound**, whatever it says and whatever the arm answers. -/
theorem Sound.interpretLine [Arm ρ] {i : Interpreter ρ} (h : i.Sound) (source : String) :
    (i.interpretLine source).2.Sound := by
  cases read : Line.read i.config.strict source with
  | error fault =>
    unfold Interpreter.interpretLine
    rw [read]
    exact h
  | ok line =>
    have sound := Line.sound_of_read read
    rw [interpretLine_of_read i read]
    cases moving : Word.last? Word.mode? line.words with
    | none =>
      rw [perform_still i moving]
      exact h.applyWords sound
    | some mode =>
      rcases ran : mode.dispatch i.arm (i.axes.named line.words) i.config.wait with ⟨outcome, after⟩
      rw [perform_moving i moving ran]
      refine ⟨?_, (h.applyWords sound).feedRate⟩
      show AxisState.Finite (if line.homes then _ else _)
      split
      · exact (h.named sound).home
      · exact h.named sound

theorem sound_start {arm : ρ} {config : InterpreterConfig} (valid : FeedRate config.defaultFeedRate) :
    (start arm config).Sound :=
  ⟨AxisState.finite_zero, valid⟩

end Interpreter

/-- The settings that an interpreter accepts name a feed rate that lines may set. -/
theorem InterpreterConfig.feedRate_of_validate {config : InterpreterConfig}
    (valid : config.validate = .ok ()) : FeedRate config.defaultFeedRate := by
  unfold validate at valid
  split at valid
  next accepted =>
    unfold isValid at accepted
    rw [Bool.and_eq_true, Bool.not_eq_true', decide_eq_false_iff_not] at accepted
    exact ⟨accepted.1, (Decimal.not_le_zero_iff accepted.1).mp accepted.2⟩
  next => cases valid

/-! ## Commands -/

/-- Where a command leads the tool: to its target, and through its halfway pose if it has one. -/
def MotionCommand.poses {α : Type} (command : MotionCommand α) : List (Pose α) :=
  command.target :: command.via?.toList

/-- Every pose of a command is at a finite position, and turned one way. -/
def MotionCommand.Keeps (turn : Matrix3 Float) (command : MotionCommand Float) : Prop :=
  ∀ pose ∈ command.poses, pose.rotation = turn ∧ pose.position.isFinite = true

/-- A halfway point that is found is finite. -/
theorem Arc.isFinite_of_via {start target p : Point Float} {radius : Float} {sense : RotationSense}
    (found : via start target radius sense = .ok p) : p.isFinite = true := by
  unfold via at found
  cases framed : frame start target radius sense with
  | error e =>
    rw [framed] at found
    cases found
  | ok f =>
    rw [framed] at found
    change finite .via _ = .ok p at found
    unfold finite at found
    split at found
    next isFinite =>
      cases found
      exact isFinite
    next => cases found

/-- A pose at a position that is asserted to be finite. -/
def Pose.place? (a : Pose Float) (p : Point Float) : Option (Pose Float) :=
  if p.isFinite then some (a.withPosition p) else none

theorem Pose.place?_of_isFinite (a : Pose Float) {p : Point Float} (finite : p.isFinite = true) :
    a.place? p = some (a.withPosition p) :=
  if_pos finite

/-- An arc planned with every position asserted to be finite before it is put into a pose. The
target is placed first; there is nothing where an assertion fails. -/
def planArcAsserting (sense : RotationSense) (current : Pose Float) (axes : AxisState Float) :
    Option (Except (GeometryError Float) (MotionCommand Float)) := do
  let target ← current.place? axes.target
  match Arc.via current.position axes.target axes.radius sense with
  | .error e => some (.error e)
  | .ok p =>
    let via ← current.place? p
    some (.ok (.circular via target))

namespace MotionMode

/-- A command planned with every position asserted to be finite. -/
def planAsserting (mode : MotionMode) (current : Pose Float) (axes : AxisState Float) :
    Option (Except (GeometryError Float) (MotionCommand Float)) :=
  match mode with
  | .rapid => (current.place? axes.target).map fun target => .ok (.rapid target)
  | .linear => (current.place? axes.target).map fun target => .ok (.linear target)
  | .clockwiseArc => planArcAsserting .clockwise current axes
  | .counterClockwiseArc => planArcAsserting .counterClockwise current axes

variable {current : Pose Float} {axes : AxisState Float}

theorem planArcAsserting_eq (sense : RotationSense) (finite : axes.target.isFinite = true) :
    planArcAsserting sense current axes = some (planArc sense current axes) := by
  unfold planArcAsserting planArc
  rw [current.place?_of_isFinite finite]
  cases found : Arc.via current.position axes.target axes.radius sense with
  | error e => rfl
  | ok p =>
    show (current.place? p).bind _ = _
    rw [current.place?_of_isFinite (Arc.isFinite_of_via found)]
    rfl

/-- For finite axes no assertion fails, wherever the arm stands. -/
theorem planAsserting_eq (mode : MotionMode) (finite : axes.Finite) :
    mode.planAsserting current axes = some (mode.plan current axes) := by
  have placed := current.place?_of_isFinite finite.target
  cases mode with
  | rapid | linear =>
    unfold planAsserting
    rw [placed]
    rfl
  | clockwiseArc | counterClockwiseArc => exact planArcAsserting_eq _ finite.target

/-- For finite axes a planned command keeps the turn, and every position in it is finite. -/
theorem keeps_of_plan {mode : MotionMode} {command : MotionCommand Float} (finite : axes.Finite)
    (planned : mode.plan current axes = .ok command) : command.Keeps current.rotation := by
  intro pose present
  cases mode with
  | rapid | linear =>
    cases planned
    cases List.mem_singleton.mp present
    exact ⟨rfl, finite.target⟩
  | clockwiseArc | counterClockwiseArc =>
    obtain ⟨p, found, rfl⟩ := planArc_eq_ok.mp planned
    rcases List.mem_cons.mp present with rfl | present
    · exact ⟨rfl, finite.target⟩
    · cases List.mem_singleton.mp present
      exact ⟨rfl, Arc.isFinite_of_via found⟩

end MotionMode

/-! ## Runs -/

namespace SimulatedRun

/-- What a run over a simulated arm keeps: sound values, the turn that the arm had, and the records
that it had, with none added but of commands to finite positions in that turn. -/
structure Holds (arm : SimulatedArm) (i : Interpreter SimulatedArm) : Prop where
  sound : i.Sound
  turn : i.arm.pose.rotation = arm.pose.rotation
  records : ∃ gained, i.arm.records.toList = arm.records.toList ++ gained ∧
    ∀ record ∈ gained, record.command.Keeps arm.pose.rotation

variable {arm : SimulatedArm} {i : Interpreter SimulatedArm}

/-- The command of a line that comes as far as the arm. -/
theorem Holds.keeps (h : Holds arm i) {source : String} {line : Line} {mode : MotionMode}
    {command : MotionCommand Float} (issued : i.Issues source line mode command) :
    command.Keeps arm.pose.rotation := by
  obtain ⟨read, _, planned⟩ := issued
  rw [← h.turn]
  exact MotionMode.keeps_of_plan (h.sound.named (Line.sound_of_read read)) planned

/-- **One step keeps what holds.** -/
theorem Holds.next (h : Holds arm i) (step : Step) : Holds arm (next i step) := by
  cases step with
  | failNext e => exact ⟨⟨h.sound.axes, h.sound.feedRate⟩, h.turn, h.records⟩
  | line source =>
    have sound := h.sound.interpretLine source
    show Holds arm (i.interpretLine source).2
    rcases ran : i.interpretLine source with ⟨result, after⟩
    rw [ran] at sound
    obtain ⟨went, _⟩ := Interpreter.lineStep ran
    generalize reached : after.arm = reachedArm at went
    cases went with
    | refused | still | unplanned | beyond =>
      exact ⟨sound, reached ▸ h.turn, reached ▸ h.records⟩
    | faulted => exact ⟨sound, by rw [reached]; exact h.turn, by rw [reached]; exact h.records⟩
    | @moved _ _ command issued =>
      obtain ⟨gained, records, kept⟩ := h.records
      have keeps := h.keeps issued
      refine ⟨sound, ?_, gained ++ [⟨command, i.config.wait⟩], ?_, ?_⟩
      · rw [reached]
        exact (keeps _ List.mem_cons_self).1
      · rw [reached, ← List.append_assoc, ← records]
        exact Array.toList_push
      · intro record present
        rcases List.mem_append.mp present with present | present
        · exact kept record present
        · cases List.mem_singleton.mp present
          exact keeps

/-- **A whole run keeps what holds.** -/
theorem holds_run (h : Holds arm i) (steps : List Step) : Holds arm (run i steps) := by
  induction steps generalizing i with
  | nil => exact h
  | cons step rest ih => exact ih (h.next step)

/-! ### The start -/

/-- An interpreter as it is made over an arm: with the default settings, or with settings that were
accepted. -/
def Made (arm : SimulatedArm) (i : Interpreter SimulatedArm) : Prop :=
  i = Interpreter.new arm ∨ ∃ config, Interpreter.withConfig arm config = .ok i

/-- What holds over an arm that has been put in a run mode holds over the arm. -/
theorem holds_start {config : InterpreterConfig} (valid : FeedRate config.defaultFeedRate)
    (mode : RunMode) : Holds arm (Interpreter.start { arm with runMode := mode } config) where
  sound := Interpreter.sound_start valid
  turn := rfl
  records := ⟨[], (List.append_nil _).symm, fun _ present => by cases present⟩

theorem holds_of_made (made : Made arm i) : Holds arm i := by
  obtain rfl | ⟨config, accepted⟩ := made
  · have valid : FeedRate InterpreterConfig.default.defaultFeedRate := ⟨rfl, rfl⟩
    exact holds_start valid arm.runMode
  · unfold Interpreter.withConfig at accepted
    cases validated : config.validate with
    | error e =>
      rw [validated] at accepted
      cases accepted
    | ok =>
      have valid := InterpreterConfig.feedRate_of_validate validated
      simp only [validated] at accepted
      cases chosen : config.runMode with
      | none =>
        rw [chosen] at accepted
        cases accepted
        exact holds_start valid arm.runMode
      | some mode =>
        rw [chosen] at accepted
        cases accepted
        exact holds_start valid mode

/-- **Values stay finite and the turn stays what it was, over every run.** Whatever pose the arm has
at first, whatever the lines say and whichever faults are armed: the axes are finite, the feed rate
is finite and positive, and the arm is turned as it was. Of the commands written down since, every
pose is turned as the arm was and is at a finite position. The line after the run, whichever it is,
is planned without a position that is not finite. -/
theorem run_stays_finite (arm : SimulatedArm) (i : Interpreter SimulatedArm) (made : Made arm i)
    (steps : List Step) :
    let now := run i steps
    (∀ axis, (now.axes.get axis).isFinite = true) ∧
    now.feedRate.isFinite = true ∧ 0.0 < now.feedRate ∧
    now.arm.pose.rotation = arm.pose.rotation ∧
    (∃ gained, now.arm.records.toList = arm.records.toList ++ gained ∧
      ∀ record ∈ gained, ∀ pose ∈ record.command.poses,
        pose.rotation = arm.pose.rotation ∧ pose.position.isFinite = true) ∧
    (∀ source line mode, Line.read now.config.strict source = .ok line →
      Word.last? Word.mode? line.words = some mode →
      let axes := now.axes.named line.words
      mode.planAsserting now.arm.pose axes = some (mode.plan now.arm.pose axes)) := by
  intro now
  have holds : Holds arm now := holds_run (holds_of_made made) steps
  refine ⟨holds.sound.axes, holds.sound.feedRate.1, holds.sound.feedRate.2, holds.turn,
    holds.records, ?_⟩
  intro source line mode read _
  exact mode.planAsserting_eq (holds.sound.named (Line.sound_of_read read))

/-- From a pose at no finite position, an arc is refused and a straight motion is made. -/
theorem run_stays_finite_from_nowhere :
    let nowhere : Pose Float := Pose.identity.withPosition ⟨1.0 / 0.0, 0.0, 0.0⟩
    let i := Interpreter.new (SimulatedArm.atPose nowhere)
    let steps : List Step := [.line "G2 X1 R5", .failNext (.communication "lost"), .line "G1",
      .line "G1 X10"]
    let moved : MotionCommand Float := .linear (Pose.identity.withPosition ⟨10.0, 0.0, 0.0⟩)
    Made (SimulatedArm.atPose nowhere) i ∧ nowhere.position.isFinite = false ∧
      (run i steps).arm.records.toList = [⟨moved, .blocking⟩] ∧
      (run i steps).arm.pose.rotation = Matrix3.identity ∧ moved.target.position.isFinite = true := by
  intro nowhere i steps moved
  have made : Made (SimulatedArm.atPose nowhere) i := .inl rfl
  have records : (run i steps).arm.records.toList = [⟨moved, .blocking⟩] := by
    decide +kernel
  obtain ⟨_, _, _, turn, ⟨gained, split, kept⟩, _⟩ :=
    run_stays_finite (SimulatedArm.atPose nowhere) i made steps
  have only : gained = [⟨moved, .blocking⟩] := split.symm.trans records
  rw [only] at kept
  exact ⟨made, by decide, records, turn,
    (kept _ (List.mem_singleton_self _) _ List.mem_cons_self).2⟩

end SimulatedRun

end Toolpath
