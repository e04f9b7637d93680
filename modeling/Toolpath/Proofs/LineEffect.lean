import Toolpath.Proofs.Dispatch
import Toolpath.Arm.Simulated

/-!
# What a line does

A line takes effect in three passes: its words set values in order, its last motion word tells the
arm once, and a word that goes home sets the coordinates to zero at the end. This module says what
the three come to, by the last word of each kind and not by the order in which they are worked off.

The law (`interpretLine_effect`): after a line that is read, each axis, the feed rate and the
spindle hold what the last word of their kind says, coordinates are zero if any word went home, and
the arm got the calls of one motion in the mode of the last motion word, planned for the axes
before going home, or no call at all. It holds of every arm, so none of the values depends on
whether the motion succeeded.

It says nothing of lines that are refused; those change nothing by `interpretLine`'s first case.
-/

namespace Toolpath

/-! ## The last word of a kind -/

/-- A later reading wins over an earlier one, and any reading over the value before them all. -/
theorem getD_getLast?_filterMap_cons {α β : Type} (reading : α → Option β) (a : α) (rest : List α)
    (old : β) :
    ((a :: rest).filterMap reading).getLast?.getD old =
      (rest.filterMap reading).getLast?.getD ((reading a).getD old) := by
  cases said : reading a with
  | none => rw [List.filterMap_cons_none said, Option.getD_none]
  | some b => rw [List.filterMap_cons_some said, List.getLast?_cons, Option.getD_some,
      Option.getD_some]

namespace Word

/-- What the last word says for which a reading of words has an answer. -/
def last? {β : Type} (reading : Word → Option β) (words : List Word) : Option β :=
  (words.filterMap reading).getLast?

/-- The value that a word gives to an axis. -/
def axisValue? (which : Axis) : Word → Option Float
  | axis other value => if other = which then some value else none
  | _ => none

/-- The feed rate that a word sets. -/
def feedRate? : Word → Option Float
  | feed rate => some rate
  | _ => none

/-- What a word does to the spindle. -/
def spindle? : Word → Option Bool
  | spindle on => some on
  | _ => none

/-- The last word of a kind is a word after which none of that kind stands. -/
theorem last?_eq_some_iff {β : Type} {reading : Word → Option β} {words : List Word} {b : β} :
    last? reading words = some b ↔
      ∃ front w back, words = front ++ w :: back ∧ reading w = some b ∧
        ∀ v ∈ back, reading v = none := by
  constructor
  · intro found
    obtain ⟨said, split⟩ := List.getLast?_eq_some_iff.mp found
    obtain ⟨front, rest, rfl, _, restSaid⟩ := List.filterMap_eq_append_iff.mp split
    obtain ⟨silent, w, back, rfl, _, wSaid, backSaid⟩ := List.filterMap_eq_cons_iff.mp restSaid
    refine ⟨front ++ silent, w, back, by rw [List.append_assoc], wSaid, ?_⟩
    exact List.filterMap_eq_nil_iff.mp backSaid
  · rintro ⟨front, w, back, rfl, said, silent⟩
    unfold last?
    rw [List.filterMap_append, List.filterMap_cons_some said, List.filterMap_eq_nil_iff.mpr silent,
      List.getLast?_concat]

/-- No word of a kind stands on a line for which the reading has no answer. -/
theorem last?_eq_none_iff {β : Type} {reading : Word → Option β} {words : List Word} :
    last? reading words = none ↔ ∀ w ∈ words, reading w = none := by
  unfold last?
  rw [List.getLast?_eq_none_iff, List.filterMap_eq_nil_iff]

end Word

/-- The axes with every axis word of a line applied: each holds the value of its last word. -/
def AxisState.named (s : AxisState Float) (words : List Word) : AxisState Float where
  x := (Word.last? (Word.axisValue? .x) words).getD s.x
  y := (Word.last? (Word.axisValue? .y) words).getD s.y
  z := (Word.last? (Word.axisValue? .z) words).getD s.z
  r := (Word.last? (Word.axisValue? .r) words).getD s.r

namespace Line

/-- A line's mode is the one of its last motion word. -/
theorem mode?_eq_last? (line : Line) : line.mode? = Word.last? Word.mode? line.words :=
  List.getLast?_filterMap.symm

/-- A line goes home when a motion word of that number stands anywhere on it. -/
theorem homes_iff {line : Line} :
    line.homes = true ↔ ∃ mode, Word.motion MotionMode.homeCode mode ∈ line.words := by
  unfold homes
  rw [List.any_eq_true]
  constructor
  · rintro ⟨w, present, goesHome⟩
    cases w with
    | motion code mode =>
      have written : code = MotionMode.homeCode := beq_iff_eq.mp goesHome
      exact ⟨mode, written ▸ present⟩
    | _ => cases goesHome
  · rintro ⟨mode, present⟩
    exact ⟨_, present, rfl⟩

end Line

namespace Interpreter

variable {ρ : Type}

/-! ## The words of a line -/

/-- What follows a word one by one follows the last word of its kind. -/
theorem applyWords_follows {β : Type} (view : Interpreter ρ → β) (reading : Word → Option β)
    (follows : ∀ i w, view (applyWord i w) = (reading w).getD (view i)) (i : Interpreter ρ)
    (words : List Word) :
    view (i.applyWords words) = (Word.last? reading words).getD (view i) := by
  induction words generalizing i with
  | nil => rfl
  | cons w ws ih =>
    unfold Word.last?
    rw [getD_getLast?_filterMap_cons, ← follows i w]
    exact ih (applyWord i w)

/-- What no word changes, no line of words changes. -/
theorem applyWords_keeps {β : Type} (view : Interpreter ρ → β)
    (keeps : ∀ i w, view (applyWord i w) = view i) (i : Interpreter ρ) (words : List Word) :
    view (i.applyWords words) = view i := by
  induction words generalizing i with
  | nil => rfl
  | cons w ws ih => exact (ih (applyWord i w)).trans (keeps i w)

theorem applyWords_arm (i : Interpreter ρ) (words : List Word) :
    (i.applyWords words).arm = i.arm :=
  applyWords_keeps arm (fun _ w => by cases w <;> rfl) i words

theorem applyWords_config (i : Interpreter ρ) (words : List Word) :
    (i.applyWords words).config = i.config :=
  applyWords_keeps config (fun _ w => by cases w <;> rfl) i words

theorem applyWords_feedRate (i : Interpreter ρ) (words : List Word) :
    (i.applyWords words).feedRate = (Word.last? Word.feedRate? words).getD i.feedRate :=
  applyWords_follows feedRate Word.feedRate? (fun _ w => by cases w <;> rfl) i words

theorem applyWords_spindleOn (i : Interpreter ρ) (words : List Word) :
    (i.applyWords words).spindleOn = (Word.last? Word.spindle? words).getD i.spindleOn :=
  applyWords_follows spindleOn Word.spindle? (fun _ w => by cases w <;> rfl) i words

/-- One axis follows the words that name it. -/
theorem applyWords_get (i : Interpreter ρ) (words : List Word) (which : Axis) :
    (i.applyWords words).axes.get which =
      (Word.last? (Word.axisValue? which) words).getD (i.axes.get which) := by
  refine applyWords_follows (fun i => i.axes.get which) (Word.axisValue? which) ?_ i words
  intro i w
  cases w with
  | axis other value =>
    show (i.axes.set other value).get which = _
    by_cases same : other = which
    · subst same
      rw [AxisState.get_set_self, Word.axisValue?, if_pos rfl, Option.getD_some]
    · rw [AxisState.get_set_of_ne i.axes (Ne.symm same), Word.axisValue?, if_neg same,
        Option.getD_none]
  | _ => rfl

theorem applyWords_axes (i : Interpreter ρ) (words : List Word) :
    (i.applyWords words).axes = i.axes.named words :=
  AxisState.ext (applyWords_get i words .x) (applyWords_get i words .y)
    (applyWords_get i words .z) (applyWords_get i words .r)

/-- What one word does the same to two interpreters, a line of words does the same to both. -/
theorem applyWords_through {σ : Type} (view : Interpreter ρ → Interpreter σ)
    (through : ∀ i w, applyWord (view i) w = view (applyWord i w)) (i : Interpreter ρ)
    (words : List Word) : (view i).applyWords words = view (i.applyWords words) := by
  induction words generalizing i with
  | nil => rfl
  | cons w ws ih =>
    show applyWords (applyWord (view i) w) ws = _
    rw [through]
    exact ih (applyWord i w)

/-- Words take effect beside a log as they do without one. -/
theorem applyWords_logged (i : Interpreter ρ) (words : List Word) :
    i.logged.applyWords words = (i.applyWords words).logged :=
  applyWords_through logged (fun _ w => by cases w <;> rfl) i words

theorem applyWords_forgetLog (i : Interpreter (Logged ρ)) (words : List Word) :
    i.forgetLog.applyWords words = (i.applyWords words).forgetLog :=
  applyWords_through forgetLog (fun _ w => by cases w <;> rfl) i words

/-! ## A line that has been read -/

/-- What a line answers, given how its motion ended. -/
def report (line : Line) (mode : MotionMode) : Except MotionError (MotionCommand Float) → LineResult
  | .ok command => .ok ⟨.moved command, line.skipped⟩
  | .error cause => .error (.motion line.text mode cause)

/-- What a line answers that has no motion word. -/
def stillReport (line : Line) : LineReport :=
  if line.words = [] then ⟨.blank, []⟩ else ⟨.stateUpdated, line.skipped⟩

variable [Arm ρ]

/-- A line without a motion word sets values and does nothing else. -/
theorem perform_still (i : Interpreter ρ) {line : Line}
    (still : Word.last? Word.mode? line.words = none) :
    i.perform line = (.ok (stillReport line), i.applyWords line.words) := by
  unfold perform stillReport Line.isBlank
  rw [Line.mode?_eq_last?, still]
  cases line.words with
  | nil => rfl
  | cons w ws => rfl

/-- A motion answers by its outcome, and the line goes home at the end whatever that was. -/
theorem move_eq (i : Interpreter ρ) (line : Line) {mode : MotionMode} {after : ρ}
    {outcome : Except MotionError (MotionCommand Float)}
    (ran : mode.dispatch i.arm i.axes i.config.wait = (outcome, after)) :
    i.move line mode =
      (report line mode outcome,
        { i with arm := after, axes := if line.homes then i.axes.home else i.axes }) := by
  unfold move
  rw [ran]
  cases outcome with
  | error cause => rfl
  | ok command => rfl

/-- A line with a motion word sets values, and then moves in the mode of the last one, for the axes
that its words name. -/
theorem perform_moving (i : Interpreter ρ) {line : Line} {mode : MotionMode} {after : ρ}
    {outcome : Except MotionError (MotionCommand Float)}
    (moving : Word.last? Word.mode? line.words = some mode)
    (ran : mode.dispatch i.arm (i.axes.named line.words) i.config.wait = (outcome, after)) :
    i.perform line =
      (report line mode outcome,
        { i.applyWords line.words with
          arm := after
          axes := if line.homes then (i.axes.named line.words).home
            else i.axes.named line.words }) := by
  have worded : line.isBlank = false := by
    unfold Line.isBlank
    cases words : line.words with
    | nil => rw [words] at moving; cases moving
    | cons w ws => rfl
  rw [← applyWords_arm i line.words, ← applyWords_axes, ← applyWords_config i line.words] at ran
  have moved := move_eq (i.applyWords line.words) line ran
  rw [applyWords_axes] at moved
  unfold perform
  rw [worded, Line.mode?_eq_last?, moving]
  exact moved

/-- The arm after a line that has been read. -/
theorem perform_arm (i : Interpreter ρ) (line : Line) :
    (i.perform line).2.arm =
      match Word.last? Word.mode? line.words with
      | none => i.arm
      | some mode => (mode.dispatch i.arm (i.axes.named line.words) i.config.wait).2 := by
  cases moving : Word.last? Word.mode? line.words with
  | none =>
    rw [perform_still i moving]
    exact applyWords_arm i line.words
  | some mode =>
    dsimp only
    rcases ran : mode.dispatch i.arm (i.axes.named line.words) i.config.wait with ⟨outcome, after⟩
    rw [perform_moving i moving ran]

/-- The answer to a line that has been read. -/
theorem perform_answer (i : Interpreter ρ) (line : Line) :
    (i.perform line).1 =
      match Word.last? Word.mode? line.words with
      | none => .ok (stillReport line)
      | some mode =>
        report line mode (mode.dispatch i.arm (i.axes.named line.words) i.config.wait).1 := by
  cases moving : Word.last? Word.mode? line.words with
  | none => rw [perform_still i moving]
  | some mode =>
    dsimp only
    rcases ran : mode.dispatch i.arm (i.axes.named line.words) i.config.wait with ⟨outcome, after⟩
    rw [perform_moving i moving ran]

theorem interpretLine_of_read (i : Interpreter ρ) {source : String} {line : Line}
    (accepted : Line.read i.config.strict source = .ok line) :
    i.interpretLine source = i.perform line := by
  unfold interpretLine
  rw [accepted]

/-! ## The law of a line -/

/-- **What a line does**, whatever the arm answers. The log beside the arm changes neither the
answer nor the state. Each axis, the feed rate and the spindle hold what the last word of their kind
says, or their old value; where any word goes home the coordinates are zero and the radius stays.
Without a motion word the arm gets no call. With one, it gets the calls of one motion in the mode
of the last, planned for the axes before going home, and waited for as configured. -/
theorem interpretLine_effect (i : Interpreter ρ) {source : String} {line : Line}
    (accepted : Line.read i.config.strict source = .ok line) :
    let result := (i.logged.interpretLine source).1
    let after := (i.logged.interpretLine source).2
    let named := i.axes.named line.words
    i.interpretLine source = (result, after.forgetLog) ∧
    ((∃ mode, Word.motion 28 mode ∈ line.words) → after.axes = ⟨0.0, 0.0, 0.0, named.r⟩) ∧
    ((¬ ∃ mode, Word.motion 28 mode ∈ line.words) → after.axes = named) ∧
    after.feedRate = (Word.last? Word.feedRate? line.words).getD i.feedRate ∧
    after.spindleOn = (Word.last? Word.spindle? line.words).getD i.spindleOn ∧
    after.config = i.config ∧
    match Word.last? Word.mode? line.words with
    | none => after.arm = ⟨i.arm, []⟩ ∧ result = .ok (stillReport line)
    | some mode =>
      ∃ outcome,
        mode.Dispatches i.arm named i.config.wait after.arm.calls outcome after.arm.arm ∧
        (∀ command wait, .perform command wait ∈ after.arm.calls →
          command.kind = mode.kind ∧ wait = i.config.wait) ∧
        result = report line mode outcome := by
  intro result after named
  have onArm : i.interpretLine source = i.perform line := interpretLine_of_read i accepted
  have onLog : (result, after) = i.logged.perform line := interpretLine_of_read i.logged accepted
  -- the arm is only called where there is a motion word, so the two cases share no call
  cases moving : Word.last? Word.mode? line.words with
  | none =>
    rw [perform_still i moving] at onArm
    rw [perform_still i.logged moving, applyWords_logged] at onLog
    obtain ⟨hresult, hafter⟩ := Prod.mk.inj onLog
    rw [hafter, hresult]
    refine ⟨onArm, ?_, fun _ => applyWords_axes i _, applyWords_feedRate i _,
      applyWords_spindleOn i _, applyWords_config i _, ?_, rfl⟩
    · rintro ⟨mode, present⟩
      cases Word.last?_eq_none_iff.mp moving _ present
    · show Logged.mk (i.applyWords line.words).arm [] = _
      rw [applyWords_arm]
  | some mode =>
    rcases ran : mode.dispatch i.arm named i.config.wait with ⟨outcome, moved⟩
    obtain ⟨calls, went, ranLog⟩ := MotionMode.dispatch_logged ran []
    rw [perform_moving i moving ran] at onArm
    rw [perform_moving i.logged moving ranLog, applyWords_logged] at onLog
    obtain ⟨hresult, hafter⟩ := Prod.mk.inj onLog
    rw [hafter, hresult]
    refine ⟨onArm, ?_, ?_, applyWords_feedRate i _, applyWords_spindleOn i _,
      applyWords_config i _, outcome, went, fun _ _ => went.told_kind, rfl⟩
    · intro goesHome
      exact if_pos (Line.homes_iff.mpr goesHome)
    · intro stays
      exact if_neg (fun homes => stays (Line.homes_iff.mp homes))

/-- A line that goes home and then moves in an arc: the arc is planned for the axis as the line set
it, and the axis is zero after it. -/
theorem interpretLine_effect_home_then_arc :
    let i := new (SimulatedArm.atPose Pose.identity)
    let after := (i.logged.interpretLine "X1.5 G28 M3 G2 R-3 ; back").2
    Line.read i.config.strict "X1.5 G28 M3 G2 R-3 ; back" =
      .ok ⟨"X1.5 G28 M3 G2 R-3", [.axis .x 1.5, .motion 28 .rapid, .spindle true,
        .motion 2 .clockwiseArc, .axis .r (-3.0)]⟩ ∧
    after.axes = ⟨0.0, 0.0, 0.0, -3.0⟩ ∧
    after.spindleOn = true ∧
    ∃ outcome, MotionMode.clockwiseArc.Dispatches i.arm ⟨1.5, 0.0, 0.0, -3.0⟩ i.config.wait
      after.arm.calls outcome after.arm.arm := by
  intro i after
  have accepted : Line.read i.config.strict "X1.5 G28 M3 G2 R-3 ; back" =
      .ok ⟨"X1.5 G28 M3 G2 R-3", [.axis .x 1.5, .motion 28 .rapid, .spindle true,
        .motion 2 .clockwiseArc, .axis .r (-3.0)]⟩ := rfl
  obtain ⟨_, goneHome, _, _, spindle, _, outcome, went, _⟩ := interpretLine_effect i accepted
  exact ⟨accepted, goneHome ⟨.rapid, .tail _ (.head _)⟩, spindle, outcome, went⟩

end Interpreter

end Toolpath
