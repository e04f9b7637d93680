import Toolpath.Proofs.LineEffect

/-!
# Runs over the simulated arm

A run takes lines, and faults armed between them, one step at a time. What the arm then holds (its
records, its pose, its fault) and what the lines answered are kept by different parts of the state.
This module says that they agree: the arm is a function of the answers.

The invariant is `Agrees`: the records are the commands that lines gave, the pose is the target of
the last one, and the armed fault is the last one armed since a line came as far as the arm.
`Agrees.next` is one step, `agrees_run` a whole run. The law (`run_agrees`) adds what the next line
does, which every line of a run once was: an arc starts at the target of the last record and never
at the axes, and an armed fault is the answer of the first line that comes as far as the arm.

It does not say which errors the arm gives for positions out of its reach beyond naming the check.
-/

namespace Toolpath

/-- The command that a line gave, by its answer. -/
def LineResult.command? : LineResult → Option (MotionCommand Float)
  | .ok report => report.outcome.command?
  | .error _ => none

/-- Where a list of commands leads: the target of the last one, or the pose before them all. -/
def lastTarget (start : Pose Float) (commands : List (MotionCommand Float)) : Pose Float :=
  (commands.getLast?.map MotionCommand.target).getD start

theorem lastTarget_concat (start : Pose Float) (commands : List (MotionCommand Float))
    (command : MotionCommand Float) :
    lastTarget start (commands ++ [command]) = command.target := by
  unfold lastTarget
  rw [List.getLast?_concat]
  rfl

/-- A command at a simulated arm meets an armed fault first, then the reach, and is carried out only
when neither is in its way. -/
theorem SimulatedArm.perform_cases {arm after : SimulatedArm} {command : MotionCommand Float}
    {wait : WaitPolicy} {answer : Except ActuationError Unit}
    (told : Arm.perform arm command wait = (answer, after)) :
    (∃ e, arm.fault = some e ∧ answer = .error e ∧ after = { arm with fault := none }) ∨
    (∃ e, arm.fault = none ∧ refusal? arm.reachLimit command = some e ∧ answer = .error e ∧
      after = arm) ∨
    (arm.fault = none ∧ refusal? arm.reachLimit command = none ∧ answer = .ok () ∧
      after = { arm with
        records := arm.records.push ⟨command, wait⟩
        pose := command.target }) := by
  change perform arm command wait = _ at told
  unfold perform at told
  cases armed : arm.fault with
  | some e =>
    rw [armed] at told
    cases told
    exact .inl ⟨e, rfl, rfl, rfl⟩
  | none =>
    rw [armed] at told
    cases reach : refusal? arm.reachLimit command with
    | some e =>
      simp only [reach] at told
      cases told
      exact .inr (.inl ⟨e, rfl, rfl, rfl, rfl⟩)
    | none =>
      simp only [reach] at told
      cases told
      exact .inr (.inr ⟨rfl, rfl, rfl, rfl⟩)

/-! ## One line -/

namespace Interpreter

/-- A line comes as far as the arm with a command: it is read, it has a motion word, and the motion
can be planned from the arm's pose. -/
def Issues (i : Interpreter SimulatedArm) (source : String) (line : Line) (mode : MotionMode)
    (command : MotionCommand Float) : Prop :=
  Line.read i.config.strict source = .ok line ∧ Word.last? Word.mode? line.words = some mode ∧
    mode.plan i.arm.pose (i.axes.named line.words) = .ok command

/-- What one line answers over a simulated arm, and the arm after it. -/
inductive LineStep (i : Interpreter SimulatedArm) (source : String) :
    LineResult → SimulatedArm → Prop where
  /-- The line is refused. -/
  | refused {fault : LineFault} (read : Line.read i.config.strict source = .error fault) :
    LineStep i source (.error (.refused fault)) i.arm
  /-- The line has no motion word. -/
  | still {line : Line} (read : Line.read i.config.strict source = .ok line)
    (still : Word.last? Word.mode? line.words = none) :
    LineStep i source (.ok (stillReport line)) i.arm
  /-- No command leads to where the line wants to go. -/
  | unplanned {line : Line} {mode : MotionMode} {e : GeometryError Float}
    (read : Line.read i.config.strict source = .ok line)
    (moving : Word.last? Word.mode? line.words = some mode)
    (planned : mode.plan i.arm.pose (i.axes.named line.words) = .error e) :
    LineStep i source (.error (.motion line.text mode (.geometry e))) i.arm
  /-- The command meets an armed fault, and spends it. -/
  | faulted {line : Line} {mode : MotionMode} {command : MotionCommand Float} {e : ActuationError}
    (issued : i.Issues source line mode command) (armed : i.arm.fault = some e) :
    LineStep i source (.error (.motion line.text mode (.actuation e))) { i.arm with fault := none }
  /-- The command leads out of the arm's reach. -/
  | beyond {line : Line} {mode : MotionMode} {command : MotionCommand Float} {e : ActuationError}
    (issued : i.Issues source line mode command) (unarmed : i.arm.fault = none)
    (far : SimulatedArm.refusal? i.arm.reachLimit command = some e) :
    LineStep i source (.error (.motion line.text mode (.actuation e))) i.arm
  /-- The command is carried out and written down. -/
  | moved {line : Line} {mode : MotionMode} {command : MotionCommand Float}
    (issued : i.Issues source line mode command) (unarmed : i.arm.fault = none)
    (near : SimulatedArm.refusal? i.arm.reachLimit command = none) :
    LineStep i source (.ok ⟨.moved command, line.skipped⟩)
      { i.arm with
        records := i.arm.records.push ⟨command, i.config.wait⟩
        pose := command.target }

/-- A line without a motion word gives no command. -/
theorem command?_stillReport (line : Line) :
    LineResult.command? (.ok (stillReport line)) = none := by
  unfold stillReport
  split
  · rfl
  · rfl

/-- Every line goes one of these ways, and keeps the settings. -/
theorem lineStep {i after : Interpreter SimulatedArm} {source : String} {result : LineResult}
    (ran : i.interpretLine source = (result, after)) :
    LineStep i source result after.arm ∧ after.config = i.config := by
  cases read : Line.read i.config.strict source with
  | error fault =>
    unfold interpretLine at ran
    rw [read] at ran
    cases ran
    exact ⟨.refused read, rfl⟩
  | ok line =>
    rw [interpretLine_of_read i read] at ran
    cases moving : Word.last? Word.mode? line.words with
    | none =>
      rw [perform_still i moving] at ran
      cases ran
      rw [applyWords_arm, applyWords_config]
      exact ⟨.still read moving, rfl⟩
    | some mode =>
      rcases dispatched : mode.dispatch i.arm (i.axes.named line.words) i.config.wait with
        ⟨outcome, arm⟩
      rw [perform_moving i moving dispatched] at ran
      cases ran
      refine ⟨?_, applyWords_config i line.words⟩
      obtain ⟨calls, went⟩ := MotionMode.dispatches_of_dispatch dispatched
      cases went with
      | unread seen => cases seen
      | unplanned seen planned =>
        cases seen
        exact .unplanned read moving planned
      | refused seen planned told =>
        cases seen
        obtain ⟨e, armed, heq, rfl⟩ | ⟨e, unarmed, far, heq, rfl⟩ | ⟨_, _, heq, _⟩ :=
          SimulatedArm.perform_cases told
        · cases heq
          exact .faulted ⟨read, moving, planned⟩ armed
        · cases heq
          exact .beyond ⟨read, moving, planned⟩ unarmed far
        · cases heq
      | done seen planned told =>
        cases seen
        obtain ⟨e, _, heq, _⟩ | ⟨e, _, _, heq, _⟩ | ⟨unarmed, near, _, rfl⟩ :=
          SimulatedArm.perform_cases told
        · cases heq
        · cases heq
        · exact .moved ⟨read, moving, planned⟩ unarmed near

variable {i : Interpreter SimulatedArm} {source : String}

/-- A line comes as far as the arm with one command only. -/
theorem Issues.unique {line line' : Line} {mode mode' : MotionMode}
    {command command' : MotionCommand Float} (issued : i.Issues source line mode command)
    (again : i.Issues source line' mode' command') :
    line' = line ∧ mode' = mode ∧ command' = command := by
  obtain ⟨read, moving, planned⟩ := issued
  obtain ⟨read', moving', planned'⟩ := again
  cases read.symm.trans read'
  cases moving.symm.trans moving'
  cases planned.symm.trans planned'
  exact ⟨rfl, rfl, rfl⟩

/-- What the arm answers to a line that comes as far as it. -/
theorem answer_of_issues {line : Line} {mode : MotionMode} {command : MotionCommand Float}
    (issued : i.Issues source line mode command) :
    (i.interpretLine source).1 =
      match i.arm.fault.or (SimulatedArm.refusal? i.arm.reachLimit command) with
      | some e => .error (.motion line.text mode (.actuation e))
      | none => .ok ⟨.moved command, line.skipped⟩ := by
  rcases ran : i.interpretLine source with ⟨result, after⟩
  obtain ⟨went, _⟩ := lineStep ran
  generalize after.arm = arm at went
  cases went with
  | refused read => cases read.symm.trans issued.1
  | still read still =>
    cases read.symm.trans issued.1
    cases still.symm.trans issued.2.1
  | unplanned read moving planned =>
    cases read.symm.trans issued.1
    cases moving.symm.trans issued.2.1
    cases planned.symm.trans issued.2.2
  | faulted again armed =>
    obtain ⟨rfl, rfl, rfl⟩ := issued.unique again
    rw [armed]
    rfl
  | beyond again unarmed far =>
    obtain ⟨rfl, rfl, rfl⟩ := issued.unique again
    rw [unarmed, far]
    rfl
  | moved again unarmed near =>
    obtain ⟨rfl, rfl, rfl⟩ := issued.unique again
    rw [unarmed, near]
    rfl

/-- A line that does not come as far as the arm answers nothing in the arm's name. -/
theorem answer_of_not_issues
    (quiet : ¬ ∃ line mode command, i.Issues source line mode command) (text : String)
    (mode : MotionMode) (e : ActuationError) :
    (i.interpretLine source).1 ≠ .error (.motion text mode (.actuation e)) := by
  rcases ran : i.interpretLine source with ⟨result, after⟩
  obtain ⟨went, _⟩ := lineStep ran
  generalize after.arm = arm at went
  intro answered
  cases went with
  | refused read => cases answered
  | still read still => cases answered
  | unplanned read moving planned => cases answered
  | faulted issued armed => exact quiet ⟨_, _, _, issued⟩
  | beyond issued unarmed far => exact quiet ⟨_, _, _, issued⟩
  | moved issued unarmed near => exact quiet ⟨_, _, _, issued⟩

/-- What an arc line answers hangs on the arc from the arm's position to the axes'. -/
theorem answer_of_arc {line : Line} {mode : MotionMode} {sense : RotationSense}
    (read : Line.read i.config.strict source = .ok line)
    (moving : Word.last? Word.mode? line.words = some mode) (turns : mode.sense? = some sense) :
    let axes := i.axes.named line.words
    match Arc.via i.arm.pose.position axes.target axes.radius sense with
    | .error e => (i.interpretLine source).1 = .error (.motion line.text mode (.geometry e))
    | .ok p => i.Issues source line mode
        (.circular (i.arm.pose.withPosition p) (i.arm.pose.withPosition axes.target)) := by
  intro axes
  have arc : mode.plan i.arm.pose axes = planArc sense i.arm.pose axes := by
    cases mode <;> cases turns <;> rfl
  cases found : Arc.via i.arm.pose.position axes.target axes.radius sense with
  | ok p => exact ⟨read, moving, arc.trans (MotionMode.planArc_eq_ok.mpr ⟨p, found, rfl⟩)⟩
  | error e =>
    have planned : mode.plan i.arm.pose axes = .error e := by
      rw [arc, planArc, found]
      rfl
    have ran : mode.dispatch i.arm axes i.config.wait = (.error (.geometry e), i.arm) := by
      unfold MotionMode.dispatch
      simp only [Arm.currentPose, planned]
    rw [interpretLine_of_read i read, perform_moving i moving ran]
    rfl

end Interpreter

/-! ## Runs -/

namespace SimulatedRun

/-- One step of a run: a line, or a fault armed for the next command. -/
inductive Step where
  | line (source : String)
  | failNext (error : ActuationError)

/-- What a run has seen of a step: a fault armed, or a line with the state it met and its answer. -/
inductive Entry where
  | armed (error : ActuationError)
  | answered (before : Interpreter SimulatedArm) (source : String) (result : LineResult)

namespace Entry

/-- The command that a step gave. -/
def command? : Entry → Option (MotionCommand Float)
  | armed _ => none
  | answered _ _ result => result.command?

/-- The step is a line that came as far as the arm. -/
def Issues : Entry → Prop
  | armed _ => False
  | answered before source _ => ∃ line mode command, before.Issues source line mode command

/-- The step neither arms a fault nor comes as far as the arm. -/
def Quiet : Entry → Prop
  | armed _ => False
  | answered before source _ => ¬ ∃ line mode command, before.Issues source line mode command

end Entry

/-- The state after a step. -/
def next (i : Interpreter SimulatedArm) : Step → Interpreter SimulatedArm
  | .line source => (i.interpretLine source).2
  | .failNext e => { i with arm := i.arm.failNext e }

/-- What is seen of a step. -/
def entry (i : Interpreter SimulatedArm) : Step → Entry
  | .line source => .answered i source (i.interpretLine source).1
  | .failNext e => .armed e

/-- The state after a run. -/
def run (i : Interpreter SimulatedArm) (steps : List Step) : Interpreter SimulatedArm :=
  steps.foldl next i

/-- What is seen of a run, in order. -/
def entries (i : Interpreter SimulatedArm) : List Step → List Entry
  | [] => []
  | step :: rest => entry i step :: entries (next i step) rest

/-- What is seen of a run, after the fault that the arm came with, if it came with one. -/
def history (i : Interpreter SimulatedArm) (steps : List Step) : List Entry :=
  i.arm.fault.toList.map Entry.armed ++ entries i steps

/-- A fault is armed: it was the last one armed, and no line came as far as the arm since. -/
def Armed (seen : List Entry) (e : ActuationError) : Prop :=
  ∃ earlier later, seen = earlier ++ .armed e :: later ∧ ∀ x ∈ later, x.Quiet

/-! ### The armed fault, step by step -/

/-- The last entry decides: an arming arms its fault, and a quiet entry leaves what was armed. -/
theorem armed_concat {seen : List Entry} {x : Entry} {e : ActuationError} :
    Armed (seen ++ [x]) e ↔ x = .armed e ∨ (x.Quiet ∧ Armed seen e) := by
  constructor
  · rintro ⟨earlier, later, split, quiet⟩
    rcases List.eq_nil_or_concat later with rfl | ⟨front, last, rfl⟩
    · exact .inl (List.append_inj_right' split rfl |> List.singleton_inj.mp)
    · rw [List.concat_eq_append] at split quiet
      rw [← List.cons_append, ← List.append_assoc] at split
      obtain ⟨rfl, same⟩ := List.append_inj' split rfl
      obtain rfl := List.singleton_inj.mp same
      refine .inr ⟨quiet x ?_, earlier, front, rfl, ?_⟩
      · exact List.mem_append_right _ (List.mem_singleton_self x)
      · exact fun y inside => quiet y (List.mem_append_left _ inside)
  · rintro (rfl | ⟨quiet, earlier, later, rfl, rest⟩)
    · exact ⟨seen, [], rfl, fun _ inside => by cases inside⟩
    · refine ⟨earlier, later ++ [x], by rw [List.append_assoc, List.cons_append], ?_⟩
      intro y inside
      rcases List.mem_append.mp inside with inside | inside
      · exact rest y inside
      · exact List.mem_singleton.mp inside ▸ quiet

theorem armed_concat_armed {seen : List Entry} {e e' : ActuationError} :
    Armed (seen ++ [.armed e']) e ↔ e' = e := by
  rw [armed_concat]
  constructor
  · rintro (same | ⟨quiet, _⟩)
    · exact Entry.armed.inj same
    · exact quiet.elim
  · rintro rfl
    exact .inl rfl

/-- Nothing is armed right after a line that came as far as the arm. -/
theorem not_armed_of_issues {seen : List Entry} {x : Entry} (issued : x.Issues)
    (e : ActuationError) : ¬ Armed (seen ++ [x]) e := by
  rw [armed_concat]
  rintro (rfl | ⟨quiet, _⟩)
  · exact issued
  · cases x with
    | armed _ => exact issued
    | answered _ _ _ => exact quiet issued

/-! ### The invariant -/

/-- The commands that a run has given, in order. -/
def commands (seen : List Entry) : List (MotionCommand Float) := seen.filterMap Entry.command?

theorem commands_concat_none {seen : List Entry} {x : Entry} (gave : x.command? = none) :
    commands (seen ++ [x]) = commands seen := by
  unfold commands
  rw [List.filterMap_append, List.filterMap_cons_none gave, List.filterMap_nil, List.append_nil]

theorem commands_concat_some {seen : List Entry} {x : Entry} {command : MotionCommand Float}
    (gave : x.command? = some command) : commands (seen ++ [x]) = commands seen ++ [command] := by
  unfold commands
  rw [List.filterMap_append, List.filterMap_cons_some gave, List.filterMap_nil]

/-- The arm is what the answers say: it holds a record of every command given and of no other,
stands at the target of the last one, and has armed what the last arming left. -/
structure Agrees (start : Interpreter SimulatedArm) (seen : List Entry)
    (i : Interpreter SimulatedArm) : Prop where
  config : i.config = start.config
  reachLimit : i.arm.reachLimit = start.arm.reachLimit
  records : i.arm.records.toList =
    (commands seen).map fun command => ⟨command, start.config.wait⟩
  pose : i.arm.pose = lastTarget start.arm.pose (commands seen)
  fault : ∀ e, i.arm.fault = some e ↔ Armed seen e

variable {start i after : Interpreter SimulatedArm} {seen : List Entry} {x : Entry}

/-- A run starts from an arm without records, with the fault that the arm came with. -/
theorem agrees_start (i : Interpreter SimulatedArm) (fresh : i.arm.records = #[]) :
    Agrees i (i.arm.fault.toList.map Entry.armed) i where
  config := rfl
  reachLimit := rfl
  records := by
    rw [fresh]
    cases i.arm.fault with
    | none => rfl
    | some e => rfl
  pose := by
    cases i.arm.fault with
    | none => rfl
    | some e => rfl
  fault e := by
    cases i.arm.fault with
    | none =>
      constructor
      · intro same
        cases same
      · rintro ⟨earlier, later, split, _⟩
        cases earlier <;> cases split
    | some e' =>
      show some e' = some e ↔ Armed ([] ++ [.armed e']) e
      rw [armed_concat_armed, Option.some.injEq]

/-- A step that gives no command and comes no further than the plan leaves the arm as it was. -/
theorem Agrees.quiet (h : Agrees start seen i) (kept : after.arm = i.arm)
    (config : after.config = i.config) (quiet : x.Quiet) (gave : x.command? = none) :
    Agrees start (seen ++ [x]) after where
  config := config.trans h.config
  reachLimit := by rw [kept]; exact h.reachLimit
  records := by rw [kept, commands_concat_none gave]; exact h.records
  pose := by rw [kept, commands_concat_none gave]; exact h.pose
  fault e := by
    rw [kept, h.fault e, armed_concat]
    constructor
    · exact fun armed => .inr ⟨quiet, armed⟩
    · rintro (rfl | ⟨_, armed⟩)
      · exact quiet.elim
      · exact armed

/-- A line that comes as far as the arm and is turned down there leaves nothing armed, and changes
nothing else of the arm. -/
theorem Agrees.turnedDown (h : Agrees start seen i)
    (spent : after.arm = { i.arm with fault := none }) (config : after.config = i.config)
    (issued : x.Issues) (gave : x.command? = none) : Agrees start (seen ++ [x]) after where
  config := config.trans h.config
  reachLimit := by rw [spent]; exact h.reachLimit
  records := by rw [spent, commands_concat_none gave]; exact h.records
  pose := by rw [spent, commands_concat_none gave]; exact h.pose
  fault e := by
    rw [spent]
    refine ⟨fun armed => ?_, fun armed => absurd armed (not_armed_of_issues issued e)⟩
    cases armed

/-- A line whose command is carried out adds its record, and the arm is at its target. -/
theorem Agrees.carriedOut (h : Agrees start seen i) {command : MotionCommand Float}
    (unarmed : i.arm.fault = none)
    (moved : after.arm = { i.arm with
      records := i.arm.records.push ⟨command, i.config.wait⟩
      pose := command.target })
    (config : after.config = i.config) (issued : x.Issues) (gave : x.command? = some command) :
    Agrees start (seen ++ [x]) after where
  config := config.trans h.config
  reachLimit := by rw [moved]; exact h.reachLimit
  records := by
    rw [moved, commands_concat_some gave, List.map_append, ← h.records, ← h.config]
    exact Array.toList_push
  pose := by rw [moved, commands_concat_some gave, lastTarget_concat]
  fault e := by
    rw [moved]
    refine ⟨fun armed => ?_, fun armed => absurd armed (not_armed_of_issues issued e)⟩
    rw [unarmed] at armed
    cases armed

/-- **One step keeps the agreement.** -/
theorem Agrees.next (h : Agrees start seen i) (step : Step) :
    Agrees start (seen ++ [entry i step]) (next i step) := by
  cases step with
  | failNext e =>
    refine ⟨h.config, h.reachLimit, ?_, ?_, ?_⟩
    · rw [commands_concat_none rfl]
      exact h.records
    · rw [commands_concat_none rfl]
      exact h.pose
    · intro e'
      show some e = some e' ↔ Armed (seen ++ [.armed e]) e'
      rw [armed_concat_armed, Option.some.injEq]
  | line source =>
    show Agrees start (seen ++ [.answered i source (i.interpretLine source).1])
      (i.interpretLine source).2
    rcases ran : i.interpretLine source with ⟨result, after⟩
    obtain ⟨went, config⟩ := Interpreter.lineStep ran
    generalize reached : after.arm = arm at went
    cases went with
    | refused read =>
      refine h.quiet reached config ?_ rfl
      rintro ⟨line, mode, command, accepted, _⟩
      rw [read] at accepted
      cases accepted
    | still read still =>
      refine h.quiet reached config ?_ ?_
      · rintro ⟨line, mode, command, accepted, moving, _⟩
        cases read.symm.trans accepted
        cases still.symm.trans moving
      · exact Interpreter.command?_stillReport _
    | unplanned read moving planned =>
      refine h.quiet reached config ?_ rfl
      rintro ⟨line, mode, command, accepted, moves, issued⟩
      cases read.symm.trans accepted
      cases moving.symm.trans moves
      cases planned.symm.trans issued
    | faulted issued armed => exact h.turnedDown reached config ⟨_, _, _, issued⟩ rfl
    | beyond issued unarmed far =>
      refine h.turnedDown ?_ config ⟨_, _, _, issued⟩ rfl
      rw [reached, ← unarmed]
    | moved issued unarmed near =>
      exact h.carriedOut unarmed reached config ⟨_, _, _, issued⟩ rfl

/-- **A whole run keeps the agreement.** -/
theorem agrees_run (h : Agrees start seen i) (steps : List Step) :
    Agrees start (seen ++ entries i steps) (run i steps) := by
  induction steps generalizing seen i with
  | nil =>
    unfold entries run
    rw [List.append_nil]
    exact h
  | cons step rest ih =>
    have later := ih (h.next step)
    rw [List.append_assoc] at later
    exact later

/-- **The log and the arm agree with the answers, over every run.** The records are the commands of
the lines that gave one, in order, each with the configured wait. The arm stands at the target of
the last one. Of the line after a run, whichever it is: an arc starts from there; a line that comes
as far as the arm answers the armed fault, or, where none is armed, by the reach and by nothing
else; and a line that does not come so far never answers a fault. -/
theorem run_agrees (i : Interpreter SimulatedArm) (fresh : i.arm.records = #[])
    (steps : List Step) (source : String) :
    let seen := history i steps
    let now := run i steps
    let here := lastTarget i.arm.pose (commands seen)
    let result := (now.interpretLine source).1
    now.arm.records.toList = (commands seen).map (fun command => ⟨command, i.config.wait⟩) ∧
    now.arm.pose = here ∧
    (∀ line mode sense, Line.read i.config.strict source = .ok line →
      Word.last? Word.mode? line.words = some mode → mode.sense? = some sense →
      let axes := now.axes.named line.words
      match Arc.via here.position axes.target axes.radius sense with
      | .error e => result = .error (.motion line.text mode (.geometry e))
      | .ok p => now.Issues source line mode
          (.circular (here.withPosition p) (here.withPosition axes.target))) ∧
    (∀ line mode command, now.Issues source line mode command →
      (∀ e, Armed seen e → result = .error (.motion line.text mode (.actuation e))) ∧
      ((∀ e, ¬ Armed seen e) → result =
        match SimulatedArm.refusal? i.arm.reachLimit command with
        | some e => .error (.motion line.text mode (.actuation e))
        | none => .ok ⟨.moved command, line.skipped⟩)) ∧
    ((¬ ∃ line mode command, now.Issues source line mode command) →
      ∀ text mode e, result ≠ .error (.motion text mode (.actuation e))) := by
  intro seen now here result
  have agrees : Agrees i seen now := agrees_run (agrees_start i fresh) steps
  refine ⟨agrees.records, agrees.pose, ?_, ?_, Interpreter.answer_of_not_issues⟩
  · intro line mode sense read moving turns
    rw [← agrees.config] at read
    have answered := Interpreter.answer_of_arc read moving turns
    rw [agrees.pose] at answered
    exact answered
  · intro line mode command issued
    have answered : result = _ := Interpreter.answer_of_issues issued
    constructor
    · intro e armed
      rw [answered, (agrees.fault e).mpr armed]
      rfl
    · intro unarmed
      have none : now.arm.fault = none :=
        Option.eq_none_iff_forall_ne_some.mpr fun e armed => unarmed e ((agrees.fault e).mp armed)
      rw [answered, none, agrees.reachLimit]
      rfl

/-- The first line meets the armed fault and the second moves: one record, and the arm at its
target. -/
theorem run_agrees_fault_then_move :
    let i := Interpreter.new (SimulatedArm.atPose Pose.identity)
    let steps : List Step := [.failNext (.communication "lost"), .line "G1 X10", .line "G1"]
    let moved : MotionCommand Float := .linear (Pose.identity.withPosition ⟨10.0, 0.0, 0.0⟩)
    i.arm.records = #[] ∧ commands (history i steps) = [moved] ∧
      (run i steps).arm.records.toList = [⟨moved, .blocking⟩] ∧
      (run i steps).arm.pose = moved.target := by
  intro i steps moved
  have gave : commands (history i steps) = [moved] := rfl
  obtain ⟨records, pose, _⟩ := run_agrees i rfl steps "G2 R5"
  rw [gave] at records pose
  exact ⟨rfl, gave, records, pose⟩

end SimulatedRun

end Toolpath
