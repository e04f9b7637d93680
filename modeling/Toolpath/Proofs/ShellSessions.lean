import Toolpath.Console.Shell
import Toolpath.Proofs.ProgramRuns

/-!
# Sessions of the shell

A session hands its lines to one interpreter, as a run does that keeps going. What the two differ in
is the commands of the shell, which a run would take for words. This module says that a session
without them is such a run, and that they leave no trace.

`commandName?` is how a line gives a command, and `quits` are the commands that end a session. A
session is taken as `fed`: every line is handled, blank ones too, up to the first that quits.

The law (`session_runs`): the lines before that one which are no commands are run as a program that
keeps going, and leave the interpreter and its arm as the session does. An answer is a failure where
the line gives a command that the shell does not have, or where the run fails at it, and for the
same. A session that passes over blank lines shows the same and leaves the same.
-/

namespace Toolpath

/-! ## Outer blanks -/

namespace Line

/-- Blanks at the start of a line do not count. -/
theorem strip_append_left {gap : List Char} (blank : Text.AllBlank gap) (cs : List Char) :
    strip (gap ++ cs) = strip cs := by
  have unmarked : ∀ c ∈ gap, (c != Word.commentMark) = true := by
    intro c present
    rw [bne_iff_ne]
    rintro rfl
    cases blank _ present
  have before : Text.before Word.commentMark (gap ++ cs) =
      gap ++ Text.before Word.commentMark cs := List.takeWhile_append_of_pos unmarked
  unfold strip
  rw [before]
  unfold Text.trim Text.trimStart
  rw [List.dropWhile_append_of_pos blank]

/-- Nor do outer blanks that are taken off before the comment is. -/
theorem strip_trim (cs : List Char) : strip (Text.trim cs) = strip cs := by
  have trimmed := Text.trimmed_trim cs
  generalize Text.trim cs = text at trimmed
  obtain ⟨before, after, _, _⟩ := trimmed
  rw [strip_append_left before, strip_append_right _ after]

end Line

namespace Interpreter

variable {ρ : Type} [Arm ρ] (i : Interpreter ρ)

theorem interpretLine_trim (source : String) :
    i.interpretLine (String.ofList (Text.trim source.toList)) = i.interpretLine source := by
  apply i.interpretLine_of_strip_eq
  rw [String.toList_ofList, Line.strip_trim]

/-- A line of blanks does nothing. -/
theorem interpretLine_blank {source : String} (blank : Text.trim source.toList = []) :
    i.interpretLine source = (.ok ⟨.blank, []⟩, i) := by
  rw [← interpretLine_trim, blank]
  unfold interpretLine
  have read : Line.read i.config.strict (String.ofList []) = .ok ⟨"", []⟩ := by
    cases i.config.strict <;> rfl
  rw [read]
  rfl

/-- A run that keeps going leaves what its lines leave, one after another. -/
theorem runLines_state (lines : List String) :
    (i.runLines true lines).2 = (i.interpretLines lines).2 := by
  obtain ⟨front, processes, ran⟩ := i.runFrom_eq true 1 lines
  cases processes with
  | goesOn => exact congrArg Prod.snd ran

end Interpreter

namespace Console.Shell

/-! ## Commands -/

/-- The name of the command that a line gives to the shell, if it gives one. -/
def commandName? (line : String) : Option String :=
  match Text.trim line.toList with
  | ':' :: name => some (String.ofList (Text.trim name))
  | _ => none

/-- The commands that end a session. -/
def quitNames : List String := ["quit", "exit", "q"]

/-- The commands that show something. -/
def showNames : List String := ["state", "pose", "help"]

/-- The line ends the session. -/
def quits (line : String) : Bool := (commandName? line).any (quitNames.contains ·)

/-- The lines of a session that are no commands, up to the line that ends it. -/
def programInputs (lines : List String) : List String :=
  (lines.takeWhile fun line => !quits line).filter fun line => (commandName? line).isNone

/-- A line gives a command where a colon is the first of it that is no blank. The name is what
follows, without the blanks around it. -/
theorem commandName?_eq_some {line name : String} : commandName? line = some name ↔
    ∃ rest, Text.Trimmed line.toList (':' :: rest) ∧ Text.Trimmed rest name.toList := by
  unfold commandName?
  constructor
  · intro found
    split at found
    next rest starts =>
      cases found
      refine ⟨rest, Text.trim_eq_iff.mp starts, ?_⟩
      rw [String.toList_ofList]
      exact Text.trimmed_trim rest
    next => cases found
  · rintro ⟨rest, colon, inner⟩
    rw [colon.trim_eq]
    simp [inner.trim_eq]

variable (i : Interpreter SimulatedArm)

/-! ## One line -/

theorem handle_of_command {line name : String} (named : commandName? line = some name) :
    handle i line = (command i name, i) := by
  unfold commandName? at named
  unfold handle
  cases trimmed : Text.trim line.toList with
  | nil => simp [trimmed] at named
  | cons c rest =>
    by_cases colon : c = ':'
    · subst colon
      simp only [trimmed, Option.some.injEq] at named
      rw [← named]
      rfl
    · simp [trimmed, colon] at named

/-- A line that is no command is interpreted, as it is with the blanks around it. -/
theorem handle_of_program {line : String} (plain : commandName? line = none) :
    handle i line =
      match i.interpretLine line with
      | (.error error, i) => (.failed (.program error), i)
      | (.ok report, i) => (.shown (outcomeLines i report), i) := by
  rw [← i.interpretLine_trim]
  unfold commandName? at plain
  unfold handle
  cases trimmed : Text.trim line.toList with
  | nil => rfl
  | cons c rest =>
    by_cases colon : c = ':'
    · simp [trimmed, colon] at plain
    · split
      next name same => exact absurd (List.cons.inj same).1 colon
      next => rcases i.interpretLine (String.ofList (c :: rest)) with ⟨_ | _, after⟩ <;> rfl

/-- The three kinds of commands: those that end the session, those that show something, and those
that the shell does not have. -/
inductive Commanded : String → Answer → Prop where
  | quit {name : String} (known : name ∈ quitNames) : Commanded name .quit
  | shown {name : String} (known : name ∈ showNames) (lines : List String) :
    Commanded name (.shown lines)
  | unknown {name : String} (other : name ∉ quitNames ++ showNames) :
    Commanded name (.failed (.unknownCommand name))

theorem command_commanded (name : String) : Commanded name (command i name) := by
  unfold command
  split
  case h_7 quit exit q state pose help =>
    exact .unknown (by simp only [quitNames, showNames]; grind)
  case h_4 | h_5 | h_6 => exact .shown (by simp [showNames]) _
  all_goals exact .quit (by simp [quitNames])

theorem command_eq_quit {name : String} : command i name = .quit ↔ name ∈ quitNames := by
  have commanded := command_commanded i name
  constructor
  · intro quit
    rw [quit] at commanded
    cases commanded with
    | quit known => exact known
  · intro known
    generalize command i name = answer at commanded
    cases commanded with
    | quit => rfl
    | shown other =>
      have apart : ∀ name ∈ quitNames, name ∉ showNames := by decide
      exact absurd other (apart name known)
    | unknown other => simp [known] at other

theorem command_eq_failed {name : String} {failure : LineFailure} :
    command i name = .failed failure ↔
      name ∉ quitNames ++ showNames ∧ failure = .unknownCommand name := by
  have commanded := command_commanded i name
  constructor
  · intro failed
    rw [failed] at commanded
    cases commanded with
    | unknown other => exact ⟨other, rfl⟩
  · rintro ⟨other, rfl⟩
    generalize command i name = answer at commanded
    cases commanded with
    | quit known => simp [known] at other
    | shown known => simp [known] at other
    | unknown => rfl

/-- A line ends the session where it gives one of the commands that do. -/
theorem handle_eq_quit {line : String} : (handle i line).1 = .quit ↔ quits line = true := by
  unfold quits
  cases named : commandName? line with
  | some name =>
    rw [handle_of_command i named, command_eq_quit]
    simp
  | none =>
    rw [handle_of_program i named]
    rcases i.interpretLine line with ⟨_ | _, after⟩ <;> simp

/-- **A line fails where it gives a command that there is none of, or its program line fails.** -/
theorem handle_eq_failed {line : String} {failure : LineFailure} :
    (handle i line).1 = .failed failure ↔
      (∃ name, commandName? line = some name ∧ name ∉ quitNames ++ showNames ∧
        failure = .unknownCommand name) ∨
      commandName? line = none ∧
        ∃ error, (i.interpretLine line).1 = .error error ∧ failure = .program error := by
  cases named : commandName? line with
  | some name =>
    rw [handle_of_command i named, command_eq_failed]
    simp
  | none =>
    rw [handle_of_program i named]
    rcases i.interpretLine line with ⟨_ | _, after⟩ <;> simp [eq_comm]

/-! ## Sessions -/

/-- Lines handled one after another, up to the first that quits, each with its answer. -/
def fed (i : Interpreter SimulatedArm) : List String → List Answer × Interpreter SimulatedArm
  | [] => ([], i)
  | line :: rest =>
    let (answer, i) := handle i line
    if answer = .quit then ([answer], i)
    else
      let (answers, i) := fed i rest
      (answer :: answers, i)

theorem fed_quit {line : String} (quit : quits line = true) (rest : List String) :
    fed i (line :: rest) = ([.quit], (handle i line).2) := by
  have answer := (handle_eq_quit i).mpr quit
  unfold fed
  simp only [answer, if_true]

theorem fed_cons {line : String} (stays : quits line = false) (rest : List String) :
    fed i (line :: rest) =
      ((handle i line).1 :: (fed (handle i line).2 rest).1, (fed (handle i line).2 rest).2) := by
  have answer : (handle i line).1 ≠ .quit := by
    rw [Ne, handle_eq_quit, stays]
    exact Bool.false_ne_true
  conv => lhs; unfold fed
  simp only [answer, if_false]

theorem command_of_quits {line : String} (quit : quits line = true) :
    ∃ name, commandName? line = some name := by
  obtain ⟨name, named, _⟩ := (Option.any_eq_true _ _).mp quit
  exact ⟨name, named⟩

/-- **Sessions and runs are in step**: what a session leaves is what its program lines leave. -/
theorem fed_state (lines : List String) :
    (fed i lines).2 = (i.interpretLines (programInputs lines)).2 := by
  induction lines generalizing i with
  | nil => rfl
  | cons line rest ih =>
    cases quit : quits line with
    | true =>
      obtain ⟨name, named⟩ := command_of_quits quit
      rw [fed_quit i quit, handle_of_command i named]
      simp [programInputs, quit, Interpreter.interpretLines]
    | false =>
      rw [fed_cons i quit, ih]
      cases named : commandName? line with
      | some name =>
        rw [handle_of_command i named]
        simp [programInputs, quit, named]
      | none =>
        have inputs : programInputs (line :: rest) = line :: programInputs rest := by
          simp [programInputs, quit, named]
        rw [inputs, Interpreter.interpretLines_cons, handle_of_program i named]
        rcases i.interpretLine line with ⟨_ | _, after⟩ <;> rfl

/-- The answer to each line of a session is the answer in the state that the program lines before it
leave. -/
theorem getElem?_fed {earlier : List String} (stays : ∀ line ∈ earlier, quits line = false)
    (line : String) (rest : List String) : (fed i (earlier ++ line :: rest)).1[earlier.length]? =
      some (handle (i.interpretLines (programInputs earlier)).2 line).1 := by
  rw [← fed_state]
  induction earlier generalizing i with
  | nil =>
    cases quit : quits line with
    | true =>
      rw [List.nil_append, fed_quit i quit, ← (handle_eq_quit i).mpr quit]
      rfl
    | false =>
      rw [List.nil_append, fed_cons i quit]
      rfl
  | cons first earlier ih =>
    obtain ⟨here, later⟩ := List.forall_mem_cons.mp stays
    rw [List.cons_append, fed_cons i here, fed_cons i here]
    exact ih (handle i first).2 later

theorem length_fed (lines : List String) :
    (fed i lines).1.length =
      min lines.length ((lines.takeWhile fun line => !quits line).length + 1) := by
  induction lines generalizing i with
  | nil => rfl
  | cons line rest ih =>
    cases quit : quits line with
    | true => simp [fed_quit i quit, quit]
    | false =>
      rw [fed_cons i quit, List.length_cons, ih]
      simp [quit]

/-! ## Blank lines -/

/-- A blank line is shown nothing, and leaves everything as it is. -/
theorem handle_blank {line : String} (blank : Text.trim line.toList = []) :
    handle i line = (.shown [], i) := by
  have plain : commandName? line = none := by
    unfold commandName?
    rw [blank]
  rw [handle_of_program i plain, i.interpretLine_blank blank]
  rfl

theorem session_blank {line : String} (blank : Text.trim line.toList = []) (rest : List String) :
    session i (line :: rest) = session i rest := by
  conv => lhs; unfold session
  rw [blank]
  rfl

/-- **A session that passes over blank lines** shows the same, and leaves the same. -/
theorem session_eq (lines : List String) :
    session i lines =
      ((List.zipWith (fun line answer => answer.output line) lines (fed i lines).1).flatten,
        (fed i lines).2) := by
  induction lines generalizing i with
  | nil => rfl
  | cons line rest ih =>
    by_cases blank : Text.trim line.toList = []
    · have stays : quits line = false := by
        rw [← Bool.not_eq_true, ← handle_eq_quit i, handle_blank i blank]
        exact Answer.noConfusion
      rw [session_blank i blank, fed_cons i stays, handle_blank i blank, ih]
      rfl
    · have filled : (Text.trim line.toList).isEmpty = false := by simpa using blank
      conv => lhs; unfold session
      rw [filled]
      cases quit : quits line with
      | true =>
        have answer := (handle_eq_quit i).mpr quit
        rw [fed_quit i quit]
        rcases ran : handle i line with ⟨_, after⟩
        rw [ran] at answer
        subst answer
        simp [Answer.output]
      | false =>
        have answer : (handle i line).1 ≠ .quit := by
          rw [Ne, handle_eq_quit, quit]
          exact Bool.false_ne_true
        rw [fed_cons i quit]
        rcases ran : handle i line with ⟨said, after⟩
        rw [ran] at answer
        cases said with
        | quit => exact absurd rfl answer
        | shown | failed => simp [ih]

/-! ## The law -/

/-- **A session is a run that keeps going.** The lines that are no commands, up to the first that
quits, come to the same interpreter and arm as a run of them, and the answer to each line is given
in the state that such a run of the lines before it leaves. A command gives its name after a colon,
and changes nothing. A line fails where it gives a name that the shell does not have, or where the
run fails at it, and it quits where it gives one of three names. Passing over blank lines makes no
difference to what is shown and what is left. -/
theorem session_runs (i : Interpreter SimulatedArm) :
    (∀ lines, (fed i lines).2 = (i.runLines true (programInputs lines)).2) ∧
    (∀ earlier line rest, (∀ other ∈ earlier, quits other = false) →
      (fed i (earlier ++ line :: rest)).1[earlier.length]? =
        some (handle (i.runLines true (programInputs earlier)).2 line).1) ∧
    (∀ lines, (fed i lines).1.length =
      min lines.length ((lines.takeWhile fun line => !quits line).length + 1)) ∧
    (∀ line name, commandName? line = some name ↔
      ∃ rest, Text.Trimmed line.toList (':' :: rest) ∧ Text.Trimmed rest name.toList) ∧
    (∀ line, quits line = true ↔
      ∃ name, commandName? line = some name ∧ name ∈ ["quit", "exit", "q"]) ∧
    (∀ line name, commandName? line = some name → (handle i line).2 = i) ∧
    (∀ line failure, (handle i line).1 = .failed failure ↔
      (∃ name, commandName? line = some name ∧
        name ∉ ["quit", "exit", "q", "state", "pose", "help"] ∧ failure = .unknownCommand name) ∨
      commandName? line = none ∧
        ∃ error, (i.interpretLine line).1 = .error error ∧ failure = .program error) ∧
    (∀ line, (handle i line).1 = .quit ↔ quits line = true) ∧
    ∀ lines, session i lines =
      ((List.zipWith (fun line answer => answer.output line) lines (fed i lines).1).flatten,
        (fed i lines).2) := by
  refine ⟨?_, ?_, length_fed i, fun line name => commandName?_eq_some, ?_, ?_, ?_,
    fun line => handle_eq_quit i, session_eq i⟩
  · intro lines
    rw [fed_state, i.runLines_state]
  · intro earlier line rest stays
    rw [getElem?_fed i stays, i.runLines_state]
  · intro line
    simp [quits, quitNames, Option.any_eq_true]
  · intro line name named
    rw [handle_of_command i named]
  · intro line failure
    exact handle_eq_failed i

/-- A session with a command of each kind, and with lines after the one that quits. One of its
program lines fails, and what it did before its motion failed stays done. -/
theorem session_runs_every_kind :
    let i := Interpreter.new (SimulatedArm.atPose Pose.identity)
    let earlier := [" : state ", "G0 X5", ":bogus", "G2 X9 R1"]
    let lines := earlier ++ [" ; note", "\t: quit ", "G0 X7"]
    commandName? " : state " = some "state" ∧ (handle i " : state ").2 = i ∧
    (handle i ":bogus").1 = .failed (.unknownCommand "bogus") ∧
    programInputs lines = ["G0 X5", "G2 X9 R1", " ; note"] ∧
    (fed i lines).1.length = 6 ∧ (fed i lines).1[4]? = some (.shown []) ∧
    (fed i lines).2.axes = ⟨9.0, 0.0, 0.0, 1.0⟩ ∧ (fed i lines).2.arm.records.size = 1 := by
  intro i earlier lines
  have named : commandName? " : state " = some "state" := by decide +kernel
  have bogus : commandName? ":bogus" = some "bogus" := by decide +kernel
  have stays : ∀ line ∈ earlier, quits line = false := by decide +kernel
  have inputs : programInputs lines = ["G0 X5", "G2 X9 R1", " ; note"] := by decide +kernel
  obtain ⟨state, answers, count, _, _, keeps, fails, _, _⟩ := session_runs i
  refine ⟨named, keeps _ _ named, ?_, inputs, ?_, ?_, ?_, ?_⟩
  · exact (fails _ _).mpr (.inl ⟨_, bogus, by decide, rfl⟩)
  · rw [count]
    decide +kernel
  · have note := answers earlier " ; note" ["\t: quit ", "G0 X7"] stays
    exact note.trans (by decide +kernel)
  · rw [state, inputs]
    decide +kernel
  · rw [state, inputs]
    decide +kernel

end Console.Shell

end Toolpath
