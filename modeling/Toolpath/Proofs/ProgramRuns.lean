import Toolpath.Console.Answer
import Toolpath.Console.MemoryDisk
import Toolpath.Proofs.ArmIndependence
import Toolpath.Proofs.LineGrammar
import Toolpath.Proofs.SimulatedRun

/-!
# Runs of programs and their summaries

A run that keeps going processes every line of its program; another one ends with the first line
that fails. `Interpreter.Processes` says which lines those are, without the loop that finds them.
All that a run holds follows from these lines alone (`runFrom_eq`): its answers are those of the
lines interpreted in order, numbered, and its interpreter is the one that they leave.

The law (`run_accounts`): the summary counts the lines processed, and the records that the arm has
gained. Its failures are the processed lines that failed, each with its own number and wording, in
order, and the run is reported a success where there are none. A program in a file is run as its
lines are, and the lines of a file hold no line feed. A file that holds a line feed after each of
some lines is run as they are.
-/

namespace Toolpath

namespace Text

/-! ## Lines of a text -/

section Lines

variable {β : Type} [DecidableEq β] {feed ret : β}

/-- What is dropped is one mark at the end, if anything is. -/
theorem dropReturn_cases (ret : β) (line : List β) :
    dropReturn ret line = line ∨ line = dropReturn ret line ++ [ret] := by
  induction line with
  | nil => exact .inl rfl
  | cons b rest ih =>
    cases rest with
    | nil =>
      by_cases same : b = ret
      · exact .inr (by simp [dropReturn, same])
      · exact .inl (if_neg same)
    | cons c rest =>
      rcases ih with kept | dropped
      · exact .inl (congrArg (b :: ·) kept)
      · exact .inr (congrArg (b :: ·) dropped)

theorem linesFrom_append {line : List β} (unbroken : feed ∉ line) (read rest : List β) :
    linesFrom feed ret read (line ++ feed :: rest) =
      dropReturn ret (read.reverse ++ line) :: linesFrom feed ret [] rest := by
  induction line generalizing read with
  | nil =>
    rw [List.nil_append, List.append_nil]
    cases read <;> exact if_pos rfl
  | cons b line ih =>
    have other : feed ≠ b := List.ne_of_not_mem_cons unbroken
    have later : feed ∉ line := List.not_mem_of_not_mem_cons unbroken
    have next : linesFrom feed ret read (b :: (line ++ feed :: rest)) =
        linesFrom feed ret (b :: read) (line ++ feed :: rest) := by
      cases read <;> exact if_neg (Ne.symm other)
    rw [List.cons_append, next, ih later, List.reverse_cons, List.append_assoc,
      List.singleton_append]

/-- No line of a text holds the mark that ends lines. -/
theorem unbroken_of_mem_linesFrom {read rest : List β} (before : feed ∉ read) :
    ∀ line ∈ linesFrom feed ret read rest, feed ∉ line := by
  induction rest generalizing read with
  | nil =>
    cases read with
    | nil => exact nofun
    | cons b read =>
      refine List.forall_mem_singleton.mpr ?_
      rwa [List.mem_reverse]
  | cons b rest ih =>
    by_cases ends : b = feed
    · have here : linesFrom feed ret read (b :: rest) =
          dropReturn ret read.reverse :: linesFrom feed ret [] rest := by
        cases read <;> exact if_pos ends
      rw [here]
      refine List.forall_mem_cons.mpr ⟨fun present => before ?_, ih List.not_mem_nil⟩
      rcases dropReturn_cases ret read.reverse with kept | dropped
      · rwa [kept, List.mem_reverse] at present
      · rw [← List.mem_reverse, dropped]
        exact List.mem_append_left _ present
    · have next : linesFrom feed ret read (b :: rest) = linesFrom feed ret (b :: read) rest := by
        cases read <;> exact if_neg ends
      rw [next]
      exact ih (List.not_mem_cons_of_ne_of_not_mem (Ne.symm ends) before)

end Lines

/-- The lines of a text that ends each of some lines with a line feed. -/
theorem lines_flatMap {lines : List (List Char)} (unbroken : ∀ line ∈ lines, '\n' ∉ line) :
    Text.lines (lines.flatMap (· ++ ['\n'])) = lines.map (dropReturn '\r') := by
  unfold Text.lines
  induction lines with
  | nil => rfl
  | cons line lines ih =>
    obtain ⟨first, others⟩ := List.forall_mem_cons.mp unbroken
    rw [List.flatMap_cons, List.append_assoc, List.singleton_append, linesFrom_append first,
      ih others]
    rfl

end Text

/-! ## What a run processes -/

namespace Interpreter

variable {ρ : Type} [Arm ρ]

/-- Every line of a program succeeds. -/
def Passes (i : Interpreter ρ) (lines : List String) : Prop :=
  ∀ result ∈ (i.interpretLines lines).1, result.isOk = true

/-- A line comes to an answer, after lines that may change what is kept. -/
def Answers (i : Interpreter ρ) (earlier : List String) (source : String) (result : LineResult) :
    Prop :=
  ((i.interpretLines earlier).2.interpretLine source).1 = result

/-- The lines of a program that a run processes. All of them, if it keeps going or none fails; else
those up to the first that fails, which is the last one processed. -/
inductive Processes (i : Interpreter ρ) : Bool → List String → List String → Prop where
  | goesOn (lines : List String) : Processes i true lines lines
  | passes {lines : List String} (pass : i.Passes lines) : Processes i false lines lines
  | stops {earlier : List String} {source : String} {error : InterpreterError}
    (pass : i.Passes earlier) (fails : i.Answers earlier source (.error error))
    (rest : List String) :
    Processes i false (earlier ++ source :: rest) (earlier ++ [source])

theorem runFrom_cons (i : Interpreter ρ) (keepGoing : Bool) (number : Nat) (source : String)
    (rest : List String) : i.runFrom keepGoing number (source :: rest) =
      if keepGoing || (i.interpretLine source).1.isOk then
        (⟨number, (i.interpretLine source).1⟩ ::
            ((i.interpretLine source).2.runFrom keepGoing (number + 1) rest).1,
          ((i.interpretLine source).2.runFrom keepGoing (number + 1) rest).2)
      else ([⟨number, (i.interpretLine source).1⟩], (i.interpretLine source).2) := rfl

/-- Answers in order, numbered from a number on. -/
def numbered (number : Nat) (results : List LineResult) : List ProcessedLine :=
  (results.zipIdx number).map fun (result, number) => ⟨number, result⟩

theorem numbered_cons (number : Nat) (result : LineResult) (results : List LineResult) :
    numbered number (result :: results) = ⟨number, result⟩ :: numbered (number + 1) results := rfl

theorem map_result_numbered (number : Nat) (results : List LineResult) :
    (numbered number results).map ProcessedLine.result = results := by
  unfold numbered
  rw [List.map_map]
  exact List.zipIdx_map_fst number results

/-- An answer has the number of its place, counted from the number of the first. -/
theorem mem_numbered {number : Nat} {results : List LineResult} {line : ProcessedLine} :
    line ∈ numbered number results ↔
      number ≤ line.number ∧ results[line.number - number]? = some line.result := by
  rw [← List.mk_mem_zipIdx_iff_le_and_getElem?_sub]
  unfold numbered
  rw [List.mem_map]
  constructor
  · rintro ⟨_, present, rfl⟩
    exact present
  · exact fun present => ⟨_, present, rfl⟩

theorem numbered_pairwise (number : Nat) (results : List LineResult) :
    (numbered number results).Pairwise fun earlier later => earlier.number < later.number := by
  have rising : ((numbered number results).map ProcessedLine.number).Pairwise (· < ·) := by
    unfold numbered
    rw [List.map_map]
    show ((results.zipIdx number).map Prod.snd).Pairwise (· < ·)
    rw [List.zipIdx_map_snd]
    exact List.pairwise_lt_range'
  exact List.pairwise_map.mp rising

theorem passes_nil (i : Interpreter ρ) : i.Passes [] := fun _ present => nomatch present

/-- A program passes where its first line does, and the rest after it. -/
theorem Passes.cons {i : Interpreter ρ} {source : String} {lines : List String}
    (first : (i.interpretLine source).1.isOk = true)
    (later : (i.interpretLine source).2.Passes lines) : i.Passes (source :: lines) := by
  unfold Passes
  rw [interpretLines_cons]
  exact List.forall_mem_cons.mpr ⟨first, later⟩

/-- What a line comes to is the same with the first line already interpreted. -/
theorem answers_cons {i : Interpreter ρ} {first source : String} {earlier : List String}
    {result : LineResult} : i.Answers (first :: earlier) source result ↔
      (i.interpretLine first).2.Answers earlier source result := by
  unfold Answers
  rw [interpretLines_cons]

/-- What is processed after a line that does not end the run. -/
theorem Processes.cons {i : Interpreter ρ} {keepGoing : Bool} {source : String}
    {lines front : List String} (on : keepGoing = true ∨ (i.interpretLine source).1.isOk = true)
    (later : (i.interpretLine source).2.Processes keepGoing lines front) :
    i.Processes keepGoing (source :: lines) (source :: front) := by
  cases later with
  | goesOn => exact .goesOn _
  | passes pass => exact .passes (pass.cons (on.resolve_left nofun))
  | stops pass fails rest =>
    exact .stops (pass.cons (on.resolve_left nofun)) (answers_cons.mpr fails) rest

/-- **A run is the lines that it processes**, interpreted in order, with their answers numbered. -/
theorem runFrom_eq (i : Interpreter ρ) (keepGoing : Bool) (number : Nat) (lines : List String) :
    ∃ front, i.Processes keepGoing lines front ∧ i.runFrom keepGoing number lines =
      (numbered number (i.interpretLines front).1, (i.interpretLines front).2) := by
  induction lines generalizing i number with
  | nil =>
    cases keepGoing with
    | true => exact ⟨[], .goesOn [], rfl⟩
    | false => exact ⟨[], .passes i.passes_nil, rfl⟩
  | cons source lines ih =>
    by_cases on : keepGoing = true ∨ (i.interpretLine source).1.isOk = true
    · obtain ⟨front, processes, ran⟩ := ih (i.interpretLine source).2 (number + 1)
      refine ⟨source :: front, processes.cons on, ?_⟩
      rw [interpretLines_cons, numbered_cons, runFrom_cons, ran]
      exact if_pos (Bool.or_eq_true_iff.mpr on)
    · cases keepGoing with
      | true => exact absurd (.inl rfl) on
      | false =>
        cases answered : (i.interpretLine source).1 with
        | ok report => exact absurd (.inr (by rw [answered]; rfl)) on
        | error error =>
          have first : i.Answers [] source (.error error) := answered
          refine ⟨[source], .stops i.passes_nil first lines, ?_⟩
          rw [interpretLines_cons, numbered_cons, runFrom_cons, answered]
          rfl

/-- The answers of a program, each with how many lines come before its line. -/
theorem getElem?_interpretLines {i : Interpreter ρ} {lines : List String} {k : Nat}
    {result : LineResult} : (i.interpretLines lines).1[k]? = some result ↔
      ∃ earlier source rest, lines = earlier ++ source :: rest ∧ earlier.length = k ∧
        i.Answers earlier source result := by
  induction lines generalizing i k with
  | nil =>
    refine ⟨nofun, ?_⟩
    rintro ⟨earlier, source, rest, split, _⟩
    cases earlier <;> cases split
  | cons first lines ih =>
    rw [interpretLines_cons]
    cases k with
    | zero =>
      constructor
      · intro here
        exact ⟨[], first, lines, rfl, rfl, Option.some.inj here⟩
      · rintro ⟨earlier, source, rest, split, zero, answers⟩
        obtain rfl := List.eq_nil_of_length_eq_zero zero
        cases split
        exact congrArg some answers
    | succ k =>
      rw [List.getElem?_cons_succ, ih]
      constructor
      · rintro ⟨earlier, source, rest, rfl, rfl, answers⟩
        exact ⟨first :: earlier, source, rest, rfl, rfl, answers_cons.mpr answers⟩
      · rintro ⟨_ | ⟨_, earlier⟩, source, rest, split, count, answers⟩
        · cases count
        · cases split
          exact ⟨earlier, source, rest, rfl, Nat.succ.inj count, answers_cons.mp answers⟩

theorem length_interpretLines (i : Interpreter ρ) (lines : List String) :
    (i.interpretLines lines).1.length = lines.length := by
  induction lines generalizing i with
  | nil => rfl
  | cons source lines ih =>
    rw [interpretLines_cons, List.length_cons, List.length_cons, ih]

end Interpreter

/-! ## What the summary says -/

namespace RunSummary

/-- The failures of a summary in words, each with the number of its line. -/
def failureTexts (summary : RunSummary) : List (Nat × String) :=
  summary.failed.map fun (number, error) => (number, error.message)

theorem mem_failureTexts {summary : RunSummary} {number : Nat} {text : String} :
    (number, text) ∈ summary.failureTexts ↔
      ∃ error, (number, error) ∈ summary.failed ∧ text = error.message := by
  unfold failureTexts
  rw [List.mem_map]
  constructor
  · rintro ⟨⟨_, error⟩, listed, ⟨⟩⟩
    exact ⟨error, listed, rfl⟩
  · rintro ⟨error, listed, rfl⟩
    exact ⟨_, listed, rfl⟩

open Interpreter (numbered)

theorem lines_numbered (number : Nat) (results : List LineResult) :
    (ofLines (numbered number results)).lines = results.length := by
  unfold ofLines numbered
  rw [List.length_map, List.length_zipIdx]

/-- The commands counted are those that the answers hold. -/
theorem moves_numbered (number : Nat) (results : List LineResult) :
    (ofLines (numbered number results)).moves = (results.filterMap LineResult.command?).length := by
  unfold ofLines
  dsimp only
  have same : (numbered number results).filterMap ProcessedLine.command? =
      results.filterMap LineResult.command? := by
    induction results generalizing number with
    | nil => rfl
    | cons result results ih =>
      rw [Interpreter.numbered_cons, List.filterMap_cons, List.filterMap_cons, ih]
      cases result <;> rfl
  rw [same]

theorem failure?_eq_some {line : ProcessedLine} {number : Nat} {error : InterpreterError} :
    line.failure? = some (number, error) ↔ line = ⟨number, .error error⟩ := by
  obtain ⟨_, result⟩ := line
  constructor
  · intro failure
    cases result with
    | ok report => cases failure
    | error cause =>
      cases failure
      rfl
  · rintro ⟨⟩
    rfl

/-- A failure is listed with the place of its answer, counted from the number of the first. -/
theorem mem_failed_numbered {number k : Nat} {results : List LineResult}
    {error : InterpreterError} : (k, error) ∈ (ofLines (numbered number results)).failed ↔
      number ≤ k ∧ results[k - number]? = some (.error error) := by
  unfold ofLines
  dsimp only
  rw [List.mem_filterMap]
  constructor
  · rintro ⟨line, present, failure⟩
    obtain rfl := failure?_eq_some.mp failure
    exact Interpreter.mem_numbered.mp present
  · intro found
    exact ⟨⟨k, .error error⟩, Interpreter.mem_numbered.mpr found, rfl⟩

/-- The numbers of the failures rise. -/
theorem failed_numbered_pairwise (number : Nat) (results : List LineResult) :
    (ofLines (numbered number results)).failed.Pairwise fun one other => one.1 < other.1 := by
  refine (Interpreter.numbered_pairwise number results).filterMap _ ?_
  rintro earlier later less ⟨k, error⟩ failed ⟨l, cause⟩ failedLater
  obtain rfl := failure?_eq_some.mp failed
  obtain rfl := failure?_eq_some.mp failedLater
  exact less

/-- A summary without failures is one of answers that are none. -/
theorem failed_numbered_eq_nil (number : Nat) {results : List LineResult} :
    (ofLines (numbered number results)).failed = [] ↔ ∀ result ∈ results, result.isOk = true := by
  constructor
  · intro none result present
    cases result with
    | ok report => rfl
    | error error =>
      obtain ⟨k, found⟩ := List.getElem?_of_mem present
      have listed : (number + k, error) ∈ (ofLines (numbered number results)).failed :=
        mem_failed_numbered.mpr ⟨Nat.le_add_right .., by rwa [Nat.add_sub_cancel_left]⟩
      rw [none] at listed
      cases listed
  · intro allOk
    refine List.eq_nil_iff_forall_not_mem.mpr ?_
    rintro ⟨k, error⟩ listed
    obtain ⟨_, found⟩ := mem_failed_numbered.mp listed
    cases allOk _ (List.mem_of_getElem? found)

end RunSummary

/-! ## The arm's records -/

namespace Interpreter

/-- The arm writes down the command of a line, if the line gives one, and nothing else. -/
theorem interpretLine_records (i : Interpreter SimulatedArm) (source : String) :
    (i.interpretLine source).2.arm.records.toList = i.arm.records.toList ++
      (i.interpretLine source).1.command?.toList.map fun command => ⟨command, i.config.wait⟩ := by
  rcases ran : i.interpretLine source with ⟨result, after⟩
  obtain ⟨went, _⟩ := lineStep ran
  dsimp only
  generalize after.arm = arm at went
  cases went with
  | refused | unplanned | faulted | beyond => exact (List.append_nil _).symm
  | still =>
    rw [command?_stillReport]
    exact (List.append_nil _).symm
  | moved => exact Array.toList_push

/-- The arm writes down the commands that lines give, in order, and nothing else. -/
theorem interpretLines_records (i : Interpreter SimulatedArm) (lines : List String) :
    (i.interpretLines lines).2.arm.records.toList = i.arm.records.toList ++
      ((i.interpretLines lines).1.filterMap LineResult.command?).map
        fun command => ⟨command, i.config.wait⟩ := by
  induction lines generalizing i with
  | nil => exact (List.append_nil _).symm
  | cons source lines ih =>
    have config : (i.interpretLine source).2.config = i.config := (lineStep rfl).2
    rw [interpretLines_cons]
    dsimp only
    rw [ih, interpretLine_records, config, List.append_assoc, ← List.map_append,
      List.filterMap_cons]
    cases (i.interpretLine source).1.command? with
    | none => rfl
    | some command => rfl

end Interpreter

/-! ## Programs in files -/

namespace Line

/-- The carriage return before a line feed does not count. -/
theorem strip_dropReturn (cs : List Char) : strip (Text.dropReturn '\r' cs) = strip cs := by
  rcases Text.dropReturn_cases '\r' cs with kept | dropped
  · rw [kept]
  · have blank : Text.AllBlank ['\r'] := by decide
    have whole := strip_append_right (Text.dropReturn '\r' cs) blank
    rw [← dropped] at whole
    exact whole.symm

end Line

namespace Interpreter

/-- No line of a text holds a line feed. -/
theorem unbroken_programLines (text : String) : ∀ line ∈ programLines text, '\n' ∉ line.toList := by
  unfold programLines
  refine List.forall_mem_map.mpr fun line present => ?_
  rw [String.toList_ofList]
  exact Text.unbroken_of_mem_linesFrom List.not_mem_nil line present

/-- The text that ends each of some lines with a line feed. -/
def written (lines : List String) : String := String.join (lines.map (· ++ "\n"))

theorem programLines_written {lines : List String} (unbroken : ∀ line ∈ lines, '\n' ∉ line.toList) :
    programLines (written lines) =
      lines.map fun line => String.ofList (Text.dropReturn '\r' line.toList) := by
  have chars : (written lines).toList = (lines.map String.toList).flatMap (· ++ ['\n']) := by
    unfold written
    rw [String.toList_join, List.flatMap_map, List.flatMap_map]
    exact List.flatMap_congr fun line _ => String.toList_append
  unfold programLines
  rw [chars, Text.lines_flatMap (List.forall_mem_map.mpr unbroken), List.map_map, List.map_map]
  rfl

variable {ρ : Type} [Arm ρ]

/-- What is done for a line hangs on its text without comment and outer blanks. -/
theorem interpretLine_of_strip_eq (i : Interpreter ρ) {source other : String}
    (same : Line.strip source.toList = Line.strip other.toList) :
    i.interpretLine source = i.interpretLine other := by
  unfold interpretLine Line.read
  rw [same]

theorem runFrom_of_strip_eq (i : Interpreter ρ) (keepGoing : Bool) (number : Nat)
    {lines others : List String}
    (same : List.Forall₂ (fun source other => Line.strip source.toList = Line.strip other.toList)
      lines others) : i.runFrom keepGoing number lines = i.runFrom keepGoing number others := by
  induction same generalizing i number with
  | nil => rfl
  | cons here _ ih => rw [runFrom_cons, runFrom_cons, interpretLine_of_strip_eq i here, ih]

/-- A program that is written line by line runs as its lines do. -/
theorem runLines_written (i : Interpreter ρ) (keepGoing : Bool) {lines : List String}
    (unbroken : ∀ line ∈ lines, '\n' ∉ line.toList) :
    i.runLines keepGoing (programLines (written lines)) = i.runLines keepGoing lines := by
  rw [programLines_written unbroken]
  refine runFrom_of_strip_eq i keepGoing 1 ?_
  rw [List.forall₂_map_left_iff, List.forall₂_same]
  intro line _
  rw [String.toList_ofList, Line.strip_dropReturn]

end Interpreter

/-! ## The law -/

namespace Console

section File

variable {σ : Type} [Disk (StateM σ)] {config usual : Option String} {world configured : σ}
  {setup : Setup}

/-- What is done with settings is done where they can be resolved. -/
theorem withSetup_run [Decoding] [Toml.Library] (use : Setup → StateM σ Outcome)
    (resolved : (Setup.resolve config usual : StateM σ (Except Failure Setup)).run world =
      (.ok setup, configured)) :
    (withSetup config usual use).run world = (use setup).run configured := by
  unfold withSetup
  rw [StateT.run_bind, resolved]
  rfl

/-- A file that can be read is run as its lines. -/
theorem runFile_run {i : Interpreter SimulatedArm} {path text : String} {read : σ}
    (keepGoing : Bool)
    (found : (Disk.read path : StateM σ (Except DiskError String)).run configured =
      (.ok text, read)) :
    (runFile (.ok i) path keepGoing : StateM σ Outcome).run configured =
      ((runOutcome i keepGoing (Interpreter.programLines text) fun i => [axesReport i]).after
        [say ("📜 加载程序: " ++ path)], read) := by
  unfold runFile
  dsimp only
  rw [StateT.run_bind, found]
  rfl

end File

/-- A run succeeds where no line is listed as failed. -/
theorem runResult_eq_ok {summary : RunSummary} :
    runResult summary = .ok () ↔ summary.failed = [] := by
  unfold runResult RunSummary.succeeded
  cases summary.failed with
  | nil => exact ⟨fun _ => rfl, fun _ => rfl⟩
  | cons => exact ⟨nofun, nofun⟩

/-- A run is accounted for: what it answered, the interpreter that it left, and every count and
failure in its summary are those of the lines that it processed. -/
structure Accounts (i : Interpreter SimulatedArm) (front : List String)
    (processed : List ProcessedLine) (after : Interpreter SimulatedArm) : Prop where
  answers : processed.map ProcessedLine.result = (i.interpretLines front).1
  state : after = (i.interpretLines front).2
  lines : (RunSummary.ofLines processed).lines = front.length
  /-- The moves counted are the records that the arm has gained. -/
  moves : after.arm.records.size = i.arm.records.size + (RunSummary.ofLines processed).moves
  /-- The failures are those of the lines that failed, by number and wording. -/
  failed : ∀ number text, (number, text) ∈ (RunSummary.ofLines processed).failureTexts ↔
    ∃ earlier source rest error, front = earlier ++ source :: rest ∧ number = earlier.length + 1 ∧
      i.Answers earlier source (.error error) ∧ text = error.message
  rising : (RunSummary.ofLines processed).failureTexts.Pairwise fun one other => one.1 < other.1
  result : runResult (RunSummary.ofLines processed) = .ok () ↔ i.Passes front

/-- A run over a simulated arm is accounted for by the lines that it processes. -/
theorem accounts_of_runLines (i : Interpreter SimulatedArm) (keepGoing : Bool)
    (lines : List String) : ∃ front, i.Processes keepGoing lines front ∧
      Accounts i front (i.runLines keepGoing lines).1 (i.runLines keepGoing lines).2 := by
  obtain ⟨front, processes, ran⟩ := i.runFrom_eq keepGoing 1 lines
  refine ⟨front, processes, ?_⟩
  unfold Interpreter.runLines
  rw [ran]
  refine ⟨Interpreter.map_result_numbered .., rfl, ?_, ?_, ?_, ?_, ?_⟩
  · rw [RunSummary.lines_numbered, Interpreter.length_interpretLines]
  · rw [← Array.length_toList, Interpreter.interpretLines_records, RunSummary.moves_numbered,
      List.length_append, List.length_map, Array.length_toList]
  · intro number text
    rw [RunSummary.mem_failureTexts]
    constructor
    · rintro ⟨error, listed, rfl⟩
      obtain ⟨positive, found⟩ := RunSummary.mem_failed_numbered.mp listed
      obtain ⟨earlier, source, rest, split, count, answers⟩ :=
        Interpreter.getElem?_interpretLines.mp found
      exact ⟨earlier, source, rest, error, split, by omega, answers, rfl⟩
    · rintro ⟨earlier, source, rest, error, split, rfl, answers, rfl⟩
      have found := Interpreter.getElem?_interpretLines.mpr
        ⟨earlier, source, rest, split, rfl, answers⟩
      exact ⟨error, RunSummary.mem_failed_numbered.mpr ⟨Nat.le_add_left .., found⟩, rfl⟩
  · exact List.pairwise_map.mpr (RunSummary.failed_numbered_pairwise ..)
  · unfold Interpreter.Passes
    rw [← RunSummary.failed_numbered_eq_nil 1]
    exact runResult_eq_ok

/-- **A run accounts for all that it did.** The lines processed are all of the program, or those up
to the first that fails where the run does not keep going. The interpreter is left as they leave it,
one after another, and the summary tells of them: how many there are, how many records the arm has
gained, which of them failed and in which words, by numbers that rise from one. The run succeeds
where none failed.

So a program in a file and the same lines given one by one come to the same state and the same
summary. A file of lines that hold no line feed, one of which follows each of them, is run as these
lines are, carriage returns at their ends or not. The settings are what the libraries for data and
for TOML make of their file, whatever that is. -/
theorem run_accounts :
    (∀ (i : Interpreter SimulatedArm) (keepGoing : Bool) (lines : List String),
      ∃ front, i.Processes keepGoing lines front ∧
        Accounts i front (i.runLines keepGoing lines).1 (i.runLines keepGoing lines).2) ∧
    (∀ [Decoding] [Toml.Library] (σ : Type) [Disk (StateM σ)] (config usual : Option String)
        (path input text : String) (policy : RunPolicy) (world configured read : σ)
        (setup : Setup) (i : Interpreter SimulatedArm),
      (Setup.resolve config usual : StateM σ (Except Failure Setup)).run world =
        (.ok setup, configured) →
      setup.start policy.strict = .ok i →
      (Disk.read path : StateM σ (Except DiskError String)).run configured = (.ok text, read) →
      let lines := Interpreter.programLines text
      let (processed, after) := i.runLines policy.keepGoing lines
      let summary := RunSummary.ofLines processed
      let said := processed.flatMap lineReport ++ summaryReport summary
      (∀ line ∈ lines, '\n' ∉ line.toList) ∧
      let asked (task : Task) : StateM σ Outcome := Invocation.perform ⟨config, task⟩ usual input
      (asked (.runFile path policy)).run world =
        (⟨say ("📜 加载程序: " ++ path) :: said ++ [axesReport after], runResult summary⟩, read) ∧
      (asked (.runLines lines policy)).run world =
        (⟨said ++ [axesReport after, feedReport after], runResult summary⟩, configured)) ∧
    ∀ (i : Interpreter SimulatedArm) (keepGoing : Bool) (lines : List String),
      (∀ line ∈ lines, '\n' ∉ line.toList) →
      i.runLines keepGoing (Interpreter.programLines (Interpreter.written lines)) =
        i.runLines keepGoing lines := by
  refine ⟨accounts_of_runLines, ?_, fun i keepGoing lines => i.runLines_written keepGoing⟩
  intro _ _ σ _ config usual path input text policy world configured read setup i resolved started
    found
  refine ⟨Interpreter.unbroken_programLines text, ?_, ?_⟩
  · refine (withSetup_run _ resolved).trans ?_
    rw [started, runFile_run policy.keepGoing found]
    rfl
  · refine (withSetup_run _ resolved).trans ?_
    rw [started]
    rfl

/-- A program of three lines whose second fails, in a file with both kinds of line ends: the run
ends there, and the third line is not processed. -/
theorem run_accounts_second_line :
    let text := "G0 Z10\r\nG1 X12abc\nG1 X5"
    let lines := ["G0 Z10", "G1 X12abc", "G1 X5"]
    let disk : MemoryDisk := ⟨"/work", [(["part.nc"], text)], []⟩
    let i := Interpreter.start (Setup.startArm .default) .default
    let policy : RunPolicy := ⟨false, false⟩
    let fromFile := (Invocation.perform ⟨none, .runFile "part.nc" policy⟩ (some "none.toml") "" :
      StateM MemoryDisk Outcome).run disk
    let fromWords := (Invocation.perform ⟨none, .runLines lines policy⟩ (some "none.toml") "" :
      StateM MemoryDisk Outcome).run disk
    let summary := RunSummary.ofLines (i.runLines false lines).1
    Setup.start .default policy.strict = .ok i ∧
      fromFile.1.result = .error (.linesFailed 1) ∧ fromWords.1.result = fromFile.1.result ∧
      summary.failureTexts =
        [(2, "Parse error in 'G1 X12abc': word 'X12abc' is not a valid number")] ∧
      (∃ front, i.Processes false lines front ∧ front.length = 2 ∧
        (i.interpretLines front).2.arm.records.size = 1) ∧
      i.runLines false (Interpreter.programLines (Interpreter.written lines)) =
        i.runLines false lines := by
  intro text lines disk i policy fromFile fromWords summary
  have absent : disk.read "none.toml" = .error .notFound := by decide +kernel
  have present : disk.read "part.nc" = .ok text := by decide +kernel
  have missing : (Disk.read "none.toml" : StateM MemoryDisk _).run disk =
      (.error .notFound, disk) :=
    congrArg (·, disk) absent
  have found : (Disk.read "part.nc" : StateM MemoryDisk _).run disk = (.ok text, disk) :=
    congrArg (·, disk) present
  have resolved : (Setup.resolve none (some "none.toml") : StateM MemoryDisk _).run disk =
      (.ok .default, disk) := by
    unfold Setup.resolve Disk.holds
    dsimp only
    rw [StateT.run_bind, StateT.run_bind, missing]
    rfl
  have started : Setup.start .default policy.strict = .ok i := by
    have valid : InterpreterConfig.default.validate = .ok () := by decide +kernel
    have settings : { InterpreterConfig.default with
        strict := InterpreterConfig.default.strict || policy.strict } = InterpreterConfig.default :=
      rfl
    unfold Setup.start Setup.default
    dsimp only
    rw [settings]
    unfold Interpreter.withConfig
    rw [valid]
    rfl
  have read : Interpreter.programLines text = lines := by decide +kernel
  have unbroken : ∀ line ∈ lines, '\n' ∉ line.toList := by decide +kernel
  have counted : summary.lines = 2 ∧ summary.moves = 1 := by decide +kernel
  have failures : summary.failureTexts =
      [(2, "Parse error in 'G1 X12abc': word 'X12abc' is not a valid number")] := by decide +kernel
  have ended : runResult summary = .error (.linesFailed 1) := by decide +kernel
  obtain ⟨runs, files, written⟩ := run_accounts
  obtain ⟨_, file, words⟩ := files MemoryDisk none (some "none.toml") "part.nc" "" text policy disk
    disk disk .default i resolved started found
  rw [read] at file words
  obtain ⟨front, processes, accounts⟩ := runs i false lines
  have gained := accounts.moves
  rw [accounts.state, counted.2] at gained
  have two : front.length = 2 := accounts.lines.symm.trans counted.1
  refine ⟨started, ?_, ?_, failures, ⟨front, processes, two, gained⟩,
    written i false lines unbroken⟩
  · exact (congrArg (fun came => came.1.result) file).trans ended
  · exact (congrArg (fun came => came.1.result) words).trans
      (congrArg (fun came => came.1.result) file).symm

end Console

end Toolpath
