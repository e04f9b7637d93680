import Mathlib.Data.List.Basic
import Toolpath.Proofs.SimulatedRun

/-!
# The history of a simulated arm

The calls to a simulated arm, the four that every arm takes and those of its own, made directly or
through handles. What it answers and what it holds are kept apart, as they are for runs of programs:
this module says that after any calls the arm holds what the history of calls and answers says.

`Entry` is a call with its answer, `history` what is seen of a run. Each field of the arm has a
reading of entries that says what an entry puts there (`Entry.placed?`, `Entry.runMode?`,
`Entry.fault?`), and holds what the last such entry put there (`run_follows`). The records are no
such field, as they add up: taking them moves them out of the arm and into the history.

The law (`run_holds_history`): it does so for every start and every sequence of calls, and the
command that comes next meets the armed fault, or where none is armed the reach, and nothing else.
-/

namespace Toolpath

/-! ## Calls through handles -/

/-- What an arm answers to a call. -/
inductive ArmAnswer where
  | pose (pose : Pose Float)
  | joints (joints : List Float)
  | done
  | failed (error : ActuationError)
deriving Repr, DecidableEq

/-- The answer of a call by what came of it. -/
def ArmAnswer.of {β : Type} (value : β → ArmAnswer) : Except ActuationError β → ArmAnswer
  | .ok b => value b
  | .error e => .failed e

namespace ArmCall

variable {ρ : Type} [Arm ρ]

/-- A call made to an arm: the answer, and the arm after it. -/
def make (arm : ρ) : ArmCall → ArmAnswer × ρ
  | currentPose => (Arm.currentPose arm).map (.of .pose) id
  | currentJoints => (Arm.currentJoints arm).map (.of .joints) id
  | perform command wait => (Arm.perform arm command wait).map (.of fun _ => .done) id
  | setRunMode mode => (Arm.setRunMode arm mode).map (.of fun _ => .done) id

/-- A call made to an arm through handles, the outermost first. -/
def makeThrough {ρ : Type} [Arm ρ] (arm : ρ) (call : ArmCall) : List Handle → ArmAnswer × ρ
  | [] => call.make arm
  | handle :: inner =>
    let (answer, held) := makeThrough (⟨arm⟩ : Held handle ρ) call inner
    (answer, held.arm)

/-- A handle answers as its arm does, and the arm in it is the one after the call. -/
theorem make_held (handle : Handle) (arm : ρ) (call : ArmCall) :
    call.make (⟨arm⟩ : Held handle ρ) = Held.rewrap handle (call.make arm) := by
  cases call <;> rfl

/-- **Handles make no difference**, however many there are and of whatever kind. -/
theorem makeThrough_eq_make (arm : ρ) (call : ArmCall) (handles : List Handle) :
    makeThrough arm call handles = call.make arm := by
  induction handles generalizing ρ with
  | nil => rfl
  | cons handle inner ih =>
    unfold makeThrough
    rw [ih, make_held]
    rfl

end ArmCall

namespace SimulatedArm

/-! ## Calls and their history -/

/-- A call to the simulated arm: one that every arm takes, or one of its own. -/
inductive Call where
  /-- A call that every arm takes, made through handles. -/
  | arm (handles : List Handle) (call : ArmCall)
  | failNext (error : ActuationError)
  | setPose (pose : Pose Float)
  | records
  | takeRecords
deriving Repr, DecidableEq

/-- What the simulated arm answers to a call. -/
inductive Answer where
  | arm (answer : ArmAnswer)
  | records (records : Array ActuationRecord)
  | done
deriving Repr, DecidableEq

/-- A call made: the answer, and the arm after it. -/
def make (arm : SimulatedArm) : Call → Answer × SimulatedArm
  | .arm handles call => (ArmCall.makeThrough arm call handles).map .arm id
  | .failNext error => (.done, arm.failNext error)
  | .setPose pose => (.done, arm.setPose pose)
  | .records => (.records arm.records, arm)
  | .takeRecords => arm.takeRecords.map .records id

/-- A call with its answer. -/
structure Entry where
  call : Call
  answer : Answer

namespace Entry

/-- The records that were taken out of the arm. -/
def taken : Entry → List ActuationRecord
  | ⟨.takeRecords, .records records⟩ => records.toList
  | _ => []

/-- The command that was carried out, and how its caller waited. -/
def moved? : Entry → Option ActuationRecord
  | ⟨.arm _ (.perform command wait), .arm .done⟩ => some ⟨command, wait⟩
  | _ => none

/-- The pose that the arm was put at, by a command carried out or by hand. -/
def placed? : Entry → Option (Pose Float)
  | ⟨.setPose pose, _⟩ => some pose
  | entry => entry.moved?.map fun record => record.command.target

/-- The run mode that was set. -/
def runMode? : Entry → Option RunMode
  | ⟨.arm _ (.setRunMode mode), _⟩ => some mode
  | _ => none

/-- What becomes of the armed fault: arming puts one there, and any command takes it away. -/
def fault? : Entry → Option (Option ActuationError)
  | ⟨.failNext error, _⟩ => some (some error)
  | ⟨.arm _ (.perform _ _), _⟩ => some none
  | _ => none

end Entry

/-- The arm after a call. -/
def next (arm : SimulatedArm) (call : Call) : SimulatedArm := (make arm call).2

/-- What is seen of a call. -/
def entry (arm : SimulatedArm) (call : Call) : Entry := ⟨call, (make arm call).1⟩

/-- The arm after a run of calls. -/
def run (arm : SimulatedArm) (calls : List Call) : SimulatedArm := calls.foldl next arm

/-- What is seen of a run of calls, in order. -/
def history (arm : SimulatedArm) : List Call → List Entry
  | [] => []
  | call :: rest => entry arm call :: history (next arm call) rest

/-- What the last entry says for which a reading of entries has an answer, or else what was so
before them all. -/
def lastOf {β : Type} (reading : Entry → Option β) (old : β) (seen : List Entry) : β :=
  (seen.filterMap reading).getLast?.getD old

/-! ## One call -/

/-- A call that every arm takes, whatever it is made through. -/
theorem make_arm (arm : SimulatedArm) (handles : List Handle) (call : ArmCall) :
    make arm (.arm handles call) = (call.make arm).map .arm id := by
  unfold make
  simp only [ArmCall.makeThrough_eq_make]

/-- A command at the simulated arm meets an armed fault first and takes it away, then the reach. -/
theorem make_perform (arm : SimulatedArm) (handles : List Handle) (command : MotionCommand Float)
    (wait : WaitPolicy) :
    make arm (.arm handles (.perform command wait)) =
      match arm.fault with
      | some e => (.arm (.failed e), { arm with fault := none })
      | none =>
        match refusal? arm.reachLimit command with
        | some e => (.arm (.failed e), arm)
        | none => (.arm .done, { arm with
            records := arm.records.push ⟨command, wait⟩
            pose := command.target }) := by
  rcases told : Arm.perform arm command wait with ⟨answer, after⟩
  rw [make_arm, ArmCall.make, told]
  obtain ⟨e, armed, rfl, rfl⟩ | ⟨e, unarmed, far, rfl, rfl⟩ | ⟨unarmed, near, rfl, rfl⟩ :=
    perform_cases told
  · rw [armed]
    rfl
  · rw [unarmed, far]
    rfl
  · rw [unarmed, near]
    rfl

/-- What an entry makes of an arm: each field takes what the entry puts there, and records taken and
records kept are those from before with the command carried out, if there is one. Such a command met
no fault and was within reach. -/
structure Leads (before : SimulatedArm) (e : Entry) (after : SimulatedArm) : Prop where
  joints : after.joints = before.joints
  reachLimit : after.reachLimit = before.reachLimit
  pose : after.pose = e.placed?.getD before.pose
  runMode : after.runMode = e.runMode?.getD before.runMode
  fault : after.fault = e.fault?.getD before.fault
  records : e.taken ++ after.records.toList = before.records.toList ++ e.moved?.toList
  free : ∀ record, e.moved? = some record →
    before.fault = none ∧ refusal? before.reachLimit record.command = none

/-- **Every call leads to where its entry says.** -/
theorem leads (arm : SimulatedArm) (call : Call) : Leads arm (entry arm call) (next arm call) := by
  unfold entry next
  cases call with
  | failNext | setPose | records =>
    exact ⟨rfl, rfl, rfl, rfl, rfl, (List.append_nil _).symm, fun _ moved => by cases moved⟩
  | takeRecords => exact ⟨rfl, rfl, rfl, rfl, rfl, rfl, fun _ moved => by cases moved⟩
  | arm handles call =>
    cases call with
    | currentPose | currentJoints | setRunMode =>
      rw [make_arm]
      exact ⟨rfl, rfl, rfl, rfl, rfl, (List.append_nil _).symm, fun _ moved => by cases moved⟩
    | perform command wait =>
      rw [make_perform]
      cases armed : arm.fault with
      | some e =>
        exact ⟨rfl, rfl, rfl, rfl, rfl, (List.append_nil _).symm, fun _ moved => by cases moved⟩
      | none =>
        cases near : refusal? arm.reachLimit command with
        | some e =>
          have kept := (List.append_nil arm.records.toList).symm
          exact ⟨rfl, rfl, rfl, rfl, armed, kept, fun _ moved => by cases moved⟩
        | none =>
          refine ⟨rfl, rfl, rfl, rfl, rfl, Array.toList_push, fun record moved => ?_⟩
          cases moved
          exact ⟨armed, near⟩

/-! ## Runs of calls -/

/-- What follows the entries one by one is what the last of them says. -/
theorem run_follows {β : Type} (view : SimulatedArm → β) (reading : Entry → Option β)
    (follows : ∀ arm call, view (next arm call) = (reading (entry arm call)).getD (view arm))
    (start : SimulatedArm) (calls : List Call) :
    view (run start calls) = lastOf reading (view start) (history start calls) := by
  induction calls generalizing start with
  | nil => rfl
  | cons call rest ih =>
    unfold history lastOf
    rw [getD_getLast?_filterMap_cons, ← follows]
    exact ih (next start call)

/-- What no call changes, no run changes. -/
theorem run_keeps {β : Type} (view : SimulatedArm → β)
    (keeps : ∀ arm call, view (next arm call) = view arm) (start : SimulatedArm)
    (calls : List Call) : view (run start calls) = view start := by
  induction calls generalizing start with
  | nil => rfl
  | cons call rest ih => exact (ih (next start call)).trans (keeps start call)

/-- The records that were taken out and those that are left are those that the arm came with and
those of the commands carried out, in order. -/
theorem run_records (start : SimulatedArm) (calls : List Call) :
    (history start calls).flatMap Entry.taken ++ (run start calls).records.toList =
      start.records.toList ++ (history start calls).filterMap Entry.moved? := by
  induction calls generalizing start with
  | nil => exact (List.append_nil _).symm
  | cons call rest ih =>
    have later := ih (next start call)
    rw [List.filterMap_eq_flatMap_toList] at later ⊢
    calc _
      _ = (entry start call).taken ++ ((history (next start call) rest).flatMap Entry.taken ++
            (run (next start call) rest).records.toList) := List.append_assoc ..
      _ = ((entry start call).taken ++ (next start call).records.toList) ++
            (history (next start call) rest).flatMap fun e => e.moved?.toList := by
          rw [later, List.append_assoc]
      _ = _ := by
          rw [(leads start call).records, List.append_assoc]
          rfl

/-- **The arm holds what its history says**, after any calls made directly or through handles. The
records taken out of it and those left in it are those that it came with and then, in order, those
of the commands carried out, each with its wait. It stands where it was last put, by a command
carried out or by hand, it is in the run mode last set, and its joints and its reach limit never
change. The command that comes next answers the fault armed last, which it takes away with it and
which no command came between; where none is armed the reach decides, and a refused command leaves
the arm as it is. A question is answered from what the arm holds, and changes nothing. -/
theorem run_holds_history (start : SimulatedArm) (calls : List Call) :
    let seen := history start calls
    let now := run start calls
    seen.flatMap Entry.taken ++ now.records.toList =
      start.records.toList ++ seen.filterMap Entry.moved? ∧
    now.pose = lastOf Entry.placed? start.pose seen ∧
    now.runMode = lastOf Entry.runMode? start.runMode seen ∧
    now.joints = start.joints ∧
    now.reachLimit = start.reachLimit ∧
    (∀ handles command wait, make now (.arm handles (.perform command wait)) =
      match lastOf Entry.fault? start.fault seen with
      | some e => (.arm (.failed e), { now with fault := none })
      | none =>
        match refusal? start.reachLimit command with
        | some e => (.arm (.failed e), now)
        | none => (.arm .done, { now with
            records := now.records.push ⟨command, wait⟩
            pose := command.target })) ∧
    (∀ handles, make now (.arm handles .currentPose) = (.arm (.pose now.pose), now)) ∧
    (∀ handles, make now (.arm handles .currentJoints) = (.arm (.joints start.joints), now)) ∧
    (∀ handles mode, make now (.arm handles (.setRunMode mode)) =
      (.arm .done, { now with runMode := mode })) ∧
    make now .records = (.records now.records, now) ∧
    make now .takeRecords = (.records now.records, { now with records := #[] }) := by
  intro seen now
  have joints : now.joints = start.joints :=
    run_keeps joints (fun arm call => (leads arm call).joints) start calls
  have reach : now.reachLimit = start.reachLimit :=
    run_keeps reachLimit (fun arm call => (leads arm call).reachLimit) start calls
  have fault : now.fault = lastOf Entry.fault? start.fault seen :=
    run_follows SimulatedArm.fault _ (fun arm call => (leads arm call).fault) start calls
  refine ⟨run_records start calls, ?_, ?_, joints, reach, ?_, ?_, ?_, ?_, rfl, rfl⟩
  · exact run_follows pose _ (fun arm call => (leads arm call).pose) start calls
  · exact run_follows runMode _ (fun arm call => (leads arm call).runMode) start calls
  · intro handles command wait
    rw [make_perform, fault, reach]
  · intro handles
    rw [make_arm]
    rfl
  · intro handles
    rw [make_arm, ← joints]
    rfl
  · intro handles mode
    rw [make_arm]
    rfl

/-- The later of two faults is the answer of the next command, and the one after it moves. -/
example :
    let home : MotionCommand Float := .rapid Pose.identity
    let call : Call := .arm [.box, .reference] (.perform home .fireAndForget)
    let calls := [.failNext (.rejected "first"), .failNext (.rejected "second"), call, call]
    (history (atPose Pose.identity) calls).map Entry.answer =
      [.done, .done, .arm (.failed (.rejected "second")), .arm .done] := by
  rfl

end SimulatedArm

end Toolpath
