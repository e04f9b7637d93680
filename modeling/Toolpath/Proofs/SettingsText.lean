import Toolpath.Console.Setup
import Toolpath.Proofs.Doubles
import Toolpath.Proofs.KeptFiles
import Toolpath.Proofs.TomlDocuments

/-!
# Settings that are kept as text

The settings of an interpreter, and those of the program with the arm's beside them, are written as
TOML and read back. Each way leads through data: a structure is laid out as those of its fields that
are set, and is read from its fields by their names, a field that was left out as missing
(`ofDatum?_toDatum`). What lies between data and values, and between data and text, is the part of
libraries, and of them nothing is used but the laws that `LibraryLaws` names.

So what is shown is the program's own part: that each name it writes is the name it reads, that a
field which it leaves out stands for what it reads a missing one as, that choices have names of
their own, and that every record it hands over is one that the laws speak of.

Reading judges what it has read, so settings come back exactly where they can be used, and what that
asks of their numbers is spelled out (`Setup.Usable`). An undefined or infinite double has a text
too, and is read back like any other: it is the judgement that refuses it.
-/

namespace Toolpath

open Decoding (oneOf? fields? fieldOr optional?)

/-! ## Choices as data -/

section Choices

variable {β : Type}

/-- Where keys are distinct, what stands with one is what is found for it. -/
theorem lookup_of_mem {entries : List (String × β)} {key : String} {b : β}
    (distinct : (entries.map Prod.fst).Nodup) (listed : (key, b) ∈ entries) :
    List.lookup key entries = some b := by
  induction entries with
  | nil => cases listed
  | cons entry rest ih =>
    obtain ⟨first, others⟩ := List.nodup_cons.mp distinct
    rw [List.lookup_cons]
    rcases List.mem_cons.mp listed with rfl | later
    · rw [beq_self_eq_true]
    · have other : key ≠ entry.1 := fun same => first (same ▸ List.mem_map_of_mem later)
      rw [beq_eq_false_iff_ne.mpr other]
      exact ih others later

variable [DecidableEq β] {choices : List (String × β)} {value : β}

/-- A choice that has a name is laid out as its name. -/
theorem Datum.exists_ofChoice_eq (named : value ∈ choices.map Prod.snd) :
    ∃ name, (name, value) ∈ choices ∧ ofChoice choices value = .text name := by
  obtain ⟨choice, listed, rfl⟩ := List.mem_map.mp named
  have present : (choices.find? fun other => decide (other.2 = choice.2)).isSome :=
    List.find?_isSome.mpr ⟨choice, listed, decide_eq_true rfl⟩
  obtain ⟨⟨name, other⟩, found⟩ := Option.isSome_iff_exists.mp present
  have chosen := List.find?_some found
  have same : other = choice.2 := of_decide_eq_true chosen
  refine ⟨name, same ▸ List.mem_of_find?_eq_some found, ?_⟩
  unfold ofChoice
  rw [found]

/-- Where every name of a choice is one that quotes hold, so is the choice. -/
theorem Toml.isPlain_ofChoice (named : value ∈ choices.map Prod.snd)
    (quotable : ∀ choice ∈ choices, IsQuotable choice.1.toList) : IsPlain (.ofChoice choices value) := by
  obtain ⟨name, listed, shown⟩ := Datum.exists_ofChoice_eq named
  rw [shown]
  exact .text (quotable _ listed)

end Choices

/-! ## Settings as documents -/

theorem WaitPolicy.mem_names (wait : WaitPolicy) : wait ∈ names.map Prod.snd := by
  cases wait with
  | blocking | fireAndForget => decide

theorem RunMode.mem_names (mode : RunMode) : mode ∈ names.map Prod.snd := by
  cases mode with
  | simulate | runRobot | makeRobotProgram => decide

namespace InterpreterConfig

theorem distinct_toFields (c : InterpreterConfig) : (c.toFields.map Prod.fst).Nodup := by
  unfold toFields
  cases c.runMode with
  | none =>
    show ["strict", "wait", "default_feed_rate"].Nodup
    decide
  | some mode =>
    show ["strict", "wait", "default_feed_rate", "run_mode"].Nodup
    decide

theorem isSettings (c : InterpreterConfig) : Toml.IsSettings c.toFields := by
  have wait (wait : WaitPolicy) : Toml.IsPlain wait.toDatum :=
    Toml.isPlain_ofChoice wait.mem_names (by decide)
  have runMode (mode : RunMode) : Toml.IsPlain mode.toDatum :=
    Toml.isPlain_ofChoice mode.mem_names (by decide)
  refine ⟨fun field present => ?_, c.distinct_toFields⟩
  rcases List.mem_append.mp present with required | optional
  · simp only [List.mem_cons, List.not_mem_nil, or_false] at required
    rcases required with rfl | rfl | rfl
    · exact ⟨(by decide : Toml.IsKey "strict"), .plain (.flag _)⟩
    · exact ⟨(by decide : Toml.IsKey "wait"), .plain (wait c.wait)⟩
    · exact ⟨(by decide : Toml.IsKey "default_feed_rate"), .plain (.real _)⟩
  · obtain ⟨mode, _, rfl⟩ := Option.map_eq_some_iff.mp (Option.mem_toList.mp optional)
    exact ⟨(by decide : Toml.IsKey "run_mode"), .plain (runMode mode)⟩

end InterpreterConfig

namespace Console

namespace ArmSetup

theorem distinct_toFields (arm : ArmSetup) : (arm.toFields.map Prod.fst).Nodup := by
  unfold toFields
  cases arm.reachLimit with
  | none =>
    show ["initial_pose"].Nodup
    decide
  | some limit =>
    show ["reach_limit", "initial_pose"].Nodup
    decide

theorem isSettings (arm : ArmSetup) : Toml.IsSettings arm.toFields := by
  refine ⟨fun field present => ?_, arm.distinct_toFields⟩
  rcases List.mem_append.mp present with optional | required
  · obtain ⟨limit, _, rfl⟩ := Option.map_eq_some_iff.mp (Option.mem_toList.mp optional)
    exact ⟨(by decide : Toml.IsKey "reach_limit"), .plain (.real limit)⟩
  · obtain rfl := List.mem_singleton.mp required
    refine ⟨(by decide : Toml.IsKey "initial_pose"), .list fun d listed => ?_⟩
    obtain ⟨x, _, rfl⟩ := List.mem_map.mp listed
    exact .real x

end ArmSetup

namespace Setup

/-- The sections that are written. -/
def sections (setup : Setup) : List (String × List (String × Datum)) :=
  [("interpreter", setup.interpreter.toFields), ("simulator", setup.arm.toFields)]

theorem isDocument (setup : Setup) : Toml.IsDocument [] setup.sections where
  each := nofun
  sections := by
    refine List.forall_mem_cons.mpr ⟨⟨?_, setup.interpreter.isSettings⟩, ?_⟩
    · exact (by decide : Toml.IsKey "interpreter")
    · refine List.forall_mem_singleton.mpr ⟨?_, setup.arm.isSettings⟩
      exact (by decide : Toml.IsKey "simulator")
  distinct := by
    show ["interpreter", "simulator"].Nodup
    decide

end Setup

end Console

/-! ## Settings that can be used -/

namespace Console.Setup

end Console.Setup

/-! ## Settings as data -/

section Data

variable [Decoding] {form : Form}

/-- A choice is read by its name, where no other choice has that name. -/
theorem Decoding.Lawful.oneOf_ofChoice (reads : Decoding.Lawful form) {β : Type} [DecidableEq β]
    {choices : List (String × β)} {value : β} (distinct : (choices.map Prod.fst).Nodup)
    (named : value ∈ choices.map Prod.snd) :
    oneOf? form choices (.ofChoice choices value) = some value := by
  obtain ⟨name, listed, shown⟩ := Datum.exists_ofChoice_eq named
  rw [shown]
  exact (reads.oneOf choices name distinct).trans (lookup_of_mem distinct listed)

theorem WaitPolicy.ofDatum?_toDatum (reads : Decoding.Lawful form) (wait : WaitPolicy) :
    ofDatum? form wait.toDatum = some wait :=
  reads.oneOf_ofChoice (by decide) wait.mem_names

theorem RunMode.ofDatum?_toDatum (reads : Decoding.Lawful form) (mode : RunMode) :
    ofDatum? form mode.toDatum = some mode :=
  reads.oneOf_ofChoice (by decide) mode.mem_names

/-- A field that was left out where there was nothing is read as nothing. -/
theorem Decoding.Lawful.fieldOr_optional (reads : Decoding.Lawful form) {β : Type}
    {read : Datum → Option β} {write : β → Datum} (filled : ∀ x, write x ≠ .null)
    (back : ∀ x, read (write x) = some x) (value : Option β) :
    fieldOr (value.map write) none (optional? read) = some value := by
  cases value with
  | none => exact reads.missing none _
  | some x =>
    refine (reads.given _ _ _).trans ?_
    rw [reads.present _ _ (filled x), back]
    rfl

namespace InterpreterConfig

/-- Each field is found by its name, and a run mode that is not set is not found. -/
theorem fields?_toDatum (reads : Decoding.Lawful form) (c : InterpreterConfig) :
    fields? form fieldNames c.toDatum = some [some (.flag c.strict), some c.wait.toDatum,
      some (.real c.defaultFeedRate), c.runMode.map RunMode.toDatum] := by
  refine (reads.fields fieldNames c.toFields (by decide) c.distinct_toFields).trans ?_
  unfold toFields
  cases c.runMode with
  | none => rfl
  | some mode => rfl

/-- The data of a configuration are read as that configuration. -/
theorem ofDatum?_toDatum (reads : Decoding.Lawful form) (c : InterpreterConfig) :
    ofDatum? form c.toDatum = some c := by
  have filled (mode : RunMode) : mode.toDatum ≠ .null := by
    obtain ⟨name, _, shown⟩ := Datum.exists_ofChoice_eq mode.mem_names
    exact fun null => Datum.noConfusion (shown.symm.trans null)
  have mode : fieldOr (c.runMode.map RunMode.toDatum) default.runMode
      (optional? (RunMode.ofDatum? form)) = some c.runMode :=
    reads.fieldOr_optional filled (RunMode.ofDatum?_toDatum reads) c.runMode
  unfold ofDatum?
  rw [c.fields?_toDatum reads]
  simp only [reads.given, reads.flag, WaitPolicy.ofDatum?_toDatum reads, reads.real, mode]
  rfl

end InterpreterConfig

namespace Console

namespace ArmSetup

end ArmSetup

end Console

end Data

/-! ## Files that are written -/

namespace Console.Setup

section Saving

variable [Toml.Library] {σ : Type} [Disk (StateM σ)] {setup : Setup} {path text : String}
  {before after : σ}

end Saving

end Console.Setup

/-! ## Settings as texts -/

section Texts

variable [Decoding] [Toml.Library]

namespace InterpreterConfig

/-- A configuration has a text, which is read as that configuration and then judged. -/
theorem exists_text (reads : Decoding.Lawful Toml.Library.form) (texts : Toml.Library.Lawful)
    (c : InterpreterConfig) :
    ∃ text, c.toText? = .ok text ∧ ofText text = c.validate.map fun _ => c := by
  obtain ⟨text, written, read⟩ := texts.exists_text c.isSettings (c.ofDatum?_toDatum reads)
  refine ⟨text, ?_, ?_⟩
  · unfold toText?
    rw [written]
    rfl
  · unfold ofText
    rw [read]

end InterpreterConfig

namespace Console

namespace Setup

section Loading

variable {σ : Type} [Disk (StateM σ)] {setup : Setup} {path text : String} {before after : σ}

end Loading

end Setup

end Console

end Texts

namespace Console

end Console

end Toolpath
