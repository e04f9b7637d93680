import Toolpath.Proofs.LineErrors

/-!
# The order of words on a line

Words take effect in order, so a later word wins over an earlier one of its kind. Words of two kinds
set different things and never meet: an axis word is in place before the motion is told, wherever on
the line it stands, and a word that goes home does so after the motion.

`Rearranged` are two lists of the same words in which each kind keeps its own order. The law
(`interpretLine_rearranged`): lines with rearranged words do the same to the interpreter and to the
arm, and answer the same up to the order in which unsupported words are listed. Unsupported words
are of no kind, so they may stand anywhere.

It says nothing of two words of one kind; exchanging those is another line.
-/

namespace Toolpath

namespace Word

/-! ## Kinds -/

deriving instance DecidableEq for Kind

/-- The kind of a word that the language has. -/
def kind? : Word → Option Kind
  | motion .. => some .motion
  | spindle _ => some .switch
  | axis which _ => some (.axis which)
  | feed _ => some .feed
  | unsupported _ => none

/-- The words of one kind, in order. -/
def ofKind (kind : Kind) (words : List Word) : List Word :=
  words.filter fun w => w.kind? = some kind

/-- The same words in another order, where words of one kind keep theirs. -/
structure Rearranged (words others : List Word) : Prop where
  perm : words.Perm others
  ofKind : ∀ kind, ofKind kind words = ofKind kind others

/-- A reading does not see words that it has no answer for. -/
theorem last?_filter {β : Type} {reading : Word → Option β} {p : Word → Bool}
    (only : ∀ w, p w = false → reading w = none) (words : List Word) :
    last? reading (words.filter p) = last? reading words := by
  unfold last?
  rw [List.filterMap_filter]
  congr 2
  funext w
  cases passes : p w with
  | true => rw [if_pos rfl]
  | false => rw [if_neg Bool.false_ne_true, only w passes]

namespace Rearranged

variable {words others : List Word}

/-- What one kind of words says, they say alike. -/
theorem last?_eq (same : Rearranged words others) {β : Type} {reading : Word → Option β}
    (kind : Kind) (only : ∀ w, w.kind? ≠ some kind → reading w = none) :
    last? reading words = last? reading others := by
  have unseen : ∀ w, decide (w.kind? = some kind) = false → reading w = none :=
    fun w other => only w (of_decide_eq_false other)
  rw [← last?_filter unseen words, ← last?_filter unseen others]
  exact congrArg (last? reading) (same.ofKind kind)

theorem mode?_eq (same : Rearranged words others) : last? mode? words = last? mode? others := by
  refine same.last?_eq .motion fun w other => ?_
  cases w with
  | motion => exact absurd rfl other
  | spindle | axis | feed | unsupported => rfl

theorem feedRate?_eq (same : Rearranged words others) :
    last? feedRate? words = last? feedRate? others := by
  refine same.last?_eq .feed fun w other => ?_
  cases w with
  | feed => exact absurd rfl other
  | motion | spindle | axis | unsupported => rfl

theorem spindle?_eq (same : Rearranged words others) :
    last? spindle? words = last? spindle? others := by
  refine same.last?_eq .switch fun w other => ?_
  cases w with
  | spindle => exact absurd rfl other
  | motion | axis | feed | unsupported => rfl

theorem axisValue?_eq (same : Rearranged words others) (which : Axis) :
    last? (axisValue? which) words = last? (axisValue? which) others := by
  refine same.last?_eq (.axis which) fun w other => ?_
  cases w with
  | axis named value => exact if_neg fun is => other (congrArg (some ∘ Kind.axis) is)
  | motion | spindle | feed | unsupported => rfl

theorem named_eq (same : Rearranged words others) (s : AxisState Float) :
    s.named words = s.named others := by
  unfold AxisState.named
  rw [same.axisValue?_eq .x, same.axisValue?_eq .y, same.axisValue?_eq .z, same.axisValue?_eq .r]

theorem eq_nil_iff (same : Rearranged words others) : words = [] ↔ others = [] :=
  ⟨fun none => (none ▸ same.perm).nil_eq.symm, fun none => (none ▸ same.perm).eq_nil⟩

end Rearranged

end Word

/-! ## Lines -/

/-- Two answers that say the same of what was done: unsupported words may be listed in another
order, and a failed motion may name another line. -/
inductive LineResult.SameDone : LineResult → LineResult → Prop where
  | done (outcome : LineOutcome) {skipped others : List String} (perm : skipped.Perm others) :
    SameDone (.ok ⟨outcome, skipped⟩) (.ok ⟨outcome, others⟩)
  | failed (text other : String) (mode : MotionMode) (cause : MotionError) :
    SameDone (.error (.motion text mode cause)) (.error (.motion other mode cause))

section Line

variable {line twin : Line}

/-- Both lines go home, or none does. -/
theorem Line.homes_of_perm (perm : line.words.Perm twin.words) : line.homes = twin.homes := by
  rw [Bool.eq_iff_iff, Line.homes_iff, Line.homes_iff]
  exact exists_congr fun mode => perm.mem_iff

theorem Kept.performed_rearranged (k : Kept) (same : Word.Rearranged line.words twin.words) :
    k.performed line = k.performed twin := by
  unfold Kept.performed
  rw [Line.homes_of_perm same.perm, same.named_eq, same.feedRate?_eq, same.spindle?_eq]

namespace Interpreter

theorem stillReport_rearranged (same : Word.Rearranged line.words twin.words) :
    LineResult.SameDone (.ok (stillReport line)) (.ok (stillReport twin)) := by
  unfold stillReport
  by_cases none : line.words = []
  · rw [if_pos none, if_pos (same.eq_nil_iff.mp none)]
    exact .done _ .nil
  · rw [if_neg none, if_neg (same.eq_nil_iff.not.mp none)]
    exact .done _ (same.perm.filterMap _)

theorem report_rearranged (same : Word.Rearranged line.words twin.words) (mode : MotionMode)
    (outcome : Except MotionError (MotionCommand Float)) :
    LineResult.SameDone (report line mode outcome) (report twin mode outcome) := by
  cases outcome with
  | error cause => exact .failed _ _ mode cause
  | ok command => exact .done _ (same.perm.filterMap _)

variable {ρ : Type} [Arm ρ]

/-- Lines with rearranged words leave the same interpreter, its arm included. -/
theorem perform_rearranged (i : Interpreter ρ) (same : Word.Rearranged line.words twin.words) :
    (i.perform line).2 = (i.perform twin).2 ∧
      LineResult.SameDone (i.perform line).1 (i.perform twin).1 := by
  constructor
  · refine eq_of_kept ?_ ?_
    · rw [perform_arm, perform_arm, same.mode?_eq, same.named_eq]
    · rw [perform_kept, perform_kept, Kept.performed_rearranged _ same]
  · rw [perform_answer, perform_answer, same.mode?_eq, same.named_eq]
    cases Word.last? Word.mode? twin.words with
    | none => exact stillReport_rearranged same
    | some mode => exact report_rearranged same mode _

/-- **Words of different kinds may stand in any order.** Of two lines that are read as the same
words, each kind in its own order, it makes no difference which is interpreted, over any arm and
whether their motion succeeds or not: the interpreter after them is the same, with the same axes,
feed rate and spindle and the same calls to its arm. The answers have the same outcome, or a failed
motion of the same mode and the same cause, and list the same unsupported words. -/
theorem interpretLine_rearranged (i : Interpreter ρ) {source other : String}
    (read : Line.read i.config.strict source = .ok line)
    (readOther : Line.read i.config.strict other = .ok twin)
    (same : Word.Rearranged line.words twin.words) :
    let one := i.logged.interpretLine source
    let two := i.logged.interpretLine other
    i.interpretLine source = (one.1, one.2.forgetLog) ∧
    i.interpretLine other = (two.1, two.2.forgetLog) ∧
    one.2.axes = two.2.axes ∧ one.2.feedRate = two.2.feedRate ∧
    one.2.spindleOn = two.2.spindleOn ∧ one.2.config = two.2.config ∧
    one.2.arm.calls = two.2.arm.calls ∧ one.2.arm.arm = two.2.arm.arm ∧
    LineResult.SameDone one.1 two.1 := by
  intro one two
  have first : one = i.logged.perform line := interpretLine_of_read i.logged read
  have second : two = i.logged.perform twin := interpretLine_of_read i.logged readOther
  obtain ⟨state, answers⟩ := perform_rearranged i.logged same
  rw [← first, ← second] at state answers
  refine ⟨interpretLine_forgetLog i.logged source, interpretLine_forgetLog i.logged other, ?_⟩
  rw [state]
  exact ⟨rfl, rfl, rfl, rfl, rfl, rfl, answers⟩

/-- An arc that is told before its radius is named, and one that is told last: the radius is in
place for both, and both fail for it. -/
theorem interpretLine_rearranged_late_radius :
    let i := new (SimulatedArm.atPose Pose.identity)
    let source := "G28 N1 G2 X10 X4 R1 T2 M3"
    let other := "X10 R1 T2 M3 X4 N1 G28 G2 ; turn"
    let line : Line := ⟨"G28 N1 G2 X10 X4 R1 T2 M3", [.motion 28 .rapid, .unsupported "N1",
      .motion 2 .clockwiseArc, .axis .x 10.0, .axis .x 4.0, .axis .r 1.0, .unsupported "T2",
      .spindle true]⟩
    let twin : Line := ⟨"X10 R1 T2 M3 X4 N1 G28 G2", [.axis .x 10.0, .axis .r 1.0,
      .unsupported "T2", .spindle true, .axis .x 4.0, .unsupported "N1", .motion 28 .rapid,
      .motion 2 .clockwiseArc]⟩
    Line.read i.config.strict source = .ok line ∧ Line.read i.config.strict other = .ok twin ∧
      Word.Rearranged line.words twin.words ∧
      (i.interpretLine source).1 = .error (.motion line.text .clockwiseArc
        (.geometry (.invalidArcRadius 1.0 2.0))) ∧
      (i.logged.interpretLine other).2.axes = ⟨0.0, 0.0, 0.0, 1.0⟩ ∧
      (i.logged.interpretLine source).2.axes = (i.logged.interpretLine other).2.axes ∧
      LineResult.SameDone (i.interpretLine source).1 (i.interpretLine other).1 := by
  intro i source other line twin
  have read : Line.read i.config.strict source = .ok line := by decide +kernel
  have readOther : Line.read i.config.strict other = .ok twin := by decide +kernel
  have same : Word.Rearranged line.words twin.words := by
    refine ⟨by decide +kernel, fun kind => ?_⟩
    cases kind with
    | axis which =>
      cases which with
      | x | y | z | r => rfl
    | motion | switch | feed | other => rfl
  obtain ⟨one, two, axes, _, _, _, _, _, answers⟩ := interpretLine_rearranged i read readOther same
  rw [← congrArg Prod.fst one, ← congrArg Prod.fst two] at answers
  exact ⟨read, readOther, same, by decide +kernel, by decide +kernel, axes, answers⟩

end Interpreter

end Line

end Toolpath
