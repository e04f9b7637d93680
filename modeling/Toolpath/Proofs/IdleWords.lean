import Toolpath.Proofs.SimulatedRun
import Toolpath.Proofs.StrictReading
import Toolpath.Proofs.WordOrder

/-!
# Words that move nothing

A feed rate and a spindle are kept and never told to the arm, and the radius axis is read for arcs
alone. This module says so of two runs: of programs whose lines differ in such words only, from
values that differ accordingly, the arm gets the same calls.

Runs are compared step by step (`interpretLines_together`): where a line and its twin leave equal
arms, a program and its twin do. A line is taken for what it tells the arm, which is the mode of its
last motion word and the axes that planning reads.

The law (`run_without_idle_words`) has three parts. Other values for feed rate and spindle change no
answer, no axis and no call. Feed and spindle words may be left out of the lines that are read: a
line of nothing else becomes blank and answers as such, but axes and calls stay. In a program that
draws no arc, radius words may say another number and the radius may start at another.

Lines that are refused stay as they are in the second part. What a line without the words at fault
would do is not said.
-/

namespace Toolpath

/-! ## Words -/

namespace Word

/-- Feed and spindle words, of which the arm is never told. -/
def isIdle : Word → Bool
  | feed _ | spindle _ => true
  | motion .. | axis .. | unsupported _ => false

/-- Radius words, of which the arm is told in an arc. -/
def isRadius : Word → Bool
  | axis .r _ => true
  | axis .x _ | axis .y _ | axis .z _ | motion .. | feed _ | spindle _ | unsupported _ => false

/-- Two lists of words that are the same without the words of a class. -/
def SameBut (aside : Word → Bool) (words others : List Word) : Prop :=
  words.filter (fun w => !aside w) = others.filter fun w => !aside w

namespace SameBut

variable {aside : Word → Bool} {words others : List Word}

/-- What the words of the class have no answer for, the two lists answer alike. -/
theorem last?_eq (same : SameBut aside words others) {β : Type} {reading : Word → Option β}
    (only : ∀ w, aside w = true → reading w = none) :
    last? reading words = last? reading others := by
  have unseen : ∀ w, (!aside w) = false → reading w = none :=
    fun w out => only w (by simpa using out)
  rw [← last?_filter unseen words, ← last?_filter unseen others]
  exact congrArg (last? reading) same

/-- What is no word of the class stands in both or in none. -/
theorem mem_iff (same : SameBut aside words others) {w : Word} (kept : aside w = false) :
    w ∈ words ↔ w ∈ others := by
  have present (ws : List Word) : w ∈ ws ↔ w ∈ ws.filter fun w => !aside w := by
    rw [List.mem_filter, kept]
    exact (and_iff_left rfl).symm
  rw [present words, present others, same]

theorem homes_eq {line twin : Line} (same : SameBut aside line.words twin.words)
    (motions : ∀ code mode, aside (.motion code mode) = false) : line.homes = twin.homes := by
  rw [Bool.eq_iff_iff, Line.homes_iff, Line.homes_iff]
  exact exists_congr fun mode => same.mem_iff (motions _ mode)

theorem mode?_of_idle (same : SameBut isIdle words others) :
    last? mode? words = last? mode? others := by
  refine same.last?_eq fun w idle => ?_
  cases w with
  | feed | spindle => rfl
  | motion | axis | unsupported => cases idle

theorem named_of_idle (same : SameBut isIdle words others) (s : AxisState Float) :
    s.named words = s.named others := by
  have each (which : Axis) : last? (axisValue? which) words = last? (axisValue? which) others := by
    refine same.last?_eq fun w idle => ?_
    cases w with
    | feed | spindle => rfl
    | motion | axis | unsupported => cases idle
  unfold AxisState.named
  rw [each .x, each .y, each .z, each .r]

theorem mode?_of_radius (same : SameBut isRadius words others) :
    last? mode? words = last? mode? others := by
  refine same.last?_eq fun w radius => ?_
  cases w with
  | axis => rfl
  | motion | feed | spindle | unsupported => cases radius

theorem target_of_radius (same : SameBut isRadius words others) {s t : AxisState Float}
    (target : s.target = t.target) : (s.named words).target = (t.named others).target := by
  have each (which : Axis) (coordinate : which ≠ .r) :
      last? (axisValue? which) words = last? (axisValue? which) others := by
    refine same.last?_eq fun w radius => ?_
    cases w with
    | axis named value =>
      cases named with
      | r => exact if_neg (Ne.symm coordinate)
      | x | y | z => cases radius
    | motion | feed | spindle | unsupported => cases radius
  obtain ⟨x, y, z⟩ := Point.mk.inj target
  unfold AxisState.target AxisState.named
  rw [each .x nofun, each .y nofun, each .z nofun, x, y, z]

end SameBut

end Word

/-! ## Two runs side by side -/

namespace MotionMode

/-- Two plans that agree wherever the arm stands tell it the same. -/
theorem dispatch_congr {ρ : Type} [Arm ρ] {mode : MotionMode} {axes others : AxisState Float}
    (plans : ∀ current, mode.plan current axes = mode.plan current others) (arm : ρ)
    (wait : WaitPolicy) : mode.dispatch arm axes wait = mode.dispatch arm others wait := by
  unfold dispatch
  simp only [plans]

/-- A straight motion is planned without the radius. -/
theorem plan_of_straight {mode : MotionMode} (straight : mode.isArc = false)
    {axes others : AxisState Float} (target : axes.target = others.target)
    (current : Pose Float) : mode.plan current axes = mode.plan current others := by
  cases mode with
  | rapid | linear =>
    unfold plan
    rw [target]
  | clockwiseArc | counterClockwiseArc => cases straight

end MotionMode

namespace Interpreter

variable {ρ : Type} [Arm ρ] {i j : Interpreter ρ}

/-- Two lines that tell equal arms the same leave equal arms, and give the same command. -/
theorem perform_together {line twin : Line} (arm : i.arm = j.arm) (config : i.config = j.config)
    (mode : Word.last? Word.mode? line.words = Word.last? Word.mode? twin.words)
    (plans : ∀ m, Word.last? Word.mode? line.words = some m → ∀ current,
      m.plan current (i.axes.named line.words) = m.plan current (j.axes.named twin.words)) :
    (i.perform line).2.arm = (j.perform twin).2.arm ∧
      LineResult.command? (i.perform line).1 = LineResult.command? (j.perform twin).1 := by
  rw [perform_arm, perform_arm, perform_answer, perform_answer, ← mode, ← arm, ← config]
  cases moving : Word.last? Word.mode? line.words with
  | none => exact ⟨rfl, by rw [command?_stillReport, command?_stillReport]⟩
  | some m =>
    dsimp only
    rw [MotionMode.dispatch_congr (plans m moving)]
    cases (m.dispatch i.arm (j.axes.named twin.words) i.config.wait).1 with
    | error cause => exact ⟨rfl, rfl⟩
    | ok command => exact ⟨rfl, rfl⟩

/-- **A program and its twin leave equal arms where each line and its twin do.** What is kept is
related by `R` along both runs, and of the answers to a line and its twin a part is the same. -/
theorem interpretLines_together {β : Type} (part : LineResult → β) {c : InterpreterConfig}
    {S : String → String → Prop} {R : Kept → Kept → Prop}
    (step : ∀ (i j : Interpreter ρ) (source other : String), i.config = c → S source other →
      i.arm = j.arm → R i.kept j.kept →
      (i.interpretLine source).2.arm = (j.interpretLine other).2.arm ∧
        R (i.interpretLine source).2.kept (j.interpretLine other).2.kept ∧
        part (i.interpretLine source).1 = part (j.interpretLine other).1)
    {lines others : List String} (twins : List.Forall₂ S lines others) (config : i.config = c)
    (arm : i.arm = j.arm) (kept : R i.kept j.kept) :
    (i.interpretLines lines).2.arm = (j.interpretLines others).2.arm ∧
      R (i.interpretLines lines).2.kept (j.interpretLines others).2.kept ∧
      (i.interpretLines lines).1.map part = (j.interpretLines others).1.map part := by
  induction twins generalizing i j with
  | nil => exact ⟨arm, kept, rfl⟩
  | @cons source other _ _ first _ ih =>
    obtain ⟨armNext, keptNext, answer⟩ := step i j source other config first arm kept
    have configNext := (interpretLine_config i source).trans config
    obtain ⟨armLast, keptLast, later⟩ := ih configNext armNext keptNext
    rw [interpretLines_cons, interpretLines_cons, List.map_cons, List.map_cons, answer, later]
    exact ⟨armLast, keptLast, rfl⟩

end Interpreter

/-! ## Feed rate and spindle -/

/-- The same settings and axes. -/
structure Kept.SameMotion (k l : Kept) : Prop where
  config : k.config = l.config
  axes : k.axes = l.axes

theorem Kept.SameMotion.performed {k l : Kept} (h : SameMotion k l) {line twin : Line}
    (same : Word.SameBut Word.isIdle line.words twin.words) :
    SameMotion (k.performed line) (l.performed twin) := by
  refine ⟨h.config, ?_⟩
  unfold Kept.performed
  dsimp only
  rw [same.homes_eq fun _ _ => rfl, h.axes, same.named_of_idle]

namespace Word

/-- A raw word that is a well-formed feed or spindle word. -/
def isIdleText (raw : List Char) : Bool :=
  match read raw with
  | .ok w => w.isIdle
  | .error _ => false

end Word

namespace Line

/-- A line without its feed and spindle words, if it is one that is read; blanks and comments are
as one likes. A line that is refused stays as it is. -/
inductive Pruned (strict : Bool) (source : String) : String → Prop where
  | refused {fault : LineFault} (read : Line.read strict source = .error fault) :
    Pruned strict source source
  | read {line : Line} {text rest : List Char} {raws : List (List Char)} {other : String}
    (read : Line.read strict source = .ok line) (parts : Parts source text raws)
    (pruned : Parts other rest (raws.filter fun raw => !Word.isIdleText raw)) :
    Pruned strict source other

variable {strict : Bool} {source other : String}

/-- A line without its feed and spindle words is read as its other words. -/
theorem read_pruned {line : Line} {text rest : List Char} {raws : List (List Char)}
    (read : Line.read strict source = .ok line) (parts : Parts source text raws)
    (pruned : Parts other rest (raws.filter fun raw => !Word.isIdleText raw)) :
    Line.read strict other = .ok ⟨String.ofList rest, line.words.filter fun w => !w.isIdle⟩ := by
  refine read_of_takes pruned (List.rel_filter ?_ (takes_of_read read parts))
  intro raw w takes
  show (!Word.isIdleText raw) = true ↔ (!w.isIdle) = true
  unfold Word.isIdleText
  rw [takes.means.read_eq]

/-- Every line has a line without its feed and spindle words. -/
theorem exists_pruned (strict : Bool) (source : String) : ∃ other, Pruned strict source other := by
  cases read : Line.read strict source with
  | error fault => exact ⟨source, .refused read⟩
  | ok line =>
    have parts := parts_strip source
    obtain ⟨other, rest, pruned⟩ :=
      parts.exists_of_subset fun raw (present : raw ∈ List.filter _ _) =>
        List.mem_of_mem_filter present
    exact ⟨other, .read read parts pruned⟩

end Line

/-! ## The radius -/

/-- The same settings and coordinates. -/
structure Kept.SameTarget (k l : Kept) : Prop where
  config : k.config = l.config
  target : k.axes.target = l.axes.target

theorem Kept.SameTarget.performed {k l : Kept} (h : SameTarget k l) {line twin : Line}
    (same : Word.SameBut Word.isRadius line.words twin.words) :
    SameTarget (k.performed line) (l.performed twin) := by
  refine ⟨h.config, ?_⟩
  unfold Kept.performed
  dsimp only
  rw [same.homes_eq fun _ _ => rfl]
  split
  · rfl
  · exact same.target_of_radius h.target

/-- A raw word, and the same with another radius if it is a radius word. -/
inductive Word.Reradius : List Char → List Char → Prop where
  | same (raw : List Char) : Reradius raw raw
  | radius {raw other : List Char} {x y : Float} (one : Means raw (.axis .r x))
    (two : Means other (.axis .r y)) : Reradius raw other

namespace Line

/-- A line, and the same with other radii; blanks and comments are as one likes. -/
inductive Reradius (source other : String) : Prop where
  | of {text rest : List Char} {raws others : List (List Char)} (parts : Parts source text raws)
    (changed : Parts other rest others) (words : List.Forall₂ Word.Reradius raws others)

variable {strict : Bool} {source other : String}

theorem Reradius.symm (h : Reradius source other) : Reradius other source := by
  obtain ⟨parts, changed, words⟩ := h
  refine .of changed parts (words.flip.imp fun raw other changed => ?_)
  cases changed with
  | same => exact .same _
  | radius one two => exact .radius two one

/-- Words with other radii are taken where the words are, and for the same but for the radii. -/
theorem takes_reradius {raws others : List (List Char)} {words : List Word}
    (changed : List.Forall₂ Word.Reradius raws others)
    (takes : List.Forall₂ (Word.Takes strict) raws words) :
    ∃ twins, List.Forall₂ (Word.Takes strict) others twins ∧
      Word.SameBut Word.isRadius words twins := by
  induction changed generalizing words with
  | nil =>
    cases takes
    exact ⟨[], .nil, rfl⟩
  | cons first _ ih =>
    obtain _ | ⟨takesFirst, takesRest⟩ := takes
    obtain ⟨twins, taken, same⟩ := ih takesRest
    cases first with
    | same => exact ⟨_ :: twins, .cons takesFirst taken, by
        unfold Word.SameBut at same ⊢
        rw [List.filter_cons, List.filter_cons, same]⟩
    | radius one two =>
      cases one.read_eq.symm.trans takesFirst.means.read_eq
      exact ⟨_ :: twins, .cons ⟨two, fun _ => nofun⟩ taken, same⟩

/-- A line with other radii is read where the line is, as the same but for the radii. -/
theorem read_reradius (changed : Reradius source other) {line : Line}
    (read : Line.read strict source = .ok line) :
    ∃ twin, Line.read strict other = .ok twin ∧
      Word.SameBut Word.isRadius line.words twin.words := by
  obtain ⟨parts, others, words⟩ := changed
  obtain ⟨twins, taken, same⟩ := takes_reradius words (takes_of_read read parts)
  exact ⟨_, read_of_takes others taken, same⟩

theorem refused_reradius (changed : Reradius source other) {fault : LineFault}
    (refused : Line.read strict source = .error fault) :
    ∃ wrong, Line.read strict other = .error wrong := by
  cases read : Line.read strict other with
  | error wrong => exact ⟨wrong, rfl⟩
  | ok twin =>
    obtain ⟨line, accepted, _⟩ := read_reradius changed.symm read
    rw [refused] at accepted
    cases accepted

/-- A line that draws no arc, if it is read at all. -/
def Straight (strict : Bool) (source : String) : Prop :=
  ∀ line mode, Line.read strict source = .ok line → line.mode? = some mode → mode.isArc = false

end Line

/-! ## The law -/

namespace Interpreter

variable {ρ : Type} [Arm ρ] {i j : Interpreter ρ}

/-- One line on two interpreters that differ in feed rate and spindle. -/
theorem interpretLine_of_sameMotion (arm : i.arm = j.arm) (h : Kept.SameMotion i.kept j.kept)
    (source : String) :
    (i.interpretLine source).2.arm = (j.interpretLine source).2.arm ∧
      Kept.SameMotion (i.interpretLine source).2.kept (j.interpretLine source).2.kept ∧
      (i.interpretLine source).1 = (j.interpretLine source).1 := by
  have config : i.config = j.config := h.config
  have axes : i.axes = j.axes := h.axes
  cases read : Line.read i.config.strict source with
  | error fault =>
    rw [interpretLine_of_refused i read, interpretLine_of_refused j (config ▸ read)]
    exact ⟨arm, h, rfl⟩
  | ok line =>
    rw [interpretLine_of_read i read, interpretLine_of_read j (config ▸ read), perform_arm,
      perform_arm, perform_kept, perform_kept, perform_answer, perform_answer, arm, config, axes]
    exact ⟨rfl, h.performed rfl, rfl⟩

/-- One line on two interpreters, with its feed and spindle words and without. -/
theorem interpretLine_of_pruned {source other : String} (arm : i.arm = j.arm)
    (h : Kept.SameMotion i.kept j.kept) (pruned : Line.Pruned i.config.strict source other) :
    (i.interpretLine source).2.arm = (j.interpretLine other).2.arm ∧
      Kept.SameMotion (i.interpretLine source).2.kept (j.interpretLine other).2.kept ∧
      LineResult.command? (i.interpretLine source).1 =
        LineResult.command? (j.interpretLine other).1 := by
  have config : i.config = j.config := h.config
  have axes : i.axes = j.axes := h.axes
  cases pruned with
  | refused read =>
    rw [interpretLine_of_refused i read, interpretLine_of_refused j (config ▸ read)]
    exact ⟨arm, h, rfl⟩
  | @read line _ rest _ _ read parts pruned =>
    have without := Line.read_pruned read parts pruned
    let twin : Line := ⟨String.ofList rest, line.words.filter fun w => !w.isIdle⟩
    have same : Word.SameBut Word.isIdle line.words twin.words := by
      unfold Word.SameBut
      rw [List.filter_filter]
      simp only [Bool.and_self]
    rw [interpretLine_of_read i read, interpretLine_of_read j (config ▸ without), perform_kept,
      perform_kept]
    obtain ⟨arms, commands⟩ := perform_together arm config same.mode?_of_idle fun m _ current => by
      rw [axes, same.named_of_idle]
    exact ⟨arms, h.performed same, commands⟩

/-- One line on two interpreters, with its radius words and with others. -/
theorem interpretLine_of_reradius {source other : String} (arm : i.arm = j.arm)
    (h : Kept.SameTarget i.kept j.kept) (straight : Line.Straight i.config.strict source)
    (changed : Line.Reradius source other) :
    (i.interpretLine source).2.arm = (j.interpretLine other).2.arm ∧
      Kept.SameTarget (i.interpretLine source).2.kept (j.interpretLine other).2.kept ∧
      LineResult.command? (i.interpretLine source).1 =
        LineResult.command? (j.interpretLine other).1 := by
  have config : i.config = j.config := h.config
  have target : i.axes.target = j.axes.target := h.target
  cases read : Line.read i.config.strict source with
  | error fault =>
    obtain ⟨wrong, refused⟩ := Line.refused_reradius changed read
    rw [interpretLine_of_refused i read, interpretLine_of_refused j (config ▸ refused)]
    exact ⟨arm, h, rfl⟩
  | ok line =>
    obtain ⟨twin, again, same⟩ := Line.read_reradius changed read
    rw [interpretLine_of_read i read, interpretLine_of_read j (config ▸ again), perform_kept,
      perform_kept]
    obtain ⟨arms, commands⟩ := perform_together arm config same.mode?_of_radius
      fun m moving current => MotionMode.plan_of_straight
        (straight line m read (line.mode?_eq_last?.trans moving))
        (same.target_of_radius target) current
    exact ⟨arms, h.performed same, commands⟩

/-- The calls that the arm gets from a program, in order. -/
def calls (i : Interpreter ρ) (lines : List String) : List ArmCall :=
  (i.logged.interpretLines lines).2.arm.calls

/-- Running a program beside a log answers and keeps what running it does. -/
theorem interpretLines_logged (i : Interpreter ρ) (lines : List String) :
    i.interpretLines lines =
      ((i.logged.interpretLines lines).1, (i.logged.interpretLines lines).2.forgetLog) :=
  interpretLines_forgetLog i.logged lines

/-- **What is idle moves nothing.** Of two interpreters that differ in feed rate and spindle, the
same program gets the same answers, leaves the same axes and makes the same calls to the arm. Every
line can be written without its feed and spindle words, and a program of such lines gives the same
commands, line for line, leaves the same axes and makes the same calls. In a program none of whose
lines resolves to an arc, radius words may have other values, and the radius may start at another,
and the calls are the same. -/
theorem run_without_idle_words (i : Interpreter ρ) (lines : List String) :
    (∀ feedRate spindleOn,
      let j := { i with feedRate := feedRate, spindleOn := spindleOn }
      (j.interpretLines lines).1 = (i.interpretLines lines).1 ∧
      (j.interpretLines lines).2.axes = (i.interpretLines lines).2.axes ∧
      j.calls lines = i.calls lines) ∧
    (∀ source, ∃ other, Line.Pruned i.config.strict source other) ∧
    (∀ others, List.Forall₂ (Line.Pruned i.config.strict) lines others →
      (i.interpretLines others).1.map LineResult.command? =
        (i.interpretLines lines).1.map LineResult.command? ∧
      (i.interpretLines others).2.axes = (i.interpretLines lines).2.axes ∧
      i.calls others = i.calls lines) ∧
    ((∀ source ∈ lines, Line.Straight i.config.strict source) →
      ∀ others r, List.Forall₂ Line.Reradius lines others →
        let j := { i with axes := { i.axes with r := r } }
        (j.interpretLines others).1.map LineResult.command? =
          (i.interpretLines lines).1.map LineResult.command? ∧
        j.calls others = i.calls lines) := by
  refine ⟨fun feedRate spindleOn => ?_, Line.exists_pruned _, fun others pruned => ?_,
    fun straight others r changed => ?_⟩
  · intro j
    obtain ⟨arms, kept, answers⟩ := interpretLines_together id (i := i.logged) (j := j.logged)
      (c := i.config) (S := Eq) (R := Kept.SameMotion)
      (fun _ _ source _ _ twin arm kept => twin ▸ interpretLine_of_sameMotion arm kept source)
      (List.forall₂_refl lines) rfl rfl ⟨rfl, rfl⟩
    rw [List.map_id, List.map_id] at answers
    rw [interpretLines_logged i, interpretLines_logged j]
    exact ⟨answers.symm, kept.axes.symm, (congrArg Logged.calls arms).symm⟩
  · obtain ⟨arms, kept, commands⟩ := interpretLines_together LineResult.command?
      (i := i.logged) (j := i.logged) (c := i.config) (R := Kept.SameMotion)
      (fun _ _ _ _ config twin arm kept => interpretLine_of_pruned arm kept (config ▸ twin))
      pruned rfl rfl ⟨rfl, rfl⟩
    rw [interpretLines_logged i, interpretLines_logged i]
    exact ⟨commands.symm, kept.axes.symm, (congrArg Logged.calls arms).symm⟩
  · intro j
    obtain ⟨arms, _, commands⟩ := interpretLines_together LineResult.command?
      (i := i.logged) (j := j.logged) (c := i.config) (R := Kept.SameTarget)
      (fun _ _ _ _ config twin arm kept =>
        interpretLine_of_reradius arm kept (config ▸ twin.1) twin.2)
      ((List.forall₂_and_left lines others).mpr ⟨straight, changed⟩) rfl rfl ⟨rfl, rfl⟩
    rw [interpretLines_logged i, interpretLines_logged j]
    exact ⟨commands.symm, (congrArg Logged.calls arms).symm⟩

/-- A line of idle words alone, a motion with both kinds of words, and a line that is refused. The
two calls of the motion remain, whatever is left out or changed. -/
theorem run_without_idle_words_blank :
    let i := new (SimulatedArm.atPose Pose.identity)
    let j : Interpreter SimulatedArm := { i with feedRate := 3.0, spindleOn := true }
    let k : Interpreter SimulatedArm := { i with axes := { i.axes with r := -1.0 } }
    let lines := ["F20 M3 ; on", "G1 X2 m05 R5", "M3 F0"]
    let pruned := ["", "G1 X2 R5", "M3 F0"]
    let changed := ["F20 M3", "G1 X2 m05 r-.5", "M3 F0"]
    List.Forall₂ (Line.Pruned i.config.strict) lines pruned ∧
      (∀ source ∈ lines, Line.Straight i.config.strict source) ∧
      List.Forall₂ Line.Reradius lines changed ∧
      i.calls lines = [.currentPose,
        .perform (.linear (Pose.identity.withPosition ⟨2.0, 0.0, 0.0⟩)) .blocking] ∧
      j.calls lines = i.calls lines ∧ i.calls pruned = i.calls lines ∧
      k.calls changed = i.calls lines := by
  intro i j k lines pruned changed
  have onlyIdle : Line.read false "F20 M3 ; on" = .ok ⟨"F20 M3", [.feed 20.0, .spindle true]⟩ := by
    decide +kernel
  have both : Line.read false "G1 X2 m05 R5" =
      .ok ⟨"G1 X2 m05 R5", [.motion 1 .linear, .axis .x 2.0, .spindle false, .axis .r 5.0]⟩ := by
    decide +kernel
  have neither : Line.read false "M3 F0" = .error (.malformed "M3 F0" "F0" .feedNotPositive) := by
    decide +kernel
  have without (source other : String) (rest : Text.words (Line.strip other.toList) =
      (Text.words (Line.strip source.toList)).filter fun raw => !Word.isIdleText raw)
      {line : Line} (read : Line.read false source = .ok line) : Line.Pruned false source other :=
    .read read (Line.parts_strip source) (rest ▸ Line.parts_strip other)
  have prunedLines : List.Forall₂ (Line.Pruned false) lines pruned :=
    .cons (without _ _ (by decide +kernel) onlyIdle)
      (.cons (without _ _ (by decide +kernel) both) (.cons (.refused neither) .nil))
  have straight : ∀ source ∈ lines, Line.Straight false source := by
    refine List.forall_mem_cons.mpr ⟨fun line mode read chosen => ?_,
      List.forall_mem_cons.mpr ⟨fun line mode read chosen => ?_,
        List.forall_mem_singleton.mpr fun line mode read => ?_⟩⟩
    · cases onlyIdle.symm.trans read
      cases chosen
    · cases both.symm.trans read
      cases chosen
      rfl
    · cases neither.symm.trans read
  have means (raw : List Char) (filled : raw ≠ []) (w : Word) (read : Word.read raw = .ok w) :
      Word.Means raw w := (Word.read_eq_ok_iff filled).mp read
  have changedLines : List.Forall₂ Line.Reradius lines changed := by
    refine .cons ?_ (.cons ?_ (.cons ?_ .nil))
    · exact .of (Line.parts_strip _) (Line.parts_strip _) (.cons (.same _) (.cons (.same _) .nil))
    · have five := means "R5".toList (by decide) (.axis .r 5.0) (by decide +kernel)
      have less := means "r-.5".toList (by decide) (.axis .r (-0.5)) (by decide +kernel)
      exact .of (Line.parts_strip _) (Line.parts_strip _)
        (.cons (.same _) (.cons (.same _) (.cons (.same _) (.cons (.radius five less) .nil))))
    · exact .of (Line.parts_strip _) (Line.parts_strip _) (.cons (.same _) (.cons (.same _) .nil))
  obtain ⟨idle, _, omitted, radii⟩ := run_without_idle_words i lines
  exact ⟨prunedLines, straight, changedLines, by decide +kernel, (idle 3.0 true).2.2,
    (omitted pruned prunedLines).2.2, (radii straight changed (-1.0) changedLines).2⟩

end Interpreter

end Toolpath
