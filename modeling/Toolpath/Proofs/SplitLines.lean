import Toolpath.Proofs.IdleWords

/-!
# Lines that are split

The words of a line may be written on several lines. What a line keeps it keeps for the next, so a
motion finds the same axes wherever the words that name them stood, as long as nothing is told to
the arm in between. `Line.Split` are the lines that a line may be split into: their words are the
words of the line, in order, and once a motion word has come, the rest of the line stays with it.

The law (`run_split`): a program and the same program with its lines split leave the same
interpreter, its arm included, and make the same calls. One step is a line that is cut in two
(`perform_append`); a line in many pieces follows by induction on the pieces, and a program by
induction on its lines. It holds over every arm, so of motions that fail too.

It says nothing of the answers, which are of other lines. A line that is refused is left as it is:
some of its pieces would be read.
-/

namespace Toolpath

/-! ## Words in two parts -/

namespace Word

/-- What the back part of some words says comes after what the front part says. -/
theorem getD_last?_append {β : Type} (reading : Word → Option β) (front back : List Word)
    (old : β) :
    (last? reading (front ++ back)).getD old =
      (last? reading back).getD ((last? reading front).getD old) := by
  unfold last?
  rw [List.filterMap_append, List.getLast?_append, Option.getD_or]

/-- Where the front part has no motion word, the motion is that of the back part. -/
theorem mode?_append {front back : List Word} (still : ∀ w ∈ front, w.mode? = none) :
    last? mode? (front ++ back) = last? mode? back := by
  unfold last?
  rw [List.filterMap_append, List.filterMap_eq_nil_iff.mpr still, List.nil_append]

end Word

theorem AxisState.named_append (s : AxisState Float) (front back : List Word) :
    s.named (front ++ back) = (s.named front).named back := by
  unfold AxisState.named
  simp only [Word.getD_last?_append]

section Line

variable {line front back : Line}

theorem Line.homes_append (words : line.words = front.words ++ back.words)
    (still : ∀ w ∈ front.words, w.mode? = none) : line.homes = back.homes := by
  have stays : front.words.any Word.isHome = false :=
    Line.homes_of_still (Word.last?_eq_none_iff.mpr still)
  unfold Line.homes
  rw [words, List.any_append, stays, Bool.false_or]

/-- What is kept after a line is kept part by part, where only the back part can go home. -/
theorem Kept.performed_append (k : Kept) (words : line.words = front.words ++ back.words)
    (still : ∀ w ∈ front.words, w.mode? = none) :
    k.performed line = (k.performed front).performed back := by
  have stays : front.homes = false := Line.homes_of_still (Word.last?_eq_none_iff.mpr still)
  unfold Kept.performed
  dsimp only
  rw [Line.homes_append words still, stays, words, AxisState.named_append]
  simp only [Word.getD_last?_append, Bool.false_eq_true, if_false]

namespace Interpreter

variable {ρ : Type} [Arm ρ]

/-! ## A line in two parts -/

/-- **A line does what its front part and then its back part do**, where the front part has no
motion word: the arm is told at the end, from the same pose and for the same axes. -/
theorem perform_append (i : Interpreter ρ) (words : line.words = front.words ++ back.words)
    (still : ∀ w ∈ front.words, w.mode? = none) :
    (i.perform line).2 = ((i.perform front).2.perform back).2 := by
  refine eq_of_kept ?_ ?_
  · have first := congrArg Prod.snd (perform_still i (Word.last?_eq_none_iff.mpr still))
    rw [first, perform_arm, perform_arm, applyWords_arm, applyWords_axes, applyWords_config, words,
      Word.mode?_append still, AxisState.named_append]
  · simp only [perform_kept]
    exact Kept.performed_append i.kept words still

/-- A line without words does nothing. -/
theorem perform_of_nil (i : Interpreter ρ) (empty : line.words = []) : (i.perform line).2 = i := by
  unfold perform Line.isBlank
  rw [empty]
  rfl

/-- What a line does hangs on its words, and not on its text. -/
theorem perform_congr (i : Interpreter ρ) (words : line.words = back.words) :
    (i.perform line).2 = (i.perform back).2 := by
  let blank : Line := ⟨"", []⟩
  have idle : (i.perform blank).2 = i := perform_of_nil i rfl
  have whole : (i.perform line).2 = ((i.perform blank).2.perform back).2 :=
    perform_append i words nofun
  rwa [idle] at whole

end Interpreter

end Line

/-! ## A line in many parts -/

namespace Line

/-- Of lines one after another, none after the first motion word has a word. -/
def Together (parts : List Line) : Prop :=
  parts.Pairwise fun earlier later => (∀ w ∈ earlier.words, w.mode? = none) ∨ later.words = []

/-- A line, and lines that it may be split into: they are read as parts whose words are those of the
line, and the motion words are together with all that follows the first of them. A line that is
refused stays as it is. -/
inductive Split (strict : Bool) (source : String) : List String → Prop where
  | refused {fault : LineFault} (read : Line.read strict source = .error fault) :
    Split strict source [source]
  | read {line : Line} {pieces : List String} {parts : List Line}
    (read : Line.read strict source = .ok line)
    (each : List.Forall₂ (fun piece part => Line.read strict piece = .ok part) pieces parts)
    (words : line.words = parts.flatMap Line.words) (together : Together parts) :
    Split strict source pieces

/-- Every line that is read can be cut in two before its first motion word, and anywhere before
that. -/
theorem exists_cut {strict : Bool} {source : String} {line : Line}
    (read : Line.read strict source = .ok line) {front back : List Word}
    (words : line.words = front ++ back) :
    ∃ first second text rest, Line.read strict first = .ok ⟨text, front⟩ ∧
      Line.read strict second = .ok ⟨rest, back⟩ := by
  have parts := parts_strip source
  have takes := takes_of_read read parts
  rw [words] at takes
  generalize Text.words (strip source.toList) = raws at parts takes
  have split := List.take_append_drop front.length raws
  have takesFront := List.forall₂_take_append raws front back takes
  have takesBack := List.forall₂_drop_append raws front back takes
  obtain ⟨first, _, firstParts⟩ :=
    parts.exists_of_subset fun raw (present : raw ∈ raws.take front.length) =>
      List.mem_of_mem_take present
  obtain ⟨second, _, secondParts⟩ :=
    parts.exists_of_subset fun raw (present : raw ∈ raws.drop front.length) =>
      List.mem_of_mem_drop present
  exact ⟨first, second, _, _, read_of_takes firstParts takesFront,
    read_of_takes secondParts takesBack⟩

end Line

namespace Interpreter

variable {ρ : Type} [Arm ρ]

/-- The parts of a line do together what the line does. -/
theorem interpretLines_of_parts {i : Interpreter ρ} {strict : Bool}
    (reads : i.config.strict = strict) {pieces : List String} {parts : List Line}
    (each : List.Forall₂ (fun piece part => Line.read strict piece = .ok part) pieces parts)
    (together : Line.Together parts) {line : Line} (words : line.words = parts.flatMap Line.words) :
    (i.interpretLines pieces).2 = (i.perform line).2 := by
  induction each generalizing i line with
  | nil => exact (perform_of_nil i words).symm
  | @cons piece part pieces parts read _ ih =>
    obtain ⟨alone, others⟩ := List.pairwise_cons.mp together
    rw [List.flatMap_cons] at words
    let rest : Line := ⟨"", parts.flatMap Line.words⟩
    have performed : i.interpretLine piece = i.perform part :=
      interpretLine_of_read i (by rwa [reads])
    have readsNext : (i.perform part).2.config.strict = strict := by
      rw [← performed, interpretLine_config, reads]
    have later : ((i.perform part).2.interpretLines pieces).2 =
        ((i.perform part).2.perform rest).2 :=
      ih readsNext others rfl
    rw [interpretLines_cons, performed, later]
    by_cases still : ∀ w ∈ part.words, w.mode? = none
    · exact (perform_append i words still).symm
    · -- the motion is here, so there is no word after this part
      have empty : rest.words = [] := List.flatMap_eq_nil_iff.mpr fun next present =>
        (alone next present).resolve_left still
      have whole : line.words = part.words := by
        rw [words, show parts.flatMap Line.words = [] from empty, List.append_nil]
      rw [perform_of_nil _ empty, perform_congr i whole]

/-- A line that is split does what it did. -/
theorem interpretLines_of_split (i : Interpreter ρ) {source : String} {pieces : List String}
    (split : Line.Split i.config.strict source pieces) :
    (i.interpretLines pieces).2 = (i.interpretLine source).2 := by
  cases split with
  | refused read => rfl
  | read read each words together =>
    rw [interpretLine_of_read i read]
    exact interpretLines_of_parts rfl each together words

/-! ## Programs -/

/-- A program whose lines are split does what it did. -/
theorem interpretLines_flatten {i : Interpreter ρ} {strict : Bool}
    (reads : i.config.strict = strict) {lines : List String} {pieces : List (List String)}
    (split : List.Forall₂ (Line.Split strict) lines pieces) :
    (i.interpretLines pieces.flatten).2 = (i.interpretLines lines).2 := by
  induction split generalizing i with
  | nil => rfl
  | @cons source first lines others here _ ih =>
    have readsNext : (i.interpretLine source).2.config.strict = strict := by
      rw [interpretLine_config, reads]
    rw [List.flatten_cons, interpretLines_append, interpretLines_cons,
      interpretLines_of_split i (by rwa [reads])]
    exact ih readsNext

/-- **A line may be split before its motion.** Every line that is read can be cut in two anywhere
before its first motion word, and does what the two lines do one after the other: the same
interpreter is left, with the same axes, feed rate, spindle and arm, and the arm gets the same calls
in the same order. So it is for every program, whose lines may be split into any number of lines
that keep the motion words of a line together with all that follows the first of them. -/
theorem run_split (i : Interpreter ρ) :
    (∀ source line, Line.read i.config.strict source = .ok line →
      ∀ front back, line.words = front ++ back →
        ∃ first second text rest, Line.read i.config.strict first = .ok ⟨text, front⟩ ∧
          Line.read i.config.strict second = .ok ⟨rest, back⟩) ∧
    (∀ source first second line front back, Line.read i.config.strict source = .ok line →
      Line.read i.config.strict first = .ok front → Line.read i.config.strict second = .ok back →
      line.words = front.words ++ back.words → (∀ w ∈ front.words, w.mode? = none) →
        (i.interpretLines [first, second]).2 = (i.interpretLine source).2 ∧
        i.calls [first, second] = i.calls [source]) ∧
    ∀ lines pieces, List.Forall₂ (Line.Split i.config.strict) lines pieces →
      (i.interpretLines pieces.flatten).2 = (i.interpretLines lines).2 ∧
      i.calls pieces.flatten = i.calls lines := by
  have programs : ∀ lines pieces, List.Forall₂ (Line.Split i.config.strict) lines pieces →
      (i.interpretLines pieces.flatten).2 = (i.interpretLines lines).2 ∧
      i.calls pieces.flatten = i.calls lines := by
    intro lines pieces split
    have onLog := interpretLines_flatten (i := i.logged) rfl split
    exact ⟨interpretLines_flatten rfl split, congrArg (fun after => after.arm.calls) onLog⟩
  refine ⟨fun source line read front back words => Line.exists_cut read words, ?_, programs⟩
  intro source first second line front back read readFirst readSecond words still
  have split : Line.Split i.config.strict source [first, second] := by
    refine .read read (.cons readFirst (.cons readSecond .nil)) ?_ ?_
    · simpa using words
    · exact List.pairwise_pair.mpr (.inl still)
  exact programs [source] [[first, second]] (.cons split .nil)

/-- Axes that are named on lines of their own, with a line between that holds no word. The arc ends
where both lines have named, and the axes go home after it; the line that is refused stays whole. -/
theorem run_split_homing_arc :
    let i := new (SimulatedArm.atPose Pose.identity)
    let arc := "X5 F20 G28 Y10 R7.5 G2 ; arc"
    let off := "M3 F0 G1"
    let on := "M3 T2 Y2"
    let arcPieces := ["x5 ; east", "; comment", "F20", "G28 Y10 R7.5 G2"]
    let onPieces := ["m3", "T2 Y2"]
    let pieces := [arcPieces, [off], onPieces]
    List.Forall₂ (Line.Split i.config.strict) [arc, off, on] pieces ∧
      (i.interpretLines [arc, off, on]).2.axes = ⟨0.0, 2.0, 0.0, 7.5⟩ ∧
      (i.interpretLines pieces.flatten).2 = (i.interpretLines [arc, off, on]).2 ∧
      (i.calls pieces.flatten).length = 2 ∧
      (i.interpretLines onPieces).2 = (i.interpretLine on).2 ∧
      ∃ first second text rest, Line.read i.config.strict first = .ok ⟨text, [.spindle true]⟩ ∧
        Line.read i.config.strict second = .ok ⟨rest, [.unsupported "T2", .axis .y 2.0]⟩ := by
  intro i arc off on arcPieces onPieces pieces
  have readArc : Line.read false arc = .ok ⟨"X5 F20 G28 Y10 R7.5 G2", [.axis .x 5.0, .feed 20.0,
      .motion 28 .rapid, .axis .y 10.0, .axis .r 7.5, .motion 2 .clockwiseArc]⟩ := by decide +kernel
  have readOn : Line.read false on =
      .ok ⟨"M3 T2 Y2", [.spindle true, .unsupported "T2", .axis .y 2.0]⟩ := by decide +kernel
  have arcParts : List.Forall₂ (fun piece part => Line.read false piece = .ok part) arcPieces
      [⟨"x5", [.axis .x 5.0]⟩, ⟨"", []⟩, ⟨"F20", [.feed 20.0]⟩, ⟨"G28 Y10 R7.5 G2",
        [.motion 28 .rapid, .axis .y 10.0, .axis .r 7.5, .motion 2 .clockwiseArc]⟩] :=
    .cons (by decide +kernel) (.cons (by decide +kernel)
      (.cons (by decide +kernel) (.cons (by decide +kernel) .nil)))
  have readFront : Line.read false "m3" = .ok ⟨"m3", [.spindle true]⟩ := by decide +kernel
  have readBack : Line.read false "T2 Y2" =
      .ok ⟨"T2 Y2", [.unsupported "T2", .axis .y 2.0]⟩ := by decide +kernel
  have refusedOff : Line.read false off = .error (.malformed off "F0" .feedNotPositive) := by
    decide +kernel
  have split : List.Forall₂ (Line.Split false) [arc, off, on] pieces := by
    refine .cons (.read readArc arcParts rfl ?_) (.cons (.refused refusedOff)
      (.cons (.read readOn (.cons readFront (.cons readBack .nil)) rfl ?_) .nil))
    · simp [Line.Together, Word.mode?]
    · simp [Line.Together, Word.mode?]
  obtain ⟨cut, two, programs⟩ := run_split i
  obtain ⟨left, calls⟩ := programs _ _ split
  have still : ∀ w ∈ [Word.spindle true], w.mode? = none := by decide
  have onTwo := two _ _ _ _ _ _ readOn readFront readBack rfl still
  refine ⟨split, by decide +kernel, left, ?_, onTwo.1, cut _ _ readOn _ _ rfl⟩
  rw [calls]
  decide +kernel

end Interpreter

end Toolpath
