import Toolpath.Proofs.ProgramRuns

/-!
# Programs in bytes

A program comes as lines, as a text, or as the bytes of one. This module says that it does the same
in all three.

`Text.Lined` says what the lines of a sequence are without saying how they are found, and there is
one way only to cut a sequence into them (`linesFrom_eq_iff`). UTF-8 writes a line feed and a
carriage return as one byte each, and uses these bytes for nothing else, so the lines of a text in
bytes are its lines, in bytes (`byteLines_utf8`).

Bytes that are no text have a first line that is none: `Text.Breaks` names it, and what stands
before it is a text of whole lines.

The law (`run_feeds`): the bytes of a text run as the text does. Other bytes are refused, and the
interpreter and its arm are left as the text before the first line that is none leaves them. A text
after one that ends with a line feed goes on where that one stopped.
-/

namespace Toolpath

namespace Text

/-! ## Lines -/

section Lines

variable {β : Type} [DecidableEq β] {feed ret : β}

/-- The lines of a sequence. A feed ends a line, alone or after a return, and what follows the last
one is a line too unless it is empty. -/
inductive Lined (feed ret : β) : List β → List (List β) → Prop where
  | none : Lined feed ret [] []
  | last {line : List β} (unbroken : feed ∉ line) (filled : line ≠ []) : Lined feed ret line [line]
  | ended {line rest : List β} {lines : List (List β)} (unbroken : feed ∉ line)
    (bare : ∀ b ∈ line.getLast?, b ≠ ret) (others : Lined feed ret rest lines) :
    Lined feed ret (line ++ feed :: rest) (line :: lines)
  | returned {line rest : List β} {lines : List (List β)} (unbroken : feed ∉ line)
    (others : Lined feed ret rest lines) :
    Lined feed ret (line ++ ret :: feed :: rest) (line :: lines)

theorem dropReturn_append (ret : β) (line : List β) : dropReturn ret (line ++ [ret]) = line := by
  induction line with
  | nil => simp [dropReturn]
  | cons b line ih =>
    cases line with
    | nil => simp [dropReturn]
    | cons c line => exact congrArg (b :: ·) ih

theorem dropReturn_of_bare {line : List β} (bare : ∀ b ∈ line.getLast?, b ≠ ret) :
    dropReturn ret line = line := by
  rcases dropReturn_cases ret line with kept | dropped
  · exact kept
  · have ends : ret ∈ line.getLast? := by
      rw [dropped, List.getLast?_concat]
      rfl
    exact absurd rfl (bare ret ends)

theorem linesFrom_feed (read rest : List β) :
    linesFrom feed ret read (feed :: rest) =
      dropReturn ret read.reverse :: linesFrom feed ret [] rest := by
  cases read <;> simp [linesFrom]

theorem linesFrom_cons {b : β} (other : b ≠ feed) (read rest : List β) :
    linesFrom feed ret read (b :: rest) = linesFrom feed ret (b :: read) rest := by
  cases read <;> simp [linesFrom, other]

/-- A text without a feed is one line, unless it is empty. -/
theorem linesFrom_of_not_mem {line : List β} (unbroken : feed ∉ line) {read : List β}
    (filled : read.reverse ++ line ≠ []) :
    linesFrom feed ret read line = [read.reverse ++ line] := by
  induction line generalizing read with
  | nil =>
    cases read with
    | nil => exact absurd rfl filled
    | cons b read => simp [linesFrom]
  | cons b line ih =>
    rw [linesFrom_cons (List.ne_of_not_mem_cons unbroken).symm,
      ih (List.not_mem_of_not_mem_cons unbroken) (by simp)]
    simp

theorem lined_linesFrom {read : List β} (before : feed ∉ read) (rest : List β) :
    Lined feed ret (read.reverse ++ rest) (linesFrom feed ret read rest) := by
  induction rest generalizing read with
  | nil =>
    cases read with
    | nil => exact .none
    | cons b read =>
      rw [List.append_nil]
      refine .last ?_ (by simp)
      rwa [List.mem_reverse]
  | cons b rest ih =>
    by_cases ends : b = feed
    · subst ends
      have others := @ih [] List.not_mem_nil
      rw [linesFrom_feed]
      rcases dropReturn_cases ret read.reverse with kept | dropped
      · -- a return that stays would have been dropped
        have bare : ∀ c ∈ read.reverse.getLast?, c ≠ ret := by
          rintro c last rfl
          obtain ⟨front, split⟩ := List.getLast?_eq_some_iff.mp last
          rw [split, dropReturn_append] at kept
          simp at kept
        rw [kept]
        refine .ended ?_ bare others
        rwa [List.mem_reverse]
      · have unbroken : b ∉ dropReturn ret read.reverse := by
          intro present
          apply before
          rw [← List.mem_reverse, dropped]
          exact List.mem_append_left _ present
        have whole := Lined.returned unbroken others
        rwa [List.append_cons, ← dropped] at whole
    · rw [linesFrom_cons ends]
      have whole := ih (List.not_mem_cons_of_ne_of_not_mem (Ne.symm ends) before)
      rwa [List.reverse_cons, List.append_assoc] at whole

/-- Every sequence has lines. -/
theorem exists_lined (feed ret : β) (text : List β) : ∃ lines, Lined feed ret text lines :=
  ⟨_, lined_linesFrom List.not_mem_nil text⟩

theorem Lined.linesFrom_eq (distinct : ret ≠ feed) {text : List β} {lines : List (List β)}
    (lined : Lined feed ret text lines) : linesFrom feed ret [] text = lines := by
  induction lined with
  | none => rfl
  | last unbroken filled => exact linesFrom_of_not_mem unbroken filled
  | ended unbroken bare _ ih =>
    rw [linesFrom_append unbroken, ih, List.reverse_nil, List.nil_append, dropReturn_of_bare bare]
  | @returned line rest _ unbroken _ ih =>
    have longer : feed ∉ line ++ [ret] := by simp [unbroken, distinct.symm]
    have cut : linesFrom feed ret [] (line ++ [ret] ++ feed :: rest) = _ :=
      linesFrom_append longer [] rest
    rw [ih, List.reverse_nil, List.nil_append, dropReturn_append] at cut
    simpa using cut

/-- **The lines found are the lines of the sequence.** -/
theorem linesFrom_eq_iff (distinct : ret ≠ feed) {text : List β} {lines : List (List β)} :
    linesFrom feed ret [] text = lines ↔ Lined feed ret text lines := by
  constructor
  · rintro rfl
    exact lined_linesFrom List.not_mem_nil text
  · exact Lined.linesFrom_eq distinct

/-- A sequence of whole lines: nothing, or a feed at the end. -/
def Whole (feed : β) (text : List β) : Prop := ∀ b ∈ text.getLast?, b = feed

theorem linesFrom_seam (init back read : List β) :
    linesFrom feed ret read (init ++ feed :: back) =
      linesFrom feed ret read (init ++ [feed]) ++ linesFrom feed ret [] back := by
  induction init generalizing read with
  | nil => simp [linesFrom_feed, linesFrom]
  | cons b init ih =>
    by_cases ends : b = feed
    · subst ends
      simp only [List.cons_append, linesFrom_feed, ih]
    · simp only [List.cons_append, linesFrom_cons ends, ih]

/-- After whole lines, other lines begin anew. -/
theorem linesFrom_append_of_whole {front : List β} (whole : Whole feed front) (back : List β) :
    linesFrom feed ret [] (front ++ back) =
      linesFrom feed ret [] front ++ linesFrom feed ret [] back := by
  rcases List.eq_nil_or_concat front with rfl | ⟨init, b, rfl⟩
  · rfl
  · obtain rfl : b = feed := whole b (by simp)
    simpa using linesFrom_seam init back []

end Lines

/-! ## UTF-8 -/

/-- The bytes of a text. -/
def utf8 (text : String) : List UInt8 := text.toUTF8.data.toList

theorem utf8_eq (text : String) : utf8 text = text.toList.flatMap String.utf8EncodeChar := by
  unfold utf8
  rw [String.toUTF8_eq_toByteArray, ← String.utf8Encode_toList]
  simp [List.utf8Encode]

theorem utf8_ofList (cs : List Char) :
    utf8 (String.ofList cs) = cs.flatMap String.utf8EncodeChar := by
  rw [utf8_eq, String.toList_ofList]

theorem utf8_append (front back : String) : utf8 (front ++ back) = utf8 front ++ utf8 back := by
  simp [utf8_eq]

/-- **Bytes are read as a text exactly where they are its bytes.** -/
theorem ofUtf8?_eq_some {bytes : List UInt8} {text : String} :
    ofUtf8? bytes = some text ↔ bytes = utf8 text := by
  unfold ofUtf8? String.fromUTF8? utf8
  constructor
  · intro decoded
    split at decoded
    case isFalse => cases decoded
    case isTrue valid =>
      cases decoded
      rfl
  · rintro rfl
    have valid : (ByteArray.mk text.toUTF8.data.toList.toArray).IsValidUTF8 := text.isValidUTF8
    rw [dif_pos valid]
    rfl

theorem ofUtf8?_utf8 (text : String) : ofUtf8? (utf8 text) = some text := ofUtf8?_eq_some.mpr rfl

/-- Bytes that no text has. -/
def NoText (bytes : List UInt8) : Prop := ∀ text, bytes ≠ utf8 text

theorem ofUtf8?_eq_none {bytes : List UInt8} : ofUtf8? bytes = none ↔ NoText bytes := by
  rw [Option.eq_none_iff_forall_ne_some]
  exact forall_congr' fun text => not_congr ofUtf8?_eq_some

/-- The bytes of a character below 128 are one, and those of the others are all from 128 on. -/
theorem mem_utf8EncodeChar {c : Char} {b : UInt8} (mem : b ∈ String.utf8EncodeChar c) :
    b.toNat = c.toNat ∨ 128 ≤ b.toNat := by
  have value : c.val.toNat = c.toNat := rfl
  unfold String.utf8EncodeChar at mem
  dsimp only at mem
  rw [value] at mem
  split_ifs at mem with one two three
  · left
    rw [List.mem_singleton.mp mem, UInt8.toNat_ofNat']
    omega
  all_goals
    right
    simp only [List.mem_cons, List.not_mem_nil, or_false] at mem
  · rcases mem with rfl | rfl <;> rw [UInt8.toNat_ofNat'] <;> omega
  · rcases mem with rfl | rfl | rfl <;> rw [UInt8.toNat_ofNat'] <;> omega
  · rcases mem with rfl | rfl | rfl | rfl <;> rw [UInt8.toNat_ofNat'] <;> omega

/-- The bytes of the two marks that end lines stand for these only. -/
theorem eq_of_mem_utf8EncodeChar {c d : Char} {b : UInt8} (mem : b ∈ String.utf8EncodeChar c)
    (single : b.toNat = d.toNat) (small : d.toNat < 128) : c = d := by
  apply Char.toNat_inj.mp
  rcases mem_utf8EncodeChar mem with same | large
  · exact same.symm.trans single
  · omega

theorem feed_not_mem {line : List Char} (unbroken : '\n' ∉ line) :
    10 ∉ line.flatMap String.utf8EncodeChar := by
  intro mem
  obtain ⟨c, present, inside⟩ := List.mem_flatMap.mp mem
  exact unbroken (eq_of_mem_utf8EncodeChar (d := '\n') inside rfl (by decide) ▸ present)

theorem bare_utf8 {line : List Char} (bare : ∀ c ∈ line.getLast?, c ≠ '\r') :
    ∀ b ∈ (line.flatMap String.utf8EncodeChar).getLast?, b ≠ 13 := by
  rintro b last rfl
  rcases List.eq_nil_or_concat line with rfl | ⟨init, c, rfl⟩
  · cases last
  · have filled : String.utf8EncodeChar c ≠ [] := String.utf8EncodeChar_ne_nil
    rw [List.concat_eq_append, List.flatMap_append, List.flatMap_singleton,
      List.getLast?_append_of_ne_nil _ filled] at last
    have inside := List.mem_of_getLast? last
    exact bare c (by simp) (eq_of_mem_utf8EncodeChar (d := '\r') inside rfl (by decide))

/-- The lines of a text in bytes are its lines in bytes. -/
theorem Lined.utf8 {text : List Char} {lines : List (List Char)}
    (lined : Lined '\n' '\r' text lines) :
    Lined 10 13 (text.flatMap String.utf8EncodeChar)
      (lines.map (·.flatMap String.utf8EncodeChar)) := by
  induction lined with
  | none => exact .none
  | last unbroken filled =>
    refine .last (feed_not_mem unbroken) ?_
    intro empty
    obtain ⟨c, present⟩ := List.exists_mem_of_ne_nil _ filled
    exact String.utf8EncodeChar_ne_nil (List.flatMap_eq_nil_iff.mp empty c present)
  | ended unbroken bare _ ih =>
    rw [List.flatMap_append, List.flatMap_cons]
    exact .ended (feed_not_mem unbroken) (bare_utf8 bare) ih
  | returned unbroken _ ih =>
    rw [List.flatMap_append, List.flatMap_cons, List.flatMap_cons]
    exact .returned (feed_not_mem unbroken) ih

/-! ## The first line that is no text -/

/-- A byte sequence breaks off being a text: whole lines of one come first, and the line after them,
up to a feed or the end, is no text. -/
structure Breaks (bytes : List UInt8) (front : String) (bad rest : List UInt8) : Prop where
  split : bytes = utf8 front ++ (bad ++ rest)
  whole : Whole '\n' front.toList
  unbroken : 10 ∉ bad
  wrong : NoText bad
  ends : ∀ b ∈ rest.head?, b = 10

/-- A byte sequence is a text, or it breaks off being one. -/
def Settled (bytes : List UInt8) : Prop :=
  (∃ text, bytes = utf8 text) ∨ ∃ front bad rest, Breaks bytes front bad rest

theorem settled_of_noText {bad rest : List UInt8} (unbroken : 10 ∉ bad) (wrong : NoText bad)
    (ends : ∀ b ∈ rest.head?, b = 10) : Settled (bad ++ rest) :=
  .inr ⟨"", bad, rest, rfl, nofun, unbroken, wrong, ends⟩

/-- A line before a settled sequence. -/
theorem Settled.line {line rest : List UInt8} (unbroken : 10 ∉ line) (later : Settled rest) :
    Settled (line ++ 10 :: rest) := by
  by_cases wrong : NoText line
  · exact settled_of_noText unbroken wrong (by simp)
  · obtain ⟨first, rfl⟩ : ∃ text, line = utf8 text := by
      simpa [NoText] using wrong
    have feed : utf8 "\n" = [10] := rfl
    rcases later with ⟨text, rfl⟩ | ⟨front, bad, others, breaks⟩
    · refine .inl ⟨first ++ "\n" ++ text, ?_⟩
      rw [utf8_append, utf8_append, feed, List.append_assoc, List.singleton_append]
    · refine .inr ⟨first ++ "\n" ++ front, bad, others, ?_, ?_, breaks.unbroken, breaks.wrong,
        breaks.ends⟩
      · rw [utf8_append, utf8_append, feed, breaks.split]
        simp
      · intro c last
        rw [String.toList_append, String.toList_append, List.getLast?_append] at last
        rcases Option.or_eq_some_iff.mp last with inside | ⟨_, inside⟩
        · exact breaks.whole c inside
        · simpa [eq_comm] using inside

/-- **Every byte sequence is a text, or breaks off being one.** -/
theorem settled (bytes : List UInt8) : Settled bytes := by
  obtain ⟨lines, lined⟩ := exists_lined 10 13 bytes
  induction lined with
  | none => exact .inl ⟨"", rfl⟩
  | @last line unbroken _ =>
    by_cases wrong : NoText line
    · have whole : Settled (line ++ []) := settled_of_noText unbroken wrong nofun
      rwa [List.append_nil] at whole
    · left
      simpa [NoText] using wrong
  | ended unbroken _ _ ih => exact ih.line unbroken
  | @returned line rest _ unbroken _ ih =>
    have longer : 10 ∉ line ++ [13] := by simp [unbroken]
    have whole := ih.line longer
    rwa [List.append_assoc, List.singleton_append] at whole

end Text

/-! ## Programs -/

namespace Interpreter

theorem byteLines_utf8 (text : String) :
    Text.byteLines (Text.utf8 text) = (programLines text).map Text.utf8 := by
  obtain ⟨lines, lined⟩ := Text.exists_lined '\n' '\r' text.toList
  unfold Text.byteLines programLines Text.lines
  rw [Text.utf8_eq, lined.utf8.linesFrom_eq (by decide), lined.linesFrom_eq (by decide),
    List.map_map]
  exact List.map_congr_left fun line _ => (Text.utf8_ofList line).symm

/-- The line at which a byte sequence breaks off is found after the lines of the text before. -/
theorem byteLines_of_breaks {bytes bad rest : List UInt8} {front : String}
    (breaks : Text.Breaks bytes front bad rest) :
    ∃ wrong others, Text.NoText wrong ∧
      Text.byteLines bytes = (programLines front).map Text.utf8 ++ wrong :: others := by
  have whole : Text.Whole 10 (Text.utf8 front) := by
    rw [Text.utf8_eq]
    rcases List.eq_nil_or_concat front.toList with empty | ⟨init, c, split⟩
    · rw [empty]
      exact nofun
    · have last : c = '\n' := breaks.whole c (by simp [split])
      rw [split, last]
      simp [Text.Whole, String.utf8EncodeChar]
  have first : Text.linesFrom 10 13 [] (Text.utf8 front ++ (bad ++ rest)) = _ :=
    Text.linesFrom_append_of_whole whole (bad ++ rest)
  have lines : Text.byteLines bytes = (programLines front).map Text.utf8 ++
      Text.linesFrom 10 13 [] (bad ++ rest) := by
    rw [← byteLines_utf8, breaks.split]
    exact first
  have filled : bad ≠ [] := breaks.wrong ""
  rw [lines]
  cases rest with
  | nil =>
    refine ⟨bad, [], breaks.wrong, ?_⟩
    rw [List.append_nil, Text.linesFrom_of_not_mem breaks.unbroken (by simpa using filled)]
    rfl
  | cons b rest =>
    obtain rfl := breaks.ends b rfl
    refine ⟨Text.dropReturn 13 bad, _, ?_, congrArg _ (Text.linesFrom_append breaks.unbroken [] _)⟩
    intro text same
    rcases Text.dropReturn_cases 13 bad with kept | dropped
    · exact breaks.wrong text (kept.symm.trans same)
    · apply breaks.wrong (text ++ "\r")
      rw [dropped, Text.utf8_append, same]
      rfl

/-- What breaks off being a text is none. -/
theorem noText_iff {bytes : List UInt8} :
    Text.NoText bytes ↔ ∃ front bad rest, Text.Breaks bytes front bad rest := by
  constructor
  · intro noText
    refine (Text.settled bytes).resolve_left ?_
    rintro ⟨text, same⟩
    exact noText text same
  · rintro ⟨front, bad, rest, breaks⟩ text rfl
    obtain ⟨wrong, others, noText, lines⟩ := byteLines_of_breaks breaks
    have found : wrong ∈ (programLines text).map Text.utf8 := by
      rw [← byteLines_utf8, lines]
      simp
    obtain ⟨line, _, same⟩ := List.mem_map.mp found
    exact noText line same.symm

variable {ρ : Type} [Arm ρ]

theorem interpretEncoded_utf8 (i : Interpreter ρ) (source : String) (rest : List (List UInt8)) :
    i.interpretEncoded (Text.utf8 source :: rest) =
      (((i.interpretLine source).2.interpretEncoded rest).1.map ((i.interpretLine source).1 :: ·),
        ((i.interpretLine source).2.interpretEncoded rest).2) := by
  conv => lhs; unfold interpretEncoded
  rw [Text.ofUtf8?_utf8]

/-- Encoded lines do what the lines do. -/
theorem interpretEncoded_map (i : Interpreter ρ) (sources : List String) :
    i.interpretEncoded (sources.map Text.utf8) =
      (.ok (i.interpretLines sources).1, (i.interpretLines sources).2) := by
  induction sources generalizing i with
  | nil => rfl
  | cons source sources ih =>
    rw [List.map_cons, interpretEncoded_utf8, ih, interpretLines_cons]
    rfl

/-- At a line that is no text a program ends, and what came before it is done. -/
theorem interpretEncoded_wrong (i : Interpreter ρ) (sources : List String) {wrong : List UInt8}
    (noText : Text.NoText wrong) (others : List (List UInt8)) :
    i.interpretEncoded (sources.map Text.utf8 ++ wrong :: others) =
      (.error (.reading .invalidUtf8), (i.interpretLines sources).2) := by
  induction sources generalizing i with
  | nil =>
    show i.interpretEncoded (wrong :: others) = _
    unfold interpretEncoded
    rw [Text.ofUtf8?_eq_none.mpr noText]
    rfl
  | cons source sources ih =>
    rw [List.map_cons, List.cons_append, interpretEncoded_utf8, ih, interpretLines_cons]
    rfl

/-- A text after whole lines is run from where they end. -/
theorem runProgram_append (i : Interpreter ρ) {front : String}
    (whole : Text.Whole '\n' front.toList) (back : String) :
    i.runProgram (front ++ back) =
      ((i.runProgram front).1 ++ ((i.runProgram front).2.runProgram back).1,
        ((i.runProgram front).2.runProgram back).2) := by
  have lines : programLines (front ++ back) = programLines front ++ programLines back := by
    unfold programLines Text.lines
    rw [String.toList_append, Text.linesFrom_append_of_whole whole, List.map_append]
  unfold runProgram
  rw [lines, interpretLines_append]

/-- **A program does the same however it is fed.** A text runs as its lines do one after another,
and the bytes of a text run as the text: with the same answers, and to the same interpreter and arm.
Bytes that are no text break off being one at a line. The program is refused then, and what is left
is what the text before that line leaves. A text that follows one with a line feed at its end is
answered after it, from where that one stopped. -/
theorem run_feeds (i : Interpreter ρ) :
    (∀ text, ∃ lines : List String,
      Text.Lined '\n' '\r' text.toList (lines.map String.toList) ∧
      i.runProgram text = i.interpretLines lines) ∧
    (∀ text, i.runReader (Text.utf8 text) = (.ok (i.runProgram text).1, (i.runProgram text).2)) ∧
    (∀ bytes, Text.NoText bytes ↔ ∃ front bad rest, Text.Breaks bytes front bad rest) ∧
    (∀ bytes front bad rest, Text.Breaks bytes front bad rest →
      i.runReader bytes = (.error (.reading .invalidUtf8), (i.runProgram front).2)) ∧
    ∀ front back : String, front.toList.getLast? = some '\n' →
      i.runProgram (front ++ back) =
        ((i.runProgram front).1 ++ ((i.runProgram front).2.runProgram back).1,
          ((i.runProgram front).2.runProgram back).2) := by
  refine ⟨?_, ?_, fun bytes => noText_iff, ?_, ?_⟩
  · intro text
    refine ⟨programLines text, ?_, rfl⟩
    have same : (programLines text).map String.toList = Text.lines text.toList := by
      simp [programLines]
    rw [same]
    exact Text.lined_linesFrom List.not_mem_nil text.toList
  · intro text
    unfold runReader
    rw [byteLines_utf8, interpretEncoded_map]
    rfl
  · intro bytes front bad rest breaks
    obtain ⟨wrong, others, noText, lines⟩ := byteLines_of_breaks breaks
    unfold runReader
    rw [lines, interpretEncoded_wrong i _ noText]
    rfl
  · intro front back last
    refine i.runProgram_append ?_ back
    intro c found
    exact Option.some.inj (found.symm.trans last)

/-- Bytes whose second line is no text: the first line, with a return before its feed, is done, and
the third is not. The first line is also run on its own, with the third after it. -/
theorem run_feeds_broken_line :
    let i := new (SimulatedArm.atPose Pose.identity)
    let bytes : List UInt8 := [71, 48, 32, 88, 49, 13, 10, 88, 255, 13, 10, 88, 50]
    let front := "G0 X1\r\n"
    Text.NoText bytes ∧ Text.Breaks bytes front [88, 255, 13] [10, 88, 50] ∧
      i.runReader bytes = (.error (.reading .invalidUtf8), (i.runProgram front).2) ∧
      (i.runProgram front).2.axes = ⟨1.0, 0.0, 0.0, 0.0⟩ ∧
      (i.runProgram (front ++ "X2")).1.length = 2 := by
  intro i bytes front
  have breaks : Text.Breaks bytes front [88, 255, 13] [10, 88, 50] := {
    split := rfl
    whole := by simp [Text.Whole, front]
    unbroken := by decide
    wrong := Text.ofUtf8?_eq_none.mp rfl
    ends := by simp }
  obtain ⟨_, _, noText, broken, joined⟩ := i.run_feeds
  have ends : front.toList.getLast? = some '\n' := by decide +kernel
  refine ⟨(noText bytes).mpr ⟨_, _, _, breaks⟩, breaks, broken _ _ _ _ breaks,
    by decide +kernel, ?_⟩
  rw [joined front "X2" ends]
  decide +kernel

end Interpreter

end Toolpath
