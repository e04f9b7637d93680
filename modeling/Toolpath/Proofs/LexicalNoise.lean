import Mathlib.Logic.Relation
import Toolpath.Proofs.IdleWords
import Toolpath.Proofs.LetterCase

/-!
# Case, blanks and comments

The case of letters, the length and kind of the blanks between words, blanks at the ends and the
comment do not count. `Line.Edit` are the changes of a line in one of these, and `Line.Noise` is
what any number of them comes to, made or taken back.

An edit leaves the words of a line as they are, in capitals (`lexemes_of_noise`), and the reader
sees no more than that. The law (`interpretLine_of_noise`): the two lines are both read or both
refused, and for the same at the same word; they leave the same interpreter, its arm included, make
the same calls and give the same answer. Texts in the answers are `Text.Alike`, and so are the
wordings of errors.

It says nothing of a comment mark that is moved: what a word is and what is comment would change.
-/

namespace Toolpath

namespace Text

/-! ## Texts that are alike -/

/-- Texts with the same letters, in either case. -/
def SameLetters (cs ds : List Char) : Prop := capitals cs = capitals ds

/-- Texts that differ in the case of letters and in the blanks of their gaps. -/
inductive Alike : List Char → List Char → Prop where
  | nil : Alike [] []
  | letter {c d : Char} {cs ds : List Char} (same : c.toUpper = d.toUpper) (rest : Alike cs ds) :
    Alike (c :: cs) (d :: ds)
  | gap {g h cs ds : List Char} (blank : AllBlank g) (otherBlank : AllBlank h) (filled : g ≠ [])
    (otherFilled : h ≠ []) (rest : Alike cs ds) : Alike (g ++ cs) (h ++ ds)

namespace Alike

theorem refl (cs : List Char) : Alike cs cs := by
  induction cs with
  | nil => exact .nil
  | cons c cs ih => exact .letter rfl ih

theorem append {cs ds es fs : List Char} (front : Alike cs ds) (back : Alike es fs) :
    Alike (cs ++ es) (ds ++ fs) := by
  induction front with
  | nil => exact back
  | letter same _ ih => exact .letter same ih
  | gap blank otherBlank filled otherFilled _ ih =>
    rw [List.append_assoc, List.append_assoc]
    exact .gap blank otherBlank filled otherFilled ih

end Alike

theorem SameLetters.alike {cs ds : List Char} (same : SameLetters cs ds) : Alike cs ds := by
  induction cs generalizing ds with
  | nil =>
    obtain rfl := List.map_eq_nil_iff.mp (Eq.symm same)
    exact .nil
  | cons c cs ih =>
    obtain ⟨d, ds, rfl, first, rest⟩ := List.map_eq_cons_iff.mp (Eq.symm same)
    exact .letter first.symm (ih rest.symm)

theorem SameLetters.eq_nil_iff {cs ds : List Char} (same : SameLetters cs ds) :
    cs = [] ↔ ds = [] := by
  constructor
  · rintro rfl
    exact List.map_eq_nil_iff.mp same.symm
  · rintro rfl
    exact List.map_eq_nil_iff.mp same

/-! ## Words and gaps -/

/-- A text that stops at once stops before what follows it. -/
theorem Stops.of_append {p : Char → Bool} {cs ds : List Char} (stops : Stops p (cs ++ ds)) :
    Stops p cs := by
  cases cs with
  | nil => exact stops_nil
  | cons c cs => exact stops_cons (stops c rfl)

/-- Where no blank is last, there are words unless there is nothing. -/
theorem Spaced.eq_nil_iff {ws : List (List Char)} {cs : List Char} (spaced : Spaced ws cs)
    (last : Stops isBlank cs.reverse) : cs = [] ↔ ws = [] := by
  cases spaced with
  | none blank =>
    refine ⟨fun _ => rfl, fun _ => ?_⟩
    cases found : cs.reverse with
    | nil => exact List.reverse_eq_nil_iff.mp found
    | cons c rest =>
      have present : c ∈ cs := List.mem_reverse.mp (found ▸ List.mem_cons_self)
      rw [found] at last
      cases (blank c present).symm.trans (last c rfl)
  | word _ filled =>
    refine ⟨fun empty => ?_, nofun⟩
    exact absurd (List.append_eq_nil_iff.mp (List.append_eq_nil_iff.mp empty).2).1 filled

/-- Words go on in a text that goes on after a gap. -/
theorem Spaced.append_gap {ws vs : List (List Char)} {cs gap ds : List Char}
    (spaced : Spaced ws cs) (blank : AllBlank gap) (filled : gap ≠ []) (later : Spaced vs ds) :
    Spaced (ws ++ vs) (cs ++ (gap ++ ds)) := by
  induction spaced with
  | none lead => exact (later.append_left blank).append_left lead
  | @word lead w rest others leadBlank wFilled unbroken ends _ ih =>
    rw [List.append_assoc, List.append_assoc]
    refine .word leadBlank wFilled unbroken ?_ ih
    cases rest with
    | cons c rest => exact stops_cons (ends c rfl)
    | nil =>
      obtain ⟨c, gap, rfl⟩ := List.exists_cons_of_ne_nil filled
      exact stops_cons (by rw [blank c List.mem_cons_self]; rfl)

theorem words_append_gap (cs : List Char) {gap : List Char} (blank : AllBlank gap)
    (filled : gap ≠ []) (ds : List Char) : words (cs ++ (gap ++ ds)) = words cs ++ words ds :=
  ((words_eq_iff.mp (Eq.refl (words cs))).append_gap blank filled
    (words_eq_iff.mp (Eq.refl (words ds)))).words_eq

/-- A text that starts with a word or ends at once starts with no blank. -/
theorem stops_gap_word {gap w rest : List Char} (blank : AllBlank gap) (filled : w ≠ [])
    (unbroken : ∀ c ∈ w, isBlank c = false) :
    Stops isBlank (gap ++ (w ++ rest)) ↔ gap = [] := by
  constructor
  · intro stops
    cases gap with
    | nil => rfl
    | cons b gap => cases (blank b List.mem_cons_self).symm.trans (stops b rfl)
  · rintro rfl
    obtain ⟨c, w, rfl⟩ := List.exists_cons_of_ne_nil filled
    exact stops_cons (unbroken c List.mem_cons_self)

/-- **Texts with the same words are alike**, in capitals or not, if neither ends with a blank and
both or neither start with one. -/
theorem Spaced.alike {ws vs : List (List Char)} {cs ds : List Char} (spaced : Spaced ws cs)
    (other : Spaced vs ds) (same : ws.map Text.capitals = vs.map Text.capitals)
    (last : Stops isBlank cs.reverse) (otherLast : Stops isBlank ds.reverse)
    (start : Stops isBlank cs ↔ Stops isBlank ds) : Alike cs ds := by
  induction spaced generalizing vs ds with
  | none blank =>
    obtain rfl := List.map_eq_nil_iff.mp same.symm
    rw [((Spaced.none blank).eq_nil_iff last).mpr rfl, (other.eq_nil_iff otherLast).mpr rfl]
    exact .nil
  | @word gap w rest ws blank filled unbroken ends later ih =>
    cases other with
    | none => cases same
    | @word hap v tail vs otherBlank otherFilled otherUnbroken otherEnds otherLater =>
      obtain ⟨letters, words⟩ := List.cons.inj same
      rw [List.reverse_append, List.reverse_append] at last otherLast
      have ending : Stops isBlank rest.reverse := last.of_append.of_append
      have otherEnding : Stops isBlank tail.reverse := otherLast.of_append.of_append
      have goesOn {more : List Char} (stops : Stops (fun c => !isBlank c) more) :
          Stops isBlank more ↔ more = [] := by
        cases more with
        | nil => exact ⟨fun _ => rfl, fun _ => stops_nil⟩
        | cons c more =>
          refine ⟨fun first => ?_, nofun⟩
          have blank : (!isBlank c) = false := stops c rfl
          rw [first c rfl] at blank
          cases blank
      have both : Stops isBlank rest ↔ Stops isBlank tail := by
        rw [goesOn ends, goesOn otherEnds, later.eq_nil_iff ending,
          otherLater.eq_nil_iff otherEnding, ← List.map_eq_nil_iff, words, List.map_eq_nil_iff]
      have front : Alike w v := SameLetters.alike letters
      have back := front.append (ih otherLater words ending otherEnding both)
      rw [stops_gap_word blank filled unbroken,
        stops_gap_word otherBlank otherFilled otherUnbroken] at start
      by_cases empty : gap = []
      · rw [empty, start.mp empty]
        exact back
      · exact .gap blank otherBlank empty (fun none => empty (start.mpr none)) back

end Text

/-! ## Edits -/

namespace Line

open Text

/-- A change of a line in nothing that counts. -/
inductive Edit : List Char → List Char → Prop where
  /-- A letter in the other case. -/
  | letter {front rest : List Char} {c d : Char} (same : c.toUpper = d.toUpper) :
    Edit (front ++ c :: rest) (front ++ d :: rest)
  /-- Blanks in the place of blanks. -/
  | gap {front g h rest : List Char} (blank : AllBlank g) (otherBlank : AllBlank h)
    (filled : g ≠ []) (otherFilled : h ≠ []) : Edit (front ++ (g ++ rest)) (front ++ (h ++ rest))
  /-- Blanks before the line. -/
  | lead {gap : List Char} (blank : AllBlank gap) (line : List Char) : Edit line (gap ++ line)
  /-- Blanks after the line. -/
  | trail {gap : List Char} (blank : AllBlank gap) (line : List Char) : Edit line (line ++ gap)
  /-- A comment after the line. -/
  | comment (line text : List Char) : Edit line (line ++ ';' :: text)

/-- Lines that edits lead to from one another, made or taken back, any number of them. -/
def Noise (source other : String) : Prop := Relation.EqvGen Edit source.toList other.toList

/-- The words of a line, in capitals. -/
def lexemes (cs : List Char) : List (List Char) := (Text.words (strip cs)).map capitals

/-- The text before the comment has the words of the line. -/
theorem lexemes_eq (cs : List Char) : lexemes cs = (Text.words (before ';' cs)).map capitals := by
  have spaced := words_eq_iff.mp (Eq.refl (Text.words (strip cs)))
  have trimmed : Trimmed (before ';' cs) (strip cs) := trimmed_trim _
  unfold lexemes
  rw [(spaced.of_trimmed trimmed).words_eq]

theorem before_append_of_not_mem {front : List Char} (unmarked : ';' ∉ front) (rest : List Char) :
    before ';' (front ++ rest) = front ++ before ';' rest := by
  unfold before
  refine List.takeWhile_append_of_pos fun c present => bne_iff_ne.mpr ?_
  rintro rfl
  exact unmarked present

theorem before_append_of_mem {front : List Char} (marked : ';' ∈ front) (rest : List Char) :
    before ';' (front ++ rest) = before ';' front := by
  obtain ⟨first, others, rfl, free⟩ := List.eq_append_cons_of_mem marked
  rw [List.append_assoc, before_append_of_not_mem free, before_append_of_not_mem free]
  rfl

theorem not_mem_of_allBlank {gap : List Char} (blank : AllBlank gap) : ';' ∉ gap :=
  fun present => nomatch blank _ present

/-- Lines with the same letters have the same words, but for case. -/
theorem lexemes_of_sameLetters {cs ds : List Char} (same : SameLetters cs ds) :
    lexemes cs = lexemes ds := by
  have mark (c : Char) : (c.toUpper != ';') = (c != ';') := by
    rw [Bool.eq_iff_iff, bne_iff_ne, bne_iff_ne]
    exact not_congr (toUpper_eq_iff (by decide) (by decide))
  rw [lexemes_eq, lexemes_eq, ← words_capitals, ← words_capitals]
  unfold before
  rw [← takeWhile_capitals mark, ← takeWhile_capitals mark, same]

/-- **An edit leaves the words as they are**, but for case. -/
theorem lexemes_of_edit {cs ds : List Char} (edit : Edit cs ds) : lexemes cs = lexemes ds := by
  cases edit with
  | letter same =>
    refine lexemes_of_sameLetters ?_
    unfold SameLetters
    rw [capitals_append, capitals_append]
    exact congrArg (_ ++ · :: _) same
  | @gap front g h rest blank otherBlank filled otherFilled =>
    rw [lexemes_eq, lexemes_eq]
    by_cases marked : ';' ∈ front
    · rw [before_append_of_mem marked, before_append_of_mem marked]
    · rw [before_append_of_not_mem marked, before_append_of_not_mem marked,
        before_append_of_not_mem (not_mem_of_allBlank blank),
        before_append_of_not_mem (not_mem_of_allBlank otherBlank),
        words_append_gap _ blank filled, words_append_gap _ otherBlank otherFilled]
  | lead blank =>
    rw [lexemes_eq, lexemes_eq, before_append_of_not_mem (not_mem_of_allBlank blank),
      words_append_left blank]
  | trail blank =>
    unfold lexemes
    rw [strip_append_right _ blank]
  | comment text =>
    rw [lexemes_eq, lexemes_eq]
    by_cases marked : ';' ∈ cs
    · rw [before_append_of_mem marked]
    · have whole : before ';' cs = cs := before_eq_iff.mpr (preceding_self marked)
      rw [before_append_of_not_mem marked, whole]
      exact congrArg (fun front => (Text.words front).map capitals) (List.append_nil cs).symm

theorem lexemes_of_noise {source other : String} (noise : Noise source other) :
    lexemes source.toList = lexemes other.toList := by
  unfold Noise at noise
  generalize source.toList = cs at noise ⊢
  generalize other.toList = ds at noise ⊢
  induction noise with
  | rel _ _ edit => exact lexemes_of_edit edit
  | refl => rfl
  | symm _ _ _ ih => exact ih.symm
  | trans _ _ _ _ _ first second => exact first.trans second

end Line

/-! ## Answers -/

/-- Refusals for the same fault, in texts that are alike. -/
inductive LineFault.Restated : LineFault → LineFault → Prop where
  | malformed {line other word otherWord : String} (alike : Text.Alike line.toList other.toList)
    (same : Text.SameLetters word.toList otherWord.toList) (fault : WordFault) :
    Restated (.malformed line word fault) (.malformed other otherWord fault)
  | unsupported {line other word otherWord : String} (alike : Text.Alike line.toList other.toList)
    (same : Text.SameLetters word.toList otherWord.toList) :
    Restated (.unsupported line word) (.unsupported other otherWord)

/-- Answers that are the same but for texts, and alike in these. -/
inductive LineResult.Restated : LineResult → LineResult → Prop where
  | done (outcome : LineOutcome) {skipped others : List String}
    (same : List.Forall₂ (fun one other => Text.SameLetters one.toList other.toList)
      skipped others) :
    Restated (.ok ⟨outcome, skipped⟩) (.ok ⟨outcome, others⟩)
  | refused {fault other : LineFault} (restated : fault.Restated other) :
    Restated (.error (.refused fault)) (.error (.refused other))
  | motion {line other : String} (alike : Text.Alike line.toList other.toList) (mode : MotionMode)
    (cause : MotionError) :
    Restated (.error (.motion line mode cause)) (.error (.motion other mode cause))

/-- Errors that are the same but for texts are worded alike. -/
theorem LineResult.Restated.message {one other : LineResult} (restated : one.Restated other)
    {error otherError : InterpreterError} (failed : one = .error error)
    (otherFailed : other = .error otherError) :
    Text.Alike error.message.toList otherError.message.toList := by
  have same (text : String) : Text.Alike text.toList text.toList := .refl _
  have join {a b c d : String} (front : Text.Alike a.toList b.toList)
      (back : Text.Alike c.toList d.toList) : Text.Alike (a ++ c).toList (b ++ d).toList := by
    rw [String.toList_append, String.toList_append]
    exact front.append back
  cases restated with
  | done => cases failed
  | motion alike mode cause =>
    cases failed
    cases otherFailed
    exact join (join (join (same _) alike) (same _)) (same _)
  | refused restated =>
    cases failed
    cases otherFailed
    cases restated with
    | malformed alike letters fault =>
      exact join (join (join (join (join (same _) alike) (same _)) letters.alike) (same _)) (same _)
    | unsupported alike letters =>
      exact join (join (join (join (same _) letters.alike) (same _)) alike) (same _)

/-! ## Words of two lines -/

namespace Word

theorem unsupportedText?_capital (w : Word) : w.capital.unsupportedText? =
    w.unsupportedText?.map fun text => String.ofList (Text.capitals text.toList) := by
  cases w <;> rfl

theorem supported_of_capital_eq {w v : Word} (same : w.capital = v.capital)
    (supported : w.Supported) : v.Supported := by
  have texts := congrArg unsupportedText? same
  rw [unsupportedText?_capital, unsupportedText?_capital,
    Line.unsupportedText?_eq_none.mpr supported] at texts
  exact Line.unsupportedText?_eq_none.mp (Option.map_eq_none_iff.mp texts.symm)

variable {strict : Bool} {raw other : List Char}

theorem Means.filled {w : Word} (means : Means raw w) : raw ≠ [] := by
  cases means <;> exact List.cons_ne_nil _ _

theorem Malformed.filled {fault : WordFault} (malformed : Malformed raw fault) : raw ≠ [] := by
  cases malformed <;> exact List.cons_ne_nil _ _

/-- A word in other cases is read as the word is, but for case. -/
theorem map_capital_read (same : Text.SameLetters raw other) :
    (read raw).map capital = (read other).map capital := by
  rw [← read_capitals, ← read_capitals, same]

/-- A word in other cases says the same, but for its text where it is not supported. -/
theorem Means.restated {w : Word} (means : Means raw w) (same : Text.SameLetters raw other) :
    ∃ v, Means other v ∧ w.capital = v.capital := by
  have both := map_capital_read same
  have filled : other ≠ [] := means.filled ∘ same.eq_nil_iff.mpr
  rw [means.read_eq] at both
  cases found : read other with
  | error fault =>
    rw [found] at both
    cases both
  | ok v =>
    rw [found] at both
    exact ⟨v, (read_eq_ok_iff filled).mp found, Except.ok.inj both⟩

/-- The same is wrong with a word in other cases. -/
theorem Malformed.restated {fault : WordFault} (malformed : Malformed raw fault)
    (same : Text.SameLetters raw other) : Malformed other fault := by
  have both := map_capital_read same
  have filled : other ≠ [] := malformed.filled ∘ same.eq_nil_iff.mpr
  rw [malformed.read_eq] at both
  cases found : read other with
  | ok v =>
    rw [found] at both
    cases both
  | error cause =>
    rw [found] at both
    cases both
    exact (read_eq_error_iff filled).mp found

theorem Takes.restated {w : Word} (takes : Takes strict raw w) (same : Text.SameLetters raw other) :
    ∃ v, Takes strict other v ∧ w.capital = v.capital := by
  obtain ⟨v, means, capital⟩ := takes.means.restated same
  refine ⟨v, ⟨means, fun strictly => ?_⟩, capital⟩
  exact supported_of_capital_eq capital (takes.supported strictly)

theorem Accepted.restated (accepted : Accepted strict raw) (same : Text.SameLetters raw other) :
    Accepted strict other := by
  obtain ⟨w, takes⟩ := accepted
  obtain ⟨v, takesOther, _⟩ := takes.restated same
  exact ⟨v, takesOther⟩

/-- Words that are the same but for the case of texts. -/
def SameWords (words others : List Word) : Prop := words.map capital = others.map capital

theorem takes_restated {raws others : List (List Char)} {words : List Word}
    (takes : List.Forall₂ (Takes strict) raws words)
    (same : raws.map Text.capitals = others.map Text.capitals) :
    ∃ otherWords, List.Forall₂ (Takes strict) others otherWords ∧ SameWords words otherWords := by
  induction takes generalizing others with
  | nil =>
    obtain rfl := List.map_eq_nil_iff.mp same.symm
    exact ⟨[], .nil, rfl⟩
  | cons first _ ih =>
    obtain ⟨other, rest, rfl, letters, later⟩ := List.map_eq_cons_iff.mp same.symm
    obtain ⟨v, otherFirst, capital⟩ := first.restated letters.symm
    obtain ⟨otherWords, all, capitals⟩ := ih later.symm
    exact ⟨v :: otherWords, .cons otherFirst all, congrArg₂ List.cons capital capitals⟩

namespace SameWords

variable {words others : List Word} (same : SameWords words others)
include same

/-- A reading that is blind to the case of texts reads the same. -/
theorem filterMap_eq {β : Type} {reading : Word → Option β}
    (blind : ∀ w : Word, reading w.capital = reading w) :
    words.filterMap reading = others.filterMap reading := by
  have mapped := congrArg (List.filterMap reading) same
  have unseen : reading ∘ capital = reading := funext blind
  rwa [List.filterMap_map, List.filterMap_map, unseen] at mapped

/-- The words that are not supported have the same texts, but for case. -/
theorem unsupported : List.Forall₂
    (fun one other => Text.SameLetters one.toList other.toList)
    (words.filterMap unsupportedText?) (others.filterMap unsupportedText?) := by
  have mapped := congrArg (List.filterMap unsupportedText?) same
  have texts : unsupportedText? ∘ capital = fun w => w.unsupportedText?.map fun text =>
      String.ofList (Text.capitals text.toList) := funext unsupportedText?_capital
  rw [List.filterMap_map, List.filterMap_map, texts, ← List.map_filterMap, ← List.map_filterMap,
    ← List.forall₂_eq_eq_eq, List.forall₂_map_left_iff, List.forall₂_map_right_iff] at mapped
  refine mapped.imp fun one other letters => ?_
  have capitals := congrArg String.toList letters
  rwa [String.toList_ofList, String.toList_ofList] at capitals

theorem any_isHome : words.any isHome = others.any isHome := by
  have mapped := congrArg (List.any · isHome) same
  have unseen : isHome ∘ capital = isHome := funext fun w => by cases w <;> rfl
  rwa [List.any_map, List.any_map, unseen] at mapped

end SameWords

end Word

namespace Line

open Word (Accepted Takes)

variable {strict : Bool}

/-- Words in other cases refuse their line for the same. -/
theorem Refused.restated {text otherText : String} {raw other : List Char} {fault : LineFault}
    (refused : Refused strict text raw fault)
    (alike : Text.Alike text.toList otherText.toList) (same : Text.SameLetters raw other) :
    ∃ otherFault, Refused strict otherText other otherFault ∧ fault.Restated otherFault := by
  have letters : Text.SameLetters (String.ofList raw).toList (String.ofList other).toList := by
    rw [String.toList_ofList, String.toList_ofList]
    exact same
  cases refused with
  | malformed wrong => exact ⟨_, .malformed (wrong.restated same), .malformed alike letters _⟩
  | unsupported strictly means =>
    obtain ⟨v, otherMeans, capital⟩ := means.restated same
    have texts := congrArg Word.unsupportedText? capital
    rw [Word.unsupportedText?_capital, Word.unsupportedText?_capital] at texts
    obtain ⟨word, found, _⟩ := Option.map_eq_some_iff.mp texts.symm
    obtain rfl := unsupportedText?_eq_some.mp found
    exact ⟨_, .unsupported strictly otherMeans, .unsupported alike letters⟩

/-- A line is refused for the word at a place, the words before it being accepted. -/
inductive RefusedAt (strict : Bool) (source : String) : Nat → LineFault → Prop where
  | of {text : List Char} {front back : List (List Char)} {raw : List Char} {fault : LineFault}
    (parts : Parts source text (front ++ raw :: back)) (before : ∀ r ∈ front, Accepted strict r)
    (refused : Refused strict (String.ofList text) raw fault) :
    RefusedAt strict source front.length fault

/-- A refused line is refused at a place. -/
theorem exists_refusedAt {source : String} {fault : LineFault}
    (read : Line.read strict source = .error fault) :
    ∃ place, RefusedAt strict source place fault := by
  have parts := parts_strip source
  obtain ⟨front, raw, back, split, before, refused⟩ :=
    (readWords_eq_error_iff (filled_words _)).mp (read_eq_error_iff.mp read)
  rw [split] at parts
  exact ⟨front.length, .of parts before refused⟩

theorem RefusedAt.read_eq {source : String} {place : Nat} {fault : LineFault}
    (refusedAt : RefusedAt strict source place fault) : Line.read strict source = .error fault := by
  obtain ⟨parts, before, refused⟩ := refusedAt
  obtain ⟨stripped, split⟩ := parts.unique
  rw [read_eq_error_iff, readWords_eq_error_iff (filled_words _), split, stripped]
  exact ⟨_, _, _, rfl, before, refused⟩

/-- The texts of lines with the same words are alike. -/
theorem alike_strip {source other : String}
    (same : lexemes source.toList = lexemes other.toList) :
    Text.Alike (strip source.toList) (strip other.toList) := by
  obtain ⟨first, last⟩ := (Text.trimmed_trim (Text.before ';' source.toList)).stops
  obtain ⟨otherFirst, otherLast⟩ := (Text.trimmed_trim (Text.before ';' other.toList)).stops
  exact (Text.words_eq_iff.mp (Eq.refl _)).alike (Text.words_eq_iff.mp (Eq.refl _)) same last
    otherLast (iff_of_true first otherFirst)

/-- Texts that are alike are alike by edits, whatever stands before them. -/
theorem eqvGen_of_alike {cs ds : List Char} (alike : Text.Alike cs ds) (front : List Char) :
    Relation.EqvGen Edit (front ++ cs) (front ++ ds) := by
  induction alike generalizing front with
  | nil => exact .refl _
  | @letter c d cs ds same _ ih =>
    have later := ih (front ++ [d])
    rw [List.append_assoc, List.append_assoc] at later
    exact .trans _ _ _ (.rel _ _ (.letter same)) later
  | @gap g h cs ds blank otherBlank filled otherFilled _ ih =>
    have later := ih (front ++ h)
    rw [List.append_assoc, List.append_assoc] at later
    exact .trans _ _ _ (.rel _ _ (.gap blank otherBlank filled otherFilled)) later

/-- Comment and outer blanks are edits away from nothing. -/
theorem eqvGen_strip (cs : List Char) : Relation.EqvGen Edit cs (strip cs) := by
  obtain ⟨front, found⟩ : ∃ front, Text.before ';' cs = front := ⟨_, rfl⟩
  have trimmed : Text.Trimmed front (strip cs) := found ▸ Text.trimmed_trim _
  obtain @⟨_, rest, free, ends⟩ := Text.before_eq_iff.mp found
  generalize strip (front ++ rest) = text at trimmed ⊢
  have uncommented : Relation.EqvGen Edit (front ++ rest) front := by
    cases rest with
    | nil =>
      rw [List.append_nil]
      exact .refl front
    | cons c rest =>
      obtain rfl := ends c rfl
      exact .symm _ _ (.rel _ _ (.comment front rest))
  obtain @⟨lead, _, trail, blankLead, blankTrail, _, _⟩ := trimmed
  refine .trans _ _ _ uncommented (.trans _ (text ++ trail) _ ?_ ?_)
  · exact .symm _ _ (.rel _ _ (.lead blankLead _))
  · exact .symm _ _ (.rel _ _ (.trail blankTrail _))

/-- **Edits lead to exactly the lines with the same words**, but for case. -/
theorem noise_iff {source other : String} :
    Noise source other ↔ lexemes source.toList = lexemes other.toList := by
  refine ⟨lexemes_of_noise, fun same => ?_⟩
  have stripped := eqvGen_of_alike (alike_strip same) []
  exact .trans _ _ _ (eqvGen_strip source.toList)
    (.trans _ _ _ stripped (.symm _ _ (eqvGen_strip other.toList)))

/-- Parts of two lines, word by word. -/
theorem Parts.alike {source other : String} {text otherText : List Char}
    {raws others : List (List Char)} (parts : Parts source text raws)
    (otherParts : Parts other otherText others)
    (same : lexemes source.toList = lexemes other.toList) :
    Text.Alike text otherText ∧ raws.map Text.capitals = others.map Text.capitals := by
  obtain ⟨rfl, rfl⟩ := parts.unique
  obtain ⟨rfl, rfl⟩ := otherParts.unique
  exact ⟨alike_strip same, same⟩

/-- A line with the same words is refused at the same place, and for the same. -/
theorem RefusedAt.restated {source other : String} {place : Nat} {fault : LineFault}
    (refusedAt : RefusedAt strict source place fault)
    (same : lexemes source.toList = lexemes other.toList) :
    ∃ otherFault, RefusedAt strict other place otherFault ∧ fault.Restated otherFault := by
  obtain @⟨text, front, back, raw, _, parts, before, refused⟩ := refusedAt
  have otherParts := parts_strip other
  obtain ⟨alike, words⟩ := parts.alike otherParts same
  rw [List.map_append, List.map_cons] at words
  obtain ⟨otherFront, rest, split, frontSame, restSame⟩ := List.map_eq_append_iff.mp words.symm
  obtain ⟨otherRaw, otherBack, rfl, rawSame, _⟩ := List.map_eq_cons_iff.mp restSame
  rw [split] at otherParts
  have length : otherFront.length = front.length := by
    rw [← List.length_map Text.capitals, frontSame, List.length_map]
  have accepted : ∀ r ∈ otherFront, Accepted strict r := by
    intro r present
    have found : Text.capitals r ∈ otherFront.map Text.capitals := List.mem_map_of_mem present
    rw [frontSame] at found
    obtain ⟨q, inside, letters⟩ := List.mem_map.mp found
    exact (before q inside).restated letters
  have texts : Text.Alike (String.ofList text).toList
      (String.ofList (strip other.toList)).toList := by
    rw [String.toList_ofList, String.toList_ofList]
    exact alike
  obtain ⟨otherFault, otherRefused, restated⟩ := refused.restated texts rawSame.symm
  exact ⟨otherFault, length ▸ .of otherParts accepted otherRefused, restated⟩

/-- A line with the same words is read as the line is, but for its texts. -/
theorem read_restated {source other : String} {line : Line}
    (read : Line.read strict source = .ok line)
    (same : lexemes source.toList = lexemes other.toList) :
    ∃ otherLine, Line.read strict other = .ok otherLine ∧
      Text.Alike line.text.toList otherLine.text.toList ∧
      Word.SameWords line.words otherLine.words := by
  have parts := parts_strip source
  have otherParts := parts_strip other
  obtain ⟨alike, words⟩ := parts.alike otherParts same
  obtain ⟨otherWords, takes, capital⟩ := Word.takes_restated (takes_of_read read parts) words
  refine ⟨_, read_of_takes otherParts takes, ?_, capital⟩
  rw [(read_eq_ok_iff.mp read).1, String.toList_ofList, String.toList_ofList]
  exact alike

end Line

/-! ## What is done -/

namespace Interpreter

variable {ρ : Type} (i : Interpreter ρ) {line other : Line}

theorem applyWords_eq_of_sameWords {words others : List Word} (same : Word.SameWords words others) :
    i.applyWords words = i.applyWords others := by
  have mapped := congrArg (List.foldl applyWord i) same
  have unseen : (fun (j : Interpreter ρ) (w : Word) => j.applyWord w.capital) = applyWord :=
    funext fun j => funext fun w => by cases w <;> rfl
  rwa [List.foldl_map, List.foldl_map, unseen] at mapped

/-- **A line with the same words does the same**, and answers the same but for its texts. -/
theorem perform_restated [Arm ρ] (alike : Text.Alike line.text.toList other.text.toList)
    (same : Word.SameWords line.words other.words) :
    LineResult.Restated (i.perform line).1 (i.perform other).1 ∧
      (i.perform line).2 = (i.perform other).2 := by
  have moves : Word.last? Word.mode? line.words = Word.last? Word.mode? other.words :=
    congrArg List.getLast? (same.filterMap_eq fun w => by cases w <;> rfl)
  have named : i.axes.named line.words = i.axes.named other.words := by
    rw [← applyWords_axes, ← applyWords_axes, applyWords_eq_of_sameWords i same]
  have homes : line.homes = other.homes := same.any_isHome
  cases moving : Word.last? Word.mode? line.words with
  | none =>
    rw [perform_still i moving, perform_still i (moves ▸ moving)]
    refine ⟨?_, applyWords_eq_of_sameWords i same⟩
    unfold stillReport
    by_cases empty : line.words = []
    · have otherEmpty : other.words = [] := by
        have mapped : other.words.map Word.capital = [] := by
          rw [← same, empty]
          rfl
        exact List.map_eq_nil_iff.mp mapped
      rw [if_pos empty, if_pos otherEmpty]
      exact .done .blank .nil
    · have otherFilled : other.words ≠ [] := by
        intro otherEmpty
        have mapped : line.words.map Word.capital = [] := by
          rw [same, otherEmpty]
          rfl
        exact empty (List.map_eq_nil_iff.mp mapped)
      rw [if_neg empty, if_neg otherFilled]
      exact .done .stateUpdated same.unsupported
  | some mode =>
    rcases ran : mode.dispatch i.arm (i.axes.named line.words) i.config.wait with ⟨outcome, after⟩
    rw [perform_moving i moving ran, perform_moving i (moves ▸ moving) (named ▸ ran), homes, named,
      applyWords_eq_of_sameWords i same]
    refine ⟨?_, rfl⟩
    cases outcome with
    | error cause => exact .motion alike mode cause
    | ok command => exact .done (.moved command) same.unsupported

/-- A line with the same lexemes is interpreted the same, and answers the same but for its texts. -/
theorem interpretLine_restated [Arm ρ] {source other : String}
    (same : Line.lexemes source.toList = Line.lexemes other.toList) :
    LineResult.Restated (i.interpretLine source).1 (i.interpretLine other).1 ∧
      (i.interpretLine source).2 = (i.interpretLine other).2 := by
  cases read : Line.read i.config.strict source with
  | error fault =>
    obtain ⟨place, refusedAt⟩ := Line.exists_refusedAt read
    obtain ⟨otherFault, otherAt, restated⟩ := refusedAt.restated same
    rw [interpretLine_of_refused i read, interpretLine_of_refused i otherAt.read_eq]
    exact ⟨.refused restated, rfl⟩
  | ok line =>
    obtain ⟨otherLine, otherRead, alike, words⟩ := Line.read_restated read same
    rw [interpretLine_of_read i read, interpretLine_of_read i otherRead]
    exact perform_restated i alike words

/-- **Case, blanks and comments do not count.** A line, and one that edits in these lead to, are
treated the same in every state, over every arm, by a strict reader and by a permissive one. Both
are accepted, or both are refused, and then for the same at the word of the same number. They leave
the same interpreter with the same arm, and the arm gets the same calls. They answer the same but
for texts: the words that were skipped are the same but for case, and the texts of lines and the
wordings of errors but for case and gaps. -/
theorem interpretLine_of_noise [Arm ρ] {source other : String} (noise : Line.Noise source other) :
    ((∃ line, Line.read i.config.strict source = .ok line) ↔
      ∃ line, Line.read i.config.strict other = .ok line) ∧
    (∀ fault, Line.read i.config.strict source = .error fault → ∃ place otherFault,
      Line.RefusedAt i.config.strict source place fault ∧
      Line.RefusedAt i.config.strict other place otherFault ∧
      Line.read i.config.strict other = .error otherFault ∧ fault.Restated otherFault) ∧
    LineResult.Restated (i.interpretLine source).1 (i.interpretLine other).1 ∧
    (∀ error otherError, (i.interpretLine source).1 = .error error →
      (i.interpretLine other).1 = .error otherError →
      Text.Alike error.message.toList otherError.message.toList) ∧
    (i.interpretLine source).2 = (i.interpretLine other).2 ∧
    i.calls [source] = i.calls [other] := by
  have same := Line.lexemes_of_noise noise
  obtain ⟨answers, left⟩ := i.interpretLine_restated same
  refine ⟨?_, ?_, answers, fun _ _ => answers.message, left, ?_⟩
  · constructor
    · rintro ⟨line, read⟩
      obtain ⟨otherLine, otherRead, _⟩ := Line.read_restated read same
      exact ⟨otherLine, otherRead⟩
    · rintro ⟨line, read⟩
      obtain ⟨otherLine, otherRead, _⟩ := Line.read_restated read same.symm
      exact ⟨otherLine, otherRead⟩
  · intro fault read
    obtain ⟨place, refusedAt⟩ := Line.exists_refusedAt read
    obtain ⟨otherFault, otherAt, restated⟩ := refusedAt.restated same
    exact ⟨place, otherFault, refusedAt, otherAt, otherAt.read_eq, restated⟩
  · exact congrArg (fun after => after.arm.calls) (i.logged.interpretLine_restated same).2

/-- All of it in one line: the letters of a word, of an exponent and of a word that is not
supported, a wide blank between words, blanks at both ends and a comment. A permissive reader skips
the second word, and a strict one refuses the line for it. -/
theorem interpretLine_of_noise_everywhere :
    let i := new (SimulatedArm.atPose Pose.identity)
    let j : Interpreter SimulatedArm := { i with config := { i.config with strict := true } }
    let source := "x1E1　t2 G1 ; up"
    let other := "\tX1e1 \u0085T2 g1"
    Line.Noise source other ∧
      (i.interpretLine source).2 = (i.interpretLine other).2 ∧ i.calls [source] = i.calls [other] ∧
      (i.calls [other]).length = 2 ∧
      ∃ place, Line.RefusedAt j.config.strict source place (.unsupported "x1E1　t2 G1" "t2") ∧
        ∃ fault, Line.RefusedAt j.config.strict other place fault ∧
          LineFault.Restated (.unsupported "x1E1　t2 G1" "t2") fault := by
  intro i j source other
  have noise : Line.Noise source other := Line.noise_iff.mpr (by decide +kernel)
  have read : Line.read true source =
      .error (.unsupported "x1E1　t2 G1" "t2") := by decide +kernel
  obtain ⟨_, _, _, _, left, calls⟩ := i.interpretLine_of_noise noise
  obtain ⟨_, refused, _⟩ := j.interpretLine_of_noise noise
  obtain ⟨place, fault, here, there, _, restated⟩ := refused _ read
  exact ⟨noise, left, calls, by decide +kernel, place, here, fault, there, restated⟩

end Interpreter

end Toolpath
