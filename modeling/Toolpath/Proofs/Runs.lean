import Toolpath.Text.Blank

/-!
# Runs of characters

A text is taken apart by runs: the blanks at an end, a word up to the next blank, the text before a
mark, digits. This module says what the parts are without saying how they are found: `Spaced` are
the words of a text, `Trimmed` is a text without outer blanks, `Preceding` what stands before a
mark.

Each of the three has exactly one solution, and that is the one computed (`words_eq_iff`,
`trim_eq_iff`, `before_eq_iff`). Outer blanks make no words (`Spaced.of_trimmed`).
-/

namespace Toolpath.Text

/-! ## One run -/

/-- A text does not go on with a character of a kind. -/
def Stops (p : Char → Bool) (rest : List Char) : Prop := ∀ c ∈ rest.head?, p c = false

section Run

variable {p : Char → Bool} {run rest : List Char}

theorem stops_nil : Stops p [] := fun _ present => by cases present

theorem stops_cons {c : Char} (stop : p c = false) : Stops p (c :: rest) := by
  intro d present
  cases present
  exact stop

theorem stops_dropWhile (p : Char → Bool) (cs : List Char) : Stops p (cs.dropWhile p) := by
  induction cs with
  | nil => exact stops_nil
  | cons c cs ih =>
    cases kind : p c with
    | true =>
      rw [List.dropWhile_cons_of_pos kind]
      exact ih
    | false =>
      rw [List.dropWhile_cons_of_neg (by rw [kind]; nofun)]
      exact stops_cons kind

theorem takeWhile_of_stops (stops : Stops p rest) : rest.takeWhile p = [] := by
  cases rest with
  | nil => rfl
  | cons c rest => exact List.takeWhile_cons_of_neg (by rw [stops c rfl]; nofun)

theorem dropWhile_of_stops (stops : Stops p rest) : rest.dropWhile p = rest := by
  cases rest with
  | nil => rfl
  | cons c rest => exact List.dropWhile_cons_of_neg (by rw [stops c rfl]; nofun)

/-- A run is taken up to where it stops. -/
theorem takeWhile_run (all : ∀ c ∈ run, p c = true) (stops : Stops p rest) :
    (run ++ rest).takeWhile p = run := by
  rw [List.takeWhile_append_of_pos all, takeWhile_of_stops stops, List.append_nil]

/-- What follows a run. -/
theorem dropWhile_run (all : ∀ c ∈ run, p c = true) (stops : Stops p rest) :
    (run ++ rest).dropWhile p = rest := by
  rw [List.dropWhile_append_of_pos all, dropWhile_of_stops stops]

end Run

/-! ## Words -/

/-- Blanks only. -/
def AllBlank (cs : List Char) : Prop := ∀ c ∈ cs, isBlank c = true

instance (cs : List Char) : Decidable (AllBlank cs) :=
  List.decidableBAll (isBlank · = true) cs

/-- The words of a text: runs of characters that are no blanks, each as long as it can be, with
blanks before, between and after them. -/
inductive Spaced : List (List Char) → List Char → Prop where
  | none {gap : List Char} (blank : AllBlank gap) : Spaced [] gap
  | word {gap w rest : List Char} {ws : List (List Char)} (blank : AllBlank gap) (filled : w ≠ [])
    (unbroken : ∀ c ∈ w, isBlank c = false) (ends : Stops (fun c => !isBlank c) rest)
    (others : Spaced ws rest) : Spaced (w :: ws) (gap ++ (w ++ rest))

namespace Spaced

variable {ws : List (List Char)} {cs : List Char}

theorem filled (h : Spaced ws cs) : ∀ w ∈ ws, w ≠ [] := by
  induction h with
  | none => exact nofun
  | word _ first _ _ _ ih => exact List.forall_mem_cons.mpr ⟨first, ih⟩

/-- The characters of a word are characters of the text, and no blanks. -/
theorem of_mem (h : Spaced ws cs) : ∀ w ∈ ws, ∀ c ∈ w, isBlank c = false ∧ c ∈ cs := by
  induction h with
  | none => exact nofun
  | word _ _ unbroken _ _ ih =>
    refine List.forall_mem_cons.mpr ⟨fun c inside => ⟨unbroken c inside, ?_⟩, ?_⟩
    · exact List.mem_append_right _ (List.mem_append_left _ inside)
    · intro w other c inside
      obtain ⟨plain, later⟩ := ih w other c inside
      exact ⟨plain, List.mem_append_right _ (List.mem_append_right _ later)⟩

/-- Blanks before the first word do not count. -/
theorem append_left {gap : List Char} (blank : AllBlank gap) (h : Spaced ws cs) :
    Spaced ws (gap ++ cs) := by
  have both {more : List Char} (blanks : AllBlank more) : AllBlank (gap ++ more) := by
    intro c present
    exact (List.mem_append.mp present).elim (blank c) (blanks c)
  cases h with
  | none blanks => exact .none (both blanks)
  | word blanks filled unbroken ends others =>
    rw [← List.append_assoc]
    exact .word (both blanks) filled unbroken ends others

/-- Blanks after the last word do not count. -/
theorem append_right {gap : List Char} (h : Spaced ws cs) (blank : AllBlank gap) :
    Spaced ws (cs ++ gap) := by
  induction h with
  | none blanks =>
    refine .none fun c present => ?_
    exact (List.mem_append.mp present).elim (blanks c) (blank c)
  | @word before w rest _ blanks filled unbroken ends others ih =>
    rw [List.append_assoc, List.append_assoc]
    refine .word blanks filled unbroken ?_ ih
    cases rest with
    | cons c rest => exact stops_cons (ends c rfl)
    | nil =>
      cases gap with
      | nil => exact stops_nil
      | cons c gap => exact stops_cons (by rw [blank c List.mem_cons_self]; rfl)

end Spaced

/-- Words are the words of a text that writes them one after another, with a blank after each. -/
theorem spaced_flatMap {ws : List (List Char)} (filled : ∀ w ∈ ws, w ≠ [])
    (unbroken : ∀ w ∈ ws, ∀ c ∈ w, isBlank c = false) : Spaced ws (ws.flatMap (· ++ [' '])) := by
  have nothing : AllBlank [] := fun _ present => by cases present
  have blank : AllBlank [' '] := by decide
  induction ws with
  | nil => exact .none nothing
  | cons w ws ih =>
    obtain ⟨first, others⟩ := List.forall_mem_cons.mp filled
    obtain ⟨firstUnbroken, othersUnbroken⟩ := List.forall_mem_cons.mp unbroken
    rw [List.flatMap_cons, List.append_assoc]
    exact .word nothing first firstUnbroken (stops_cons rfl)
      ((ih others othersUnbroken).append_left blank)

/-- Every text has words. -/
theorem exists_spaced (cs : List Char) : ∃ ws, Spaced ws cs := by
  induction cs with
  | nil => exact ⟨[], .none fun _ present => by cases present⟩
  | cons c cs ih =>
    obtain ⟨ws, spaced⟩ := ih
    cases kind : isBlank c with
    | true =>
      have blank : AllBlank [c] := fun d present => by rw [List.mem_singleton.mp present, kind]
      exact ⟨ws, spaced.append_left blank⟩
    | false =>
      have nothing : AllBlank [] := fun _ present => by cases present
      have single : ∀ d ∈ [c], isBlank d = false :=
        fun d present => by rw [List.mem_singleton.mp present, kind]
      -- the character is a word of its own, unless the text goes on with one
      cases spaced with
      | @none gap blank =>
        refine ⟨[[c]], .word nothing (List.cons_ne_nil _ _) single ?_ (.none blank)⟩
        intro d present
        have follows : isBlank d = true := blank d (List.mem_of_mem_head? present)
        show (!isBlank d) = false
        rw [follows]
        rfl
      | @word gap w rest others blank filled unbroken ends spaced =>
        cases gap with
        | nil =>
          refine ⟨(c :: w) :: others, .word nothing (List.cons_ne_nil _ _) ?_ ends spaced⟩
          intro d present
          rcases List.mem_cons.mp present with rfl | present
          · exact kind
          · exact unbroken d present
        | cons b gap =>
          refine ⟨[c] :: w :: others, .word nothing (List.cons_ne_nil _ _) single ?_
            (.word blank filled unbroken ends spaced)⟩
          exact stops_cons (by rw [blank b List.mem_cons_self]; rfl)

theorem words_cons_of_blank {c : Char} (blank : isBlank c = true) (cs : List Char) :
    words (c :: cs) = words cs := by
  rw [words.eq_def]
  exact if_pos blank

theorem words_append_left {gap : List Char} (blank : AllBlank gap) (cs : List Char) :
    words (gap ++ cs) = words cs := by
  induction gap with
  | nil => rfl
  | cons b gap ih =>
    rw [List.cons_append, words_cons_of_blank (blank b List.mem_cons_self)]
    exact ih fun c present => blank c (List.mem_cons_of_mem b present)

theorem words_run {w rest : List Char} (filled : w ≠ []) (unbroken : ∀ c ∈ w, isBlank c = false)
    (ends : Stops (fun c => !isBlank c) rest) : words (w ++ rest) = w :: words rest := by
  induction w with
  | nil => exact absurd rfl filled
  | cons c w ih =>
    have first : ¬ isBlank c = true := by
      rw [unbroken c List.mem_cons_self]
      nofun
    have others : ∀ d ∈ w, isBlank d = false :=
      fun d present => unbroken d (List.mem_cons_of_mem c present)
    cases w with
    | nil =>
      cases rest with
      | nil =>
        show words [c] = [[c]]
        rw [words.eq_def]
        simp only [if_neg first]
      | cons d rest =>
        have blank : isBlank d = true := by simpa using ends d rfl
        show words (c :: d :: rest) = _
        rw [words.eq_def]
        simp only [if_neg first, if_pos blank]
    | cons d w =>
      have next : ¬ isBlank d = true := by
        rw [others d List.mem_cons_self]
        nofun
      have tail := ih (List.cons_ne_nil _ _) others
      show words (c :: d :: (w ++ rest)) = _
      rw [words.eq_def]
      simp only [if_neg first, if_neg next]
      rw [List.cons_append] at tail
      rw [tail]

theorem Spaced.words_eq {ws : List (List Char)} {cs : List Char} (h : Spaced ws cs) :
    words cs = ws := by
  induction h with
  | none blank =>
    have nothing := words_append_left blank []
    rw [List.append_nil] at nothing
    exact nothing
  | word blank filled unbroken ends _ ih =>
    rw [words_append_left blank, words_run filled unbroken ends, ih]

/-- **The words found are the words of the text.** -/
theorem words_eq_iff {ws : List (List Char)} {cs : List Char} : words cs = ws ↔ Spaced ws cs := by
  constructor
  · rintro rfl
    obtain ⟨ws, spaced⟩ := exists_spaced cs
    rw [spaced.words_eq]
    exact spaced
  · exact Spaced.words_eq

/-! ## Outer blanks -/

/-- A text without the blanks at its two ends: it starts with none, and ends with none. -/
inductive Trimmed : List Char → List Char → Prop where
  | of {lead text trail : List Char} (before : AllBlank lead) (after : AllBlank trail)
    (first : Stops isBlank text) (last : Stops isBlank text.reverse) :
    Trimmed (lead ++ (text ++ trail)) text

theorem trimmed_trim (cs : List Char) : Trimmed cs (trim cs) := by
  obtain ⟨bare, start⟩ : ∃ bare, cs.dropWhile isBlank = bare := ⟨_, rfl⟩
  have stops : Stops isBlank bare := start ▸ stops_dropWhile isBlank cs
  have trimmed : trim cs = (bare.reverse.dropWhile isBlank).reverse := by rw [← start]; rfl
  have ending : bare = trim cs ++ (bare.reverse.takeWhile isBlank).reverse := by
    rw [trimmed, ← List.reverse_append, List.takeWhile_append_dropWhile, List.reverse_reverse]
  have whole :
      cs = cs.takeWhile isBlank ++ (trim cs ++ (bare.reverse.takeWhile isBlank).reverse) := by
    rw [← ending, ← start, List.takeWhile_append_dropWhile]
  have first : Stops isBlank (trim cs) := by
    rw [ending] at stops
    cases text : trim cs with
    | nil => exact stops_nil
    | cons c text =>
      rw [text] at stops
      exact stops_cons (stops c rfl)
  have last : Stops isBlank (trim cs).reverse := by
    rw [trimmed, List.reverse_reverse]
    exact stops_dropWhile isBlank _
  have before : AllBlank (cs.takeWhile isBlank) := List.all_eq_true.mp List.all_takeWhile
  have after : AllBlank (bare.reverse.takeWhile isBlank).reverse := fun c present =>
    List.all_eq_true.mp List.all_takeWhile c (List.mem_reverse.mp present)
  have result := Trimmed.of before after first last
  rw [← whole] at result
  exact result

theorem Trimmed.trim_eq {cs text : List Char} (h : Trimmed cs text) : trim cs = text := by
  obtain @⟨lead, _, trail, before, after, first, last⟩ := h
  have backwards : ∀ c ∈ trail.reverse, isBlank c = true :=
    fun c present => after c (List.mem_reverse.mp present)
  have ending : trimEnd (text ++ trail) = text := by
    unfold trimEnd
    rw [List.reverse_append, dropWhile_run backwards last, List.reverse_reverse]
  cases text with
  | nil =>
    have start : trimStart (lead ++ trail) = [] := by
      have all : ∀ c ∈ lead ++ trail, isBlank c = true :=
        fun c present => (List.mem_append.mp present).elim (before c) (after c)
      have dropped := dropWhile_run all stops_nil
      rw [List.append_nil] at dropped
      exact dropped
    show trimEnd (trimStart (lead ++ trail)) = []
    rw [start]
    rfl
  | cons c text =>
    have stops : Stops isBlank (c :: text ++ trail) := stops_cons (first c rfl)
    show trimEnd ((lead ++ (c :: text ++ trail)).dropWhile isBlank) = c :: text
    rw [dropWhile_run before stops, ending]

/-- A trimmed text starts with no blank, and ends with none. -/
theorem Trimmed.stops {cs text : List Char} (h : Trimmed cs text) :
    Stops isBlank text ∧ Stops isBlank text.reverse := by
  obtain ⟨_, _, first, last⟩ := h
  exact ⟨first, last⟩

/-- Blanks at the end of a text are trimmed. -/
theorem Trimmed.append_right {cs text gap : List Char} (h : Trimmed cs text)
    (blank : AllBlank gap) : Trimmed (cs ++ gap) text := by
  obtain @⟨lead, _, trail, before, after, first, last⟩ := h
  rw [List.append_assoc, List.append_assoc]
  refine .of before (fun c present => ?_) first last
  exact (List.mem_append.mp present).elim (after c) (blank c)

/-- **Trimming takes the outer blanks and nothing else.** -/
theorem trim_eq_iff {cs text : List Char} : trim cs = text ↔ Trimmed cs text :=
  ⟨fun same => same ▸ trimmed_trim cs, Trimmed.trim_eq⟩

/-- Outer blanks make no words. -/
theorem Spaced.of_trimmed {cs text : List Char} {ws : List (List Char)} (trimmed : Trimmed cs text)
    (h : Spaced ws text) : Spaced ws cs := by
  obtain ⟨before, after, _, _⟩ := trimmed
  exact (h.append_right after).append_left before

/-! ## The text before a mark -/

/-- What stands before the first mark of a text, or all of it where there is none. -/
inductive Preceding (mark : Char) : List Char → List Char → Prop where
  | of {front rest : List Char} (free : mark ∉ front) (ends : ∀ c ∈ rest.head?, c = mark) :
    Preceding mark (front ++ rest) front

theorem Preceding.unmarked {mark : Char} {cs front : List Char} (h : Preceding mark cs front) :
    mark ∉ front := by
  obtain ⟨free, _⟩ := h
  exact free

/-- A text without the mark stands before it as a whole. -/
theorem preceding_self {mark : Char} {cs : List Char} (free : mark ∉ cs) :
    Preceding mark cs cs := by
  have whole := @Preceding.of mark cs [] free nofun
  rw [List.append_nil] at whole
  exact whole

theorem before_eq_iff {mark : Char} {cs front : List Char} :
    before mark cs = front ↔ Preceding mark cs front := by
  unfold before
  constructor
  · rintro rfl
    have free : mark ∉ cs.takeWhile (· != mark) := by
      intro present
      have other := List.all_eq_true.mp (List.all_takeWhile (p := (· != mark))) mark present
      exact absurd rfl (bne_iff_ne.mp other)
    have ends : ∀ c ∈ (cs.dropWhile (· != mark)).head?, c = mark := fun c present =>
      bne_eq_false_iff_eq.mp (stops_dropWhile (· != mark) cs c present)
    have result := Preceding.of free ends
    rw [List.takeWhile_append_dropWhile] at result
    exact result
  · rintro ⟨free, ends⟩
    refine takeWhile_run ?_ ?_
    · intro c present
      exact bne_iff_ne.mpr fun same => free (same ▸ present)
    · intro c present
      exact bne_eq_false_iff_eq.mpr (ends c present)

end Toolpath.Text
