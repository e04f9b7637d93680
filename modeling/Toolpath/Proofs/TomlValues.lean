import Toolpath.Proofs.LibraryLaws
import Toolpath.Proofs.TomlNumbers
import Toolpath.Toml.Document

/-!
# Values in TOML

The text of a value is taken for what it was written for: a truth value, a number, a text between
quotes, or a list with one item to a line. A plain value has to end where its line ends or where a
comma stands, since the reader takes as much of a word as it can; this is the whole condition on
what follows (`Denotes`).

A text between quotes must be one that quotes hold as it is, as the names of choices are: the writer
has no escapes.
-/

namespace Toolpath.Toml

open Text (Stops stops_nil stops_cons takeWhile_run dropWhile_run dropWhile_of_stops)

/-! ## Values on one line -/

/-- A character that opens the text of a plain value: a quote, or a character of a word. -/
def Opens (c : Char) : Prop := c = '"' ∨ isWordChar c = true

instance (c : Char) : Decidable (Opens c) := inferInstanceAs (Decidable (_ ∨ _))

theorem Opens.ne {c b : Char} (opens : Opens c) (other : ¬ Opens b) : c ≠ b := by
  rintro rfl
  exact other opens

theorem isSpace_of_opens {c : Char} (opens : Opens c) : isSpace c = false := by
  have noBlank : c ≠ ' ' := opens.ne (by decide)
  have noTab : c ≠ '\t' := opens.ne (by decide)
  exact Bool.or_eq_false_iff.mpr ⟨beq_eq_false_iff_ne.mpr noBlank, beq_eq_false_iff_ne.mpr noTab⟩

theorem skipSpace_of_opens {c : Char} (opens : Opens c) (cs : List Char) :
    skipSpace (c :: cs) = c :: cs :=
  dropWhile_of_stops (stops_cons (isSpace_of_opens opens))

theorem skipBlank_of_opens {c : Char} (opens : Opens c) (cs : List Char) :
    skipBlank false (c :: cs) = .ok (c :: cs) := by
  have noFeed : c ≠ '\n' := opens.ne (by decide)
  have noReturn : c ≠ '\r' := opens.ne (by decide)
  have noMark : c ≠ '#' := opens.ne (by decide)
  simp [skipBlank, noReturn, noMark, isSpace_of_opens opens]

/-- What starts with no bracket is a plain value. -/
theorem value_of_opens {c : Char} (opens : Opens c) (depth : Nat) (cs : List Char) :
    value depth (c :: cs) = plainValue (c :: cs) := by
  have noList : c ≠ '[' := opens.ne (by decide)
  have noTable : c ≠ '{' := opens.ne (by decide)
  cases depth with
  | zero => simp [value, noList, noTable]
  | succ depth => simp [value, bracketed?, noList, noTable]

/-- What ends a value: the end of its line, or a comma. -/
inductive EndsValue : List Char → Prop where
  | line {rest : List Char} : EndsValue ('\n' :: rest)
  | comma {rest : List Char} : EndsValue (',' :: rest)

/-- The text of a plain value. -/
structure Denotes (text : List Char) (d : Datum) : Prop where
  opens : ∃ c cs, text = c :: cs ∧ Opens c
  read : ∀ {rest}, EndsValue rest → plainValue (text ++ rest) = .ok (d, rest)

theorem Denotes.value {text rest : List Char} {d : Datum} (denoted : Denotes text d)
    (ends : EndsValue rest) (depth : Nat) : value depth (text ++ rest) = .ok (d, rest) := by
  obtain ⟨c, cs, rfl, opens⟩ := denoted.opens
  exact (value_of_opens opens depth (cs ++ rest)).trans (denoted.read ends)

/-! ### Words -/

/-- A word denotes its value. -/
theorem denotes_word {word : List Char} {d : Datum} (filled : word ≠ [])
    (chars : ∀ c ∈ word, isWordChar c = true) (worth : wordValue? word = some d) :
    Denotes word d := by
  obtain ⟨c, cs, rfl⟩ := List.exists_cons_of_ne_nil filled
  have opens : Opens c := .inr (chars c List.mem_cons_self)
  refine ⟨⟨c, cs, rfl, opens⟩, fun {rest} ends => ?_⟩
  have unquoted : quoted? (c :: cs ++ rest) = none := by
    have noQuote : c ≠ '"' := by
      rintro rfl
      cases chars '"' List.mem_cons_self
    have noTick : c ≠ '\'' := opens.ne (by decide)
    simp [quoted?, noQuote, noTick]
  have split : splitWord (c :: cs ++ rest) = (c :: cs, rest) := by
    have stops : Stops isWordChar rest := by
      cases ends with
      | line => exact stops_cons rfl
      | comma => exact stops_cons rfl
    unfold splitWord
    dsimp only
    rw [takeWhile_run chars stops, dropWhile_run chars stops]
    cases ends with
    | line => rfl
    | comma => rfl
  unfold plainValue wordValue
  rw [unquoted]
  dsimp only
  rw [split]
  dsimp only
  rw [worth]

theorem denotes_flag (b : Bool) : Denotes (if b then "true" else "false").toList (.flag b) := by
  cases b with
  | true => exact denotes_word (by decide) (List.all_eq_true.mp rfl) rfl
  | false => exact denotes_word (by decide) (List.all_eq_true.mp rfl) rfl

theorem denotes_real (x : Float) : Denotes (realText x).toList (.real x) := by
  have worth := wordValue?_realText x
  refine denotes_word ?_ (isWordChar_of_mem_realText x) worth
  intro empty
  rw [empty] at worth
  cases worth

/-! ### Quoted texts -/

theorem basic_append {cs : List Char} (quotable : IsQuotable cs) (rest : List Char) :
    basic (cs ++ '"' :: rest) = .ok (cs, rest) := by
  induction cs with
  | nil => rfl
  | cons c cs ih =>
    obtain ⟨⟨printable, unquoted, unescaped⟩, others⟩ := List.forall_mem_cons.mp quotable
    simp [basic, printable, unescaped, ih others, prepend, Except.map]

theorem denotes_text {s : String} (quotable : IsQuotable s.toList) :
    Denotes ("\"" ++ s ++ "\"").toList (.text s) := by
  have spelled : ("\"" ++ s ++ "\"").toList = '"' :: (s.toList ++ ['"']) := by
    rw [String.toList_append, String.toList_append]
    rfl
  rw [spelled]
  refine ⟨⟨'"', _, rfl, .inl rfl⟩, fun {rest} ends => ?_⟩
  have quoted : quoted? ('"' :: (s.toList ++ '"' :: rest)) =
      some (basic (s.toList ++ '"' :: rest)) := by
    cases chars : s.toList with
    | nil =>
      cases ends with
      | line => rfl
      | comma => rfl
    | cons c cs =>
      have unquoted : c ≠ '"' := (quotable c (chars ▸ List.mem_cons_self)).2.1
      simp [quoted?, unquoted]
  rw [List.cons_append, List.append_assoc, List.singleton_append]
  unfold plainValue
  rw [quoted, basic_append quotable]
  exact congrArg (fun t => Except.ok (Datum.text t, rest)) String.ofList_toList

/-! ## Values of settings -/

theorem IsPlain.exists_text {d : Datum} (plain : IsPlain d) :
    ∃ text, plainText? d = some text ∧ Denotes text.toList d := by
  cases plain with
  | flag b => exact ⟨_, rfl, denotes_flag b⟩
  | real x => exact ⟨_, rfl, denotes_real x⟩
  | text quotable => exact ⟨_, rfl, denotes_text quotable⟩

theorem settingText?_of_isPlain {d : Datum} (plain : IsPlain d) (name : String) :
    settingText? name d = (plainText? d).map fun text => name ++ " = " ++ text ++ "\n" := by
  cases plain with
  | flag | real | text => rfl

theorem exists_texts {items : List Datum} (plain : ∀ d ∈ items, IsPlain d) :
    ∃ texts, items.mapM plainText? = some texts ∧
      List.Forall₂ (fun text d => Denotes text.toList d) texts items := by
  induction items with
  | nil => exact ⟨[], rfl, .nil⟩
  | cons d items ih =>
    obtain ⟨first, others⟩ := List.forall_mem_cons.mp plain
    obtain ⟨text, written, denoted⟩ := first.exists_text
    obtain ⟨texts, all, denote⟩ := ih others
    refine ⟨text :: texts, ?_, .cons denoted denote⟩
    rw [List.mapM_cons, written, all]
    rfl

/-- The lines of the items of a list. -/
def itemLines (texts : List String) : List Char :=
  texts.flatMap fun text => "    ".toList ++ (text.toList ++ ",\n".toList)

/-- Items are read one to a line, and the bracket after them. -/
theorem listItems_itemLines {texts : List String} {items : List Datum} (depth : Nat)
    (denote : List.Forall₂ (fun text d => Denotes text.toList d) texts items) (rest : List Char)
    {fuel : Nat} (enough : texts.length < fuel) :
    listItems (value depth) fuel ('\n' :: (itemLines texts ++ ']' :: rest)) =
      .ok (items, rest) := by
  induction denote generalizing fuel with
  | nil =>
    obtain ⟨fuel, rfl⟩ := Nat.exists_eq_succ_of_ne_zero (Nat.ne_of_gt enough)
    rfl
  | @cons text d texts items denoted denote ih =>
    obtain ⟨fuel, rfl⟩ := Nat.exists_eq_succ_of_ne_zero (Nat.ne_zero_of_lt enough)
    obtain ⟨c, cs, spelled, opens⟩ := denoted.opens
    have noBracket : c ≠ ']' := opens.ne (by decide)
    -- an item takes the line end before it, and its comma ends it
    let others : List Char := '\n' :: (itemLines texts ++ ']' :: rest)
    let indented : List Char := ' ' :: ' ' :: ' ' :: ' ' :: c :: (cs ++ ',' :: others)
    have shape : '\n' :: (itemLines (text :: texts) ++ ']' :: rest) = '\n' :: indented := by
      unfold itemLines
      rw [List.flatMap_cons, spelled, List.append_assoc, List.append_assoc, List.append_assoc]
      rfl
    have blank : skipBlank false ('\n' :: indented) = .ok (c :: (cs ++ ',' :: others)) :=
      skipBlank_of_opens opens _
    have item : value depth (c :: (cs ++ ',' :: others)) = .ok (d, ',' :: others) := by
      have ends : EndsValue (',' :: others) := .comma
      have read := denoted.value ends depth
      rwa [spelled] at read
    have comma : skipBlank false (',' :: others) = .ok (',' :: others) := rfl
    have more : listItems (value depth) fuel others = .ok (items, rest) :=
      ih (Nat.lt_of_succ_lt_succ enough)
    simp [listItems, shape, blank, noBracket, item, comma, more, Except.map]

theorem length_le_itemLines (texts : List String) : texts.length ≤ (itemLines texts).length := by
  unfold itemLines
  induction texts with
  | nil => exact Nat.le_refl 0
  | cons text texts ih =>
    rw [List.flatMap_cons, List.length_append, List.length_cons, Nat.add_comm]
    exact Nat.add_le_add (by simp) ih

/-- A list with one item to a line is a value. -/
theorem value_itemLines {texts : List String} {items : List Datum} (depth : Nat)
    (denote : List.Forall₂ (fun text d => Denotes text.toList d) texts items) (rest : List Char) :
    value (depth + 1) ('[' :: '\n' :: (itemLines texts ++ ']' :: rest)) =
      .ok (.list items, rest) := by
  have enough : texts.length < ('\n' :: (itemLines texts ++ ']' :: rest)).length + 1 := by
    have fits := length_le_itemLines texts
    rw [List.length_cons, List.length_append]
    omega
  have items := listItems_itemLines depth denote rest enough
  rw [value, bracketed?, items]
  rfl

/-- The value of a setting is written so that it is read back at the end of its line. -/
theorem IsSettable.exists_text {d : Datum} (settable : IsSettable d) (name : String) :
    ∃ setting text, settingText? name d = some setting ∧
      setting.toList = name.toList ++ ' ' :: '=' :: ' ' :: (text ++ ['\n']) ∧
      ∀ rest, value deepest (skipSpace (text ++ '\n' :: rest)) = .ok (d, '\n' :: rest) := by
  cases settable with
  | @plain _ plain =>
    obtain ⟨text, written, denoted⟩ := plain.exists_text
    refine ⟨name ++ " = " ++ text ++ "\n", text.toList, ?_, ?_, fun rest => ?_⟩
    · rw [settingText?_of_isPlain plain name, written]
      rfl
    · simp
    · obtain ⟨c, cs, spelled, opens⟩ := denoted.opens
      have start : skipSpace (text.toList ++ '\n' :: rest) = text.toList ++ '\n' :: rest := by
        rw [spelled]
        exact skipSpace_of_opens opens _
      rw [start]
      exact denoted.value .line deepest
  | @list items plain =>
    obtain ⟨texts, written, denote⟩ := exists_texts plain
    refine ⟨_, '[' :: '\n' :: (itemLines texts ++ [']']), congrArg (Option.map _) written, ?_,
      fun rest => ?_⟩
    · simp [itemLines, String.toList_join, List.flatMap_map]
    · rw [List.cons_append, List.cons_append, List.append_assoc, List.singleton_append]
      exact value_itemLines 79 denote ('\n' :: rest)

end Toolpath.Toml
