import Toolpath.Data.Reading
import Toolpath.Program.Settings
import Toolpath.Toml.Quoted

/-!
# What is expected of libraries

Settings pass through two libraries on the way to their text and back: one reads data as values of
types, the other reads and writes TOML. Neither is part of the program. What the program relies on
is collected here, each as a law of its own and for no more than the program hands over, and every
statement about settings that come back is proved from these laws alone.

* `Decoding.Lawful` says how a datum is read: a truth value and a number are read as what they are,
  a choice by its name, a record by the names of its fields, and a field that is missing as what
  stands for it.
* `Toml.Library.Lawful` says how a text is: a document of settings has one, and what is read from
  it is what the type makes of the document, also below comments and empty lines. Nothing is said
  of how numbers, texts and tables are spelled.

The libraries that the program runs with obey them (`Decoding.lawful` here, and `Toml.lawful` where
the texts of TOML are).
-/

namespace Toolpath

/-! ## Data -/

/-- How data are read as values of types, in a format. -/
structure Decoding.Lawful [Decoding] (form : Form) : Prop where
  flag : ∀ b, flag? (.flag b) = some b
  real : ∀ x, real? (.real x) = some x
  /-- A choice is told by its name. -/
  oneOf : ∀ {β : Type} (choices : List (String × β)) (name : String),
    (choices.map Prod.fst).Nodup → oneOf? form choices (.text name) = List.lookup name choices
  items : ∀ items, items? form items.length (.list items) = some items
  /-- The fields of a record are told by their names, whatever their order is. -/
  fields : ∀ (names : List String) (fields : List (String × Datum)), names.Nodup →
    (fields.map Prod.fst).Nodup →
    fields? form names (.record fields) = some (names.map fun name => List.lookup name fields)
  missing : ∀ {β : Type} (other : β) (read : Datum → Option β), fieldOr none other read = some other
  given : ∀ {β : Type} (d : Datum) (other : β) (read : Datum → Option β),
    fieldOr (some d) other read = read d
  present : ∀ {β : Type} (d : Datum) (read : Datum → Option β), d ≠ .null →
    optional? read d = (read d).map some

/-- The library that the program runs with is lawful in every format. -/
theorem Decoding.lawful (form : Form) : Lawful form where
  flag _ := rfl
  real _ := rfl
  oneOf _ _ _ := rfl
  items items := by
    show Datum.items? form items.length (.list items) = some items
    simp [Datum.items?]
  fields _ _ _ _ := rfl
  missing _ _ := rfl
  given _ _ _ := rfl
  present d read filled := by
    cases d with
    | null => exact absurd rfl filled
    | flag | integer | real | text | list | record => rfl

namespace Toml

/-! ## Documents of settings -/

/-- A name that is a key without quotes. -/
structure IsKey (name : String) : Prop where
  filled : name.toList ≠ []
  bare : ∀ c ∈ name.toList, isBareKey c = true

instance (name : String) : Decidable (IsKey name) :=
  decidable_of_iff (name.toList ≠ [] ∧ name.toList.all isBareKey = true)
    ⟨fun h => ⟨h.1, List.all_eq_true.mp h.2⟩, fun h => ⟨h.1, List.all_eq_true.mpr h.2⟩⟩

/-- A text that quotes hold as it is. -/
def IsQuotable (cs : List Char) : Prop := ∀ c ∈ cs, isPrintable c = true ∧ c ≠ '"' ∧ c ≠ '\\'

instance (cs : List Char) : Decidable (IsQuotable cs) := List.decidableBAll _ cs

/-- A value that is written on one line. -/
inductive IsPlain : Datum → Prop where
  | flag (b : Bool) : IsPlain (.flag b)
  | real (x : Float) : IsPlain (.real x)
  | text {s : String} (quotable : IsQuotable s.toList) : IsPlain (.text s)

/-- The value of a setting: a plain one or a list of such. -/
inductive IsSettable : Datum → Prop where
  | plain {d : Datum} (plain : IsPlain d) : IsSettable d
  | list {items : List Datum} (plain : ∀ d ∈ items, IsPlain d) : IsSettable (.list items)

/-- Settings that can be written one to a line. -/
structure IsSettings (fields : List (String × Datum)) : Prop where
  each : ∀ field ∈ fields, IsKey field.1 ∧ IsSettable field.2
  distinct : (fields.map Prod.fst).Nodup

/-- The fields of a document: settings, and sections with settings of their own. -/
def document (settings : List (String × Datum)) (groups : List (String × List (String × Datum))) :
    List (String × Datum) :=
  settings ++ groups.map fun group => (group.1, .record group.2)

/-- A document that can be written. -/
structure IsDocument (settings : List (String × Datum))
    (groups : List (String × List (String × Datum))) : Prop where
  each : ∀ field ∈ settings, IsKey field.1 ∧ IsSettable field.2
  sections : ∀ group ∈ groups, IsKey group.1 ∧ IsSettings group.2
  distinct : (settings.map Prod.fst ++ groups.map Prod.fst).Nodup

theorem document_nil (settings : List (String × Datum)) : document settings [] = settings :=
  List.append_nil settings

/-- Settings alone are a document. -/
theorem IsSettings.isDocument {fields : List (String × Datum)} (settings : IsSettings fields) :
    IsDocument fields [] where
  each := settings.each
  sections := nofun
  distinct := by
    rw [List.map_nil, List.append_nil]
    exact settings.distinct

/-! ## Texts of documents -/

/-- A line that says nothing: an empty one, or a comment. -/
def IsIdle (line : String) : Prop :=
  line = "" ∨ line.toList.head? = some '#' ∧ ∀ c ∈ line.toList, isPrintable c = true

instance (line : String) : Decidable (IsIdle line) :=
  haveI : Decidable (∀ c ∈ line.toList, isPrintable c = true) := List.decidableBAll _ line.toList
  inferInstanceAs (Decidable (_ ∨ _))

/-- Lines, each with its end. -/
def ended (lines : List String) : String := String.join (lines.map (· ++ "\n"))

/-- How documents of settings are written and read. -/
structure Library.Lawful [Library] : Prop where
  /-- A document of settings has a text. -/
  writes : ∀ {settings groups}, IsDocument settings groups →
    ∃ text, Library.write (document settings groups) = .ok text
  /-- What its text is read as is what the document is, also below lines that say nothing. -/
  reads : ∀ {settings groups}, IsDocument settings groups →
    ∀ {text}, Library.write (document settings groups) = .ok text →
    ∀ {lines}, (∀ line ∈ lines, IsIdle line) →
    ∀ {β : Type} {decode : Datum → Option β} {x : β},
      decode (.record (document settings groups)) = some x →
      Library.read decode (ended lines ++ text) = .ok x

/-- Settings without sections have a text, which is read as what they are. -/
theorem Library.Lawful.exists_text [Library] (lawful : Library.Lawful)
    {fields : List (String × Datum)} (settings : IsSettings fields) {β : Type}
    {decode : Datum → Option β} {x : β} (decoded : decode (.record fields) = some x) :
    ∃ text, Library.write fields = .ok text ∧ Library.read decode text = .ok x := by
  rw [← document_nil fields] at decoded ⊢
  obtain ⟨text, written⟩ := lawful.writes settings.isDocument
  refine ⟨text, written, ?_⟩
  have read : Library.read decode (ended [] ++ text) = .ok x :=
    lawful.reads settings.isDocument written (List.forall_mem_nil _) decoded
  rwa [show ended [] ++ text = text from String.empty_append] at read

end Toml

end Toolpath
