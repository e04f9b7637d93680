import Toolpath.Proofs.TomlValues
import Toolpath.Toml.InHouse

/-!
# TOML documents that are written

A record of settings and sections is written as a document and read back as that record, field by
field and in the same order, also below comments and empty lines (`read_write`). This is all that is
asked of a library for TOML, so that the one that the program runs with is lawful (`Toml.lawful`).

A document is read line by line into a draft. `Leads` says that from one draft the lines of a text
lead to another, and each kind of line has one law: an empty line and a comment leave the draft as
it is, a header starts a section, and a setting goes to the table of the header above it. `Takes` is
what a table has to allow for the last of these, so that settings before the first header and
settings of a section are one induction.
-/

namespace Toolpath

namespace Toml

open Text (Stops stops_cons takeWhile_run dropWhile_run)

/-! ## Keys -/

theorem opens_of_isBareKey {c : Char} (bare : isBareKey c = true) : Opens c := by
  refine .inr ?_
  unfold isBareKey at bare
  unfold isWordChar
  rw [bare]
  rfl

/-- A key starts with one of its characters. -/
theorem IsKey.starts {name : String} (key : IsKey name) :
    ∃ c cs, name.toList = c :: cs ∧ isBareKey c = true := by
  obtain ⟨c, cs, spelled⟩ := List.exists_cons_of_ne_nil key.filled
  exact ⟨c, cs, spelled, key.bare c (spelled ▸ List.mem_cons_self)⟩

/-- A key without a point after it is read as one key. -/
theorem dottedKey_of_isKey {name : String} (key : IsKey name) {rest : List Char}
    (stops : Stops isBareKey rest) (last : (skipSpace rest).head? ≠ some '.') (most : Nat) :
    dottedKey (most + 1) (name.toList ++ rest) = .ok ([name], skipSpace rest) := by
  obtain ⟨c, cs, spelled, bare⟩ := key.starts
  have noQuote : c ≠ '"' := by
    rintro rfl
    cases bare
  have noTick : c ≠ '\'' := (opens_of_isBareKey bare).ne (by decide)
  have start : skipSpace (name.toList ++ rest) = name.toList ++ rest := by
    rw [spelled]
    exact skipSpace_of_opens (opens_of_isBareKey bare) _
  have simple : simpleKey (name.toList ++ rest) = .ok (name, rest) := by
    have front := takeWhile_run key.bare stops
    have back := dropWhile_run key.bare stops
    rw [spelled] at front back ⊢
    have unquoted : simpleKey (c :: cs ++ rest) =
        .ok (String.ofList ((c :: cs ++ rest).takeWhile isBareKey),
          (c :: cs ++ rest).dropWhile isBareKey) := by
      simp [simpleKey, noQuote, noTick, bare]
    rw [unquoted, front, back, ← spelled, String.ofList_toList]
  rw [dottedKey, start, simple]
  dsimp only
  split
  · rename_i tail point
    exact absurd (congrArg List.head? point) last
  · rfl

/-! ## Lines -/

/-- The line of a setting is read as its key and its value. -/
theorem keyValue_of_isKey {name : String} (key : IsKey name) {text rest : List Char} {d : Datum}
    (read : value deepest (skipSpace (text ++ '\n' :: rest)) = .ok (d, '\n' :: rest)) :
    keyValue (name.toList ++ ' ' :: '=' :: ' ' :: (text ++ '\n' :: rest)) =
      .ok (([name], d), '\n' :: rest) := by
  have stops : Stops isBareKey (' ' :: '=' :: ' ' :: (text ++ '\n' :: rest)) := stops_cons rfl
  have spaced : value deepest (skipSpace (' ' :: (text ++ '\n' :: rest))) = .ok (d, '\n' :: rest) :=
    read
  have named : dottedKey deepest (name.toList ++ ' ' :: '=' :: ' ' :: (text ++ '\n' :: rest)) =
      .ok ([name], '=' :: ' ' :: (text ++ '\n' :: rest)) := dottedKey_of_isKey key stops nofun 79
  simp [keyValue, named, spaced, Except.map]

/-- A setting is put into the table of the header above it. -/
theorem line_setting {draft : Draft} {name : String} (key : IsKey name) {text rest : List Char}
    {d : Datum} {entries : Entries}
    (read : value deepest (skipSpace (text ++ '\n' :: rest)) = .ok (d, '\n' :: rest))
    (defined : define draft.path [name] d draft.entries = .ok entries) :
    line draft (name.toList ++ ' ' :: '=' :: ' ' :: (text ++ '\n' :: rest)) =
      .ok (⟨entries, draft.path⟩, rest) := by
  have pair := keyValue_of_isKey key read
  obtain ⟨c, cs, spelled, bare⟩ := key.starts
  have opens := opens_of_isBareKey bare
  rw [spelled, List.cons_append] at pair ⊢
  have noBracket : c ≠ '[' := opens.ne (by decide)
  have noFeed : c ≠ '\n' := opens.ne (by decide)
  have noReturn : c ≠ '\r' := opens.ne (by decide)
  have noMark : c ≠ '#' := opens.ne (by decide)
  simp [line, skipSpace_of_opens opens, noBracket, noFeed, noReturn, noMark, pair, defined, endLine,
    Except.map]

/-- A header opens its table. -/
theorem line_header {draft : Draft} {name : String} (key : IsKey name) {rest : List Char}
    {entries : Entries} (opened : openTable [name] draft.entries = .ok entries) :
    line draft ('[' :: (name.toList ++ ']' :: '\n' :: rest)) = .ok (⟨entries, [name]⟩, rest) := by
  have stops : Stops isBareKey (']' :: '\n' :: rest) := stops_cons rfl
  have named : dottedKey deepest (name.toList ++ ']' :: '\n' :: rest) =
      .ok ([name], ']' :: '\n' :: rest) := dottedKey_of_isKey key stops nofun 79
  have read : header [']'] (name.toList ++ ']' :: '\n' :: rest) = .ok ([name], rest) := by
    unfold header
    rw [named]
    rfl
  obtain ⟨c, cs, spelled, bare⟩ := key.starts
  have noBracket : c ≠ '[' := (opens_of_isBareKey bare).ne (by decide)
  rw [spelled, List.cons_append] at read ⊢
  have start : skipSpace ('[' :: c :: (cs ++ ']' :: '\n' :: rest)) =
      '[' :: c :: (cs ++ ']' :: '\n' :: rest) := rfl
  simp [line, start, noBracket, read, opened, Except.map]

theorem endLine_comment {comment : List Char} (printable : ∀ c ∈ comment, isPrintable c = true)
    (rest : List Char) : endLine true (comment ++ '\n' :: rest) = .ok rest := by
  induction comment with
  | nil => rfl
  | cons c comment ih =>
    obtain ⟨first, others⟩ := List.forall_mem_cons.mp printable
    have noFeed : c ≠ '\n' := by
      rintro rfl
      cases first
    have noReturn : c ≠ '\r' := by
      rintro rfl
      cases first
    simp [endLine, noReturn, first, ih others]

/-! ## Tables -/

/-- The entries of settings. -/
def settled (fields : List (String × Datum)) : Entries := fields.map fun field =>
  (field.1, .value field.2)

/-- The entries of sections, each a table with its header. -/
def sectioned (groups : List (String × List (String × Datum))) : Entries := groups.map fun group =>
  (group.1, .table .header (settled group.2))

section Entry

variable {entries : Entries} {name : String}

theorem lookup_eq_none (fresh : name ∉ entries.map Prod.fst) : entries.lookup name = none := by
  rw [List.lookup_eq_none_iff]
  intro entry present
  rw [bne_iff_ne]
  rintro rfl
  exact fresh (List.mem_map_of_mem present)

theorem lookup_last (fresh : name ∉ entries.map Prod.fst) (node : Node) :
    (entries ++ [(name, node)]).lookup name = some node := by
  rw [List.lookup_append, lookup_eq_none fresh, Option.none_or]
  exact List.lookup_cons_self

theorem replace_last (fresh : name ∉ entries.map Prod.fst) (old node : Node) :
    replace name node (entries ++ [(name, old)]) = entries ++ [(name, node)] := by
  have kept : replace name node entries = entries := by
    refine (List.map_congr_left fun entry present => ?_).trans (List.map_id entries)
    have other : entry.1 ≠ name := by
      rintro rfl
      exact fresh (List.mem_map_of_mem present)
    exact if_neg other
  have last : replace name node [(name, old)] = [(name, node)] := by
    simp [replace]
  calc replace name node (entries ++ [(name, old)])
      = replace name node entries ++ replace name node [(name, old)] := List.map_append
    _ = entries ++ [(name, node)] := by rw [kept, last]

end Entry

theorem map_fst_settled (fields : List (String × Datum)) :
    (settled fields).map Prod.fst = fields.map Prod.fst := by
  unfold settled
  rw [List.map_map]
  rfl

/-- A table under construction, as a function of its settings: under the header with this path, each
setting of a new name is added to them. -/
def Takes (path : List String) (table : List (String × Datum) → Entries) : Prop :=
  ∀ fields name d, name ∉ fields.map Prod.fst →
    define path [name] d (table fields) = .ok (table (fields ++ [(name, d)]))

theorem addValue_settled {fields : List (String × Datum)} {name : String} (d : Datum)
    (fresh : name ∉ fields.map Prod.fst) :
    addValue name d (settled fields) = .ok (settled (fields ++ [(name, d)])) := by
  have absent : (settled fields).lookup name = none :=
    lookup_eq_none (map_fst_settled fields ▸ fresh)
  unfold addValue settled
  rw [List.map_append]
  exact absent ▸ rfl

/-- The document itself takes the settings before the first header. -/
theorem takes_settled : Takes [] settled := fun _ _ d fresh => addValue_settled d fresh

/-- A section takes the settings below its header. -/
theorem takes_section {earlier : Entries} {name : String}
    (fresh : name ∉ earlier.map Prod.fst) :
    Takes [name] fun fields => earlier ++ [(name, .table .header (settled fields))] := by
  intro fields key d new
  have inner := addValue_settled d new
  have table := lookup_last fresh (.table .header (settled fields))
  have put := replace_last fresh (.table .header (settled fields))
    (.table .header (settled (fields ++ [(key, d)])))
  simp [define, splitLast, within, table, inner, put, Except.map]

/-- A header of a new name starts an empty section. -/
theorem openTable_fresh {earlier : Entries} {name : String} (fresh : name ∉ earlier.map Prod.fst) :
    openTable [name] earlier = .ok (earlier ++ [(name, .table .header (settled []))]) := by
  have absent := lookup_eq_none fresh
  simp [openTable, splitLast, within, addHeader, absent, settled]

/-! ## Reading on -/

/-- From one draft the lines of a text lead to another, whatever fuel is given beyond the text's
length. -/
def Leads (draft : Draft) (cs : List Char) (final : Draft) : Prop :=
  ∀ fuel, cs.length ≤ fuel → readLines fuel draft cs = .ok final

theorem leads_nil (draft : Draft) : Leads draft [] draft := by
  intro fuel _
  cases fuel with
  | zero | succ => rfl

section Leads

variable {draft next final : Draft} {cs rest : List Char}

theorem readLines_of_line (read : line draft cs = .ok (next, rest)) (filled : cs ≠ [])
    (fuel : Nat) : readLines (fuel + 1) draft cs = readLines fuel next rest := by
  obtain ⟨c, cs, rfl⟩ := List.exists_cons_of_ne_nil filled
  rw [readLines, read]
  nofun

/-- One line, and then the others. -/
theorem Leads.of_line (leads : Leads next rest final) (read : line draft cs = .ok (next, rest))
    (shorter : rest.length < cs.length) : Leads draft cs final := by
  intro fuel enough
  have filled : cs ≠ [] := List.ne_nil_of_length_pos (Nat.zero_lt_of_lt shorter)
  obtain ⟨fuel, rfl⟩ := Nat.exists_eq_succ_of_ne_zero (n := fuel) (by omega)
  rw [readLines_of_line read filled]
  exact leads fuel (by omega)

theorem line_empty (draft : Draft) (cs : List Char) : line draft ('\n' :: cs) = .ok (draft, cs) :=
  rfl

/-- An empty line says nothing. -/
theorem leads_empty : Leads draft ('\n' :: cs) final ↔ Leads draft cs final := by
  constructor
  · intro leads fuel enough
    rw [← leads (fuel + 1) (Nat.succ_le_succ enough)]
    exact (readLines_of_line (line_empty draft cs) (List.cons_ne_nil _ _) fuel).symm
  · intro leads
    exact leads.of_line (line_empty draft cs) (Nat.lt_succ_self _)

/-- Nor does a comment. -/
theorem Leads.comment (leads : Leads draft cs final) {comment : List Char}
    (printable : ∀ c ∈ comment, isPrintable c = true) :
    Leads draft ('#' :: (comment ++ '\n' :: cs)) final := by
  have read : line draft ('#' :: (comment ++ '\n' :: cs)) = .ok (draft, cs) := by
    show (endLine true (comment ++ '\n' :: cs)).map (fun rest => (draft, rest)) = _
    rw [endLine_comment printable]
    rfl
  refine leads.of_line read ?_
  rw [List.length_cons, List.length_append, List.length_cons]
  omega

/-- Lines that say nothing lead nowhere. -/
theorem Leads.below (leads : Leads draft cs final) {lines : List String}
    (idle : ∀ line ∈ lines, IsIdle line) : Leads draft ((ended lines).toList ++ cs) final := by
  induction lines with
  | nil => exact leads
  | cons line lines ih =>
    obtain ⟨first, others⟩ := List.forall_mem_cons.mp idle
    have rest := ih others
    have shape : (ended (line :: lines)).toList ++ cs =
        line.toList ++ '\n' :: ((ended lines).toList ++ cs) := by
      simp [ended, String.join_cons]
    rw [shape]
    rcases first with rfl | ⟨mark, printable⟩
    · exact leads_empty.mpr rest
    · obtain ⟨comment, spelled⟩ := List.head?_eq_some_iff.mp mark
      rw [spelled] at printable ⊢
      exact rest.comment fun c present => printable c (List.mem_cons_of_mem _ present)

/-- What is read does not start with the mark of a byte order. -/
theorem Leads.dropMark (leads : Leads draft cs final) : dropMark cs = cs := by
  unfold Toml.dropMark
  split
  · rename_i rest
    have read := leads (rest.length + 1) (Nat.le_refl _)
    cases read
  · rfl

end Leads

/-- What a document stands for. -/
theorem read_of_leads {source : String} {final : Draft}
    (leads : Leads ⟨[], []⟩ source.toList final) :
    read source = .ok (.record (finishEntries final.entries)) := by
  unfold read
  dsimp only
  rw [leads.dropMark, leads _ (Nat.le_refl _)]
  rfl

/-! ## What is written -/

theorem settingsText_cons {name setting : String} {d : Datum}
    (written : settingText? name d = some setting) (fields : List (String × Datum)) :
    settingsText ((name, d) :: fields) = setting ++ settingsText fields := by
  simp [settingsText, written, String.join_cons]

/-- Settings are read one after another into the table that takes them, after those that it already
holds. -/
theorem leads_settingsText {path : List String} {table : List (String × Datum) → Entries}
    (takes : Takes path table) {rest : List Char} {final : Draft}
    {settings : List (String × Datum)} (done : List (String × Datum))
    (each : ∀ field ∈ settings, IsKey field.1 ∧ IsSettable field.2)
    (distinct : ((done ++ settings).map Prod.fst).Nodup)
    (leads : Leads ⟨table (done ++ settings), path⟩ rest final) :
    Leads ⟨table done, path⟩ ((settingsText settings).toList ++ rest) final := by
  -- over the settings still to come: those before them are in the table
  induction settings generalizing done with
  | nil => rwa [List.append_nil] at leads
  | cons field settings ih =>
    obtain ⟨name, d⟩ := field
    obtain ⟨⟨key, settable⟩, others⟩ := List.forall_mem_cons.mp each
    obtain ⟨setting, text, written, spelled, read⟩ := settable.exists_text name
    have shape : (settingsText ((name, d) :: settings)).toList ++ rest =
        name.toList ++ ' ' :: '=' :: ' ' ::
          (text ++ '\n' :: ((settingsText settings).toList ++ rest)) := by
      rw [settingsText_cons written, String.toList_append, spelled]
      simp
    have new : name ∉ done.map Prod.fst := by
      rw [List.map_append, List.map_cons, List.nodup_append] at distinct
      exact fun present => distinct.2.2 name present name List.mem_cons_self rfl
    rw [List.append_cons] at distinct leads
    rw [shape]
    refine (ih (done ++ [(name, d)]) others distinct leads).of_line
      (line_setting key (read _) (takes done name d new)) ?_
    simp only [List.length_append, List.length_cons]
    omega

/-- The text of a section. -/
def sectionText (name : String) (inner : List (String × Datum)) : String :=
  "[" ++ name ++ "]\n" ++ settingsText inner

/-- A section is read into a table of its own. -/
theorem leads_sectionText {earlier : Entries} {path : List String} {name : String}
    {inner : List (String × Datum)} {rest : List Char} {final : Draft} (key : IsKey name)
    (fresh : name ∉ earlier.map Prod.fst) (settings : IsSettings inner)
    (leads : Leads ⟨earlier ++ [(name, .table .header (settled inner))], [name]⟩ rest final) :
    Leads ⟨earlier, path⟩ ((sectionText name inner).toList ++ rest) final := by
  have shape : (sectionText name inner).toList ++ rest =
      '[' :: (name.toList ++ ']' :: '\n' :: ((settingsText inner).toList ++ rest)) := by
    simp [sectionText]
  have settled := leads_settingsText (takes_section fresh) [] settings.each settings.distinct leads
  rw [shape]
  refine settled.of_line (line_header key (openTable_fresh fresh)) ?_
  simp only [List.length_append, List.length_cons]
  omega

/-- Sections, each after an empty line, are read one after another. -/
theorem leads_sectionTexts {groups : List (String × List (String × Datum))}
    (each : ∀ group ∈ groups, IsKey group.1 ∧ IsSettings group.2) (earlier : Entries)
    (path : List String) (distinct : (earlier.map Prod.fst ++ groups.map Prod.fst).Nodup) :
    ∃ last, Leads ⟨earlier, path⟩
      (groups.flatMap fun group => '\n' :: (sectionText group.1 group.2).toList)
      ⟨earlier ++ sectioned groups, last⟩ := by
  induction groups generalizing earlier path with
  | nil =>
    refine ⟨path, ?_⟩
    rw [sectioned, List.map_nil, List.append_nil]
    exact leads_nil _
  | cons group groups ih =>
    obtain ⟨name, inner⟩ := group
    obtain ⟨⟨key, settings⟩, others⟩ := List.forall_mem_cons.mp each
    have fresh : name ∉ earlier.map Prod.fst := by
      rw [List.nodup_append] at distinct
      exact fun present => distinct.2.2 name present name List.mem_cons_self rfl
    let entries : Entries := earlier ++ [(name, .table .header (settled inner))]
    have names : (entries.map Prod.fst ++ groups.map Prod.fst).Nodup := by
      rwa [List.map_append, List.append_assoc]
    obtain ⟨last, leads⟩ := ih others entries [name] names
    refine ⟨last, leads_empty.mpr (leads_sectionText key fresh settings ?_)⟩
    rwa [List.append_assoc] at leads

theorem toList_intercalate_cons (text : String) (texts : List String) :
    ("\n".intercalate (text :: texts)).toList =
      text.toList ++ texts.flatMap fun text => '\n' :: text.toList := by
  induction texts generalizing text with
  | nil => rw [String.intercalate_singleton, List.flatMap_nil, List.append_nil]
  | cons next texts ih =>
    rw [String.intercalate_cons_cons, String.toList_append, ih, List.flatMap_cons]
    simp

section Document

variable {settings : List (String × Datum)} {groups : List (String × List (String × Datum))}

theorem settingsText_append (front back : List (String × Datum)) :
    settingsText (front ++ back) = settingsText front ++ settingsText back := by
  unfold settingsText
  rw [List.filterMap_append, String.join_append]

theorem settingsText_document :
    settingsText (document settings groups) = settingsText settings := by
  have others : settingsText (groups.map fun group => (group.1, .record group.2)) = "" := by
    unfold settingsText
    rw [List.filterMap_map, List.filterMap_eq_nil_iff.mpr]
    · rfl
    · intro group _
      rfl
  unfold document
  rw [settingsText_append, others, String.append_empty]

theorem sections_document (each : ∀ field ∈ settings, IsKey field.1 ∧ IsSettable field.2) :
    sections (document settings groups) = groups := by
  have none : sections settings = [] := by
    unfold sections
    rw [List.filterMap_eq_nil_iff]
    rintro ⟨name, d⟩ present
    cases (each _ present).2 with
    | plain plain => cases plain with
      | flag | real | text => rfl
    | list => rfl
  unfold sections at none ⊢
  unfold document
  rw [List.filterMap_append, none, List.nil_append, List.filterMap_map]
  exact List.filterMap_some

theorem finishEntries_append (front back : Entries) :
    finishEntries (front ++ back) = finishEntries front ++ finishEntries back := by
  induction front with
  | nil => rfl
  | cons entry front ih => exact congrArg _ ih

theorem finishEntries_settled (fields : List (String × Datum)) :
    finishEntries (settled fields) = fields := by
  induction fields with
  | nil => rfl
  | cons field fields ih => exact congrArg _ ih

theorem finishEntries_sectioned (groups : List (String × List (String × Datum))) :
    finishEntries (sectioned groups) = groups.map fun group => (group.1, .record group.2) := by
  induction groups with
  | nil => rfl
  | cons group groups ih =>
    have first : Datum.record (finishEntries (settled group.2)) = .record group.2 :=
      congrArg Datum.record (finishEntries_settled group.2)
    exact congrArg₂ (fun d fields => (group.1, d) :: fields) first ih

/-- What is written is read, and nothing is left of it. -/
theorem leads_write (written : IsDocument settings groups) :
    ∃ last, Leads ⟨[], []⟩ (write (document settings groups)).toList
      ⟨settled settings ++ sectioned groups, last⟩ := by
  have names : ((settled settings).map Prod.fst ++ groups.map Prod.fst).Nodup :=
    map_fst_settled settings ▸ written.distinct
  obtain ⟨last, leads⟩ := leads_sectionTexts written.sections (settled settings) [] names
  have settle {rest : List Char} {final : Draft} (leads : Leads ⟨settled settings, []⟩ rest final) :
      Leads ⟨[], []⟩ ((settingsText settings).toList ++ rest) final :=
    leads_settingsText takes_settled [] written.each (List.nodup_append.mp written.distinct).1 leads
  refine ⟨last, ?_⟩
  unfold write
  rw [settingsText_document, sections_document written.each]
  dsimp only
  by_cases empty : settingsText settings = ""
  · -- the first section has no empty line before it
    rw [if_pos empty]
    simp only [empty, String.toList_empty, List.nil_append] at settle
    cases groups with
    | nil => exact settle leads
    | cons group groups =>
      rw [List.map_cons, toList_intercalate_cons, List.flatMap_map]
      exact settle (leads_empty.mp leads)
  · rw [if_neg empty, toList_intercalate_cons, List.flatMap_map]
    exact settle leads

/-- **A document that is written is read as what it was written for, also below lines that say
nothing.** -/
theorem read_write (written : IsDocument settings groups) {lines : List String}
    (idle : ∀ line ∈ lines, IsIdle line) :
    read (ended lines ++ write (document settings groups)) =
      .ok (.record (document settings groups)) := by
  obtain ⟨last, leads⟩ := leads_write written
  have below := leads.below idle
  rw [← String.toList_append] at below
  rw [read_of_leads below, finishEntries_append, finishEntries_settled, finishEntries_sectioned]
  rfl

end Document

/-- **The library for TOML that the program runs with is lawful.** -/
theorem lawful : Library.Lawful where
  writes _ := ⟨_, rfl⟩
  reads {settings groups} written {text} wrote {lines} idle {β decode x} decoded := by
    cases wrote
    show (readAs decode (ended lines ++ write (document settings groups))).mapError _ = _
    unfold readAs
    rw [read_write written idle]
    dsimp only
    rw [decoded]
    rfl

end Toml

end Toolpath
