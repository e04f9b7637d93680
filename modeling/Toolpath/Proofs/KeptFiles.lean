import Toolpath.Console.MemoryDisk

/-!
# Files that are kept

A disk keeps a file if the text that was written at a path is what is read there. That is all that a
program may expect of the disk below it, and the disk in memory meets it (`MemoryDisk.keeps`),
whatever files and folders it holds.
-/

namespace Toolpath.Console

/-- A text that has been written at a path is what is read there. -/
def Disk.Keeps (σ : Type) [Disk (StateM σ)] : Prop :=
  ∀ (path text : String) (before after : σ),
    (Disk.write path text : StateM σ _).run before = (.ok (), after) →
      ((Disk.read path : StateM σ _).run after).1 = .ok text

namespace MemoryDisk

variable {disk : MemoryDisk} {place : Place} {text : String}

/-! ## A text that is set -/

theorem root_setText (disk : MemoryDisk) (place : Place) (text : String) :
    (disk.setText place text).root = disk.root := by
  unfold setText
  split
  · rfl
  · rfl

theorem folders_setText (disk : MemoryDisk) (place : Place) (text : String) :
    (disk.setText place text).folders = disk.folders := by
  unfold setText
  split
  · rfl
  · rfl

/-- The places of the files stay, and at most the place of the text is new. -/
theorem places_setText (disk : MemoryDisk) (place : Place) (text : String) :
    (disk.setText place text).files.map Prod.fst =
      disk.files.map Prod.fst ++ if (disk.text? place).isSome then [] else [place] := by
  unfold setText
  by_cases present : (disk.text? place).isSome = true
  · rw [if_pos present, if_pos present, List.append_nil, List.map_map]
    refine List.map_congr_left fun file _ => ?_
    by_cases same : file.1 = place
    · simp [same]
    · simp [same]
  · rw [if_neg present, if_neg present, List.map_append]
    rfl

/-- The text is at its place. -/
theorem text?_setText (disk : MemoryDisk) (place : Place) (text : String) :
    (disk.setText place text).text? place = some text := by
  unfold setText
  by_cases present : (disk.text? place).isSome = true
  · rw [if_pos present]
    unfold text? at present ⊢
    dsimp only
    generalize disk.files = files at present
    induction files with
    | nil => cases present
    | cons file files ih =>
      obtain ⟨there, old⟩ := file
      by_cases same : there = place
      · simp [same]
      · have other : (place == there) = false := beq_eq_false_iff_ne.mpr (Ne.symm same)
        rw [List.lookup_cons, other] at present
        simp [same, List.lookup_cons, other, ih present]
  · have absent : List.lookup place disk.files = none := by
      unfold text? at present
      rwa [Option.not_isSome_iff_eq_none] at present
    rw [if_neg present]
    unfold text?
    rw [List.lookup_append, absent, Option.none_or]
    exact List.lookup_cons_self

/-- The folders stay, and the folders that the text is in are added to them. -/
theorem isFolder_setText (disk : MemoryDisk) (place : Place) (text : String) (other : Place) :
    (disk.setText place text).isFolder other = (disk.isFolder other ||
      (!(disk.text? place).isSome && (other.length < place.length && other.isPrefixOf place))) := by
  have anyPlace (files : List (Place × String)) :
      (files.any fun file => other.length < file.1.length && other.isPrefixOf file.1) =
        (files.map Prod.fst).any fun p => other.length < p.length && other.isPrefixOf p := by
    rw [List.any_map]
    rfl
  unfold isFolder
  rw [anyPlace, anyPlace, places_setText, folders_setText, List.any_append]
  cases (disk.text? place).isSome with
  | true => simp
  | false => simp [Bool.or_assoc]

/-! ## Paths -/

/-- A way that can be walked can be walked where there are more folders. -/
theorem walk_of_isFolder {other : MemoryDisk}
    (more : ∀ place, disk.isFolder place = true → other.isFolder place = true) {target : Place}
    {names : List String} (walked : disk.walk place names = .ok target) :
    other.walk place names = .ok target := by
  induction names generalizing place with
  | nil => exact walked
  | cons name names ih =>
    unfold walk requireFolder at walked ⊢
    by_cases folder : disk.isFolder place = true
    · rw [if_pos folder] at walked
      rw [if_pos (more place folder)]
      exact ih walked
    · rw [if_neg folder] at walked
      split at walked
      · cases walked
      · rename_i entered
        split at entered
        · cases entered
        · cases entered

theorem start_setText (disk : MemoryDisk) (place : Place) (text path : String) :
    (disk.setText place text).start path = disk.start path := by
  unfold start
  rw [root_setText]

/-- No text is written at the empty path. -/
theorem write_empty (disk : MemoryDisk) (text : String) :
    disk.write "" text = .error .isFolder := by
  have names : pathNames "" = [""] := by decide
  unfold write start
  rw [names]
  cases pathNames disk.root with
  | nil => simp [walk]
  | cons name rest =>
    by_cases whole : (name :: rest).isPrefixOf [""] = true
    · simp [whole, walk, isFolder, isAround]
    · simp [whole, walk, isFolder]

/-- **A text that is written is read.** -/
theorem read_write {path : String} {after : MemoryDisk}
    (written : disk.write path text = .ok after) : after.read path = .ok text := by
  have named : path ≠ "" := by
    rintro rfl
    rw [write_empty] at written
    cases written
  unfold write at written
  generalize begun : disk.start path = way at written
  obtain ⟨first, names⟩ := way
  dsimp only at written
  split at written
  · cases written
  · rename_i place walked
    split at written
    · cases written
    · rename_i free
      rw [Bool.or_eq_true, not_or, decide_eq_true_eq] at free
      obtain ⟨noFolder, noSlash⟩ := free
      injection written with written
      subst written
      rw [if_neg noSlash] at walked
      -- the same way leads to the text, and no folder has come to be where it is
      have sameWay : (disk.setText place text).walk first names = .ok place := by
        refine walk_of_isFolder (fun other folder => ?_) walked
        rw [isFolder_setText, folder]
        rfl
      have stillFree : ¬ (disk.setText place text).isFolder place = true := by
        rw [isFolder_setText]
        simp [noFolder]
      unfold read locate
      rw [start_setText, begun]
      dsimp only
      rw [if_neg named, sameWay]
      dsimp only
      rw [if_neg stillFree, text?_setText]

/-- A change is made where its step succeeds. -/
theorem change_eq_ok {step : MemoryDisk → Except DiskError MemoryDisk} {after : MemoryDisk} :
    (change step).run disk = (.ok (), after) ↔ step disk = .ok after := by
  show change step disk = _ ↔ _
  unfold change
  cases step disk with
  | error error => exact iff_of_false nofun nofun
  | ok next =>
    constructor
    · intro same
      injection same with _ same
      exact congrArg _ same
    · intro same
      injection same with same
      exact congrArg _ same

/-- **The disk in memory keeps files.** -/
theorem keeps : Disk.Keeps MemoryDisk := fun _ _ _ _ written =>
  read_write (change_eq_ok.mp written)

end MemoryDisk

end Toolpath.Console
