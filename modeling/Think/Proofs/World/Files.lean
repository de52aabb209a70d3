import Mathlib.Data.List.Basic
import Think.World

/-! # Files

Files change only by additions to the end of one. An addition makes no directory, so the path that a
text names stays the same, and each file holds what it held at first and then everything that was
added to it, in turn.
-/

namespace Think

namespace Entry

/-- What there is at a path, with a text added at the end. A missing file is made. -/
def extended : Option Entry → String → Option Entry
  | some .directory, _ => some .directory
  | some (.file text), added => some (.file (text ++ added))
  | none, added => some (.file added)

def content : Option Entry → String
  | some (.file text) => text
  | _ => ""

variable {e? : Option Entry}

theorem extended_of_file (h : e? ≠ some .directory) (added : String) :
    extended e? added = some (.file (content e? ++ added)) := by
  rcases e? with _ | _ | text
  · exact congrArg (fun s => some (file s)) (String.empty_append).symm
  · exact absurd rfl h
  · rfl

theorem extended_eq_directory {added : String} :
    extended e? added = some .directory ↔ e? = some .directory := by
  rcases e? with _ | _ | text <;> simp [extended]

theorem foldl_extended_eq_directory {texts : List String} :
    texts.foldl extended e? = some .directory ↔ e? = some .directory := by
  induction texts generalizing e? with
  | nil => exact .rfl
  | cons text texts ih => exact ih.trans extended_eq_directory

/-- A file that is there at first or by the first of the texts holds the texts in turn. -/
theorem foldl_extended {texts : List String} (h : e? ≠ some .directory)
    (hthere : e? ≠ none ∨ texts ≠ []) :
    texts.foldl extended e? = some (.file (texts.foldl (· ++ ·) (content e?))) := by
  induction texts generalizing e? with
  | nil =>
    rcases e? with _ | _ | text
    · simp at hthere
    · exact absurd rfl h
    · rfl
  | cons text texts ih =>
    rw [List.foldl_cons, List.foldl_cons, extended_of_file h]
    exact ih (by simp) (.inl (by simp))

end Entry

namespace FileTree

variable {t t' : FileTree} {cwd p : Path} {written : String}

theorem lookup_setIn (p q : Path) (e : Entry) (entries : List (Path × Entry)) :
    (setIn p e entries).lookup q = if q = p then some e else entries.lookup q := by
  induction entries with
  | nil =>
    by_cases hq : q = p
    · simp [setIn, hq]
    · simp [setIn, List.lookup_cons, beq_false_of_ne hq, hq]
  | cons entry rest ih =>
    obtain ⟨q', e'⟩ := entry
    rw [setIn]
    split
    · next hp =>
      subst hp
      by_cases hq : q = q'
      · simp [hq]
      · simp [List.lookup_cons, beq_false_of_ne hq, hq]
    · next hp =>
      by_cases hq : q = q'
      · subst hq
        simp [hp]
      · simp only [List.lookup_cons, beq_false_of_ne hq, ih]

theorem found_set (h : t.entry? p ≠ some .directory) (e : Entry) (q : Path) :
    FileTree.entry? (t.set p e) q = if q = p then some e else t.entry? q := by
  have hhome : (t.set p e).homePath = t.homePath := rfl
  rw [FileTree.entry?, hhome, FileTree.entry?]
  by_cases hq : q.isPrefixOf t.homePath
  · have hne : q ≠ p := by
      rintro rfl
      exact h (if_pos hq)
    rw [if_pos hq, if_neg hne, if_pos hq]
  · rw [if_neg hq, if_neg hq]
    exact lookup_setIn p q e t.entries

structure SameDirectories (t t' : FileTree) : Prop where
  home : t'.home = t.home
  directory : ∀ p, t'.entry? p = some .directory ↔ t.entry? p = some .directory

theorem walk_ne_ok {here : Path} (h : t.entry? here ≠ some .directory) (name : String)
    (names : List String) : t.walk here (name :: names) ≠ .ok p := by
  rw [walk]
  rcases hentry : t.entry? here with _ | _ | _
  · simp
  · exact absurd hentry h
  · simp

namespace SameDirectories

theorem walk (h : t.SameDirectories t') (here : Path) (names : List String) :
    t'.walk here names = .ok p ↔ t.walk here names = .ok p := by
  induction names generalizing here with
  | nil => exact .rfl
  | cons name names ih =>
    by_cases hd : t.entry? here = some .directory
    · rw [FileTree.walk, FileTree.walk, hd, (h.directory here).mpr hd]
      dsimp only
      split
      · exact ih _
      · split <;> exact ih _
    · exact iff_of_false (walk_ne_ok (mt (h.directory here).mp hd) _ _) (walk_ne_ok hd _ _)

theorem locate (h : t.SameDirectories t') :
    t'.locate cwd written = .ok p ↔ t.locate cwd written = .ok p := by
  have hroot : t'.isAbsolute written = t.isAbsolute written := by
    rw [isAbsolute, isAbsolute, h.home]
  rw [FileTree.locate, FileTree.locate, hroot]
  split
  · exact .rfl
  · split
    · exact .rfl
    · split <;> exact h.walk _ _

end SameDirectories

/-- A text can be added at any path that is named and is no directory. -/
theorem append_eq_ok (h : t.locate cwd written = .ok p) (hp : t.entry? p ≠ some .directory)
    (added : String) :
    t.append cwd written added = .ok (t.set p (.file (Entry.content (t.entry? p) ++ added))) := by
  rw [append, h]
  dsimp only
  rcases hentry : t.entry? p with _ | _ | text
  · exact congrArg (fun s => Except.ok (t.set p (.file s))) (String.empty_append).symm
  · exact absurd hentry hp
  · rfl

theorem append_eq_error (h : ∀ p, t.locate cwd written = .ok p → t.entry? p = some .directory)
    (added : String) : ∃ e, t.append cwd written added = .error e := by
  rw [append]
  cases hp : t.locate cwd written with
  | error e => exact ⟨_, rfl⟩
  | ok p =>
    dsimp only
    rw [h p hp]
    exact ⟨_, rfl⟩

end FileTree

/-- The files, and the directory that texts name them from. -/
structure Disk where
  files : FileTree
  cwd : Path

def World.disk (w : World) : Disk := ⟨w.files, w.cwd⟩

/-- A text to be added to the file that another text names. -/
structure Addition where
  path : String
  text : String

namespace Disk

def locate (d : Disk) (written : String) : Except PathError Path := d.files.locate d.cwd written

def found (d : Disk) (p : Path) : Option Entry := d.files.entry? p

/-- The disk with a text added to a file, if this is possible. -/
def add (d : Disk) (a : Addition) : Disk :=
  match d.files.append d.cwd a.path a.text with
  | .ok files => { d with files }
  | .error _ => d

def textsFor (d : Disk) (p : Path) (additions : List Addition) : List String :=
  additions.filterMap fun a => if d.locate a.path = .ok p then some a.text else none

variable {d : Disk} {p : Path} {a : Addition}

theorem textsFor_cons (additions : List Addition) : d.textsFor p (a :: additions) =
    (if d.locate a.path = .ok p then [a.text] else []) ++ d.textsFor p additions := by
  rw [textsFor, List.filterMap_cons]
  split <;> simp_all [textsFor]

theorem add_eq (h : d.locate a.path = .ok p) (hp : d.found p ≠ some .directory) :
    d.add a = ⟨d.files.set p (.file (Entry.content (d.found p) ++ a.text)), d.cwd⟩ := by
  rw [add, FileTree.append_eq_ok h hp]
  rfl

theorem add_eq_self (h : ∀ p, d.locate a.path = .ok p → d.found p = some .directory) :
    d.add a = d := by
  obtain ⟨e, he⟩ := FileTree.append_eq_error h a.text
  rw [add, he]

/-- An addition is made at the path that it names, if this is no directory, or not at all. -/
theorem add_cases (d : Disk) (a : Addition) :
    (∃ p, d.locate a.path = .ok p ∧ d.found p ≠ some .directory) ∨
      ∀ p, d.locate a.path = .ok p → d.found p = some .directory := by
  by_cases h : ∃ p, d.locate a.path = .ok p ∧ d.found p ≠ some .directory
  · exact .inl h
  · exact .inr fun p hp => by_contra fun hd => h ⟨p, hp, hd⟩

theorem found_add (d : Disk) (a : Addition) (p : Path) :
    (d.add a).found p =
      if d.locate a.path = .ok p then Entry.extended (d.found p) a.text else d.found p := by
  rcases d.add_cases a with ⟨q, hq, hfile⟩ | hnone
  · rw [add_eq hq hfile, found, FileTree.found_set hfile, hq]
    by_cases hp : p = q
    · subst hp
      rw [if_pos rfl, if_pos rfl]
      exact (Entry.extended_of_file hfile a.text).symm
    · rw [if_neg hp, if_neg (by simpa using Ne.symm hp)]
      rfl
  · rw [add_eq_self hnone]
    split
    · next hp => rw [hnone p hp, Entry.extended]
    · rfl

theorem cwd_add (d : Disk) (a : Addition) : (d.add a).cwd = d.cwd := by
  rw [add]
  split <;> rfl

theorem sameDirectories_add (d : Disk) (a : Addition) :
    d.files.SameDirectories (d.add a).files where
  home := by
    rcases d.add_cases a with ⟨q, hq, hfile⟩ | hnone
    · rw [add_eq hq hfile]
      rfl
    · rw [add_eq_self hnone]
  directory p := by
    change (d.add a).found p = _ ↔ d.found p = _
    rw [found_add]
    split
    · exact Entry.extended_eq_directory
    · exact .rfl

theorem locate_add (d : Disk) (a : Addition) (written : String) (p : Path) :
    (d.add a).locate written = .ok p ↔ d.locate written = .ok p := by
  rw [locate, cwd_add]
  exact (d.sameDirectories_add a).locate

theorem textsFor_add (d : Disk) (a : Addition) (p : Path) (additions : List Addition) :
    (d.add a).textsFor p additions = d.textsFor p additions := by
  simp only [textsFor, locate_add]

def addAll (d : Disk) (additions : List Addition) : Disk := additions.foldl add d

theorem addAll_cons (additions : List Addition) :
    d.addAll (a :: additions) = (d.add a).addAll additions := rfl

theorem locate_addAll (d : Disk) (additions : List Addition) (written : String) (p : Path) :
    (d.addAll additions).locate written = .ok p ↔ d.locate written = .ok p := by
  induction additions generalizing d with
  | nil => exact .rfl
  | cons a additions ih => rw [addAll_cons, ih, locate_add]

/-- What is found at a path is what was there at first and what additions bring there. -/
theorem found_addAll (d : Disk) (additions : List Addition) (p : Path) :
    (d.addAll additions).found p =
      (d.textsFor p additions).foldl Entry.extended (d.found p) := by
  induction additions generalizing d with
  | nil => rfl
  | cons a additions ih =>
    rw [addAll_cons, ih, textsFor_add, textsFor_cons, List.foldl_append, found_add]
    split <;> rfl

end Disk

/-- The text of a file is what is found at the path that its text names. -/
theorem World.readText_eq {w : World} {written : String} {p : Path}
    (h : w.disk.locate written = .ok p) :
    w.readText written = match w.disk.found p with
      | some (.file text) => .ok (Text.unified text)
      | some .directory => .error .isDirectory
      | none => .error .missing := by
  have hfind : w.files.find w.cwd written =
      (w.disk.found p).elim (.error .missing) fun e => .ok (p, e) := by
    rw [FileTree.find, show w.files.locate w.cwd written = .ok p from h]
    dsimp only [Bind.bind, Except.bind]
    change _ = (w.files.entry? p).elim _ _
    cases w.files.entry? p <;> rfl
  rw [World.readText, FileTree.read, hfind]
  rcases w.disk.found p with _ | _ | text <;> rfl

end Think
