import MiniPascal.File.Tree

/-!
# Writing files

Whoever writes a file, over another one or anew, leaves every directory in its place, so the path
of the file still leads to it.  A path that leads to a file ends with a name inside a directory,
since all that the dots lead to are directories.
-/

namespace MiniPascal

namespace Node

/-- The node is a directory. -/
def isDirectory : Node → Bool
  | .file _ => false
  | .directory _ => true

theorem at?_cons (n : Node) (name : String) (names : List String) :
    n.at? (name :: names) = (n.entries.lookup name).bind (·.at? names) := by
  rw [at?]
  cases n.entries.lookup name <;> rfl

theorem at?_append (n : Node) (names others : List String) :
    n.at? (names ++ others) = (n.at? names).bind (·.at? others) := by
  induction names generalizing n with
  | nil => rfl
  | cons name names ih =>
      rw [List.cons_append, at?_cons, at?_cons, Option.bind_assoc]
      exact congrArg _ (funext fun inner => ih inner)

theorem isDirectory_of_lookup {n inner : Node} {name : String}
    (h : n.entries.lookup name = some inner) : n.isDirectory = true := by
  cases n with
  | file content => simp [entries] at h
  | directory entries => rfl

/-- What stands in front of a directory is one. -/
theorem isDirectory_of_append {n : Node} {names others : List String}
    (h : (n.at? (names ++ others)).any isDirectory = true) :
    (n.at? names).any isDirectory = true := by
  cases others with
  | nil => rwa [List.append_nil] at h
  | cons name others =>
      obtain ⟨m, hm, -⟩ := (Option.any_eq_true ..).1 h
      rw [at?_append] at hm
      obtain ⟨inner, hinner, hothers⟩ := Option.bind_eq_some_iff.1 hm
      rw [at?_cons] at hothers
      obtain ⟨next, hnext, -⟩ := Option.bind_eq_some_iff.1 hothers
      rw [hinner]
      exact isDirectory_of_lookup hnext

theorem lookup_filter_ne {name other : String} (h : (other == name) = false)
    (entries : List (String × Node)) :
    (entries.filter fun entry => entry.1 != name).lookup other = entries.lookup other := by
  induction entries with
  | nil => rfl
  | cons entry entries ih =>
      obtain ⟨key, node⟩ := entry
      by_cases hkey : key = name
      · simp [List.lookup_cons, hkey, ih, h]
      · simp [List.lookup_cons, hkey, ih]

/-- Directories stay when a file is put where there is none of them. -/
theorem isDirectory_at?_put {n : Node} {names place : List String}
    (h : (n.at? names).any isDirectory = false) (hplace : (n.at? place).any isDirectory = true)
    (new : ByteArray) : ((put (.file new) n names).at? place).any isDirectory = true := by
  induction names generalizing n place with
  | nil =>
      obtain ⟨content, rfl⟩ : ∃ content, n = .file content := by
        cases n with
        | file content => exact ⟨content, rfl⟩
        | directory entries => simp [at?, isDirectory] at h
      cases place <;> simp [at?, isDirectory, entries] at hplace
  | cons name names ih =>
      cases place with
      | nil => rfl
      | cons other place =>
          rw [at?_cons] at h hplace
          rw [put, at?_cons, entries, List.lookup_cons]
          cases hother : other == name with
          | true =>
              obtain rfl : other = name := eq_of_beq hother
              cases hinner : n.entries.lookup other with
              | none => simp [hinner] at hplace
              | some inner =>
                  rw [hinner] at h hplace
                  exact ih h hplace
          | false =>
              simp only [lookup_filter_ne hother]
              exact hplace

end Node

namespace FileTree

/-- There is a directory at the place. -/
def IsDirectoryAt (t : FileTree) (place : List String) : Prop :=
  (t.node? place).any Node.isDirectory = true

/-- The place where relative paths start is a directory. -/
def IsRooted (t : FileTree) : Prop :=
  t.IsDirectoryAt t.workingDirectory

/-- The path leads to a file with just this text. -/
def Holds (t : FileTree) (path text : String) : Prop :=
  t.lookup path = .ok (.file text.toUTF8)

variable {t u : FileTree} {path : String}

/-! ### Directories on the way -/

theorem IsDirectoryAt.of_prefix {place other : List String} (h : t.IsDirectoryAt other)
    (hplace : place <+: other) : t.IsDirectoryAt place := by
  obtain ⟨names, rfl⟩ := hplace
  exact Node.isDirectory_of_append h

/-- Where a part of a path leads there is a directory. -/
theorem IsDirectoryAt.enter {directory place : List String} {part : String}
    (hdirectory : t.IsDirectoryAt directory) (h : t.enter directory part = .ok place) :
    t.IsDirectoryAt place := by
  unfold FileTree.enter at h
  split at h
  · exact Except.ok.inj h ▸ hdirectory
  split at h
  · exact Except.ok.inj h ▸ hdirectory.of_prefix (List.dropLast_prefix directory)
  · cases hplace : placeOf directory part with
    | error e => simp [hplace, bind, Except.bind] at h
    | ok inner =>
        simp only [hplace, bind, Except.bind] at h
        split at h
        · next entries hentries =>
            obtain rfl : inner = place := Except.ok.inj h
            simp [IsDirectoryAt, hentries, Node.isDirectory]
        · simp [throw, throwThe, MonadExceptOf.throw] at h
        · simp [throw, throwThe, MonadExceptOf.throw] at h

/-- Where the parts of a path lead one after the other there is a directory. -/
theorem IsDirectoryAt.foldlM_enter {parts : List String} {directory place : List String}
    (hdirectory : t.IsDirectoryAt directory) (h : parts.foldlM t.enter directory = .ok place) :
    t.IsDirectoryAt place := by
  induction parts generalizing directory with
  | nil => exact Except.ok.inj h ▸ hdirectory
  | cons part parts ih =>
      rw [List.foldlM_cons] at h
      cases hpart : t.enter directory part with
      | error e => simp [hpart, bind, Except.bind] at h
      | ok inner =>
          rw [hpart] at h
          exact ih (hdirectory.enter hpart) h

theorem IsRooted.origin (h : t.IsRooted) (path : String) : t.IsDirectoryAt (t.origin path) := by
  unfold FileTree.origin
  split
  · exact h.of_prefix List.nil_prefix
  · exact h

/-- What is resolved to a directory is one. -/
theorem IsRooted.isDirectoryAt_of_resolve (hroot : t.IsRooted) {place : List String}
    (h : t.resolve path = .ok (.directory place)) : t.IsDirectoryAt place := by
  have horigin := hroot.origin path
  simp only [FileTree.resolve, bind, Except.bind, pure, Except.pure, throw, throwThe,
    MonadExceptOf.throw] at h
  split at h
  · simp at h
  split at h
  · split at h
    · simp at h
    · obtain rfl : t.origin path = place := by simpa using h
      exact horigin
  split at h
  · split at h
    · simp at h
    · next inner hinner =>
        obtain rfl : inner = place := by simpa using h
        exact horigin.foldlM_enter hinner
  · split at h <;> simp at h

/-! ### Directories that stay -/

/-- The other tree has every directory of this one in its place. -/
structure KeepsDirectories (t u : FileTree) : Prop where
  workingDirectory : u.workingDirectory = t.workingDirectory
  directories : ∀ place, t.IsDirectoryAt place → u.IsDirectoryAt place

theorem IsDirectoryAt.exists_entries {place : List String} (h : t.IsDirectoryAt place) :
    ∃ entries, t.node? place = some (.directory entries) := by
  obtain ⟨node, hnode, hdirectory⟩ := (Option.any_eq_true ..).1 h
  cases node with
  | file content => simp [Node.isDirectory] at hdirectory
  | directory entries => exact ⟨entries, hnode⟩

theorem KeepsDirectories.enter (h : t.KeepsDirectories u) {directory place : List String}
    {part : String} (henter : t.enter directory part = .ok place) :
    u.enter directory part = .ok place := by
  unfold FileTree.enter at henter ⊢
  split at henter
  · next hdot => rwa [if_pos hdot]
  next hdot =>
  rw [if_neg hdot]
  split at henter
  · next hdots => rwa [if_pos hdots]
  next hdots =>
  rw [if_neg hdots]
  cases hplace : placeOf directory part with
  | error e => simp [hplace, bind, Except.bind] at henter
  | ok inner =>
      simp only [hplace, bind, Except.bind] at henter ⊢
      split at henter
      · next entries hentries =>
          obtain ⟨others, hothers⟩ :=
            (h.directories inner (by simp [IsDirectoryAt, hentries, Node.isDirectory])).exists_entries
          rw [hothers]
          exact henter
      · simp [throw, throwThe, MonadExceptOf.throw] at henter
      · simp [throw, throwThe, MonadExceptOf.throw] at henter

theorem KeepsDirectories.foldlM_enter (h : t.KeepsDirectories u) {parts directory : List String}
    {place : List String} (hparts : parts.foldlM t.enter directory = .ok place) :
    parts.foldlM u.enter directory = .ok place := by
  induction parts generalizing directory with
  | nil => exact hparts
  | cons part parts ih =>
      rw [List.foldlM_cons] at hparts ⊢
      cases hpart : t.enter directory part with
      | error e => simp [hpart, bind, Except.bind] at hparts
      | ok inner =>
          rw [hpart] at hparts
          rw [h.enter hpart]
          exact ih hparts

/-- Where directories stay, a path leads to the same place as before. -/
theorem KeepsDirectories.resolve (h : t.KeepsDirectories u) {target : Target}
    (hresolve : t.resolve path = .ok target) : u.resolve path = .ok target := by
  have horigin : u.origin path = t.origin path := by simp only [origin, h.workingDirectory]
  simp only [FileTree.resolve, bind, Except.bind, pure, Except.pure, throw, throwThe,
    MonadExceptOf.throw, horigin] at hresolve ⊢
  split at hresolve
  · simp at hresolve
  next hlong =>
  rw [if_neg hlong]
  split at hresolve
  · next hnone => simpa only [hnone] using hresolve
  next last hlast =>
  split at hresolve
  · next hdots =>
      rw [if_pos hdots]
      cases hparts : (Path.parts path).foldlM t.enter (t.origin path) with
      | error e => simp [hparts] at hresolve
      | ok place => simpa only [hparts, h.foldlM_enter hparts] using hresolve
  · next hdots =>
      rw [if_neg hdots]
      cases hparts : (Path.parts path).dropLast.foldlM t.enter (t.origin path) with
      | error e => simp [hparts] at hresolve
      | ok place => simpa only [hparts, h.foldlM_enter hparts] using hresolve

theorem keepsDirectories_put {place : List String}
    (h : (t.node? place).any Node.isDirectory = false) (new : ByteArray) :
    t.KeepsDirectories (t.put place (.file new)) :=
  ⟨rfl, fun _ hother => Node.isDirectory_at?_put h hother new⟩

/-! ### Reading and writing -/

/-- The path ends with the name of a file at the place, which is there or can be put there. -/
structure IsFilePlace (t : FileTree) (path : String) (place : List String) : Prop where
  name : ∃ directory name, t.resolve path = .ok (.name directory name) ∧
    placeOf directory name = .ok place
  notDirectory : (t.node? place).any Node.isDirectory = false
  notSlash : Path.endsInSlash path = false

/-- A path that leads to a file ends with its name. -/
theorem IsRooted.exists_isFilePlace (hroot : t.IsRooted) {content : ByteArray}
    (h : t.lookup path = .ok (.file content)) : ∃ place, t.IsFilePlace path place := by
  simp only [FileTree.lookup, bind, Except.bind, pure, Except.pure, throw, throwThe,
    MonadExceptOf.throw] at h
  cases hresolve : t.resolve path with
  | error e => simp [hresolve] at h
  | ok target =>
      simp only [hresolve] at h
      cases target with
      | directory place =>
          obtain ⟨entries, hentries⟩ := (hroot.isDirectoryAt_of_resolve hresolve).exists_entries
          simp [hentries] at h
      | name directory name =>
          cases hplace : placeOf directory name with
          | error e => simp [hplace] at h
          | ok place =>
              simp only [hplace] at h
              split at h
              · simp at h
              · simp at h
              · next stored hfile =>
                  split at h
                  · simp at h
                  · next hslash =>
                      exact ⟨place, ⟨directory, name, hresolve, hplace⟩,
                        by simp [hfile, Node.isDirectory], by simpa using hslash⟩

/-- What can be written over or written anew has a place for a file. -/
theorem exists_isFilePlace_of_write {text : String} (h : t.write path text = .ok u) :
    ∃ place, t.IsFilePlace path place := by
  simp only [FileTree.write, writeBytes, bind, Except.bind, pure, Except.pure, throw, throwThe,
    MonadExceptOf.throw] at h
  cases hresolve : t.resolve path with
  | error e => simp [hresolve] at h
  | ok target =>
      simp only [hresolve] at h
      cases target with
      | directory place => simp at h
      | name directory name =>
          simp only at h
          split at h
          · simp at h
          next hslash =>
          cases hplace : placeOf directory name with
          | error e => simp [hplace] at h
          | ok place =>
              simp only [hplace] at h
              rcases hnode : t.node? place with _ | _ | _
              all_goals simp only [hnode] at h
              · exact ⟨place, ⟨directory, name, hresolve, hplace⟩, by simp [hnode],
                  by simpa using hslash⟩
              · exact ⟨place, ⟨directory, name, hresolve, hplace⟩,
                  by simp [hnode, Node.isDirectory], by simpa using hslash⟩
              · simp at h

theorem IsFilePlace.lookup {place : List String} {content : ByteArray}
    (h : t.IsFilePlace path place) (hfile : t.node? place = some (.file content)) :
    t.lookup path = .ok (.file content) := by
  obtain ⟨directory, name, hresolve, hplace⟩ := h.name
  simp [FileTree.lookup, hresolve, hplace, hfile, h.notSlash, bind, Except.bind, pure, Except.pure]

theorem IsFilePlace.write {place : List String} (h : t.IsFilePlace path place) (text : String) :
    t.write path text = .ok (t.put place (.file text.toUTF8)) := by
  obtain ⟨directory, name, hresolve, hplace⟩ := h.name
  have hnode := h.notDirectory
  rcases hfile : t.node? place with _ | _ | _ <;>
    simp_all [FileTree.write, writeBytes, h.notSlash, bind, Except.bind, pure, Except.pure,
      Node.isDirectory]

/-- Where there is a place for a file, a file is written, and then it holds what was written. -/
theorem IsFilePlace.exists_write {place : List String} (h : t.IsFilePlace path place)
    (new : String) : ∃ u, t.write path new = .ok u ∧ u.Holds path new := by
  obtain ⟨directory, name, hresolve, hplace⟩ := h.name
  have hkeeps := keepsDirectories_put h.notDirectory new.toUTF8
  have hafter : (t.put place (.file new.toUTF8)).IsFilePlace path place :=
    ⟨⟨directory, name, hkeeps.resolve hresolve, hplace⟩, by simp [Node.isDirectory], h.notSlash⟩
  exact ⟨_, h.write new, hafter.lookup (node?_put ..)⟩

/-- Some text can be written to the path once the directories that lead to it are made. -/
def IsWritable (t : FileTree) (path : String) : Prop :=
  (t.makeParent path).1 = .ok () ∧ ∃ text u, (t.makeParent path).2.write path text = .ok u

/-- If some text can be written, any text can. -/
theorem IsWritable.exists_write (h : t.IsWritable path) (new : String) :
    ∃ u, (t.makeParent path).2.write path new = .ok u ∧ u.Holds path new := by
  obtain ⟨-, text, u, hwrite⟩ := h
  obtain ⟨place, hplace⟩ := exists_isFilePlace_of_write hwrite
  exact hplace.exists_write new

theorem Holds.read {text : String} (h : t.Holds path text) : t.read path = .ok text := by
  have htext : String.fromUTF8? text.toByteArray = some text := dif_pos text.isValidUTF8
  have hfile : t.lookup path = .ok (.file text.toUTF8) := h
  simp [FileTree.read, hfile, htext, bind, Except.bind, pure, Except.pure]

/-- A file can be written over, and then it holds what was written. -/
theorem Holds.exists_write {text : String} (hroot : t.IsRooted) (h : t.Holds path text)
    (new : String) : ∃ u, t.write path new = .ok u ∧ u.Holds path new := by
  obtain ⟨place, hplace⟩ := hroot.exists_isFilePlace h
  exact hplace.exists_write new

end FileTree

end MiniPascal
