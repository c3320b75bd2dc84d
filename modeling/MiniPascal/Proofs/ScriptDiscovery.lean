import Mathlib.Data.List.Sort
import Mathlib.Data.String.Basic
import MiniPascal.Benchmark.Script
import MiniPascal.Proofs.SessionRuns

/-!
# Discovering scripts

The scripts of a workspace are found in whatever order their directories are listed.  Sorting them
by name is stable, and two entries of one directory never have one name, so scripts of one name are
one entry from each directory.  Hence the scripts stand in a strict order, which together with the
entries leaves no choice of the list.
-/

namespace MiniPascal

/-! ### Names that end in `.pas` -/

namespace Path

theorem splitLastDot_eq_none {cs : List Char} (h : '.' ∉ cs) : splitLastDot cs = none := by
  induction cs with
  | nil => rfl
  | cons c cs ih =>
      obtain ⟨hc, hcs⟩ : '.' ≠ c ∧ '.' ∉ cs := by simpa using h
      simp [splitLastDot, ih hcs, Ne.symm hc]

theorem splitLastDot_append {stem extension : List Char} (h : '.' ∉ extension) :
    splitLastDot (stem ++ '.' :: extension) = some (stem, extension) := by
  induction stem with
  | nil => simp [splitLastDot, splitLastDot_eq_none h]
  | cons c stem ih => simp [splitLastDot, ih]

theorem eq_of_splitLastDot {cs stem extension : List Char}
    (h : splitLastDot cs = some (stem, extension)) : cs = stem ++ '.' :: extension := by
  induction cs generalizing stem with
  | nil => simp [splitLastDot] at h
  | cons c cs ih =>
      rw [splitLastDot] at h
      split at h
      · next inner rest hrest =>
          obtain ⟨rfl, rfl⟩ : c :: inner = stem ∧ rest = extension := by simpa using h
          rw [ih hrest, List.cons_append]
      · split at h
        · next hdot =>
            obtain ⟨rfl, rfl⟩ : [] = stem ∧ cs = extension := by simpa using h
            rw [hdot, List.nil_append]
        · simp at h

/-- A name has the extension `pas` just if `.pas` stands at its end, behind a stem. -/
theorem stemAndExtension_eq_pas_iff {name stem : String} :
    stemAndExtension name = (stem, some "pas") ↔ stem ≠ "" ∧ name = stem ++ ".pas" := by
  constructor
  · intro h
    unfold stemAndExtension at h
    split at h
    · next c cs extension hsplit =>
        obtain ⟨rfl, hextension⟩ :
            String.ofList (c :: cs) = stem ∧ String.ofList extension = "pas" := by simpa using h
        have hpas : extension = ['p', 'a', 's'] := by
          simpa using congrArg String.toList hextension
        refine ⟨by simp [← String.toList_inj], ?_⟩
        rw [← String.toList_inj, eq_of_splitLastDot hsplit, hpas]
        simp
    · simp at h
  · rintro ⟨hstem, rfl⟩
    have hsplit : splitLastDot (stem ++ ".pas").toList = some (stem.toList, ['p', 'a', 's']) := by
      have happend : splitLastDot (stem.toList ++ '.' :: ['p', 'a', 's']) =
          some (stem.toList, ['p', 'a', 's']) := splitLastDot_append (by decide)
      simpa using happend
    obtain ⟨c, cs, hcs⟩ : ∃ c cs, stem.toList = c :: cs :=
      List.exists_cons_of_ne_nil fun hnil => hstem (String.toList_eq_nil_iff.1 hnil)
    simp only [stemAndExtension, hsplit, hcs]
    rw [← hcs, String.ofList_toList]

end Path

/-- The names in a directory, none if it cannot be listed. -/
def FileTree.namesIn (t : FileTree) (directory : String) : List String :=
  match t.entryNames directory with
  | .ok names => names
  | .error _ => []

namespace Script

/-! ### Entries -/

/-- The script is in a directory, as the file of its name. -/
def IsIn (s : Script) (directory : String) : Prop :=
  s.path = Path.join directory (s.name ++ ".pas")

/-- An entry is a script just if it is the file of a name that is not empty. -/
theorem ofEntry_eq_some_iff {s : Script} {directory entry : String} :
    (match Path.stemAndExtension entry with
      | (stem, some "pas") => some (Script.mk stem (Path.join directory entry))
      | _ => none) = some s ↔
      s.name ≠ "" ∧ entry = s.name ++ ".pas" ∧ s.IsIn directory := by
  constructor
  · intro h
    split at h
    · next stem hstem =>
        obtain rfl := Option.some.inj h
        obtain ⟨hne, rfl⟩ := Path.stemAndExtension_eq_pas_iff.1 hstem
        exact ⟨hne, rfl, rfl⟩
    · simp at h
  · rintro ⟨hne, rfl, hpath⟩
    rw [Path.stemAndExtension_eq_pas_iff.2 ⟨hne, rfl⟩]
    exact congrArg some (congrArg (Script.mk s.name) hpath.symm)

theorem mem_ofEntries {s : Script} {directory : String} {names : List String} :
    s ∈ ofEntries directory names ↔ s.name ≠ "" ∧ s.name ++ ".pas" ∈ names ∧ s.IsIn directory := by
  rw [ofEntries, List.mem_filterMap]
  constructor
  · rintro ⟨entry, hentry, h⟩
    obtain ⟨hne, rfl, hpath⟩ := ofEntry_eq_some_iff.1 h
    exact ⟨hne, hentry, hpath⟩
  · rintro ⟨hne, hentry, hpath⟩
    exact ⟨_, hentry, ofEntry_eq_some_iff.2 ⟨hne, rfl, hpath⟩⟩

/-- The entries of one directory all have names of their own. -/
theorem pairwise_ofEntries {names : List String} (hnames : names.Nodup) (directory : String) :
    (ofEntries directory names).Pairwise fun a b => a.name ≠ b.name := by
  refine List.pairwise_filterMap.2 (hnames.imp ?_)
  intro entry other hne a ha b hb hname
  obtain ⟨-, rfl, -⟩ := ofEntry_eq_some_iff.1 ha
  obtain ⟨-, rfl, -⟩ := ofEntry_eq_some_iff.1 hb
  exact hne (congrArg (· ++ ".pas") hname)

/-! ### Stable sorting -/

theorem decide_le_trans (a b c : Script) (hab : decide (a.name ≤ b.name) = true)
    (hbc : decide (b.name ≤ c.name) = true) : decide (a.name ≤ c.name) = true :=
  decide_eq_true (le_trans (of_decide_eq_true hab) (of_decide_eq_true hbc))

theorem decide_le_total (a b : Script) :
    (decide (a.name ≤ b.name) || decide (b.name ≤ a.name)) = true := by
  simpa using le_total a.name b.name

theorem sort_perm (scripts : List Script) : (sort scripts).Perm scripts :=
  List.mergeSort_perm ..

theorem pairwise_sort (scripts : List Script) :
    (sort scripts).Pairwise fun a b => a.name ≤ b.name :=
  (List.pairwise_mergeSort decide_le_trans decide_le_total scripts).imp of_decide_eq_true

/-- Scripts of one name keep their order. -/
theorem filter_sort (scripts : List Script) (name : String) :
    (sort scripts).filter (·.name = name) = scripts.filter (·.name = name) := by
  have hsame : (scripts.filter (·.name = name)).Pairwise fun a b =>
      decide (a.name ≤ b.name) = true := by
    refine List.pairwise_of_forall_mem_list fun a ha b hb => ?_
    simp only [List.mem_filter, decide_eq_true_eq] at ha hb
    simp [ha.2, hb.2]
  have hsub : (scripts.filter (·.name = name)).Sublist (sort scripts) :=
    List.sublist_mergeSort decide_le_trans decide_le_total hsame List.filter_sublist
  have hfilter := hsub.filter (·.name = name)
  rw [List.filter_filter] at hfilter
  simp only [Bool.and_self] at hfilter
  -- both lists have as many scripts of the name, so the sublist is the whole list
  exact (hfilter.eq_of_length ((sort_perm scripts).filter _).length_eq.symm).symm

/-- What holds between any two scripts of one name, the earlier one first, still does so when the
scripts are sorted. -/
theorem pairwise_sort_of_pairwise {R : Script → Script → Prop} {scripts : List Script}
    (h : scripts.Pairwise fun a b => a.name = b.name → R a b) :
    (sort scripts).Pairwise fun a b => a.name < b.name ∨ a.name = b.name ∧ R a b := by
  refine List.pairwise_iff_forall_sublist.2 fun {a b} hsub => ?_
  have hle : a.name ≤ b.name := List.pairwise_iff_forall_sublist.1 (pairwise_sort scripts) hsub
  rcases hle.lt_or_eq with hlt | hname
  · exact .inl hlt
  · have hpair := hsub.filter (·.name = a.name)
    have hboth : [a, b].filter (·.name = a.name) = [a, b] := by simp [hname]
    rw [filter_sort, hboth] at hpair
    exact .inr ⟨hname, List.pairwise_iff_forall_sublist.1 h (hpair.trans List.filter_sublist) hname⟩

/-! ### The order of discovery -/

/-- The first script is found before the second one: its name is less, or they have one name and
the first is in `benchmark/scripts`, the second in `demos`. -/
def Precedes (root : String) (a b : Script) : Prop :=
  a.name < b.name ∨
    a.name = b.name ∧ a.IsIn (Path.join root "benchmark/scripts") ∧ b.IsIn (Path.join root "demos")

instance (s : Script) (directory : String) : Decidable (s.IsIn directory) :=
  inferInstanceAs (Decidable (s.path = _))

instance (root : String) (a b : Script) : Decidable (Precedes root a b) :=
  inferInstanceAs (Decidable (a.name < b.name ∨ a.name = b.name ∧ a.IsIn _ ∧ b.IsIn _))

/-- No path leads into both directories. -/
theorem join_directories_ne (root name other : String) :
    Path.join (Path.join root "benchmark/scripts") name ≠
      Path.join (Path.join root "demos") other := by
  intro h
  have hrest : "/benchmark/scripts/" ++ name = "/demos/" ++ other := by
    simpa [Path.join, String.append_assoc] using h
  have hsecond := congrArg (fun text => text.toList[1]?) hrest
  simp at hsecond

instance (root : String) : Std.Asymm (Precedes root) where
  asymm a b := by
    rintro (hab | ⟨hab, ha, hb⟩) (hba | ⟨hba, hb', ha'⟩)
    · exact lt_asymm hab hba
    · exact hab.ne' hba
    · exact hba.ne' hab
    · exact join_directories_ne root _ _ (ha.symm.trans ha')

variable {root : String} {includeDemos : Bool}

/-- The path of an entry says which entry of which directory it is. -/
theorem join_directories_inj {d e : String} (hd : d ∈ directories root includeDemos)
    (he : e ∈ directories root includeDemos) {name other : String}
    (h : Path.join d name = Path.join e other) : d = e ∧ name = other := by
  have hmem {d : String} (hd : d ∈ directories root includeDemos) :
      d = Path.join root "benchmark/scripts" ∨ d = Path.join root "demos" := by
    cases includeDemos <;> simp_all [directories]
  rcases hmem hd with rfl | rfl <;> rcases hmem he with rfl | rfl
  · exact ⟨rfl, by simpa [Path.join] using h⟩
  · exact absurd h (join_directories_ne root _ _)
  · exact absurd h.symm (join_directories_ne root _ _)
  · exact ⟨rfl, by simpa [Path.join] using h⟩

/-- Scripts of which one precedes the other are different files. -/
theorem Precedes.path_ne {a b : Script} (h : Precedes root a b) {d e : String}
    (hd : d ∈ directories root includeDemos) (ha : a.IsIn d)
    (he : e ∈ directories root includeDemos) (hb : b.IsIn e) : a.path ≠ b.path := by
  intro hpath
  obtain ⟨-, hfile⟩ := join_directories_inj hd he (ha.symm.trans (hpath.trans hb))
  have hname : a.name = b.name := by simpa using hfile
  rcases h with hlt | ⟨-, ha, hb⟩
  · exact hlt.ne hname
  · exact join_directories_ne root _ _ (ha.symm.trans (hpath.trans hb))

/-- The scripts that are found in a file tree. -/
def foundIn (t : FileTree) (root : String) (includeDemos : Bool) : List Script :=
  discover ((directories root includeDemos).map fun d => (d, t.namesIn d))

variable {t : FileTree}

theorem mem_foundIn {s : Script} :
    s ∈ foundIn t root includeDemos ↔ ∃ d ∈ directories root includeDemos,
      s.name ≠ "" ∧ s.name ++ ".pas" ∈ t.namesIn d ∧ s.IsIn d := by
  rw [foundIn, discover, (sort_perm _).mem_iff, List.flatMap_map, List.mem_flatMap]
  simp only [mem_ofEntries]

theorem pairwise_foundIn
    (hdistinct : ∀ d ∈ directories root includeDemos, (t.namesIn d).Nodup) :
    (foundIn t root includeDemos).Pairwise (Precedes root) := by
  refine pairwise_sort_of_pairwise ?_
  rw [List.flatMap_map, List.pairwise_flatMap]
  refine ⟨fun d hd => ?_, ?_⟩
  · exact (pairwise_ofEntries (hdistinct d hd) d).imp fun hne hname => absurd hname hne
  · cases includeDemos with
    | false => simp [directories]
    | true =>
        simp only [directories, if_true, List.pairwise_pair]
        intro a ha b hb _
        exact ⟨(mem_ofEntries.1 ha).2.2, (mem_ofEntries.1 hb).2.2⟩

theorem nodup_path_foundIn
    (hdistinct : ∀ d ∈ directories root includeDemos, (t.namesIn d).Nodup) :
    ((foundIn t root includeDemos).map (·.path)).Nodup := by
  refine List.pairwise_map.2 ((pairwise_foundIn hdistinct).imp_of_mem ?_)
  intro a b ha hb hprecedes
  obtain ⟨d, hd, -, -, had⟩ := mem_foundIn.1 ha
  obtain ⟨e, he, -, -, hbe⟩ := mem_foundIn.1 hb
  exact hprecedes.path_ne hd had he hbe

end Script

namespace Session

/-! ### Runs -/

@[simp]
theorem run_entriesOrNone (directory : String) (w : World) :
    (entriesOrNone directory).run w = (w.files.namesIn directory, w) := by
  cases hnames : w.files.entryNames directory <;>
    simp [entriesOrNone, run, FileTree.namesIn, hnames]

theorem run_mapM_entriesOrNone (directories : List String) (w : World) :
    (directories.mapM fun d => do return (d, ← entriesOrNone d)).run w =
      (directories.map fun d => (d, w.files.namesIn d), w) := by
  induction directories with
  | nil => rfl
  | cons d directories ih =>
      simp only [List.mapM_cons, run_bind, run_entriesOrNone, run_pure, ih, List.map_cons]

/-- Discovering scripts lists the directories and changes nothing. -/
theorem run_discoverScripts (root : String) (includeDemos : Bool) (w : World) :
    (discoverScripts root includeDemos).run w =
      (Script.foundIn w.files root includeDemos, w) := by
  rw [discoverScripts, run_bind, run_mapM_entriesOrNone]
  rfl

variable {root : String} {includeDemos : Bool} {w v : World}

/-- **Discovery does not depend on the order of directories.**  Whether the entries of each
directory are listed in one order or in another, the same scripts are found: each entry that ends
in `.pas` behind a stem, once, and nothing else.  They are ordered by name, and of one name the
entry of `benchmark/scripts` precedes that of `demos`. -/
theorem discoverScripts_unordered
    (hdistinct : ∀ d ∈ Script.directories root includeDemos, (w.files.namesIn d).Nodup)
    (horder : ∀ d ∈ Script.directories root includeDemos,
      (v.files.namesIn d).Perm (w.files.namesIn d)) :
    ∃ scripts : List Script,
      (discoverScripts root includeDemos).run w = (scripts, w) ∧
      (discoverScripts root includeDemos).run v = (scripts, v) ∧
      (∀ s, s ∈ scripts ↔ ∃ d ∈ Script.directories root includeDemos,
        s.name ≠ "" ∧ s.name ++ ".pas" ∈ w.files.namesIn d ∧ s.IsIn d) ∧
      (scripts.map (·.path)).Nodup ∧
      scripts.Pairwise (Script.Precedes root) := by
  have hdistinct' : ∀ d ∈ Script.directories root includeDemos, (v.files.namesIn d).Nodup :=
    fun d hd => (horder d hd).nodup_iff.2 (hdistinct d hd)
  have hmem : ∀ s, s ∈ Script.foundIn v.files root includeDemos ↔
      s ∈ Script.foundIn w.files root includeDemos := by
    intro s
    rw [Script.mem_foundIn, Script.mem_foundIn]
    refine exists_congr fun d => and_congr_right fun hd => ?_
    rw [(horder d hd).mem_iff]
  -- a strict order leaves one list only for the same members
  have hsame : Script.foundIn v.files root includeDemos = Script.foundIn w.files root includeDemos :=
    (Script.pairwise_foundIn hdistinct').eq_of_mem_iff (Script.pairwise_foundIn hdistinct) hmem
  refine ⟨_, run_discoverScripts root includeDemos w, ?_, fun s => Script.mem_foundIn,
    Script.nodup_path_foundIn hdistinct, Script.pairwise_foundIn hdistinct⟩
  rw [run_discoverScripts, hsame]

/-- A workspace at `/w` whose directories list these names. -/
def workspaceOf (scripts demos : List String) : World :=
  let filesOf (names : List String) : Node := .directory (names.map fun name => (name, .file ⟨#[]⟩))
  World.start
    ⟨.directory [("w", .directory
      [("benchmark", .directory [("scripts", filesOf scripts)]), ("demos", filesOf demos)])], []⟩
    fun _ => ⟨0, 0, 0⟩

/-- Names with several dots, a hidden one, one in capitals, and one that both directories have. -/
def dottedNames : World :=
  workspaceOf ["x.pas", ".pas", "b.tar.pas", "..pas", "a.PAS"] ["x.pas", "pas", "b.pas"]

/-- The same names in another order. -/
def dottedNamesRelisted : World :=
  workspaceOf ["a.PAS", "..pas", "x.pas", "b.tar.pas", ".pas"] ["b.pas", "x.pas", "pas"]

/-- A stem may hold dots and may be one; the name in both directories is found in both. -/
theorem discoverScripts_unordered_dots :
    (∀ d ∈ Script.directories "/w" true, (dottedNames.files.namesIn d).Nodup) ∧
      (∀ d ∈ Script.directories "/w" true,
        (dottedNamesRelisted.files.namesIn d).Perm (dottedNames.files.namesIn d)) ∧
      ((discoverScripts "/w" true).run dottedNamesRelisted).1 =
        [⟨".", "/w/benchmark/scripts/..pas"⟩, ⟨"b", "/w/demos/b.pas"⟩,
          ⟨"b.tar", "/w/benchmark/scripts/b.tar.pas"⟩, ⟨"x", "/w/benchmark/scripts/x.pas"⟩,
          ⟨"x", "/w/demos/x.pas"⟩] := by
  have hdistinct : ∀ d ∈ Script.directories "/w" true, (dottedNames.files.namesIn d).Nodup := by
    decide +kernel
  have horder : ∀ d ∈ Script.directories "/w" true,
      (dottedNamesRelisted.files.namesIn d).Perm (dottedNames.files.namesIn d) := by
    decide +kernel
  obtain ⟨scripts, hw, hv, -, -, hprecedes⟩ := discoverScripts_unordered hdistinct horder
  -- the scripts are those of the listed names, and stand in the order that leaves no choice
  have hfound : scripts = Script.foundIn dottedNames.files "/w" true := by
    rw [run_discoverScripts] at hw
    exact (congrArg Prod.fst hw).symm
  have hperm : scripts.Perm [⟨".", "/w/benchmark/scripts/..pas"⟩, ⟨"b", "/w/demos/b.pas"⟩,
      ⟨"b.tar", "/w/benchmark/scripts/b.tar.pas"⟩, ⟨"x", "/w/benchmark/scripts/x.pas"⟩,
      ⟨"x", "/w/demos/x.pas"⟩] := by
    rw [hfound]
    exact (Script.sort_perm _).trans (by decide +kernel)
  refine ⟨hdistinct, horder, ?_⟩
  rw [hv]
  exact hprecedes.eq_of_mem_iff (by decide +kernel) fun s => hperm.mem_iff

end Session

end MiniPascal
