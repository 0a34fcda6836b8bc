import Mathlib.Data.List.DropRight
import Mis.Cli.FileTree
import Mis.Steps

/-!
Files by their paths. A path names a file in a folder, and only folders decide
which one: a file is read exactly if its path could be written to and something
is there. So writing changes what is read at one place and nowhere else. With
another extension a path names a file in the same folder, and the same file only
if the path had that extension already.
-/
namespace Mis.Cli

/-! Paths as text. -/

section Split

variable {c : Char} {cs start tail : List Char}

theorem splitLast_of_notMem (h : c ∉ cs) : splitLast c cs = ([], cs) := by
  have htail : cs.reverse.takeWhile (· ≠ c) = cs.reverse := by
    rw [List.takeWhile_eq_self_iff]
    intro d hd
    exact decide_eq_true (ne_of_mem_of_not_mem (List.mem_reverse.mp hd) h)
  simp only [splitLast, htail, List.reverse_reverse, Nat.sub_self, List.take_zero]

theorem splitLast_append (h : c ∉ tail) :
    splitLast c (start ++ c :: tail) = (start ++ [c], tail) := by
  have htail : (start ++ c :: tail).reverse.takeWhile (· ≠ c) = tail.reverse := by
    rw [List.reverse_append, List.reverse_cons, List.append_assoc, List.takeWhile_append_of_pos]
    · simp
    · intro d hd
      exact decide_eq_true (ne_of_mem_of_not_mem (List.mem_reverse.mp hd) h)
  have hlength : (start ++ c :: tail).length - tail.length = (start ++ [c]).length := by
    simp only [List.length_append, List.length_cons, List.length_nil]
    omega
  simp only [splitLast, htail, List.reverse_reverse, hlength]
  rw [show start ++ c :: tail = (start ++ [c]) ++ tail from List.append_cons .., List.take_left]

theorem splitLast_cases (c : Char) (cs : List Char) :
    c ∉ cs ∨ ∃ start tail, cs = start ++ c :: tail ∧ c ∉ tail := by
  by_cases h : c ∈ cs
  · obtain ⟨tail, start, heq, htail⟩ := List.eq_append_cons_of_mem (List.mem_reverse.mpr h)
    refine .inr ⟨start.reverse, tail.reverse, ?_, by simpa using htail⟩
    rw [← List.reverse_reverse cs, heq]
    simp
  · exact .inl h

end Split

/-- What stands behind the last slash of a path. -/
def baseName (path : String) : List Char :=
  (splitLast '/' path.toList).2

/-- The path of another name in the same folder. -/
def sibling (path : String) (name : List Char) : String :=
  String.ofList ((splitLast '/' path.toList).1 ++ name)

section Sibling

variable {path : String} {name : List Char}

theorem notMem_baseName (path : String) : '/' ∉ baseName path := by
  obtain h | ⟨start, tail, heq, h⟩ := splitLast_cases '/' path.toList
  · rwa [baseName, splitLast_of_notMem h]
  · rwa [baseName, heq, splitLast_append h]

@[simp] theorem sibling_baseName (path : String) : sibling path (baseName path) = path := by
  obtain h | ⟨start, tail, heq, h⟩ := splitLast_cases '/' path.toList
  · rw [sibling, baseName, splitLast_of_notMem h, List.nil_append, String.ofList_toList]
  · rw [sibling, baseName, heq, splitLast_append h, ← List.append_cons, ← heq,
      String.ofList_toList]

theorem sibling_injective {other : List Char} (h : sibling path name = sibling path other) :
    name = other := by
  have h := congrArg String.toList h
  rw [sibling, sibling, String.toList_ofList, String.toList_ofList] at h
  exact List.append_cancel_left h

theorem pathParts_sibling (h : '/' ∉ name) :
    pathParts (sibling path name) = (pathParts path).dropLast ++ [String.ofList name] := by
  rw [sibling, pathParts, pathParts, String.toList_ofList]
  obtain hpath | ⟨start, tail, heq, htail⟩ := splitLast_cases '/' path.toList
  · rw [splitLast_of_notMem hpath, List.nil_append, List.splitOn_eq_singleton h,
      List.splitOn_eq_singleton hpath]
    rfl
  · rw [heq, splitLast_append htail, ← List.append_cons, List.splitOn_append_cons_self,
      List.splitOn_append_cons_self, List.splitOn_eq_singleton h, List.splitOn_eq_singleton htail,
      List.map_append, List.map_append]
    simp

theorem getLast?_pathParts (path : String) :
    (pathParts path).getLast? = some (String.ofList (baseName path)) := by
  have h := @pathParts_sibling path _ (notMem_baseName path)
  rw [sibling_baseName] at h
  rw [h]
  simp

theorem startsWith_slash_iff (path : String) :
    path.startsWith "/" = true ↔ path.toList.head? = some '/' := by
  rw [String.startsWith_string_iff]
  cases path.toList <;> simp [eq_comm]

theorem startsWith_sibling (h : '/' ∉ name) :
    (sibling path name).startsWith "/" = path.startsWith "/" := by
  rw [Bool.eq_iff_iff, startsWith_slash_iff, startsWith_slash_iff, sibling, String.toList_ofList]
  obtain hpath | ⟨start, tail, heq, htail⟩ := splitLast_cases '/' path.toList
  · rw [splitLast_of_notMem hpath, List.nil_append]
    exact iff_of_false (fun hhead => h (List.mem_of_head? hhead))
      (fun hhead => hpath (List.mem_of_head? hhead))
  · rw [heq, splitLast_append htail]
    cases start <;> simp

end Sibling

/-- A part of a path that is looked up in a folder. -/
def IsPlain (name : String) : Prop :=
  name ≠ "" ∧ name ≠ "." ∧ name ≠ ".."

/-- The last part of a path is a base, a dot and `ext`. Nothing, or a dot alone, is no base. -/
def HasExtension (path ext : String) : Prop :=
  ∃ base, base ≠ "" ∧ base ≠ "." ∧ (pathParts path).getLast? = some (base ++ "." ++ ext)

/-- The name that a file gets with another extension. -/
def renamed (ext : String) (name : List Char) : List Char :=
  if stem name = ['.'] then ['.', '.'] else stem name ++ '.' :: ext.toList

section Extension

variable {path ext : String} {name base tail : List Char}

theorem stem_of_notMem (h : '.' ∉ name) : stem name = name := by
  rw [stem, splitLast_of_notMem h]

theorem stem_cons (h : '.' ∉ tail) : stem ('.' :: tail) = '.' :: tail := by
  rw [stem, show splitLast '.' ('.' :: tail) = (['.'], tail) from @splitLast_append '.' [] tail h]
  rfl

theorem stem_append (hbase : base ≠ []) (h : '.' ∉ tail) : stem (base ++ '.' :: tail) = base := by
  rw [stem, splitLast_append h]
  split
  · rename_i heq
    simp at heq
  · rename_i heq
    exact absurd (List.append_left_eq_self.mp (congrArg Prod.fst heq)) hbase
  · rename_i heq
    cases heq
    exact List.dropLast_concat

theorem stem_subset (name : List Char) : stem name ⊆ name := by
  obtain h | ⟨start, tail, rfl, h⟩ := splitLast_cases '.' name
  · rw [stem_of_notMem h]
    exact List.Subset.refl _
  · cases start with
    | nil =>
        rw [List.nil_append, stem_cons h]
        exact List.Subset.refl _
    | cons c cs =>
        rw [stem_append (List.cons_ne_nil _ _) h]
        exact List.subset_append_left _ _

theorem renamed_eq_self_iff (hname : name ≠ ['.', '.']) (hext : '.' ∉ ext.toList) :
    renamed ext name = name ↔
      ∃ base, base ≠ [] ∧ base ≠ ['.'] ∧ name = base ++ '.' :: ext.toList := by
  constructor
  · intro h
    rw [renamed] at h
    split at h
    · exact absurd h.symm hname
    · rename_i hdot
      refine ⟨stem name, ?_, hdot, h.symm⟩
      intro hnil
      rw [hnil, List.nil_append] at h
      rw [← h, stem_cons hext] at hnil
      cases hnil
  · intro h
    obtain ⟨base, hbase, hdot, rfl⟩ := h
    rw [renamed, stem_append hbase hext, if_neg hdot]

theorem notMem_renamed (hname : '/' ∉ name) (hext : '/' ∉ ext.toList) :
    '/' ∉ renamed ext name := by
  have hstem : '/' ∉ stem name := fun h => hname (stem_subset name h)
  rw [renamed]
  split
  · decide
  · simp [hstem, hext]

theorem withExtension_eq (hname : IsPlain (String.ofList (baseName path))) (hext : ext ≠ "") :
    withExtension path ext = sibling path (renamed ext (baseName path)) := by
  have hplain : ¬ ((baseName path = [] || baseName path = ['.'] || baseName path = ['.', '.']) =
      true) := by
    obtain ⟨hnil, hdot, hdots⟩ := hname
    simp only [Bool.or_eq_true, decide_eq_true_eq, not_or]
    exact ⟨⟨fun h => hnil (by rw [h]), fun h => hdot (by rw [h])⟩,
      fun h => hdots (by rw [h])⟩
  rw [baseName] at hplain
  rw [withExtension, sibling, renamed, baseName]
  simp only [hplain, Bool.false_eq_true, if_false]
  split
  · rfl
  · rw [if_neg (by simpa using hext)]
    simp [String.append_assoc]

theorem withExtension_eq_self_iff (hname : IsPlain (String.ofList (baseName path)))
    (hne : ext ≠ "") (hext : '.' ∉ ext.toList) :
    withExtension path ext = path ↔ HasExtension path ext := by
  have hdots : baseName path ≠ ['.', '.'] := fun h => hname.2.2 (by rw [h])
  have hself : withExtension path ext = path ↔ renamed ext (baseName path) = baseName path := by
    rw [withExtension_eq hname hne]
    constructor
    · intro h
      exact sibling_injective (h.trans (sibling_baseName path).symm)
    · intro h
      rw [h, sibling_baseName]
  rw [hself, renamed_eq_self_iff hdots hext, HasExtension, getLast?_pathParts]
  constructor
  · intro h
    obtain ⟨base, hbase, hdot, heq⟩ := h
    refine ⟨String.ofList base, ?_, ?_, ?_⟩
    · simpa using hbase
    · exact fun h => hdot (by simpa using congrArg String.toList h)
    · rw [heq]
      simp [String.append_assoc]
  · intro h
    obtain ⟨base, hbase, hdot, heq⟩ := h
    refine ⟨base.toList, ?_, ?_, ?_⟩
    · simpa using hbase
    · exact fun h => hdot (by rw [← String.ofList_toList (s := base), h])
    · simpa using congrArg String.toList (Option.some.inj heq)

end Extension

namespace FileTree

variable {t t' : FileTree} {path name : String} {place folder : Place} {bytes : ByteArray}

/-! The file that a path names. -/

/-- Following `path` leads to a folder, in which its last part is a name. -/
structure Names (t : FileTree) (path : String) (folder : Place) (name : String) : Prop where
  reached : ∃ entry, t.start path = .ok entry ∧
    (pathParts path).dropLast.foldlM t.step entry = .ok (.folder folder)
  last : (pathParts path).getLast? = some name
  plain : IsPlain name
  short : name.utf8ByteSize ≤ maxNameBytes

theorem entryAt_eq_file :
    t.entryAt place = .file folder ↔
      place = folder ∧ t.isFolder place = false ∧ (t.files.get? place).isSome := by
  rw [entryAt]
  split
  · simp_all
  · split <;> simp_all

theorem entryAt_eq_folder :
    t.entryAt place = .folder folder ↔ place = folder ∧ t.isFolder place = true := by
  rw [entryAt]
  split
  · simp_all
  · split <;> simp_all

theorem lookup_eq_ok {entry : Entry} :
    t.lookup folder name = .ok entry ↔
      name.utf8ByteSize ≤ maxNameBytes ∧ t.entryAt (folder ++ [name]) = entry := by
  rw [lookup]
  split
  · rename_i hlong
    simp [Nat.not_le.mpr hlong]
  · rename_i hshort
    rw [Except.ok.injEq, and_iff_right (Nat.not_lt.mp hshort)]

theorem step_of_isPlain (h : IsPlain name) :
    t.step (.folder folder) name = t.lookup folder name := by
  obtain ⟨hempty, hdot, hdots⟩ := h
  simp [step, hempty, hdot, hdots]

theorem step_of_not_isPlain (h : ¬ IsPlain name) :
    t.step (.folder folder) name =
      .ok (.folder (if name = ".." then folder.dropLast else folder)) := by
  by_cases hdots : name = ".."
  · rw [step, hdots]
    simp
  · have hhere : name = "" ∨ name = "." := by
      by_contra hneither
      rw [not_or] at hneither
      exact h ⟨hneither.1, hneither.2, hdots⟩
    simp [step, hhere, hdots]

theorem step_eq_file {entry : Entry} (h : t.step entry name = .ok (.file place)) :
    ∃ folder, entry = .folder folder ∧ IsPlain name ∧ name.utf8ByteSize ≤ maxNameBytes ∧
      t.entryAt (folder ++ [name]) = .file place := by
  cases entry with
  | file _ | missing _ => cases h
  | folder folder =>
      by_cases hplain : IsPlain name
      · rw [step_of_isPlain hplain] at h
        exact ⟨folder, rfl, hplain, lookup_eq_ok.mp h⟩
      · rw [step_of_not_isPlain hplain] at h
        cases h

theorem find_eq_file :
    t.find path = .ok (.file place) ↔
      ∃ folder name, t.Names path folder name ∧ place = folder ++ [name] ∧
        t.isFolder place = false ∧ (t.files.get? place).isSome := by
  have hlast := getLast?_pathParts path
  obtain ⟨parts, hparts⟩ := List.getLast?_eq_some_iff.mp hlast
  constructor
  · intro h
    obtain ⟨entry, hstart, h⟩ := bind_eq_ok.mp h
    rw [hparts, List.foldlM_append] at h
    obtain ⟨middle, hmiddle, h⟩ := bind_eq_ok.mp h
    rw [List.foldlM_cons] at h
    obtain ⟨reached, hstep, h⟩ := bind_eq_ok.mp h
    cases h
    obtain ⟨folder, rfl, hplain, hshort, hentry⟩ := step_eq_file hstep
    obtain ⟨rfl, hfile⟩ := entryAt_eq_file.mp hentry
    refine ⟨folder, _, ⟨⟨entry, hstart, ?_⟩, hlast, hplain, hshort⟩, rfl, hfile⟩
    rwa [hparts, List.dropLast_concat]
  · intro h
    obtain ⟨folder, name, ⟨⟨entry, hstart, hreached⟩, hname, hplain, hshort⟩, rfl, hfile⟩ := h
    refine bind_eq_ok.mpr ⟨entry, hstart, ?_⟩
    rw [← List.dropLast_append_getLast? name hname, List.foldlM_append]
    refine bind_eq_ok.mpr ⟨_, hreached, ?_⟩
    have hstep : t.step (.folder folder) name = .ok (.file (folder ++ [name])) := by
      rw [step_of_isPlain hplain]
      exact lookup_eq_ok.mpr ⟨hshort, entryAt_eq_file.mpr ⟨rfl, hfile⟩⟩
    rw [List.foldlM_cons, hstep]
    rfl

theorem entryAt_of_not_isFolder (h : t.isFolder place = false) :
    t.entryAt place = .file place ∨ t.entryAt place = .missing place := by
  rw [entryAt, if_neg (by simp [h])]
  split
  · exact .inl rfl
  · exact .inr rfl

theorem target_eq_ok :
    t.target path = .ok place ↔
      ∃ folder name, t.Names path folder name ∧ place = folder ++ [name] ∧
        t.isFolder place = false := by
  constructor
  · intro h
    obtain ⟨entry, hstart, h⟩ := bind_eq_ok.mp h
    simp only at h
    split at h
    · cases h
    rename_i name hname
    obtain ⟨reached, hreached, h⟩ := bind_eq_ok.mp h
    cases reached with
    | file _ | missing _ => cases h
    | folder folder =>
        simp only at h
        split at h
        · cases h
        rename_i hplain
        simp only [Bool.or_eq_true, decide_eq_true_eq, not_or, Nat.not_lt] at hplain
        obtain ⟨⟨hlength, hdot⟩, hdots⟩ := hplain
        -- no slash was cut off, and what is left does not end in an empty part
        have hcut : ((pathParts path).reverse.dropWhile (· = "")).reverse <+: pathParts path :=
          List.rdropWhile_prefix _ _
        have hnamed : ((pathParts path).reverse.dropWhile (· = "")).reverse = pathParts path :=
          hcut.eq_of_length_le hlength
        have hempty : name ≠ "" := by
          have hnot := List.head?_dropWhile_not (· = "") (pathParts path).reverse
          rw [List.getLast?_reverse] at hname
          rw [hname] at hnot
          exact of_decide_eq_false hnot
        rw [hnamed] at hname hreached
        obtain ⟨found, hlookup, h⟩ := bind_eq_ok.mp h
        obtain ⟨hshort, rfl⟩ := lookup_eq_ok.mp hlookup
        refine ⟨folder, name, ⟨⟨entry, hstart, hreached⟩, hname, ⟨hempty, hdot, hdots⟩,
          hshort⟩, ?_⟩
        cases hfolder : t.isFolder (folder ++ [name]) with
        | true =>
            rw [entryAt_eq_folder.mpr ⟨rfl, hfolder⟩] at h
            cases h
        | false =>
            obtain hentry | hentry := entryAt_of_not_isFolder hfolder
            all_goals
              rw [hentry] at h
              cases h
              exact ⟨rfl, hfolder⟩
  · intro h
    obtain ⟨folder, name, ⟨⟨entry, hstart, hreached⟩, hname, hplain, hshort⟩, rfl, hfile⟩ := h
    refine bind_eq_ok.mpr ⟨entry, hstart, ?_⟩
    have hnamed : ((pathParts path).reverse.dropWhile (· = "")).reverse = pathParts path := by
      rw [← List.dropLast_append_getLast? name hname]
      exact List.rdropWhile_concat_neg _ _ _ (by simpa using hplain.1)
    simp only [hnamed, hname]
    refine bind_eq_ok.mpr ⟨_, hreached, ?_⟩
    simp only [hplain.2.1, hplain.2.2, Nat.lt_irrefl, decide_false, Bool.or_self,
      Bool.false_eq_true, if_false]
    refine bind_eq_ok.mpr ⟨_, lookup_eq_ok.mpr ⟨hshort, rfl⟩, ?_⟩
    obtain hentry | hentry := entryAt_of_not_isFolder hfile
    all_goals
      rw [hentry]

/-- A file is read if its path could be written to and something is there. -/
theorem read_eq_ok :
    t.read path = .ok bytes ↔
      ∃ place, t.target path = .ok place ∧ t.files.get? place = some bytes := by
  constructor
  · intro h
    obtain ⟨entry, hfind, h⟩ := bind_eq_ok.mp h
    cases entry with
    | folder _ | missing _ => cases h
    | file place =>
        obtain ⟨folder, name, hnames, hplace, hfolder, _⟩ := find_eq_file.mp hfind
        refine ⟨place, target_eq_ok.mpr ⟨folder, name, hnames, hplace, hfolder⟩, ?_⟩
        simp only at h
        split at h
        · rename_i hget
          cases h
          exact hget
        · cases h
  · intro h
    obtain ⟨place, htarget, hget⟩ := h
    obtain ⟨folder, name, hnames, hplace, hfolder⟩ := target_eq_ok.mp htarget
    have hfind : t.find path = .ok (.file place) :=
      find_eq_file.mpr ⟨folder, name, hnames, hplace, hfolder, by rw [hget]; rfl⟩
    refine bind_eq_ok.mpr ⟨_, hfind, ?_⟩
    simp only [hget]

/-! Only folders decide which file a path names. -/

theorem foldlM_step_ne_folder {entry : Entry} {parts : List String}
    (h : ∀ place, entry ≠ .folder place) :
    parts.foldlM t.step entry ≠ .ok (.folder folder) := by
  cases parts with
  | nil => exact fun heq => h _ (Except.ok.inj heq)
  | cons part parts =>
      rw [List.foldlM_cons]
      cases entry with
      | folder place => exact absurd rfl (h place)
      | file _ | missing _ => rintro ⟨⟩

theorem step_folder_congr (hfolder : t'.isFolder = t.isFolder) {part : String} {next : Place}
    (h : t.step (.folder place) part = .ok (.folder next)) :
    t'.step (.folder place) part = .ok (.folder next) := by
  by_cases hplain : IsPlain part
  · rw [step_of_isPlain hplain, lookup_eq_ok, entryAt_eq_folder] at h ⊢
    rwa [hfolder]
  · rw [step_of_not_isPlain hplain] at h ⊢
    exact h

theorem foldlM_step_congr (hfolder : t'.isFolder = t.isFolder) {parts : List String}
    (h : parts.foldlM t.step (.folder place) = .ok (.folder folder)) :
    parts.foldlM t'.step (.folder place) = .ok (.folder folder) := by
  induction parts generalizing place with
  | nil => exact h
  | cons part parts ih =>
      rw [List.foldlM_cons] at h ⊢
      obtain ⟨entry, hstep, h⟩ := bind_eq_ok.mp h
      cases entry with
      | file _ | missing _ => exact absurd h (foldlM_step_ne_folder (by simp))
      | folder next => exact bind_eq_ok.mpr ⟨_, step_folder_congr hfolder hstep, ih h⟩

theorem start_eq_ok {entry : Entry} :
    t.start path = .ok entry ↔ path.isEmpty = false ∧ path.utf8ByteSize ≤ maxPathBytes ∧
      entry = .folder (if path.startsWith "/" then [] else t.working) := by
  rw [start]
  split
  · simp_all
  · split
    · rename_i hlong
      simp [Nat.not_le.mpr hlong]
    · rename_i hempty hshort
      rw [Except.ok.injEq, eq_comm]
      exact ⟨fun h => ⟨eq_false_of_ne_true hempty, Nat.not_lt.mp hshort, h⟩,
        fun h => h.2.2⟩

theorem Names.congr (hfolder : t'.isFolder = t.isFolder) (hworking : t'.working = t.working)
    (h : t.Names path folder name) : t'.Names path folder name := by
  obtain ⟨⟨entry, hstart, hreached⟩, hlast, hplain, hshort⟩ := h
  obtain ⟨hempty, hlength, rfl⟩ := start_eq_ok.mp hstart
  refine ⟨⟨_, start_eq_ok.mpr ⟨hempty, hlength, rfl⟩, ?_⟩, hlast, hplain, hshort⟩
  rw [hworking]
  exact foldlM_step_congr hfolder hreached

theorem target_congr (hfolders : t'.folders = t.folders) (hworking : t'.working = t.working)
    (h : t.target path = .ok place) : t'.target path = .ok place := by
  have hfolder : t'.isFolder = t.isFolder := by
    funext p
    rw [isFolder, isFolder, hfolders, hworking]
  obtain ⟨folder, name, hnames, hplace, hfile⟩ := target_eq_ok.mp h
  refine target_eq_ok.mpr ⟨folder, name, hnames.congr hfolder hworking, hplace, ?_⟩
  rw [hfolder, hfile]

/-! Writing. -/

/-- The file that `path` names can be opened. -/
def Opens (disk : Disk) (t : FileTree) (path : String) : Prop :=
  ∃ place, t.target path = .ok place ∧ disk.opening t place = none

/-- What writing comes to: the file cannot be opened, writing breaks off, or it is done. -/
inductive Writes (disk : Disk) (t : FileTree) (path : String) (bytes : ByteArray) :
    Except (Fault × FileTree) FileTree → Prop
  | unopened {fault : Fault} : ¬ t.Opens disk path → Writes disk t path bytes (.error (fault, t))
  | brokenOff {place : Place} {length : Nat} {fault : Fault} :
      t.target path = .ok place → disk.opening t place = none →
      disk.writing t place bytes = some (length, fault) →
      Writes disk t path bytes (.error (fault, t.put place (bytes.extract 0 length)))
  | done {place : Place} :
      t.target path = .ok place → disk.opening t place = none →
      disk.writing t place bytes = none → Writes disk t path bytes (.ok (t.put place bytes))

theorem writes_write (disk : Disk) (t : FileTree) (path : String) (bytes : ByteArray) :
    Writes disk t path bytes (t.write path bytes disk) := by
  rw [write]
  cases htarget : t.target path with
  | error fault =>
      refine .unopened ?_
      rintro ⟨place, hplace, _⟩
      rw [htarget] at hplace
      cases hplace
  | ok place =>
      dsimp only
      cases hopening : disk.opening t place with
      | some fault =>
          refine .unopened ?_
          rintro ⟨place', hplace, hopen⟩
          rw [htarget] at hplace
          cases hplace
          rw [hopening] at hopen
          cases hopen
      | none =>
          dsimp only
          cases hwriting : disk.writing t place bytes with
          | some broken => exact .brokenOff htarget hopening hwriting
          | none => exact .done htarget hopening hwriting

theorem read_put_self (h : t.target path = .ok place) :
    (t.put place bytes).read path = .ok bytes :=
  read_eq_ok.mpr ⟨place, target_congr (t := t) rfl rfl h, Table.get?_insert_self ..⟩

theorem get?_put_of_ne {other : Place} (h : place ≠ other) :
    (t.put other bytes).files.get? place = t.files.get? place := by
  rw [put, Table.get?_insert, if_neg h]

/-! Files of one folder. -/

/-- Two names in one folder are two files. -/
theorem target_sibling {other : List Char} (hother : '/' ∉ other) (h : t.target path = .ok place)
    (hsibling : t.target (sibling path other) = .ok place) : sibling path other = path := by
  obtain ⟨folder, name, ⟨⟨entry, hstart, hreached⟩, hlast, _, _⟩, rfl, _⟩ := target_eq_ok.mp h
  obtain ⟨folder', name', ⟨⟨entry', hstart', hreached'⟩, hlast', _, _⟩, hplace, _⟩ :=
    target_eq_ok.mp hsibling
  obtain ⟨_, _, rfl⟩ := start_eq_ok.mp hstart
  obtain ⟨_, _, rfl⟩ := start_eq_ok.mp hstart'
  rw [pathParts_sibling hother, List.dropLast_concat, startsWith_sibling hother, hreached]
    at hreached'
  cases hreached'
  have hname : name = name' := List.singleton_inj.mp (List.append_cancel_left hplace)
  rw [pathParts_sibling hother, List.getLast?_concat, ← hname, ← hlast, getLast?_pathParts]
    at hlast'
  have hbase : other = baseName path := by
    simpa using congrArg (Option.map String.toList) hlast'
  rw [hbase, sibling_baseName]

theorem isPlain_baseName (h : t.target path = .ok place) :
    IsPlain (String.ofList (baseName path)) := by
  obtain ⟨folder, name, hnames, _⟩ := target_eq_ok.mp h
  have hlast := hnames.last
  rw [getLast?_pathParts] at hlast
  exact Option.some.inj hlast ▸ hnames.plain

/-- With another extension a path names another file, unless it had that extension. -/
theorem target_withExtension_eq_iff {ext : String} (hext : '/' ∉ ext.toList)
    (hne : ext ≠ "") (hdot : '.' ∉ ext.toList) (h : t.target path = .ok place) :
    t.target (withExtension path ext) = .ok place ↔ HasExtension path ext := by
  have hplain := isPlain_baseName h
  rw [← withExtension_eq_self_iff hplain hne hdot]
  constructor
  · intro hsame
    rw [withExtension_eq hplain hne] at hsame ⊢
    exact target_sibling (notMem_renamed (notMem_baseName path) hext) h hsame
  · intro hself
    rw [hself, h]

end FileTree

end Mis.Cli
