import Mathlib.Data.List.Nodup
import Mathlib.Tactic.Tauto
import ShellWord.Files.Tree
import ShellWord.Proofs.Files.Name
import ShellWord.Proofs.Pattern.Shape
import ShellWord.Proofs.TextOrder

/-!
# What pathname expansion finds

A pattern with active parts stands for the sequences of names, one for each part, that lead through the directories
of a file system (`Globber.Matches`).  Expansion goes down the parts and collects what it finds.  The proof follows it
in three steps.  `Globber.walks` collects the sequences of names instead of the written paths, in the same order
(`expandParts_eq_map_walks`).  A sequence is collected exactly if it leads to something (`mem_walks`), and none is
collected twice (`nodup_walks`), by induction on the parts.  The parts in front of the first active one are not
looked up; they are names, and are put in front of what is found (`leads_append`).

The file system may list a directory in any order.  What it has to keep to is `FileSystem.Lists`, and a file tree
does (`FileTree.lists_system`).
-/

namespace ShellWord

/-- A file system lists the names in its directories, none of them twice. -/
structure FileSystem.Lists (files : FileSystem) : Prop where
  nodup : ∀ {dir names}, files.entries dir = some names → names.Nodup
  isName : ∀ {dir names}, files.entries dir = some names → ∀ name ∈ names, Path.IsName name

namespace FileTree

/-- The name of a place in the directory around it. -/
def nameIn? (parent : Place) : Place → Option Text
  | [] => none
  | name :: around => if around == parent then some name else none

theorem nameIn?_eq_some_iff {parent place : Place} {name : Text} :
    nameIn? parent place = some name ↔ place = name :: parent := by
  cases place with
  | nil => simp [nameIn?]
  | cons first around => simp [nameIn?, and_comm]

theorem namesIn_eq (tree : FileTree) (parent : Place) :
    tree.namesIn parent = (tree.nodes.map Prod.fst).filterMap (nameIn? parent) := by
  rw [namesIn, List.filterMap_map]
  congr 1
  funext entry
  obtain ⟨_ | ⟨name, around⟩, node⟩ := entry <;> rfl

/-- A tree with one node at each of its places, and with names on the way there, lists its directories. -/
theorem lists_system {tree : FileTree} (distinct : (tree.nodes.map Prod.fst).Nodup)
    (named : ∀ place ∈ tree.nodes.map Prod.fst, ∀ name ∈ place, Path.IsName name) : tree.system.Lists := by
  have listing : ∀ {dir names}, tree.system.entries dir = some names → ∃ place, names = tree.namesIn place := by
    intro dir names h
    simp only [system] at h
    split at h
    case h_1 place _ => exact ⟨place, (Option.some.inj (Option.ite_none_right_eq_some.1 h).2).symm⟩
    case h_2 => cases h
  constructor
  · intro dir names h
    obtain ⟨parent, rfl⟩ := listing h
    rw [namesIn_eq]
    refine distinct.filterMap fun place place' name here here' => ?_
    rw [nameIn?_eq_some_iff.1 here, nameIn?_eq_some_iff.1 here']
  · intro dir names h name mem
    obtain ⟨parent, rfl⟩ := listing h
    rw [namesIn_eq] at mem
    obtain ⟨place, there, here⟩ := List.mem_filterMap.1 mem
    exact named place there name (nameIn?_eq_some_iff.1 here ▸ List.mem_cons_self)

end FileTree

namespace Globber

/-! ### Sequences of names -/

/-- A name for one part of a pattern, below the directory reached so far. -/
def Fits (g : Globber) (dir part name : Text) : Prop :=
  if g.isActive part then
    ∃ names pattern, g.files.entries dir = some names ∧ name ∈ names ∧
      Pattern.compile? g.engine g.extglob part = some pattern ∧ pattern.accepts name = true ∧
      (['.'] <+: name → g.dotglob = true ∨ ['.'] <+: part ∨ ['\\', '.'] <+: part)
  else
    name = Pattern.unescape part

/-- There is something at the end of a path, a directory if only directories are asked for. -/
def Ends (g : Globber) (dirsOnly : Bool) (path : Text) : Prop :=
  if dirsOnly then g.files.isDir path = true else g.files.present path = true

instance (g : Globber) (dirsOnly : Bool) (path : Text) : Decidable (g.Ends dirsOnly path) :=
  inferInstanceAs (Decidable (if dirsOnly then g.files.isDir path = true else g.files.present path = true))

/-- The names, one for each part, lead from a directory to something.  The paths on the way that are reached by more
than `plain` names are directories. -/
structure Leads (g : Globber) (dirsOnly : Bool) (start : Text) (parts : List Text) (plain : Nat)
    (names : List Text) : Prop where
  length_eq : names.length = parts.length
  fits : ∀ i part name, parts[i]? = some part → names[i]? = some name →
    g.Fits ((names.take i).foldl Path.join start) part name
  isDir : ∀ i, plain < i → i < parts.length → g.files.isDir ((names.take i).foldl Path.join start) = true
  ends : g.Ends dirsOnly (names.foldl Path.join start)

/-- The directory at which a pattern begins. -/
def start (g : Globber) (pattern : Text) : Text :=
  if Path.isAbsolute pattern then ['/'] else g.cwd

/-- The names lead along the parts of a pattern, from its first active part on through directories. -/
def Matches (g : Globber) (pattern : Text) (names : List Text) : Prop :=
  g.Leads (Path.endsWithSlash pattern) (g.start pattern) (parts pattern)
    ((parts pattern).findIdx g.isActive) names

/-- Names in the form of a pattern: relative or absolute, and with a slash at the end if it has one. -/
def written (pattern : Text) (names : List Text) : Text :=
  root pattern ++ List.intercalate ['/'] names ++ if Path.endsWithSlash pattern then ['/'] else []

variable {g : Globber} {dirsOnly : Bool}

theorem leads_nil {start : Text} {plain : Nat} {names : List Text} :
    g.Leads dirsOnly start [] plain names ↔ names = [] ∧ g.Ends dirsOnly start := by
  constructor
  · intro h
    obtain rfl : names = [] := List.length_eq_zero_iff.1 h.length_eq
    exact ⟨rfl, h.ends⟩
  · rintro ⟨rfl, ends⟩
    exact ⟨rfl, by simp, by simp, ends⟩

theorem leads_cons {start part : Text} {parts : List Text} {plain : Nat} {names : List Text} :
    g.Leads dirsOnly start (part :: parts) plain names ↔
      ∃ name rest, names = name :: rest ∧ g.Fits start part name ∧
        (plain = 0 → parts ≠ [] → g.files.isDir (Path.join start name) = true) ∧
        g.Leads dirsOnly (Path.join start name) parts (plain - 1) rest := by
  constructor
  · intro h
    cases names with
    | nil => exact absurd h.length_eq (by simp)
    | cons name rest =>
        refine ⟨name, rest, rfl, h.fits 0 part name rfl rfl, fun first more => ?_, ?_, ?_, ?_, h.ends⟩
        · have := List.length_pos_iff.2 more
          exact h.isDir 1 (by omega) (by simp only [List.length_cons]; omega)
        · exact Nat.succ.inj h.length_eq
        · intro i part' name' hpart hname
          exact h.fits (i + 1) part' name' hpart hname
        · intro i later bound
          exact h.isDir (i + 1) (by omega) (by simp only [List.length_cons]; omega)
  · rintro ⟨name, rest, rfl, fits, isDir, h⟩
    refine ⟨congrArg Nat.succ h.length_eq, ?_, ?_, h.ends⟩
    · intro i part' name' hpart hname
      cases i with
      | zero =>
          obtain rfl : part = part' := Option.some.inj hpart
          obtain rfl : name = name' := Option.some.inj hname
          exact fits
      | succ i => exact h.fits i part' name' hpart hname
    · intro i later bound
      rw [List.length_cons] at bound
      cases i with
      | zero => exact absurd later (Nat.not_lt_zero _)
      | succ i =>
          -- the path behind the first name is a matter of that name, the longer ones of the rest
          cases i with
          | zero => exact isDir (by omega) (List.length_pos_iff.1 (by omega))
          | succ i => exact h.isDir (i + 1) (by omega) (by omega)

/-- Parts without active characters are names, whatever stands below them. -/
theorem leads_append {literal parts : List Text} (inactive : ∀ part ∈ literal, g.isActive part = false)
    {start : Text} {names : List Text} :
    g.Leads dirsOnly start (literal ++ parts) literal.length names ↔
      ∃ rest, names = literal.map Pattern.unescape ++ rest ∧
        g.Leads dirsOnly ((literal.map Pattern.unescape).foldl Path.join start) parts 0 rest := by
  induction literal generalizing start names with
  | nil => simp
  | cons part literal ih =>
      have here : g.isActive part = false := inactive part List.mem_cons_self
      rw [List.cons_append, leads_cons]
      simp only [Fits, here, Bool.false_eq_true, if_false, List.length_cons, Nat.add_sub_cancel,
        ih fun part' mem => inactive part' (List.mem_cons_of_mem _ mem)]
      constructor
      · rintro ⟨_, _, rfl, rfl, -, rest, rfl, leads⟩
        exact ⟨rest, rfl, leads⟩
      · rintro ⟨rest, rfl, leads⟩
        exact ⟨_, _, rfl, rfl, fun zero => absurd zero (Nat.succ_ne_zero _), rest, rfl, leads⟩

theorem Fits.isName (lists : g.files.Lists) {dir part name : Text} (hpart : Path.IsName part)
    (h : g.Fits dir part name) : Path.IsName name := by
  unfold Fits at h
  split at h
  · obtain ⟨names, _, listing, mem, -⟩ := h
    exact lists.isName listing name mem
  · exact h ▸ hpart.unescape

theorem Leads.isName (lists : g.files.Lists) {start : Text} {parts : List Text} {plain : Nat} {names : List Text}
    (hparts : ∀ part ∈ parts, Path.IsName part) (h : g.Leads dirsOnly start parts plain names) :
    ∀ name ∈ names, Path.IsName name := by
  intro name mem
  obtain ⟨i, bound, rfl⟩ := List.getElem_of_mem mem
  have inParts : i < parts.length := h.length_eq ▸ bound
  exact (h.fits i _ _ (List.getElem?_eq_getElem inParts) (List.getElem?_eq_getElem bound)).isName lists
    (hparts _ (List.getElem_mem inParts))

theorem Matches.isName (lists : g.files.Lists) {pattern : Text} {names : List Text}
    (h : g.Matches pattern names) : ∀ name ∈ names, Path.IsName name :=
  Leads.isName lists (fun _ => isName_of_mem_parts) h

/-- A pattern stands for each path in one way only. -/
theorem Matches.eq_of_written_eq (lists : g.files.Lists) {pattern : Text} (hparts : parts pattern ≠ [])
    {names names' : List Text} (h : g.Matches pattern names) (h' : g.Matches pattern names')
    (same : written pattern names = written pattern names') : names = names' := by
  have notNil : ∀ {seq}, g.Matches pattern seq → seq ≠ [] := by
    intro seq found
    rw [← List.length_pos_iff, Leads.length_eq found]
    exact List.length_pos_iff.2 hparts
  have inner : List.intercalate ['/'] names = List.intercalate ['/'] names' :=
    List.append_cancel_left (List.append_cancel_right same)
  exact Path.intercalate_inj (notNil h) (notNil h') (h.isName lists) (h'.isName lists) inner

/-! ### Collecting sequences of names -/

theorem beginsWithDot_iff (part : Text) :
    beginsWithDot part = true ↔ ['.'] <+: part ∨ ['\\', '.'] <+: part := by
  fun_cases beginsWithDot part with
  | case1 => simp
  | case2 => simp
  | case3 part noDot noEscape =>
      simp only [Bool.false_eq_true, false_iff, not_or]
      constructor
      · rintro ⟨rest, rfl⟩
        exact noDot rest rfl
      · rintro ⟨rest, rfl⟩
        exact noEscape rest rfl

theorem head?_eq_dot_iff (name : Text) : name.head? = some '.' ↔ ['.'] <+: name := by
  cases name <;> simp [eq_comm]

theorem mem_matching {dir part name : Text} :
    name ∈ g.matching dir part ↔
      ∃ names pattern, g.files.entries dir = some names ∧ name ∈ names ∧
        Pattern.compile? g.engine g.extglob part = some pattern ∧ pattern.accepts name = true ∧
        (['.'] <+: name → g.dotglob = true ∨ ['.'] <+: part ∨ ['\\', '.'] <+: part) := by
  have shown : (name.head? != some '.' || beginsWithDot part || g.dotglob) = true ↔
      (['.'] <+: name → g.dotglob = true ∨ ['.'] <+: part ∨ ['\\', '.'] <+: part) := by
    simp only [Bool.or_eq_true, bne_iff_ne, ne_eq, head?_eq_dot_iff, beginsWithDot_iff]
    tauto
  unfold matching
  split
  case h_1 pattern names compiled listing =>
    simp only [List.mem_filter, Bool.and_eq_true, shown, compiled, listing, Option.some.injEq, exists_and_left,
      exists_eq_left']
    tauto
  case h_2 missing =>
    simp only [List.not_mem_nil, false_iff]
    rintro ⟨names, pattern, listing, -, compiled, -⟩
    exact missing pattern names compiled listing

theorem mem_candidates {dir part name : Text} :
    name ∈ g.candidates dir part ↔ g.Fits dir part name := by
  unfold candidates Fits
  split
  · exact mem_matching
  · exact List.mem_singleton

theorem nodup_candidates (lists : g.files.Lists) (dir part : Text) : (g.candidates dir part).Nodup := by
  unfold candidates matching
  split
  · split
    case h_1 pattern names _ listing => exact (lists.nodup listing).filter _
    case h_2 => exact List.nodup_nil
  · exact List.nodup_singleton _

/-- The sequences of names that the parts of a pattern lead to, in the order in which they are found. -/
def walks (g : Globber) (dirsOnly : Bool) (dir : Text) : List Text → List (List Text)
  | [] => if g.Ends dirsOnly dir then [[]] else []
  | part :: parts =>
    (g.candidates dir part).flatMap fun name =>
      if parts = [] ∨ g.files.isDir (Path.join dir name) = true then
        (g.walks dirsOnly (Path.join dir name) parts).map (name :: ·)
      else []

/-- The paths that are collected are those of the sequences of names. -/
theorem expandParts_eq_map_walks {parts : List Text} (hparts : parts ≠ []) (dir found : Text) :
    g.expandParts dirsOnly dir found parts =
      (g.walks dirsOnly dir parts).map fun names =>
        names.foldl extend found ++ if dirsOnly then ['/'] else [] := by
  induction parts generalizing dir found with
  | nil => exact absurd rfl hparts
  | cons part parts ih =>
      rw [expandParts, walks, List.map_flatMap]
      congr 1
      funext name
      cases parts with
      | nil => cases dirsOnly <;> simp [walks, Ends, apply_ite]
      | cons next parts =>
          by_cases down : g.files.isDir (Path.join dir name) = true
          · simp [ih, down, Function.comp_def]
          · simp [down]

theorem mem_walks {dir : Text} {parts names : List Text} :
    names ∈ g.walks dirsOnly dir parts ↔ g.Leads dirsOnly dir parts 0 names := by
  induction parts generalizing dir names with
  | nil =>
      rw [walks, leads_nil]
      split <;> simp [*]
  | cons part parts ih =>
      rw [walks, List.mem_flatMap, leads_cons]
      constructor
      · rintro ⟨name, mem, found⟩
        split at found
        case isTrue down =>
          obtain ⟨rest, collected, rfl⟩ := List.mem_map.1 found
          exact ⟨name, rest, rfl, mem_candidates.1 mem, fun _ more => down.resolve_left more, ih.1 collected⟩
        case isFalse => cases found
      · rintro ⟨name, rest, rfl, fits, down, leads⟩
        refine ⟨name, mem_candidates.2 fits, ?_⟩
        rw [if_pos (or_iff_not_imp_left.2 (down rfl))]
        exact List.mem_map_of_mem (ih.2 leads)

/-- The sequences below a name begin with it. -/
theorem head?_of_mem_walk {dir name : Text} {parts names : List Text}
    (h : names ∈ if parts = [] ∨ g.files.isDir (Path.join dir name) = true then
      (g.walks dirsOnly (Path.join dir name) parts).map (name :: ·) else []) : names.head? = some name := by
  split at h
  · obtain ⟨rest, -, rfl⟩ := List.mem_map.1 h
    rfl
  · cases h

theorem nodup_walks (lists : g.files.Lists) (dir : Text) (parts : List Text) :
    (g.walks dirsOnly dir parts).Nodup := by
  induction parts generalizing dir with
  | nil =>
      rw [walks]
      split <;> simp
  | cons part parts ih =>
      rw [walks, List.nodup_flatMap]
      constructor
      · intro name _
        split
        · exact (ih _).map (List.cons_injective)
        · exact List.nodup_nil
      · refine (nodup_candidates lists dir part).imp fun ne names mem mem' => ne ?_
        exact Option.some.inj ((head?_of_mem_walk mem).symm.trans (head?_of_mem_walk mem'))

/-! ### Expansion -/

theorem one_lt_length_of_endsWithSlash {pattern : Text} (hparts : parts pattern ≠ [])
    (slash : Path.endsWithSlash pattern = true) : 1 < pattern.length := by
  match pattern with
  | [] => exact absurd rfl hparts
  | [c] =>
      obtain rfl : c = '/' := by simpa [Path.endsWithSlash] using slash
      exact absurd rfl hparts
  | _ :: _ :: _ => simp

/-- The directory below which the first active part is looked up. -/
theorem foldl_join_start {base : List Text} (good : ∀ name ∈ base, Path.IsName name) (pattern : Text) :
    base.foldl Path.join (g.start pattern) =
      if Path.isAbsolute pattern then '/' :: List.intercalate ['/'] base
      else if (List.intercalate ['/'] base).isEmpty then g.cwd
      else Path.join g.cwd (List.intercalate ['/'] base) := by
  cases base with
  | nil => simp [start]
  | cons name base =>
      have hname := good name List.mem_cons_self
      have relative : Path.isAbsolute (List.intercalate ['/'] (name :: base)) = false := by
        rw [Path.intercalate_cons]
        exact hname.isAbsolute_append _
      have notEmpty : List.intercalate ['/'] (name :: base) ≠ [] := by
        rw [Path.intercalate_cons]
        exact List.append_ne_nil_of_left_ne_nil hname.ne_nil _
      rw [Path.foldl_join_cons hname fun n mem => good n (List.mem_cons_of_mem _ mem)]
      unfold start
      split
      · simp [Path.join, relative, Path.endsWithSlash]
      · simp [notEmpty]

/-- Expansion collects the names below the parts in front of the first active one. -/
theorem expand_eq {pattern part : Text} {literal rest : List Text}
    (hparts : parts pattern = literal ++ part :: rest) (inactive : ∀ p ∈ literal, g.isActive p = false)
    (active : g.isActive part = true) :
    g.expand pattern =
      ((g.walks (Path.endsWithSlash pattern) ((literal.map Pattern.unescape).foldl Path.join (g.start pattern))
        (part :: rest)).map fun names =>
          names.foldl extend ((literal.map Pattern.unescape).foldl extend (root pattern)) ++
            if Path.endsWithSlash pattern then ['/'] else []).mergeSort Text.le := by
  have good : ∀ name ∈ literal.map Pattern.unescape, Path.IsName name := by
    intro name mem
    obtain ⟨p, hp, rfl⟩ := List.mem_map.1 mem
    exact (isName_of_mem_parts (hparts ▸ List.mem_append_left _ hp)).unescape
  have dirsOnly : (decide (pattern.length > 1) && Path.endsWithSlash pattern) = Path.endsWithSlash pattern := by
    cases slash : Path.endsWithSlash pattern with
    | false => exact Bool.and_false _
    | true =>
        have := one_lt_length_of_endsWithSlash (hparts ▸ by simp) slash
        simpa using this
  have front : (literal ++ part :: rest).takeWhile (fun p => !g.isActive p) = literal := by
    rw [List.takeWhile_append_of_pos (by simpa using inactive), List.takeWhile_cons_of_neg (by simp [active]),
      List.append_nil]
  have back : (literal ++ part :: rest).dropWhile (fun p => !g.isActive p) = part :: rest := by
    rw [List.dropWhile_append_of_pos (by simpa using inactive), List.dropWhile_cons_of_neg (by simp [active])]
  rw [← expandParts_eq_map_walks (List.cons_ne_nil _ _), foldl_join_start good, foldl_extend_root good]
  simp only [expand, hparts, front, back, dirsOnly]
  congr 1
  unfold root
  split <;> rfl

theorem findIdx_isActive {part : Text} {literal rest : List Text}
    (inactive : ∀ p ∈ literal, g.isActive p = false) (active : g.isActive part = true) :
    (literal ++ part :: rest).findIdx g.isActive = literal.length := by
  have notFront : ¬ literal.findIdx g.isActive < literal.length := by
    rw [List.findIdx_lt_length]
    rintro ⟨p, mem, h⟩
    exact absurd h (by simp [inactive p mem])
  rw [List.findIdx_append, if_neg notFront, List.findIdx_cons, active, cond_true, Nat.zero_add]

/-- Expansion sorts what it finds: every sequence of names that the pattern stands for, once. -/
theorem exists_expand_eq (lists : g.files.Lists) {pattern : Text}
    (active : ∃ part ∈ parts pattern, g.isActive part = true) :
    ∃ sequences : List (List Text), sequences.Nodup ∧ (∀ names, names ∈ sequences ↔ g.Matches pattern names) ∧
      g.expand pattern = (sequences.map (written pattern)).mergeSort Text.le := by
  obtain ⟨part, find⟩ := Option.isSome_iff_exists.1 (List.find?_isSome.2 active)
  obtain ⟨hactive, literal, rest, hparts, inactive⟩ := List.find?_eq_some_iff_append.1 find
  replace inactive : ∀ p ∈ literal, g.isActive p = false := by simpa using inactive
  have collected : ∀ names, names ∈ (g.walks (Path.endsWithSlash pattern)
        ((literal.map Pattern.unescape).foldl Path.join (g.start pattern)) (part :: rest)).map
          (literal.map Pattern.unescape ++ ·) ↔ g.Matches pattern names := by
    intro names
    rw [Matches, hparts, findIdx_isActive inactive hactive, leads_append inactive]
    simp only [List.mem_map, mem_walks]
    constructor
    · rintro ⟨rest, leads, rfl⟩
      exact ⟨rest, rfl, leads⟩
    · rintro ⟨rest, rfl, leads⟩
      exact ⟨rest, leads, rfl⟩
  refine ⟨_, (nodup_walks lists _ _).map (List.append_right_injective _), collected, ?_⟩
  rw [expand_eq hparts inactive hactive, List.map_map]
  congr 1
  refine List.map_congr_left fun names mem => ?_
  have found : g.Matches pattern (literal.map Pattern.unescape ++ names) :=
    (collected _).1 (List.mem_map_of_mem mem)
  rw [← List.foldl_append, foldl_extend_root (found.isName lists), Function.comp_apply, written]

/-- **Pathname expansion finds what is there.**  The paths that a pattern with active parts expands to are in the
order of their bytes, none of them twice, and they are those of the sequences of names that lead along the pattern. -/
theorem pairwise_expand_and_mem_expand_iff (lists : g.files.Lists) (pattern : Text)
    (active : ∃ part ∈ parts pattern, g.isActive part = true) :
    (g.expand pattern).Pairwise (fun path path' => Text.BytesLt (Text.utf8 path) (Text.utf8 path')) ∧
      ∀ path, path ∈ g.expand pattern ↔ ∃ names, g.Matches pattern names ∧ path = written pattern names := by
  obtain ⟨sequences, nodup, isMatch, hexpand⟩ := exists_expand_eq lists active
  have hparts : parts pattern ≠ [] := by
    obtain ⟨part, mem, -⟩ := active
    exact List.ne_nil_of_mem mem
  rw [hexpand]
  constructor
  · refine Text.pairwise_bytesLt_mergeSort (nodup.map_on ?_)
    intro names mem names' mem' h
    exact ((isMatch names).1 mem).eq_of_written_eq lists hparts ((isMatch names').1 mem') h
  · intro path
    simp only [List.mem_mergeSort, List.mem_map, isMatch, eq_comm]

/-- To a standard engine a star stands for every name that is not hidden. -/
theorem candidates_star {admits : Text → Prop} (standard : g.engine.Standard admits)
    (admitted : admits (Pattern.anchor ['.', '*'])) (dir : Text) :
    g.candidates dir ['*'] =
      ((g.files.entries dir).getD []).filter fun name => name.head? != some '.' || g.dotglob := by
  have active : g.isActive ['*'] = true := by
    unfold isActive
    cases g.extglob <;> rfl
  obtain ⟨pattern, compiled, meaning⟩ :=
    @Pattern.Shape.exists_compile? g.extglob .anyText (.inr rfl) _ _ standard admitted
  have all (name : Text) : pattern.accepts name = true := (meaning name).2 trivial
  have found : Pattern.compile? g.engine g.extglob ['*'] = some pattern := compiled
  rw [candidates, if_pos active, matching, found]
  cases g.files.entries dir with
  | none => rfl
  | some names => simp [all, beginsWithDot]

/-- A directory `b` and a hidden directory `.h`, each with a file `x`, and a link `a` to `b`. -/
def linked : Globber where
  files := FileTree.system
    ⟨[([['b']], .directory), ([['.', 'h']], .directory), ([['a']], .link ['b']), ([['x'], ['b']], .file []),
      ([['x'], ['.', 'h']], .file [])]⟩
  cwd := ['/']
  dotglob := false
  extglob := true

theorem files_linked :
    linked.files.entries ['/'] = some [['b'], ['.', 'h'], ['a']] ∧
      linked.files.isDir ['/', 'a'] = true ∧ linked.files.present ['/', 'a', '/', 'x'] = true ∧
      linked.files.isDir ['/', 'b'] = true ∧ linked.files.present ['/', 'b', '/', 'x'] = true := by
  simp [linked, FileTree.system, FileTree.follow, FileTree.locate, FileTree.walk, FileTree.isDirectory,
    FileTree.node?, FileTree.namesIn, FileTree.names, FileTree.maxLinks, Text.splitAt, Path.isAbsolute,
    List.lookup_cons]

theorem expand_linked :
    linked.files.Lists ∧ (∃ part ∈ parts ['*', '/', 'x'], linked.isActive part = true) ∧
      linked.expand ['*', '/', 'x'] = [['a', '/', 'x'], ['b', '/', 'x']] ∧
      (linked.expand ['*', '/', 'x']).Pairwise (fun path path' => Text.BytesLt (Text.utf8 path) (Text.utf8 path')) ∧
      ∀ path, path ∈ linked.expand ['*', '/', 'x'] ↔
        ∃ names, linked.Matches ['*', '/', 'x'] names ∧ path = written ['*', '/', 'x'] names := by
  have lists : linked.files.Lists := FileTree.lists_system (by decide) (by decide)
  have active : ∃ part ∈ parts ['*', '/', 'x'], linked.isActive part = true := by decide
  have found : linked.expand ['*', '/', 'x'] = [['a', '/', 'x'], ['b', '/', 'x']] := by
    have star := candidates_star (g := linked) Regex.standard_engine (by decide +kernel)
    have plain (dir : Text) : linked.candidates dir ['x'] = [['x']] := rfl
    have hidden : linked.dotglob = false := rfl
    obtain ⟨names, dirA, xInA, dirB, xInB⟩ := files_linked
    change (linked.expandParts false ['/'] [] [['*'], ['x']]).mergeSort Text.le = _
    simp [expandParts, star, plain, hidden, names, dirA, xInA, dirB, xInB, extend, Path.join, Path.isAbsolute,
      Path.endsWithSlash, List.filter_cons, List.mergeSort, Text.le]
  exact ⟨lists, active, found, pairwise_expand_and_mem_expand_iff lists _ active⟩

end Globber

end ShellWord
