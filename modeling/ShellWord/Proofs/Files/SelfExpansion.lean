import Mathlib.Data.List.TakeWhile
import ShellWord.Proofs.Files.Expansion

/-!
# Expanding a path that was found

What pathname expansion gives are paths, and a path, once it is escaped, is a pattern without active parts.  One
expects it to stand for itself.  But a pattern without active parts is not matched against any directory: the path
that it denotes is looked up at once.  So a path that was found by going through directories is looked up in another
way the second time.

`expand_escape` says what the second way asks: whether the path leads to something.  The first way asks whether
something is there.  The two differ at a link that leads nowhere (`FileSystem.IsDeadLink`), which is listed in its
directory and found there, and is not found again; `expand_escape_eq_iff` says that they differ nowhere else.

### What is load-bearing

The first way goes down name by name, from the directory at which the pattern begins, and the second one joins the
whole path to the working directory.  Both come to the same place (`join_written`), whether the pattern is absolute or
not and however the working directory is written.

A path with a slash at the end is looked up with that slash.  It was found because it is a directory without it, and
that such a path leads to something is asked of the file system (`FileSystem.EntersDirectories`).
-/

namespace ShellWord

/-- There is something at the path, a link, and it leads nowhere. -/
def FileSystem.IsDeadLink (files : FileSystem) (path : Text) : Prop :=
  files.present path = true ∧ files.reachable path = false

/-- The path of a directory leads there also with a slash behind it. -/
def FileSystem.EntersDirectories (files : FileSystem) : Prop :=
  ∀ path, files.isDir path = true → files.reachable (path ++ ['/']) = true

/-! ### File trees -/

namespace FileTree

theorem names_concat_slash (path : Text) : names (path ++ ['/']) = names path ++ [[]] :=
  Text.splitAt_concat rfl path

/-- An empty name behind a path stays in the directory that the path leads to. -/
theorem walk_concat_nil {tree : FileTree} {links : Nat} {here place : Place} {path : List Text}
    (led : tree.walk true links here path = some place) (directory : tree.isDirectory place = true) :
    tree.walk true links here (path ++ [[]]) = some place := by
  fun_induction walk tree true links here path with
  | case1 links here =>
      obtain rfl := Option.some.inj led
      simp [walk, directory]
  | case2 => cases led
  | case3 links here name rest inside stays ih =>
      rw [List.cons_append, walk, if_neg inside, if_pos stays, ih led]
  | case4 links here name rest inside goes up ih =>
      rw [List.cons_append, walk, if_neg inside, if_neg goes, if_pos up, ih led]
  | case5 => cases led
  | case6 links here name rest inside goes notUp target node last => simp at last
  | case7 => cases led
  | case8 here name rest inside goes notUp target node more links absolute ih =>
      rw [List.cons_append, walk, if_neg inside, if_neg goes, if_neg notUp, node]
      simp [absolute, ← List.append_assoc, ih led]
  | case9 here name rest inside goes notUp target node more links relative ih =>
      rw [List.cons_append, walk, if_neg inside, if_neg goes, if_neg notUp, node]
      simp [relative, ← List.append_assoc, ih led]
  | case10 links here name rest inside goes notUp other notLink node ih =>
      rw [List.cons_append, walk, if_neg inside, if_neg goes, if_neg notUp, node]
      simp [ih led]

theorem entersDirectories_system (tree : FileTree) : tree.system.EntersDirectories := by
  intro path isDir
  obtain ⟨place, led, directory⟩ := (Option.any_eq_true _ _).1 isDir
  show (tree.follow (path ++ ['/'])).isSome = true
  unfold follow at led ⊢
  split at led
  · next absolute =>
    have absolute' : Path.isAbsolute (path ++ ['/']) = true := by
      cases path with
      | nil => cases absolute
      | cons c path => exact absolute
    rw [if_pos absolute', names_concat_slash, walk_concat_nil led directory]
    rfl
  · cases led

end FileTree

namespace Globber

variable {g : Globber}

/-! ### The second way -/

/-- **An escaped path is looked up at once.** -/
theorem expand_escape (g : Globber) (path : Text) :
    g.expand (Pattern.escape path) = if g.files.reachable (Path.join g.cwd path) then [path] else [] := by
  have slash : ∀ c, Pattern.isSpecial c = true → (c == '/') = false := by
    intro c special
    refine beq_eq_false_iff_ne.2 ?_
    rintro rfl
    exact absurd special (by decide)
  have inactive : ∀ part ∈ parts (Pattern.escape path), (!g.isActive part) = true := by
    intro part mem
    rw [parts, Pattern.splitAt_escape slash] at mem
    obtain ⟨piece, -, rfl⟩ := List.mem_map.1 (List.mem_filter.1 mem).1
    exact congrArg not (Pattern.isActive_escape g.extglob piece)
  rw [expand, List.dropWhile_eq_nil_iff.2 inactive]
  dsimp only
  rw [Pattern.unescape_escape]

/-- A pattern without active parts is looked up at once, too. -/
theorem reachable_of_mem_expand {pattern path : Text} (inactive : ∀ part ∈ parts pattern, g.isActive part = false)
    (found : path ∈ g.expand pattern) : g.files.reachable (Path.join g.cwd path) = true := by
  rw [expand, List.dropWhile_eq_nil_iff.2 (by simpa using inactive)] at found
  dsimp only at found
  split at found
  · next reachable =>
    obtain rfl := List.mem_singleton.1 found
    exact reachable
  · cases found

/-! ### The first way -/

/-- A written path leads from the working directory to where its names lead one by one. -/
theorem join_written {names : List Text} (ne : names ≠ []) (good : ∀ name ∈ names, Path.IsName name)
    (pattern : Text) :
    Path.join g.cwd (written pattern names) =
      names.foldl Path.join (g.start pattern) ++ if Path.endsWithSlash pattern then ['/'] else [] := by
  obtain ⟨name, rest, rfl⟩ := List.exists_cons_of_ne_nil ne
  have hname := good name List.mem_cons_self
  have hrest : ∀ n ∈ rest, Path.IsName n := fun n mem => good n (List.mem_cons_of_mem _ mem)
  rw [Path.foldl_join_cons hname hrest, Path.intercalate_cons, Path.join_append hname, written, root, start,
    Path.intercalate_cons, List.append_assoc, List.append_assoc]
  split
  · have atRoot : Path.join ['/'] name = '/' :: name := by
      simp [Path.join, hname.isAbsolute, Path.endsWithSlash]
    rw [atRoot, List.append_assoc]
    rfl
  · rw [List.nil_append, Path.join_append hname, List.append_assoc]

/-- What was found leads to something, or it is there and was found by a pattern with active parts that does not ask
for directories. -/
theorem reachable_or_present_of_mem_expand (lists : g.files.Lists) (enters : g.files.EntersDirectories)
    {pattern path : Text} (found : path ∈ g.expand pattern) :
    g.files.reachable (Path.join g.cwd path) = true ∨
      g.files.present (Path.join g.cwd path) = true ∧ (∃ part ∈ parts pattern, g.isActive part = true) ∧
        Path.endsWithSlash pattern = false := by
  by_cases active : ∃ part ∈ parts pattern, g.isActive part = true
  · obtain ⟨sequences, -, isMatch, collected⟩ := exists_expand_eq lists active
    rw [collected, List.mem_mergeSort] at found
    obtain ⟨names, mem, rfl⟩ := List.mem_map.1 found
    have leads := (isMatch names).1 mem
    have ne : names ≠ [] := by
      obtain ⟨part, inParts, -⟩ := active
      rw [← List.length_pos_iff, Leads.length_eq leads]
      exact List.length_pos_of_mem inParts
    have ends := Leads.ends leads
    rw [join_written ne (leads.isName lists)]
    cases slash : Path.endsWithSlash pattern with
    | true =>
        rw [slash] at ends
        exact .inl (enters _ ends)
    | false =>
        rw [slash] at ends
        refine .inr ⟨?_, active, rfl⟩
        rw [if_neg (by decide), List.append_nil]
        exact ends
  · have inactive : ∀ part ∈ parts pattern, g.isActive part = false := by simpa using active
    exact .inl (reachable_of_mem_expand inactive found)

/-- **A path that was found stands for itself, unless it is a link that leads nowhere.**  Expanding the escaped path
gives the path and nothing else exactly if it is no such link.  If it is one then nothing is found; it was then listed
in a directory, by a pattern with active parts that does not ask for directories. -/
theorem expand_escape_eq_iff (lists : g.files.Lists) (enters : g.files.EntersDirectories) {pattern path : Text}
    (found : path ∈ g.expand pattern) :
    (g.expand (Pattern.escape path) = [path] ↔ ¬ g.files.IsDeadLink (Path.join g.cwd path)) ∧
    (g.files.IsDeadLink (Path.join g.cwd path) →
      g.expand (Pattern.escape path) = [] ∧ (∃ part ∈ parts pattern, g.isActive part = true) ∧
        Path.endsWithSlash pattern = false) := by
  have cases := reachable_or_present_of_mem_expand lists enters found
  rw [expand_escape, FileSystem.IsDeadLink]
  cases reachable : g.files.reachable (Path.join g.cwd path) with
  | true => simp
  | false =>
      obtain ⟨present, walked⟩ := cases.resolve_left (by simp [reachable])
      simp [present, walked]

/-! ### A link that leads nowhere

The link `l` leads to `x`, which is not there.  The directory beside it has a name full of wildcards. -/

/-- A link `l` to nothing, and a directory `[*]` with a file `?` in it. -/
def withDeadLink : Globber where
  files := FileTree.system
    ⟨[([['l']], .link ['x']), ([['[', '*', ']']], .directory), ([['?'], ['[', '*', ']']], .file [])]⟩
  cwd := ['/']
  dotglob := false
  extglob := true

/-- The link is listed and present, and is no directory and leads nowhere. -/
theorem files_withDeadLink :
    withDeadLink.files.entries ['/'] = some [['l'], ['[', '*', ']']] ∧
      withDeadLink.files.entries ['/', '[', '*', ']'] = some [['?']] ∧
      withDeadLink.files.present ['/', 'l'] = true ∧ withDeadLink.files.isDir ['/', 'l'] = false ∧
      withDeadLink.files.reachable ['/', 'l'] = false ∧
      withDeadLink.files.present ['/', '[', '*', ']'] = true ∧ withDeadLink.files.isDir ['/', '[', '*', ']'] = true ∧
      withDeadLink.files.present ['/', '[', '*', ']', '/', '?'] = true ∧
      withDeadLink.files.reachable ['/', '[', '*', ']', '/', '?'] = true := by
  simp [withDeadLink, FileTree.system, FileTree.follow, FileTree.locate, FileTree.walk, FileTree.isDirectory,
    FileTree.node?, FileTree.namesIn, FileTree.names, FileTree.maxLinks, Text.splitAt, Path.isAbsolute,
    List.lookup_cons]

theorem expand_withDeadLink :
    withDeadLink.expand ['*'] = [['[', '*', ']'], ['l']] ∧
      withDeadLink.expand ['*', '/', '*'] = [['[', '*', ']', '/', '?']] := by
  have star := candidates_star (g := withDeadLink) Regex.standard_engine (by decide +kernel)
  have hidden : withDeadLink.dotglob = false := rfl
  obtain ⟨names, inner, present, notDir, -, present', isDir, file, -⟩ := files_withDeadLink
  constructor
  · change (withDeadLink.expandParts false ['/'] [] [['*']]).mergeSort Text.le = _
    simp [expandParts, star, hidden, names, present, present', extend, Path.join, Path.isAbsolute,
      Path.endsWithSlash, List.filter_cons, List.mergeSort, Text.le]
  · change (withDeadLink.expandParts false ['/'] [] [['*'], ['*']]).mergeSort Text.le = _
    simp [expandParts, star, hidden, names, notDir, isDir, inner, file, extend, Path.join, Path.isAbsolute,
      Path.endsWithSlash, List.filter_cons]

/-- The statement at the file `?`, which is found again under its escaped path, and at the link, which is not. -/
theorem expand_escape_withDeadLink :
    withDeadLink.files.Lists ∧ withDeadLink.files.EntersDirectories ∧
      ['[', '*', ']', '/', '?'] ∈ withDeadLink.expand ['*', '/', '*'] ∧
      withDeadLink.expand (Pattern.escape ['[', '*', ']', '/', '?']) = [['[', '*', ']', '/', '?']] ∧
      ['l'] ∈ withDeadLink.expand ['*'] ∧ withDeadLink.files.IsDeadLink (Path.join withDeadLink.cwd ['l']) ∧
      withDeadLink.expand (Pattern.escape ['l']) = [] := by
  obtain ⟨names, files⟩ := expand_withDeadLink
  have lists : withDeadLink.files.Lists := FileTree.lists_system (by decide) (by decide)
  have enters : withDeadLink.files.EntersDirectories := FileTree.entersDirectories_system _
  have file : ['[', '*', ']', '/', '?'] ∈ withDeadLink.expand ['*', '/', '*'] := by simp [files]
  have link : ['l'] ∈ withDeadLink.expand ['*'] := by simp [names]
  obtain ⟨-, -, present, -, lost, -, -, -, there⟩ := files_withDeadLink
  have alive : ¬ withDeadLink.files.IsDeadLink (Path.join withDeadLink.cwd ['[', '*', ']', '/', '?']) := by
    rintro ⟨-, unreachable⟩
    cases there.symm.trans unreachable
  have dead : withDeadLink.files.IsDeadLink (Path.join withDeadLink.cwd ['l']) := ⟨present, lost⟩
  exact ⟨lists, enters, file, (expand_escape_eq_iff lists enters file).1.2 alive, link, dead,
    ((expand_escape_eq_iff lists enters link).2 dead).1⟩

/-- The link `l` is found by `*`, and expanding it again gives nothing. -/
theorem dead_link_not_found_again :
    ['l'] ∈ withDeadLink.expand ['*'] ∧ withDeadLink.expand (Pattern.escape ['l']) ≠ [['l']] := by
  obtain ⟨-, -, -, -, lost, -⟩ := files_withDeadLink
  have nothing : withDeadLink.expand (Pattern.escape ['l']) = [] := by
    rw [expand_escape, if_neg]
    exact Bool.eq_false_iff.1 lost
  rw [expand_withDeadLink.1, nothing]
  decide

end Globber

end ShellWord
