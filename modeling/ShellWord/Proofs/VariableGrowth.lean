import ShellWord.Proofs.Invariant

/-!
# Variables are only ever added

Expansion sets variables, in the middle of a word and deep inside arithmetic, and what was set before an
error stays.  It never unsets one.  So along a sequence of expansions, of which any may fail, the names of
the variables grow at their end and nowhere else (`Variables.GrowsTo`), and what is added has the form of
a name.  In particular no special parameter and no positional one ever gets into the table.

`growsTo_expand` is one expansion, and `pairwise_history_growsTo` any number of them.
-/

namespace ShellWord

/-- The second table has the names of the first, in the same order, and then only names of variables. -/
def Variables.GrowsTo (before after : Variables) : Prop :=
  ∃ added, after.names = before.names ++ added ∧
    ∀ name ∈ added, Text.isName name = true ∧ isSpecial name = false

namespace Variables

/-- A variable that is set keeps its place; a new one comes last. -/
theorem names_insert (vars : Variables) (name value : Text) :
    (vars.insert name value).names =
      if name ∈ vars.names then vars.names else vars.names ++ [name] := by
  obtain ⟨entries⟩ := vars
  show (insertEntry name value entries).map (·.1) =
    if name ∈ entries.map (·.1) then entries.map (·.1) else entries.map (·.1) ++ [name]
  induction entries with
  | nil => rfl
  | cons entry entries ih =>
      rw [insertEntry]
      by_cases same : entry.1 = name
      · simp [same]
      · have other : name ≠ entry.1 := Ne.symm same
        rw [if_neg (by simpa using same), List.map_cons, ih]
        simp only [List.map_cons, List.mem_cons, other, false_or]
        split <;> rfl

namespace GrowsTo

variable {before between after : Variables}

theorem refl (vars : Variables) : vars.GrowsTo vars :=
  ⟨[], (List.append_nil _).symm, nofun⟩

theorem trans (h : before.GrowsTo between) (h' : between.GrowsTo after) : before.GrowsTo after := by
  obtain ⟨first, names, proper⟩ := h
  obtain ⟨second, names', proper'⟩ := h'
  refine ⟨first ++ second, ?_, List.forall_mem_append.2 ⟨proper, proper'⟩⟩
  rw [names', names, List.append_assoc]

theorem insert (h : before.GrowsTo after) {name : Text} (isName : Text.isName name = true)
    (value : Text) : before.GrowsTo (after.insert name value) := by
  refine h.trans ?_
  by_cases known : name ∈ after.names
  · refine ⟨[], ?_, nofun⟩
    rw [names_insert, if_pos known, List.append_nil]
  · refine ⟨[name], ?_, List.forall_mem_singleton.2 ⟨isName, isSpecial_of_isName isName⟩⟩
    rw [names_insert, if_neg known]

end GrowsTo

end Variables

section

variable {World : Type} (host : Host World)

/-- Commands and process substitutions do not touch the variables. -/
theorem Host.maintains_growsTo (before : Variables) :
    host.Maintains (fun s => before.GrowsTo s.shell.vars) (fun _ => True) where
  hard _ := trivial
  define isName value _ grows := grows.insert isName value
  advance _ _ grows := grows
  command _ := runCommand_ensures id fun _ grows => ⟨grows, trivial⟩
  start _ := startPaths_ensures id fun _ grows => ⟨grows, trivial⟩

/-- One expansion, which is finished if it fails. -/
theorem growsTo_expand (command : Command) (s : Session World) :
    s.shell.vars.GrowsTo (s.expand host command).2.shell.vars := by
  have grows := ((host.maintains_growsTo s.shell.vars).expandArguments command (.refl _)).1
  unfold Session.expand
  dsimp only
  split <;> exact grows

/-- The sessions of a sequence of expansions: the one before the first, and the one after each of them. -/
def Session.history (s : Session World) : List Command → List (Session World)
  | [] => [s]
  | command :: commands => s :: history (s.expand host command).2 commands

theorem growsTo_of_mem_history {commands : List Command} {s t : Session World}
    (mem : t ∈ s.history host commands) : s.shell.vars.GrowsTo t.shell.vars := by
  induction commands generalizing s with
  | nil =>
      obtain rfl := List.mem_singleton.1 mem
      exact .refl _
  | cons command commands ih =>
      rcases List.mem_cons.1 mem with rfl | later
      · exact .refl _
      · exact (growsTo_expand host command s).trans (ih later)

/-- **Variables are only ever added.**  Along any sequence of expansions the names of the variables at one
point are the first names at every later point, in the same order, and all that was added in between are
names of variables. -/
theorem pairwise_history_growsTo (commands : List Command) (s : Session World) :
    (s.history host commands).Pairwise fun before after =>
      before.shell.vars.GrowsTo after.shell.vars := by
  induction commands generalizing s with
  | nil => exact List.pairwise_singleton _ _
  | cons command commands ih =>
      refine List.pairwise_cons.2 ⟨fun t later => ?_, ih _⟩
      exact (growsTo_expand host command s).trans (growsTo_of_mem_history host later)

end

end ShellWord
