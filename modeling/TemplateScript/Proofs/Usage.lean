import TemplateScript.Proofs.Command

/-!
# Wrong usage

A command line asks for nothing that can be done if it has no command, one that means no action, or no
file.  What a command means is looked up at the first file that can be read, so that an unknown command
goes unnoticed where no file can be read.

* `Command.Misused` and `Command.Overlooked` — wrong usage, and wrong usage that goes unnoticed;
* `Command.output_runFiles_of_unknown`, `Command.status_runFiles_of_unknown` and
  `Command.status_runFiles_of_unread` — what an unknown command comes to over a list of files;
* `Command.runFiles_of_unread` — files that cannot be read leave no trace of the command;
* `Command.status_eq_two_iff` — a run exits with status 2 exactly after wrong usage that is noticed.
-/

namespace TemplateScript.Command

variable {name path : String} {options : Options} {read : String → Except String Bytes}
  {arguments rest paths : List String}

/-- No command, a command that means no action, or no file. -/
inductive Misused : List String → Prop
  | missing : Misused []
  | unknown {name : String} {rest : List String}
      (unknown : name ∉ ["segments", "tokens", "check"]) : Misused (name :: rest)
  | fileless {name : String} {rest : List String}
      (fileless : ∀ argument ∈ rest, argument = "--strict") : Misused (name :: rest)

/-- An unknown command, which does not ask for help, on files that cannot be read. -/
inductive Overlooked (read : String → Except String Bytes) : List String → Prop
  | intro {name : String} {rest : List String}
      (unknown : name ∉ ["segments", "tokens", "check"])
      (helpless : ¬ (name = "--help" ∨ name = "-h"))
      (files : ∃ argument ∈ rest, argument ≠ "--strict")
      (unread : ∀ path ∈ rest, path ≠ "--strict" → ∃ reason, read path = .error reason) :
      Overlooked read (name :: rest)

/-! ### Unknown commands -/

theorem ofName?_eq_none_iff :
    Action.ofName? name = none ↔ name ∉ ["segments", "tokens", "check"] := by
  constructor
  · intro h known
    obtain ⟨action, haction, -⟩ := exists_ofName? known
    rw [h] at haction
    cases haction
  · intro unknown
    unfold Action.ofName?
    split
    · exact absurd (by decide) unknown
    · exact absurd (by decide) unknown
    · exact absurd (by decide) unknown
    · rfl

/-- An unknown command prints nothing. -/
theorem output_runFiles_of_unknown (unknown : Action.ofName? name = none) (report : Report) :
    (runFiles name options read report paths).output = report.output := by
  induction paths generalizing report with
  | nil => rfl
  | cons path paths ih =>
    rw [runFiles]
    cases read path with
    | error reason => exact (ih _).trans (String.append_empty)
    | ok content =>
      rw [unknown]
      rfl

/-- The first file that can be read ends the run of an unknown command. -/
theorem status_runFiles_of_unknown (unknown : Action.ofName? name = none) (report : Report)
    (readable : ∃ path ∈ paths, ∃ content, read path = .ok content) :
    (runFiles name options read report paths).status = 2 := by
  induction paths generalizing report with
  | nil =>
    obtain ⟨path, hpath, -⟩ := readable
    cases hpath
  | cons path paths ih =>
    rw [runFiles]
    cases hread : read path with
    | error reason =>
      refine ih _ ?_
      obtain ⟨path', hpath', content, hcontent⟩ := readable
      rcases List.mem_cons.mp hpath' with rfl | hmem
      · rw [hread] at hcontent
        cases hcontent
      · exact ⟨path', hmem, content, hcontent⟩
    | ok content =>
      rw [unknown]
      rfl

/-! ### Files that cannot be read -/

/-- Where no file can be read, the outcome is the same for every command. -/
theorem runFiles_of_unread (name' : String) (report : Report)
    (unread : ∀ path ∈ paths, ∃ reason, read path = .error reason) :
    runFiles name options read report paths = runFiles name' options read report paths := by
  induction paths generalizing report with
  | nil => rfl
  | cons path paths ih =>
    obtain ⟨reason, hread⟩ := unread path List.mem_cons_self
    rw [runFiles, runFiles, hread]
    exact ih _ fun path hpath => unread path (List.mem_cons_of_mem _ hpath)

/-- A run over files of which none can be read fails. -/
theorem status_runFiles_of_unread (report : Report)
    (unread : ∀ path ∈ paths, ∃ reason, read path = .error reason)
    (failed : report.failed = true ∨ paths ≠ []) :
    (runFiles name options read report paths).status = 1 := by
  induction paths generalizing report with
  | nil => exact (status_outcome_eq_one_iff report).mpr (failed.resolve_right fun h => h rfl)
  | cons path paths ih =>
    obtain ⟨reason, hread⟩ := unread path List.mem_cons_self
    rw [runFiles, hread]
    refine ih _ (fun path hpath => unread path (List.mem_cons_of_mem _ hpath)) (Or.inl ?_)
    exact Bool.or_true report.failed

/-! ### The run -/

theorem mem_pathsOf : path ∈ pathsOf rest ↔ path ∈ rest ∧ path ≠ "--strict" := by
  rw [pathsOf_eq, List.mem_filter, decide_eq_true_iff]

theorem pathsOf_eq_nil_iff : pathsOf rest = [] ↔ ∀ argument ∈ rest, argument = "--strict" := by
  simp only [pathsOf_eq, List.filter_eq_nil_iff, decide_eq_true_iff, not_not]

/-- What goes unnoticed, in terms of the paths that the run goes through. -/
theorem overlooked_iff : Overlooked read (name :: rest) ↔
    name ∉ ["segments", "tokens", "check"] ∧ ¬ (name = "--help" ∨ name = "-h") ∧
      pathsOf rest ≠ [] ∧ ∀ path ∈ pathsOf rest, ∃ reason, read path = .error reason := by
  constructor
  · rintro ⟨unknown, helpless, ⟨argument, hmem, hne⟩, unread⟩
    refine ⟨unknown, helpless, fun hnil => hne (pathsOf_eq_nil_iff.mp hnil argument hmem), ?_⟩
    intro path hpath
    obtain ⟨hmem, hne⟩ := mem_pathsOf.mp hpath
    exact unread path hmem hne
  · rintro ⟨unknown, helpless, hfiles, unread⟩
    obtain ⟨path, hpath⟩ := List.exists_mem_of_ne_nil _ hfiles
    exact ⟨unknown, helpless, ⟨path, mem_pathsOf.mp hpath⟩,
      fun path hmem hne => unread path (mem_pathsOf.mpr ⟨hmem, hne⟩)⟩

/-- Wrong usage prints nothing, and it is noticed or it is an unknown command on files that cannot be
read. -/
theorem run_of_misused (misused : Misused arguments) :
    (run read arguments).output = "" ∧
      ((run read arguments).status = 2 ∧ ¬ Overlooked read arguments ∨
        (run read arguments).status = 1 ∧ Overlooked read arguments) := by
  match arguments with
  | [] => exact ⟨rfl, Or.inl ⟨rfl, fun h => by cases h⟩⟩
  | name :: rest =>
    by_cases help : name = "--help" ∨ name = "-h"
    · rw [run, if_pos help]
      exact ⟨rfl, Or.inl ⟨rfl, fun h => (overlooked_iff.mp h).2.1 help⟩⟩
    by_cases hfiles : pathsOf rest = []
    · rw [run, if_neg help, if_pos hfiles]
      exact ⟨rfl, Or.inl ⟨rfl, fun h => (overlooked_iff.mp h).2.2.1 hfiles⟩⟩
    have hunknown : name ∉ ["segments", "tokens", "check"] := by
      cases misused with
      | unknown unknown => exact unknown
      | fileless fileless => exact absurd (pathsOf_eq_nil_iff.mpr fileless) hfiles
    -- files are named, so only the command can be wrong, and the first readable file tells
    have hname := ofName?_eq_none_iff.mpr hunknown
    rw [run_eq_runFiles help hfiles]
    refine ⟨output_runFiles_of_unknown hname {}, ?_⟩
    by_cases readable : ∃ path ∈ pathsOf rest, ∃ content, read path = .ok content
    · refine Or.inl ⟨status_runFiles_of_unknown hname {} readable, fun h => ?_⟩
      obtain ⟨path, hpath, content, hcontent⟩ := readable
      obtain ⟨reason, hreason⟩ := (overlooked_iff.mp h).2.2.2 path hpath
      rw [hcontent] at hreason
      cases hreason
    · have unread : ∀ path ∈ pathsOf rest, ∃ reason, read path = .error reason := by
        intro path hpath
        cases hread : read path with
        | error reason => exact ⟨reason, rfl⟩
        | ok content => exact absurd ⟨path, hpath, content, hread⟩ readable
      exact Or.inr ⟨status_runFiles_of_unread {} unread (Or.inr hfiles),
        overlooked_iff.mpr ⟨hunknown, help, hfiles, unread⟩⟩

/-- What goes unnoticed has the outcome that a known command has on the same files. -/
theorem run_of_overlooked {command : String} (overlooked : Overlooked read (name :: rest))
    (known : command ∈ ["segments", "tokens", "check"]) :
    run read (name :: rest) = run read (command :: rest) := by
  obtain ⟨-, helpless, hfiles, unread⟩ := overlooked_iff.mp overlooked
  obtain ⟨-, -, -, help⟩ := exists_ofName? known
  rw [run_eq_runFiles helpless hfiles, run_eq_runFiles help hfiles]
  exact runFiles_of_unread command {} unread

/-- A command that is known, on files that are named, does not exit with status 2. -/
theorem misused_of_status (h : (run read arguments).status = 2) : Misused arguments := by
  match arguments with
  | [] => exact .missing
  | name :: rest =>
    by_contra proper
    have known : name ∈ ["segments", "tokens", "check"] :=
      by_contra fun unknown => proper (.unknown unknown)
    have hfiles : pathsOf rest ≠ [] := fun hnil => proper (.fileless (pathsOf_eq_nil_iff.mp hnil))
    obtain ⟨action, haction, -, help⟩ := exists_ofName? known
    rw [run_eq_runFiles help hfiles, runFiles_eq haction] at h
    dsimp only at h
    split at h
    · exact absurd h (by decide)
    · exact absurd h (by decide)

/-- A run exits with status 2 exactly after wrong usage, unless the command is unknown and no file can
be read: then the run fails as it would with a known command.  Wrong usage prints nothing. -/
theorem status_eq_two_iff (read : String → Except String Bytes) (arguments : List String) :
    ((run read arguments).status = 2 ↔ Misused arguments ∧ ¬ Overlooked read arguments) ∧
      (Misused arguments → (run read arguments).output = "") ∧
      (Overlooked read arguments → Misused arguments ∧ (run read arguments).status = 1 ∧
        ∀ command ∈ ["segments", "tokens", "check"],
          run read arguments = run read (command :: arguments.tail)) := by
  refine ⟨⟨fun h => ?_, fun ⟨misused, noticed⟩ => ?_⟩, fun misused => (run_of_misused misused).1, ?_⟩
  · have misused := misused_of_status h
    refine ⟨misused, fun overlooked => ?_⟩
    rcases (run_of_misused misused).2 with ⟨-, noticed⟩ | ⟨hstatus, -⟩
    · exact noticed overlooked
    · rw [h] at hstatus
      exact absurd hstatus (by decide)
  · exact ((run_of_misused misused).2.resolve_right fun h => noticed h.2).1
  · rintro @⟨name, rest, unknown, helpless, files, unread⟩
    have misused : Misused (name :: rest) := .unknown unknown
    have overlooked : Overlooked read (name :: rest) := ⟨unknown, helpless, files, unread⟩
    refine ⟨misused, ?_, fun command known => run_of_overlooked overlooked known⟩
    exact ((run_of_misused misused).2.resolve_left fun h => h.2 overlooked).1

/-- An unknown command on two files, of which the second can be read, and on the first alone. -/
theorem status_eq_two_iff_second_file :
    let read : String → Except String Bytes := fun path =>
      if path = "a" then .ok (ascii "x") else .error "no such file"
    let both := ["dump", "gone", "--strict", "a"]
    let first := ["dump", "gone"]
    Misused both ∧ ¬ Overlooked read both ∧ (run read both).status = 2 ∧
      (run read both).output = "" ∧ Overlooked read first ∧ (run read first).status = 1 ∧
      run read first = run read ["check", "gone"] := by
  intro read both first
  have misused : Misused both := .unknown (by decide)
  have noticed : ¬ Overlooked read both := by
    intro overlooked
    obtain ⟨reason, hreason⟩ := (overlooked_iff.mp overlooked).2.2.2 "a" (by decide)
    cases hreason
  have overlooked : Overlooked read first := by
    refine ⟨by decide, by decide, ⟨"gone", by decide, by decide⟩, fun path hpath _ => ?_⟩
    cases List.mem_singleton.mp hpath
    exact ⟨"no such file", rfl⟩
  obtain ⟨hstatus, houtput, -⟩ := status_eq_two_iff read both
  obtain ⟨-, hfails, hsame⟩ := (status_eq_two_iff read first).2.2 overlooked
  exact ⟨misused, noticed, hstatus.mpr ⟨misused, noticed⟩, houtput misused, overlooked, hfails,
    hsame "check" (by decide)⟩

/-- An unknown command on a file that cannot be read exits with status 1, and without a message on the
command. -/
theorem status_ne_two_of_unread :
    let read : String → Except String Bytes := fun _ =>
      .error "No such file or directory (os error 2)"
    Misused ["dump", "gone"] ∧
      run read ["dump", "gone"] = ⟨1, "", "gone: No such file or directory (os error 2)\n"⟩ ∧
      (run read ["dump", "gone"]).status ≠ 2 :=
  ⟨.unknown (by decide), by decide +kernel, by decide +kernel⟩

end TemplateScript.Command
