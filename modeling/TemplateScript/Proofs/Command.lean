import Mathlib.Data.List.Basic
import TemplateScript.Command

/-!
# Many files and each file alone

A run over many files is made of the runs over each of them.

* `Command.Action.reportOn` — what one file adds to the report, read or not;
* `Command.runFiles_eq` — the outcome after a list of files, from what each of them adds;
* `Command.run_alone` — the outcome for one file;
* `Command.run_eq_each` — what is printed for many files is what is printed for each of them alone,
  one after the other, and the run fails exactly if one of those runs does.
-/

namespace TemplateScript.Command

variable {name path reason : String} {action : Action} {options : Options}
  {read : String → Except String Bytes} {arguments paths : List String}

/-! ### What a file adds -/

/-- What an action adds to the report for the file at a path. -/
def Action.reportOn (action : Action) (options : Options) (read : String → Except String Bytes)
    (path : String) : Report :=
  match read path with
  | .error reason => .failure path reason
  | .ok content => action.run options path content

/-- A file that cannot be read is a failure. -/
theorem reportOn_of_error (h : read path = .error reason) :
    action.reportOn options read path = .failure path reason := by
  rw [Action.reportOn, h]

theorem reportOn_of_ok {content : Bytes} (h : read path = .ok content) :
    action.reportOn options read path = action.run options path content := by
  rw [Action.reportOn, h]

/-- A file with an error is a failure, unless only its segments are listed. -/
theorem run_of_error {content : Bytes} {e : LexError} (lexes : action ≠ .segments)
    (h : Template.lex content options = .error e) :
    action.run options path content = .failure path e.message := by
  cases action with
  | segments => exact absurd rfl lexes
  | tokens => rw [Action.run, h]
  | check => rw [Action.run, h]

/-- Nothing else is a failure. -/
theorem failed_run_of_ok {content : Bytes}
    (h : action = .segments ∨ ∃ blocks, Template.lex content options = .ok blocks) :
    (action.run options path content).failed = false := by
  rcases h with rfl | ⟨blocks, hblocks⟩
  · rfl
  · cases action with
    | segments => rfl
    | tokens => rw [Action.run, hblocks]
    | check => rw [Action.run, hblocks]

/-! ### Many files -/

/-- One file is what it adds to the report before the others. -/
theorem runFiles_cons (known : Action.ofName? name = some action) (report : Report) :
    runFiles name options read report (path :: paths) =
      runFiles name options read (report ++ action.reportOn options read path) paths := by
  rw [runFiles]
  cases hread : read path with
  | error reason => rw [reportOn_of_error hread]
  | ok content =>
    rw [reportOn_of_ok hread, known]

/-- The outcome after the files is made of what each of them adds, in their order. -/
theorem runFiles_eq (known : Action.ofName? name = some action) (report : Report) :
    runFiles name options read report paths =
      { status := if report.failed = true ∨
          ∃ path ∈ paths, (action.reportOn options read path).failed = true then 1 else 0
        output := report.output ++
          String.join (paths.map fun path => (action.reportOn options read path).output)
        errors := report.errors ++
          String.join (paths.map fun path => (action.reportOn options read path).errors) } := by
  induction paths generalizing report with
  | nil =>
    rw [runFiles, Report.outcome]
    simp only [List.not_mem_nil, false_and, exists_false, or_false, List.map_nil, String.join_nil,
      String.append_empty]
  | cons path paths ih =>
    have hfailed : (report ++ action.reportOn options read path).failed =
        (report.failed || (action.reportOn options read path).failed) := rfl
    have houtput : (report ++ action.reportOn options read path).output =
        report.output ++ (action.reportOn options read path).output := rfl
    have herrors : (report ++ action.reportOn options read path).errors =
        report.errors ++ (action.reportOn options read path).errors := rfl
    rw [runFiles_cons known, ih, hfailed, houtput, herrors]
    simp only [List.map_cons, String.join_cons, String.append_assoc, List.exists_mem_cons_iff,
      Bool.or_eq_true, or_assoc]

/-! ### One file alone -/

theorem optionsOf_eq :
    optionsOf arguments = if "--strict" ∈ arguments then Options.strict {} else {} := by
  simp only [optionsOf, List.contains_iff_mem]
  rfl

theorem pathsOf_eq : pathsOf arguments = arguments.filter (· ≠ "--strict") := by
  rw [pathsOf]
  refine List.filter_congr fun argument _ => ?_
  rw [bne, decide_not]
  rfl

/-- The arguments after the command for one file of a list: the flag, if it is anywhere in the list,
and the path. -/
def alone (arguments : List String) (path : String) : List String :=
  if strictFlag ∈ arguments then [strictFlag, path] else [path]

theorem optionsOf_alone (file : path ≠ strictFlag) :
    optionsOf (alone arguments path) = optionsOf arguments := by
  rw [alone, optionsOf, optionsOf]
  by_cases hstrict : strictFlag ∈ arguments
  · rw [if_pos hstrict, if_pos (by simp), if_pos (List.contains_iff_mem.mpr hstrict)]
  · rw [if_neg hstrict, if_neg (by simpa using file.symm),
      if_neg (by rwa [List.contains_iff_mem])]

theorem pathsOf_alone (file : path ≠ strictFlag) : pathsOf (alone arguments path) = [path] := by
  rw [alone]
  split
  · simp [pathsOf, file]
  · simp [pathsOf, file]

theorem exists_ofName? (known : name ∈ ["segments", "tokens", "check"]) :
    ∃ action, Action.ofName? name = some action ∧ (name = "segments" ↔ action = .segments) ∧
      ¬ (name = "--help" ∨ name = "-h") := by
  simp only [List.mem_cons, List.not_mem_nil, or_false] at known
  rcases known with rfl | rfl | rfl
  · exact ⟨.segments, rfl, by decide, by decide⟩
  · exact ⟨.tokens, rfl, by decide, by decide⟩
  · exact ⟨.check, rfl, by decide, by decide⟩

/-- A run over files that are named goes through them. -/
theorem run_eq_runFiles (command : ¬ (name = "--help" ∨ name = "-h"))
    (files : pathsOf arguments ≠ []) :
    run read (name :: arguments) =
      runFiles name (optionsOf arguments) read {} (pathsOf arguments) := by
  rw [run, if_neg command, if_neg files]

/-- The outcome for one file is what it adds to an empty report. -/
theorem run_alone (known : Action.ofName? name = some action)
    (command : ¬ (name = "--help" ∨ name = "-h")) (file : path ≠ strictFlag) :
    run read (name :: alone arguments path) =
      (action.reportOn (optionsOf arguments) read path).outcome := by
  rw [run_eq_runFiles command (by rw [pathsOf_alone file]; exact List.cons_ne_nil _ _),
    pathsOf_alone file, optionsOf_alone file, runFiles_cons known, runFiles]
  generalize action.reportOn (optionsOf arguments) read path = report
  show Report.outcome ⟨"" ++ report.output, "" ++ report.errors, false || report.failed⟩ = _
  rw [String.empty_append, String.empty_append, Bool.false_or]

theorem status_outcome_eq_one_iff (report : Report) :
    report.outcome.status = 1 ↔ report.failed = true := by
  have hflag : ∀ failed : Bool, (if failed = true then 1 else 0 : UInt32) = 1 ↔ failed = true := by
    decide
  exact hflag report.failed

/-! ### The run -/

/-- What is printed for many files is what is printed for each of them alone, in the order of the
arguments, and the exit status is 1 exactly if it is for one of them, otherwise 0.  A file that cannot
be read, or has an error where it is lexed, prints nothing but one message, and its status is 1; the
status of any other file is 0. -/
theorem run_eq_each (read : String → Except String Bytes) (name : String) (arguments : List String)
    (known : name ∈ ["segments", "tokens", "check"])
    (files : ∃ argument ∈ arguments, argument ≠ "--strict") :
    let options : Options := if "--strict" ∈ arguments then Options.strict {} else {}
    let paths := arguments.filter (· ≠ "--strict")
    let all := run read (name :: arguments)
    let each := fun path => run read (name :: alone arguments path)
    all.output = String.join (paths.map fun path => (each path).output) ∧
      all.errors = String.join (paths.map fun path => (each path).errors) ∧
      all.status = (if ∃ path ∈ paths, (each path).status = 1 then 1 else 0) ∧
      ∀ path ∈ paths,
        (∀ reason, read path = .error reason →
          each path = ⟨1, "", path ++ ": " ++ reason ++ "\n"⟩) ∧
        ∀ content, read path = .ok content →
          (∀ e, name ≠ "segments" → Template.lex content options = .error e →
            each path = ⟨1, "", path ++ ": " ++ e.message ++ "\n"⟩) ∧
          ((name = "segments" ∨ ∃ blocks, Template.lex content options = .ok blocks) →
            (each path).status = 0) := by
  intro options paths all each
  obtain ⟨action, haction, hsegments, hcommand⟩ := exists_ofName? known
  have hoptions : options = optionsOf arguments := optionsOf_eq.symm
  have hpaths : paths = pathsOf arguments := pathsOf_eq.symm
  have hmem : ∀ path ∈ paths, path ≠ strictFlag := by
    intro path hpath
    exact of_decide_eq_true (List.mem_filter.mp hpath).2
  have hall : all = runFiles name (optionsOf arguments) read {} paths := by
    rw [hpaths]
    refine run_eq_runFiles hcommand ?_
    rw [← hpaths]
    obtain ⟨argument, hargument, hne⟩ := files
    exact List.ne_nil_of_mem (List.mem_filter.mpr ⟨hargument, by simpa using hne⟩)
  have heach : ∀ path ∈ paths, each path = (action.reportOn options read path).outcome := by
    intro path hpath
    rw [hoptions]
    exact run_alone haction hcommand (hmem path hpath)
  have hstatus : ∀ path ∈ paths,
      ((action.reportOn options read path).failed = true ↔ (each path).status = 1) := by
    intro path hpath
    rw [heach path hpath, status_outcome_eq_one_iff]
  rw [hall, runFiles_eq haction, ← hoptions]
  refine ⟨?_, ?_, ?_, fun path hpath => ?_⟩
  · show "" ++ _ = _
    rw [String.empty_append]
    exact congrArg String.join (List.map_congr_left fun path hpath => by rw [heach path hpath]; rfl)
  · show "" ++ _ = _
    rw [String.empty_append]
    exact congrArg String.join (List.map_congr_left fun path hpath => by rw [heach path hpath]; rfl)
  · have hiff : (({} : Report).failed = true ∨
        ∃ path ∈ paths, (action.reportOn options read path).failed = true) ↔
          ∃ path ∈ paths, (each path).status = 1 := by
      rw [or_iff_right Bool.false_ne_true]
      exact exists_congr fun path => and_congr_right fun hpath => hstatus path hpath
    simp only [hiff]
  · rw [heach path hpath]
    refine ⟨fun reason hread => ?_, fun content hread => ⟨fun e hname hlex => ?_, fun hok => ?_⟩⟩
    · rw [reportOn_of_error hread]
      rfl
    · rw [reportOn_of_ok hread, run_of_error (fun h => hname (hsegments.mpr h)) hlex]
      rfl
    · rw [reportOn_of_ok hread, Report.outcome, failed_run_of_ok (hok.imp_left hsegments.mp)]
      rfl

/-- Four files, of which one is named twice, one cannot be read and one ends inside a string: the flag
stands after the first of them and holds for it too. -/
theorem run_eq_each_tokens :
    let read : String → Except String Bytes := fun path =>
      if path = "a" then .ok (ascii "x<?php $a ?>")
      else if path = "b" then .ok (ascii "<?php 'u")
      else .error "no such file"
    let arguments := ["a", "--strict", "gone", "b", "a"]
    let listed := "   1 Dollar                   $\n   1 Identifier               a\n"
    "tokens" ∈ ["segments", "tokens", "check"] ∧ (∃ argument ∈ arguments, argument ≠ "--strict") ∧
      (run read ("tokens" :: arguments)).output = listed ++ listed ∧
      (run read ("tokens" :: arguments)).errors =
        "gone: no such file\nb: unterminated string at line 1, offset 6\n" ∧
      (run read ("tokens" :: arguments)).status = 1 ∧
      run read ("tokens" :: alone arguments "gone") = ⟨1, "", "gone: no such file\n"⟩ ∧
      (run read ("tokens" :: alone arguments "a")).status = 0 := by
  intro read arguments listed
  have known : "tokens" ∈ ["segments", "tokens", "check"] := by decide
  have files : ∃ argument ∈ arguments, argument ≠ "--strict" := by decide
  obtain ⟨houtput, herrors, hstatus, heach⟩ := run_eq_each read "tokens" arguments known files
  have hgone := (heach "gone" (by decide)).1 "no such file" rfl
  have hlex : ∃ blocks, Template.lex (ascii "x<?php $a ?>") (Options.strict {}) = .ok blocks := by
    have hok : (Template.lex (ascii "x<?php $a ?>") (Options.strict {})).toBool = true := by
      decide +kernel
    match h : Template.lex (ascii "x<?php $a ?>") (Options.strict {}) with
    | .ok blocks => exact ⟨blocks, rfl⟩
    | .error e => rw [h] at hok; cases hok
  have ha := ((heach "a" (by decide)).2 (ascii "x<?php $a ?>") rfl).2 (Or.inr hlex)
  exact ⟨known, files, houtput.trans (by decide +kernel), herrors.trans (by decide +kernel),
    hstatus.trans (by decide +kernel), hgone, ha⟩

end TemplateScript.Command
