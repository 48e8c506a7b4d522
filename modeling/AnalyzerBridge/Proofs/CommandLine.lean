/-
What the command line prints about a file.

* `printOutcome_eq` — every outcome can be printed, and `printed` is what is printed;
* `carryOut_lint`, `run_lint` — the scan alone prints the outcome of its findings in
  the bytes;
* `run_check_scanOnly` — a check that leaves the analyzer out prints the outcome of the
  scan of the text, as long as nothing else is configured;
* `lint_agrees_iff` — when the two say the same of a file.
-/
import AnalyzerBridge.CommandLine.Basic
import AnalyzerBridge.Proofs.Coordinator
import AnalyzerBridge.Proofs.Record
import AnalyzerBridge.Proofs.Relocation

namespace AnalyzerBridge.CommandLine

variable {ε : Type}

/-- What is printed about an outcome. -/
def printed (o : Outcome) : Printed where
  stdout := Json.pretty o.toRecord.toValue ++ "\n"
  stderr := match o.caveat with
    | none | some "" => ""
    | some caveat => caveat ++ "\n"
  exitCode := if o.success then 0 else 1

theorem printOutcome_eq (o : Outcome) : printOutcome o = .ok (printed o) := by
  rw [printOutcome, o.record_eq]
  rfl

/-! ### Invocations of a file -/

/-- The text is an operand of the command line that names a file. -/
structure NamesFile (file : String) : Prop where
  operand : isOption file = false
  free : (PurePath.parse file).hasNull = false

variable {setup : Setup ε} {file : String}

theorem NamesFile.ne_dashes (h : NamesFile file) : (file == "--") = false := by
  rw [beq_eq_false_iff_ne]
  rintro rfl
  exact absurd h.operand (by decide)

theorem NamesFile.file_eq (h : NamesFile file) (flags : List String)
    (values : List (String × String)) : Given.file ⟨flags, values, [file]⟩ = .ok file := by
  show readPath file = .ok file
  rw [readPath, h.free]
  rfl

theorem ofArguments_lint (h : NamesFile file) :
    Invocation.ofArguments ["lint", file] = .ok (.lint file) := by
  have hread : ({} : Options).read [file] = .ok { operands := [file] } := by
    simp [Options.read, Options.read?, h.ne_dashes, h.operand]
  show readCommand "lint" [file] = _
  simp only [readCommand, hread]
  show (Given.file ⟨[], [], [file]⟩).map Invocation.lint = _
  rw [h.file_eq]
  rfl

theorem ofArguments_check (h : NamesFile file) :
    Invocation.ofArguments ["check", file, "--heuristics-only"] =
      .ok (.check file none none true false) := by
  have hread : ({ flags := ["--heuristics-only", "--strict"],
                  valued := ["--root", "--timeout-ms"] } : Options).read
      [file, "--heuristics-only"] = .ok ⟨["--heuristics-only"], [], [file]⟩ := by
    rw [Options.read, Options.read?, h.ne_dashes, h.operand]
    rfl
  show readCommand "check" [file, "--heuristics-only"] = _
  simp only [readCommand, hread]
  show (Given.file ⟨["--heuristics-only"], [], [file]⟩).map
    (fun f => Invocation.check f none none true false) = _
  rw [h.file_eq]
  rfl

/-! ### Settings without a settings file -/

theorem hasNull_join {base : PurePath} (h : base.hasNull = false) :
    (base.join (PurePath.parse Settings.fileName)).hasNull = false := by
  have hname : PurePath.parse Settings.fileName = ⟨"", ["ergols.toml"]⟩ := by decide +kernel
  rw [hname, PurePath.join, if_neg (by decide), PurePath.hasNull, List.any_append]
  rw [PurePath.hasNull] at h
  rw [h]
  decide

theorem hasNull_parent {p : PurePath} (h : p.hasNull = false) : p.parent.hasNull = false := by
  rw [PurePath.hasNull, List.any_eq_false] at h ⊢
  exact fun part hpart => h part (List.mem_of_mem_dropLast hpart)

/-- Without a settings file and variables, only what the options say is not built in. -/
theorem resolve_unset {files : Files} {root : PurePath} (hroot : root.hasNull = false)
    (hfile : files (Settings.filePath (some root) none) = .missing) (upper : Table)
    (room : Toml.Room) :
    Settings.resolve files (some root) none {} upper room =
      Settings.ofLayers (some root) (Settings.overlay upper []) [] := by
  have hload : Settings.load files (some root) none room = .ok [] := by
    have hpath : (Settings.filePath (some root) none).hasNull = false := hasNull_join hroot
    rw [Settings.load, hpath, hfile]
    rfl
  rw [Settings.resolve, hload]
  rfl

/-- The settings of a check that leaves the analyzer out. -/
def scanOnly (root : PurePath) : Settings where
  enabled := false
  args := Settings.defaultArguments (Settings.jarPath (some root) .null).text

theorem resolve_scanOnly {files : Files} {root : PurePath} (hroot : root.hasNull = false)
    (hfile : files (Settings.filePath (some root) none) = .missing) (room : Toml.Room) :
    Settings.resolve files (some root) none {} (overrides .null true false) room =
      .ok (scanOnly root) := by
  rw [resolve_unset hroot hfile]
  rfl

/-! ### What is printed -/

/-- A coordinator without an analyzer and without listeners answers with the scan. -/
theorem analyze_disabled (c : Coordinator ε) (hdisabled : c.settings.enabled = false)
    (hlistener : c.listener = none) (request : Request) (w : Workspace ε) :
    ∃ w', c.analyze request none w = (.ok (c.settings.scanOutcome request.source), w') := by
  have htell : Coordinator.tell none request (c.settings.scanOutcome request.source)
      { w with session := (Coordinator.entry request w.session).2 } =
        (.ok (), { w with session := (Coordinator.entry request w.session).2 }) := rfl
  have hanswer := Coordinator.answer_of_tell c request htell (Coordinator.entry request w.session).1
  rw [hdisabled] at hanswer
  have hresult : (c.analyze request none w).1 = .ok (c.settings.scanOutcome request.source) := by
    rw [Coordinator.analyze_apply, hlistener]
    exact congrArg Prod.fst hanswer
  exact ⟨(c.analyze request none w).2, Prod.ext hresult rfl⟩

theorem scanOutcome_scanOnly (root : PurePath) (source : String) :
    (scanOnly root).scanOutcome source = .ofFindings .heuristic (Scan.findings source.toList) := rfl

theorem analyze_scanOnly {root : PurePath} (hroot : root.hasNull = false)
    (henv : setup.environment = {})
    (hfile : setup.files (Settings.filePath (some root) none) = .missing) (source : String)
    (w : Workspace ε) :
    ∃ w', analyze setup source (some root) .null true false w =
      (.ok (.ofFindings .heuristic (Scan.findings source.toList)), w') := by
  have hresolve : Settings.resolve setup.files (some root) none setup.environment
      (overrides .null true false) setup.room = .ok (scanOnly root) := by
    rw [henv]
    exact resolve_scanOnly hroot hfile setup.room
  have hsettings : (Act.ofExcept (Settings.resolve setup.files (some root) none setup.environment
      (overrides .null true false) setup.room) : Act (Workspace ε) Settings) w =
        (.ok (scanOnly root), w) := by
    rw [hresolve, Act.ofExcept_apply]
  obtain ⟨w', hanswer⟩ := analyze_disabled
    { settings := scanOnly root, invoke := setup.invoke, depth := setup.depth } rfl rfl
    { source := source, id := requestName, deadlineMs := (scanOnly root).timeoutMs } w
  rw [scanOutcome_scanOnly] at hanswer
  refine ⟨w', ?_⟩
  rw [analyze, Act.run_bind hsettings]
  exact hanswer

/-- The scan alone prints the outcome of its findings in the bytes of a file. -/
theorem carryOut_lint {bytes : List UInt8} (hbytes : setup.files.contentOf file = .bytes bytes)
    (w : Workspace ε) :
    carryOut setup (.lint file) w = (.ok (.printed (printed (lintOutcome bytes))), w) := by
  simp only [carryOut, hbytes, printOutcome_eq]
  rfl

theorem run_lint (h : NamesFile file) {bytes : List UInt8}
    (hbytes : setup.files.contentOf file = .bytes bytes) (w : Workspace ε) :
    run setup ["lint", file] w = (.ok (.printed (printed (lintOutcome bytes))), w) := by
  rw [run, ofArguments_lint h]
  exact carryOut_lint hbytes w

/-- A check that leaves the analyzer out prints the outcome of the scan of the text, as long as nothing
else is configured. -/
theorem run_check_scanOnly (h : NamesFile file) {bytes : List UInt8}
    (hbytes : setup.files.contentOf file = .bytes bytes) (henv : setup.environment = {})
    (hfile : setup.files (Settings.filePath (some (PurePath.parse file).parent) none) = .missing)
    (w : Workspace ε) :
    ∃ w', run setup ["check", file, "--heuristics-only"] w =
      (.ok (.printed (printed (.ofFindings .heuristic
        (Scan.findings (Text.unifyNewlines (Text.Utf8.decodeLossy bytes)))))), w') := by
  have hroot : (PurePath.parse file).parent.hasNull = false := hasNull_parent h.free
  obtain ⟨w', hanalyze⟩ := analyze_scanOnly hroot henv hfile (sourceText bytes) w
  have hchars : (sourceText bytes).toList = Text.unifyNewlines (Text.Utf8.decodeLossy bytes) :=
    String.toList_ofList
  rw [hchars] at hanalyze
  refine ⟨w', ?_⟩
  rw [run, ofArguments_check h]
  simp only [carryOut, hbytes]
  refine (Act.run_bind hanalyze _).trans ?_
  rw [printOutcome_eq]
  rfl

/-! ### The two scans of a file -/

/-- The scan alone and a check that leaves the analyzer out print the same success and the same findings of
a file exactly if no finding is below a `\r\n` and no declaration stops at a lone carriage return, and then
they print the same altogether: the check places its findings in the text with unified newlines, where also
such a declaration is unfinished. -/
theorem lint_agrees_iff (h : NamesFile file) {bytes : List UInt8}
    (hbytes : setup.files.contentOf file = .bytes bytes) (henv : setup.environment = {})
    (hfile : setup.files (Settings.filePath (some (PurePath.parse file).parent) none) = .missing)
    (w : Workspace ε) {text : List Char} (htext : Text.Utf8.decodeLossy bytes = text) :
    ∃ linted checked : Outcome,
      run setup ["lint", file] w = (.ok (.printed (printed linted)), w) ∧
      (∃ w', run setup ["check", file, "--heuristics-only"] w =
        (.ok (.printed (printed checked)), w')) ∧
      linted.errors = Scan.findings text ∧
      checked.errors = (Scan.bracketFindings text ++
        (Scan.stopCheck.sweep none text).map (fun p => Scan.unfinishedFinding p.1 p.2) ++
          Scan.arrowFindings text).map (Scan.relocated text) ∧
      ((checked.success = linted.success ∧ checked.errors = linted.errors) ↔
        (∀ d ∈ linted.errors, ∀ i : Nat, d.offset = some (i : Int) →
          ¬ ['\r', '\n'] <:+: text.take (i + 1)) ∧ ¬ Scan.StopsAtReturn text) ∧
      (checked.errors = linted.errors → printed checked = printed linted) := by
  subst htext
  refine ⟨_, _, run_lint h hbytes w, run_check_scanOnly h hbytes henv hfile w, rfl,
    Scan.findings_unifyNewlines _, ?_, fun hsame => ?_⟩
  · refine Iff.trans ?_ (Scan.findings_unifyNewlines_eq_iff _)
    constructor
    · exact fun hagree => hagree.2
    · exact fun hsame => ⟨congrArg List.isEmpty hsame, hsame⟩
  · exact congrArg (fun found => printed (.ofFindings .heuristic found)) hsame

/-- A folder that holds one file and nothing else. -/
def holding (bytes : List UInt8) : Setup Unit where
  files := fun path => if path = PurePath.parse "f.es" then .bytes bytes else .missing
  invoke := fun _ _ => pure {}

theorem namesFile_holding : NamesFile "f.es" := ⟨by decide, by decide⟩

theorem contentOf_holding (bytes : List UInt8) :
    (holding bytes).files.contentOf "f.es" = .bytes bytes := rfl

theorem settings_holding (bytes : List UInt8) :
    (holding bytes).files (Settings.filePath (some (PurePath.parse "f.es").parent) none) =
      .missing := rfl

/-- The two say the same of a parenthesis that nothing closes. -/
theorem lint_agrees_unclosed : ∃ (linted checked : Outcome) (w' : Workspace Unit),
    run (holding [0x28]) ["lint", "f.es"] { surroundings := () } =
      (.ok (.printed (printed linted)), { surroundings := () }) ∧
    run (holding [0x28]) ["check", "f.es", "--heuristics-only"] { surroundings := () } =
      (.ok (.printed (printed checked)), w') ∧
    linted.errors.length = 1 ∧ printed checked = printed linted := by
  have htext : Text.Utf8.decodeLossy [0x28] = ['('] := by decide +kernel
  obtain ⟨linted, checked, hlint, ⟨w', hcheck⟩, hlinted, -, hagree, hprinted⟩ :=
    lint_agrees_iff namesFile_holding (contentOf_holding [0x28]) rfl (settings_holding [0x28])
      { surroundings := () } htext
  have hlength : linted.errors.length = 1 := by
    rw [hlinted]
    decide +kernel
  have hreturn : '\r' ∉ ['('] := by decide
  refine ⟨linted, checked, w', hlint, hcheck, hlength, hprinted (hagree.mpr ⟨?_, ?_⟩).2⟩
  · intro d _ i _ hpair
    exact hreturn (List.mem_of_mem_take (hpair.subset List.mem_cons_self))
  · rintro ⟨before, b, gap, c, after, hcut, -⟩
    refine hreturn ?_
    rw [hcut]
    simp

/-- A closer below a `\r\n`: the scan alone counts both characters, and the check counts one. -/
theorem lint_disagrees_pair : ∃ (linted checked : Outcome) (w' : Workspace Unit),
    run (holding [0x0D, 0x0A, 0x29]) ["lint", "f.es"] { surroundings := () } =
      (.ok (.printed (printed linted)), { surroundings := () }) ∧
    run (holding [0x0D, 0x0A, 0x29]) ["check", "f.es", "--heuristics-only"] { surroundings := () } =
      (.ok (.printed (printed checked)), w') ∧
    linted.errors.map Descriptor.offset = [some 2] ∧
    checked.errors.map Descriptor.offset = [some 1] := by
  have htext : Text.Utf8.decodeLossy [0x0D, 0x0A, 0x29] = ['\r', '\n', ')'] := by decide +kernel
  obtain ⟨w', hcheck⟩ := run_check_scanOnly namesFile_holding
    (contentOf_holding [0x0D, 0x0A, 0x29]) rfl (settings_holding _) { surroundings := () }
  refine ⟨_, _, w', run_lint namesFile_holding (contentOf_holding _) _, hcheck, ?_, ?_⟩
  · show (Scan.findings (Text.Utf8.decodeLossy [0x0D, 0x0A, 0x29])).map Descriptor.offset = _
    rw [htext]
    decide +kernel
  · show (Scan.findings (Text.unifyNewlines
      (Text.Utf8.decodeLossy [0x0D, 0x0A, 0x29]))).map Descriptor.offset = _
    rw [htext]
    decide +kernel

end AnalyzerBridge.CommandLine
