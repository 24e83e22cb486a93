import LexFront.CommandLine
import LexFront.Proofs.Unit.Telling

/-!
# The two books of a run

A run that prints text keeps two books. The command line counts the files that were rejected and
those that could not be opened, and takes the rest for accepted. The ledger of the journal knows
nothing of that: it collects failures under the units that they came up in, and its summary counts
units with and without. If every file is given once the books agree, whether the lexemes are listed
beforehand or not. A file that cannot be opened is in neither column of the summary, since nothing
is recorded outside of units, and a file is rejected exactly if a failure is recorded under it.

A file given twice would be one unit of the ledger but count twice on the command line.

Key facts:

* `Pipeline.processFile_eq`, `Pipeline.tokenizeFile_eq`: to work on a file is to open it, and to
  work on its unit.
* `advances_processPath`: what one file adds to both books.
* `Balanced.foldl`: the books agree after any number of files.
* `books_agree`: what a run counts, prints and returns in the end.
-/

set_option autoImplicit false

namespace LexFront

/-! ### Opening a file -/

/-- A unit that was opened has the name of its path. -/
theorem SourceUnit.name_of_openFile {path : String} {found : Lookup} {unit : SourceUnit}
    (h : (openFile path found).1 = .ok unit) : unit.name = path := by
  have hfound : (openFound path found).1 = .ok unit := h
  cases found with
  | file size content =>
    rw [openFound] at hfound
    split at hfound
    · cases hfound
    · cases hfound
      rfl
  | notFile => cases hfound
  | missing => cases hfound
  | denied => cases hfound
  | failed message => cases hfound

namespace Pipeline

/-- The language and the unit that a path stands for, or why there is none. -/
def opened (path : String) (found : Lookup) (asked : Option Language) :
    Except PipelineError (Language × SourceUnit) :=
  match Language.resolve path asked with
  | .error e => .error e
  | .ok language =>
    match (SourceUnit.openFile path found).1 with
    | .error e => .error (.source e)
    | .ok unit => .ok (language, unit)

/-- What is said while a file is opened. -/
def saidOnOpening (path : String) (found : Lookup) (asked : Option Language) : List Emission :=
  match Language.resolve path asked with
  | .error _ => []
  | .ok _ => (SourceUnit.openFile path found).2.map .entry

variable (j : Journal) (path : String) (found : Lookup) (asked : Option Language)

theorem name_of_opened {path : String} {found : Lookup} {asked : Option Language}
    {language : Language} {unit : SourceUnit}
    (h : opened path found asked = .ok (language, unit)) : unit.name = path := by
  rw [opened] at h
  cases hr : Language.resolve path asked with
  | error e => rw [hr] at h; cases h
  | ok l =>
    rw [hr] at h
    cases ho : (SourceUnit.openFile path found).1 with
    | error e => rw [ho] at h; cases h
    | ok u =>
      rw [ho] at h
      cases h
      exact SourceUnit.name_of_openFile ho

/-- To parse a file is to open it, and to parse its unit. -/
theorem processFile_eq {δ : Type} [DiagnosticSink δ] (echo : δ) (preferences : Preferences) :
    processFile j path found asked echo preferences =
      let j := j.absorb (saidOnOpening path found asked)
      match opened path found asked with
      | .error e => (.error e, j)
      | .ok (language, unit) =>
        let (outcome, (collector, _), j) :=
          parseUnit j unit language (({} : Collector), echo) preferences
        (.ok ⟨language, outcome, collector.diagnostics, collector.dropped⟩,
          j.write <| (Event.debug "Unit processed").withContext
            [("unit", outcome.unit), ("accepted", toString outcome.accepted),
              ("diagnostics", toString collector.diagnostics.length)]) := by
  rw [processFile, opened, saidOnOpening]
  cases Language.resolve path asked with
  | error e => rfl
  | ok language =>
    simp only [openUnit]
    cases (SourceUnit.openFile path found).1 with
    | error e => rfl
    | ok unit => rfl

/-- To list a file is to open it, and to list its unit. -/
theorem tokenizeFile_eq (preferences : LexicalPreferences) :
    tokenizeFile j path found asked preferences =
      let j := j.absorb (saidOnOpening path found asked)
      match opened path found asked with
      | .error e => (.error e, j)
      | .ok (language, unit) =>
        let (records, j) := tokenizeUnit j unit language preferences
        (.ok records, j) := by
  rw [tokenizeFile, opened, saidOnOpening]
  cases Language.resolve path asked with
  | error e => rfl
  | ok language =>
    simp only [openUnit]
    cases (SourceUnit.openFile path found).1 with
    | error e => rfl
    | ok unit => rfl

end Pipeline

namespace CommandLine

open Ledger (Tells)
open Pipeline (isFlawedIn opened)

/-! ### What becomes of a file -/

/-- What may become of a file. -/
inductive Fate where
  | accepted
  | rejected
  | failed
  deriving DecidableEq, Repr

/-- What becomes of a file that is parsed for itself, with nothing recorded before. -/
def fateOf (asked : Option Language) (preferences : Preferences) (files : String → Lookup)
    (path : String) : Fate :=
  match (Pipeline.processFile {} path (files path) asked () preferences).1 with
  | .error _ => .failed
  | .ok report => if report.outcome.accepted then .accepted else .rejected

/-- The fate of a file is that of its unit. -/
theorem fateOf_eq (asked : Option Language) (preferences : Preferences) (files : String → Lookup)
    (path : String) :
    fateOf asked preferences files path =
      match opened path (files path) asked with
      | .error _ => .failed
      | .ok (language, unit) =>
        if isFlawedIn language unit preferences.lexical then .rejected else .accepted := by
  rw [fateOf, Pipeline.processFile_eq]
  cases opened path (files path) asked with
  | error e => rfl
  | ok found =>
    simp only
    rw [Pipeline.accepted_parseUnit]
    cases isFlawedIn found.1 found.2 preferences.lexical <;> rfl

/-! ### Printing -/

/-- What is printed is not recorded. -/
theorem rests_printLines {j : Journal} (h : j.Rests) (lines : List String) :
    (printLines j lines).Rests ∧ (printLines j lines).ledger = j.ledger := by
  induction lines generalizing j with
  | nil => exact ⟨h, rfl⟩
  | cons line lines ih =>
    rw [printLines, List.foldl_cons, ← printLines]
    exact ih (j := j.printOut line) ⟨h.initialized, h.context⟩

/-! ### One file -/

/-- What a file adds to the units of a ledger: nothing if it could not be opened, else a unit with
a failure, or without entries. -/
inductive Adds (units : List (String × List Event)) (path : String) :
    Fate → List (String × List Event) → Prop where
  | accepted {es : List Event} : Tells es false → Adds units path .accepted (units ++ [(path, es)])
  | rejected {es : List Event} : Tells es true → Adds units path .rejected (units ++ [(path, es)])
  | failed : Adds units path .failed units

section

variable {units units' : List (String × List Event)} {path : String} {fate : Fate}

/-- The only unit that a file may add is its own. -/
theorem Adds.mem_names (h : Adds units path fate units') :
    ∀ name ∈ units'.map Prod.fst, name ∈ units.map Prod.fst ∨ name = path := by
  intro name hname
  cases h with
  | accepted ht => simpa using hname
  | rejected ht => simpa using hname
  | failed => exact .inl hname

/-- **What a file adds to the summary**: a unit, clean or failed, unless it could not be opened. -/
theorem Adds.summary (h : Adds units path fate units') :
    let s := (⟨units⟩ : Ledger).summary
    let s' := (⟨units'⟩ : Ledger).summary
    s'.units = s.units + ((if fate = .accepted then 1 else 0) + if fate = .rejected then 1 else 0) ∧
      s'.clean = s.clean + (if fate = .accepted then 1 else 0) ∧
      s'.failed = s.failed + (if fate = .rejected then 1 else 0) ∧
      s'.withWarnings = s.withWarnings := by
  intro s s'
  cases h with
  | failed => exact ⟨rfl, rfl, rfl, rfl⟩
  | accepted ht =>
    obtain ⟨hunits, hwarnings, hclean, hfailed⟩ := Ledger.Summary.addUnit_of_tells ht s
    rw [show s' = s.addUnit _ from Ledger.summary_append units path _]
    exact ⟨hunits, hclean, hfailed, hwarnings⟩
  | rejected ht =>
    obtain ⟨hunits, hwarnings, hclean, hfailed⟩ := Ledger.Summary.addUnit_of_tells ht s
    rw [show s' = s.addUnit _ from Ledger.summary_append units path _]
    exact ⟨hunits, hclean, hfailed, hwarnings⟩

end

/-- What a file adds to both books. -/
structure Advances (p : Progress) (path : String) (fate : Fate) (q : Progress) : Prop where
  rests : q.journal.Rests
  adds : Adds p.journal.ledger.units path fate q.journal.ledger.units
  rejected : q.rejected = p.rejected + if fate = .rejected then 1 else 0
  failed : q.failed = p.failed + if fate = .failed then 1 else 0

/-- A file that cannot be opened is counted as such. -/
theorem advances_fail {p : Progress} {j : Journal} (hrests : j.Rests)
    (hl : j.ledger = p.journal.ledger) (path : String) (e : PipelineError) :
    Advances p path .failed (p.fail j path e) where
  rests := ⟨hrests.initialized, hrests.context⟩
  adds := by
    show Adds _ path .failed j.ledger.units
    rw [hl]
    exact .failed
  rejected := rfl
  failed := rfl

section

variable {o : Options} (preferences : Preferences) {j : Journal} {path : String} {found : Lookup}
  {e : PipelineError} {language : Language} {unit : SourceUnit}

/-- A file that cannot be opened is not listed, and nothing is recorded. -/
theorem listTokens_of_error (h : opened path found o.language = .error e) (hj : j.Rests) :
    (∃ j', listTokens o preferences j path found = (.error e, j') ∧ j'.Rests ∧
      j'.ledger = j.ledger) ∨ listTokens o preferences j path found = (.ok none, j) := by
  rw [listTokens]
  split
  · left
    obtain ⟨hrests, hl⟩ := hj.absorb (Pipeline.saidOnOpening path found o.language)
    refine ⟨_, ?_, hrests, hl⟩
    rw [Pipeline.tokenizeFile_eq, h]
  · exact .inr rfl

/-- A file that can be opened is listed, if that is asked for, and nothing but a flaw makes its
entries tell of a failure. -/
theorem listTokens_of_ok (h : opened path found o.language = .ok (language, unit))
    {front : List (String × List Event)} (hj : j.Stands front path false) :
    ∃ tokens j' failed, listTokens o preferences j path found = (.ok tokens, j') ∧
      (failed = true → isFlawedIn language unit preferences.lexical = true) ∧
      j'.Stands front path failed := by
  obtain rfl := Pipeline.name_of_opened h
  rw [listTokens]
  split
  · obtain ⟨hrests, hl⟩ := hj.rests.absorb (Pipeline.saidOnOpening unit.name found o.language)
    have hopened := hj.of_ledger_eq hrests hl
    obtain ⟨failed, hfailed, hlisted⟩ := hopened.tokenizeUnit language preferences.lexical
    simp only [Pipeline.tokenizeFile_eq, h]
    refine ⟨_, _, failed, rfl, hfailed, ?_⟩
    split
    · exact hlisted
    · obtain ⟨hprinted, hl'⟩ := rests_printLines hlisted.rests _
      exact hlisted.of_ledger_eq hprinted hl'
  · exact ⟨none, j, false, rfl, fun hfailed ↦ absurd hfailed Bool.false_ne_true, hj⟩

/-- A file that cannot be opened is not parsed, and nothing is recorded. -/
theorem parseFile_of_error (h : opened path found o.language = .error e) (hj : j.Rests) :
    ∃ j', parseFile o preferences j path found = (.error e, j') ∧ j'.Rests ∧
      j'.ledger = j.ledger := by
  obtain ⟨hrests, hl⟩ := hj.absorb (Pipeline.saidOnOpening path found o.language)
  refine ⟨_, ?_, hrests, hl⟩
  rw [parseFile]
  split
  · rw [Pipeline.processFile_eq, h]
  · rw [Pipeline.processFile_eq, h]

/-- A file was parsed: it was accepted unless it is flawed, and its entries tell if it is. -/
structure IsParsed (front : List (String × List Event)) (path : String) (flawed : Bool)
    (report : UnitReport) (j : Journal) : Prop where
  accepted : report.outcome.accepted = !flawed
  rests : j.Rests
  units : ∃ es, j.ledger.units = front ++ [(path, es)] ∧ Tells es flawed

theorem processFile_of_ok (h : opened path found o.language = .ok (language, unit))
    {front : List (String × List Event)} {failed : Bool} (hj : j.Stands front path failed)
    (hfailed : failed = true → isFlawedIn language unit preferences.lexical = true)
    {δ : Type} [DiagnosticSink δ] (hδ : DiagnosticSink.SaysLines δ) (echo : δ) :
    ∃ report j', Pipeline.processFile j path found o.language echo preferences =
        (.ok report, j') ∧
      IsParsed front path (isFlawedIn language unit preferences.lexical) report j' := by
  obtain rfl := Pipeline.name_of_opened h
  obtain ⟨hrests, hl⟩ := hj.rests.absorb (Pipeline.saidOnOpening unit.name found o.language)
  have hopened := hj.of_ledger_eq hrests hl
  obtain ⟨hparsed, es, hunits, ht⟩ := hopened.parseUnit
    (DiagnosticSink.saysLines_collector.prod hδ) language (({} : Collector), echo) preferences
    hfailed
  have haccepted := Pipeline.accepted_parseUnit
    (j.absorb (Pipeline.saidOnOpening unit.name found o.language)) unit language
    (({} : Collector), echo) preferences
  rw [Pipeline.processFile_eq, h]
  simp only
  generalize Pipeline.parseUnit (j.absorb (Pipeline.saidOnOpening unit.name found o.language)) unit
    language (({} : Collector), echo) preferences = r at hparsed hunits haccepted ⊢
  obtain ⟨hwritten, hl'⟩ := hparsed.write <| (Event.debug "Unit processed").withContext
    [("unit", r.1.unit), ("accepted", toString r.1.accepted),
      ("diagnostics", toString r.2.1.1.diagnostics.length)]
  exact ⟨_, _, rfl, haccepted, hwritten, es, (congrArg Ledger.units hl').trans hunits, ht⟩

/-- A file that can be opened is parsed, wherever its diagnostics go. -/
theorem parseFile_of_ok (h : opened path found o.language = .ok (language, unit))
    {front : List (String × List Event)} {failed : Bool} (hj : j.Stands front path failed)
    (hfailed : failed = true → isFlawedIn language unit preferences.lexical = true) :
    ∃ report j', parseFile o preferences j path found = (.ok report, j') ∧
      IsParsed front path (isFlawedIn language unit preferences.lexical) report j' := by
  rw [parseFile]
  split
  · exact processFile_of_ok preferences h hj hfailed DiagnosticSink.saysLines_unit ()
  · exact processFile_of_ok preferences h hj hfailed DiagnosticSink.saysLines_echo {}

end

/-- **What one file adds to both books** is settled by its fate. -/
theorem advances_processPath {o : Options} (htext : o.json = false) (preferences : Preferences)
    (files : String → Lookup) {p : Progress} (hp : p.journal.Rests) {path : String}
    (hfresh : path ∉ p.journal.ledger.units.map Prod.fst) :
    Advances p path (fateOf o.language preferences files path)
      (processPath o preferences files p path) := by
  rw [fateOf_eq]
  cases hopened : opened path (files path) o.language with
  | error e =>
    rw [processPath]
    rcases listTokens_of_error preferences hopened hp with
      ⟨j, hlist, hrests, hl⟩ | hlist
    · rw [hlist]
      exact advances_fail hrests hl path e
    · obtain ⟨j, hparse, hrests, hl⟩ := parseFile_of_error preferences hopened hp
      simp only [hlist, hparse]
      exact advances_fail hrests hl path e
  | ok found =>
    obtain ⟨language, unit⟩ := found
    obtain ⟨tokens, j, failed, hlist, hfailed, hstands⟩ :=
      listTokens_of_ok preferences hopened (hp.stands hfresh)
    obtain ⟨report, j', hparse, haccepted, hrests, es, hunits, ht⟩ :=
      parseFile_of_ok preferences hopened hstands hfailed
    obtain ⟨hprinted, hl⟩ := rests_printLines hrests
      (reportLines path report (!preferences.syntactic.echoDiagnostics))
    simp only [processPath, hlist, hparse, htext, Bool.false_eq_true, if_false, haccepted]
    have hadds : (printLines j' (reportLines path report
        (!preferences.syntactic.echoDiagnostics))).ledger.units =
          p.journal.ledger.units ++ [(path, es)] := (congrArg Ledger.units hl).trans hunits
    cases hf : isFlawedIn language unit preferences.lexical with
    | false =>
      rw [hf] at ht
      exact ⟨hprinted, hadds ▸ .accepted ht, rfl, rfl⟩
    | true =>
      rw [hf] at ht
      exact ⟨hprinted, hadds ▸ .rejected ht, rfl, rfl⟩

/-! ### One file after the other -/

/-- The books agree on some files: both have counted them by their fates, and no other unit is known
to the ledger. -/
structure Balanced (fate : String → Fate) (done : List String) (p : Progress) : Prop where
  rests : p.journal.Rests
  known : ∀ path ∈ p.journal.ledger.units.map Prod.fst, path ∈ done
  rejected : p.rejected = (done.map fate).count .rejected
  failed : p.failed = (done.map fate).count .failed
  units : p.journal.ledger.summary.units =
    (done.map fate).count .accepted + (done.map fate).count .rejected
  clean : p.journal.ledger.summary.clean = (done.map fate).count .accepted
  flawed : p.journal.ledger.summary.failed = (done.map fate).count .rejected
  withWarnings : p.journal.ledger.summary.withWarnings = 0

variable {fate : String → Fate} {done : List String} {p q : Progress} {path : String}

theorem count_snoc (fate : String → Fate) (done : List String) (path : String) (f : Fate) :
    ((done ++ [path]).map fate).count f =
      (done.map fate).count f + if fate path = f then 1 else 0 := by
  rw [List.map_append, List.count_append, List.map_singleton, List.count_singleton]
  simp only [beq_iff_eq]

/-- A new file is counted by both books. -/
theorem Balanced.snoc (h : Balanced fate done p) (ha : Advances p path (fate path) q) :
    Balanced fate (done ++ [path]) q := by
  obtain ⟨hunits, hclean, hflawed, hwarnings⟩ := ha.adds.summary
  constructor
  case rests => exact ha.rests
  case known =>
    intro name hname
    rcases ha.adds.mem_names name hname with hname | rfl
    · exact List.mem_append_left _ (h.known name hname)
    · exact List.mem_append_right _ List.mem_cons_self
  case rejected => rw [count_snoc, ← h.rejected, ha.rejected]
  case failed => rw [count_snoc, ← h.failed, ha.failed]
  case units =>
    rw [count_snoc, count_snoc, hunits, h.units]
    omega
  case clean => rw [count_snoc, ← h.clean, hclean]
  case flawed => rw [count_snoc, ← h.flawed, hflawed]
  case withWarnings => rw [hwarnings, h.withWarnings]

/-- **The books agree after any number of files**, if no file is given twice. -/
theorem Balanced.foldl {o : Options} (htext : o.json = false) (preferences : Preferences)
    (files : String → Lookup) {rest : List String} (hdistinct : (done ++ rest).Nodup)
    (h : Balanced (fateOf o.language preferences files) done p) :
    Balanced (fateOf o.language preferences files) (done ++ rest)
      (rest.foldl (processPath o preferences files) p) := by
  induction rest generalizing done p with
  | nil => rwa [List.append_nil]
  | cons path rest ih =>
    have hnew : path ∉ done := fun hmem ↦
      (List.nodup_append.1 hdistinct).2.2 path hmem path List.mem_cons_self rfl
    have hfresh : path ∉ p.journal.ledger.units.map Prod.fst := fun hmem ↦ hnew (h.known path hmem)
    have hsnoc := h.snoc (advances_processPath htext preferences files h.rests hfresh)
    rw [List.append_cons] at hdistinct ⊢
    exact ih hdistinct hsnoc

/-! ### A run -/

/-- What a run is asked to prefer: what the environment says, but for the splitting of lines if that
is asked for on the command line. -/
def preferencesOf (o : Options) (environment : Environment) : Preferences :=
  let preferences := Preferences.ofEnvironment environment
  if o.eager then { preferences with lexical := { preferences.lexical with eagerLines := true } }
  else preferences

/-- The journal of a run before its first file. -/
def openedJournal (environment : Environment) : Journal :=
  let j : Journal := { environment }
  { j with logger := some (Journal.configuredLogger j.preferences) }.pass
    (.success .journalReady "Global logging system initialized")

theorem setUp_eq (environment : Environment) :
    ({ environment } : Journal).setUp = .ok (openedJournal environment) := rfl

/-- How far a run has come after its last file. -/
def lastProgress (o : Options) (environment : Environment) (files : String → Lookup) : Progress :=
  o.files.foldl (processPath o (preferencesOf o environment) files)
    { journal := openedJournal environment }

/-- Before the first file the books are empty. -/
theorem balanced_openedJournal (fate : String → Fate) (environment : Environment) :
    Balanced fate [] { journal := openedJournal environment } := by
  obtain ⟨hi, hc, hl⟩ := Journal.pass_spec
    (j := { environment, logger := some (Journal.configuredLogger
      ({ environment } : Journal).preferences) }) rfl
    (.success .journalReady "Global logging system initialized")
  have hledger : (openedJournal environment).ledger = {} := hl
  constructor
  case rests => exact ⟨hi, hc⟩
  case known => simp [hledger]
  all_goals rfl

/-- A command that works on files has at least one. -/
theorem arguments_ne_nil {arguments : List String} {o : Options}
    (h : parseOptions {} arguments = .run o) : arguments.isEmpty = false := by
  cases arguments with
  | nil => cases h
  | cons argument arguments => rfl

/-- A run that prints text works on its files and prints the summary. -/
theorem run_eq {program : String} {environment : Environment} {arguments : List String}
    {files : String → Lookup} {o : Options} (hcommand : parseOptions {} arguments = .run o)
    (htext : o.json = false) :
    run program environment arguments files =
      ((lastProgress o environment files).exitStatus,
        (printSummary o.files.length (lastProgress o environment files)).transcript) := by
  rw [run, setUp_eq]
  simp only [arguments_ne_nil hcommand, hcommand, runFiles, htext, Bool.false_eq_true, if_false]
  rfl

/-- The last thing on the error stream is the ledger, and on the other the count of files. -/
theorem head?_printSummary (total : Nat) {p : Progress} (h : p.journal.isInitialized = true) :
    let t := (printSummary total p).transcript
    t.err.head? = some p.journal.ledger.report ∧
      t.out.head? =
        some (s!"Processed {total} unit(s): {total - p.rejected - p.failed} accepted, " ++
          s!"{p.rejected} rejected, {p.failed} failed to open") := by
  have hreport : p.journal.report? = some p.journal.ledger.report := if_pos h
  rw [printSummary, hreport]
  exact ⟨rfl, rfl⟩

/-- Every file has one of three fates. -/
theorem count_fates (fates : List Fate) :
    fates.count .accepted + fates.count .rejected + fates.count .failed = fates.length := by
  induction fates with
  | nil => rfl
  | cons f fates ih =>
    cases f <;> simp <;> omega

/-- Where no file was rejected and none failed to open, every file was accepted. -/
theorem count_eq_zero_iff (fates : List Fate) :
    fates.count .rejected = 0 ∧ fates.count .failed = 0 ↔ ∀ f ∈ fates, f = .accepted := by
  rw [List.count_eq_zero, List.count_eq_zero]
  constructor
  · rintro ⟨hrejected, hfailed⟩ f hf
    cases f with
    | accepted => rfl
    | rejected => exact absurd hf hrejected
    | failed => exact absurd hf hfailed
  · intro h
    exact ⟨fun hmem ↦ absurd (h _ hmem) (by decide), fun hmem ↦ absurd (h _ hmem) (by decide)⟩

/-- **The two books of a run agree.** In a run over different files that prints text, every file is
accepted, rejected or failed to open, and is counted as such: the counters of the command line add
up to no more than there are files, and what is left are the files accepted. The summary of the
ledger counts a unit for each file that could be opened, clean if it was accepted and failed if it
was rejected. Both are printed, and the run succeeds just if every file is accepted. -/
theorem books_agree (program : String) (environment : Environment) (files : String → Lookup)
    {arguments : List String} {o : Options} (hcommand : parseOptions {} arguments = .run o)
    (htext : o.json = false) (hdistinct : o.files.Nodup) :
    let fate := fateOf o.language (preferencesOf o environment) files
    let accepted := (o.files.map fate).count .accepted
    let rejected := (o.files.map fate).count .rejected
    let failed := (o.files.map fate).count .failed
    let p := lastProgress o environment files
    let s := p.journal.summary
    let r := run program environment arguments files
    accepted + rejected + failed = o.files.length ∧
      (p.rejected = rejected ∧ p.failed = failed ∧ p.rejected + p.failed ≤ o.files.length) ∧
      (s.units = accepted + rejected ∧ s.clean = accepted ∧ s.withWarnings = 0 ∧
        s.failed = rejected) ∧
      r = (p.exitStatus, (printSummary o.files.length p).transcript) ∧
      (∃ entries, r.2.err.head? = some (entries ++
        (s!"{accepted + rejected} unit(s) checked: {accepted} clean, {rejected} failed, " ++
          s!"{s.errors} error(s), {s.warnings} warning(s)\n"))) ∧
      r.2.out.head? = some (s!"Processed {o.files.length} unit(s): {accepted} accepted, " ++
        s!"{rejected} rejected, {failed} failed to open") ∧
      (r.1 = 0 ↔ ∀ path ∈ o.files, fate path = .accepted) := by
  intro fate accepted rejected failed p s r
  have hall : ([] ++ o.files).Nodup := hdistinct
  have hbalanced : Balanced fate o.files p :=
    (balanced_openedJournal fate environment).foldl htext _ files hall
  have htotal : accepted + rejected + failed = o.files.length := by
    rw [← List.length_map fate]
    exact count_fates _
  have hrejected : p.rejected = rejected := hbalanced.rejected
  have hfailed : p.failed = failed := hbalanced.failed
  have hs : s = p.journal.ledger.summary := if_pos hbalanced.rests.initialized
  have hunits : s.units = accepted + rejected := hs ▸ hbalanced.units
  have hclean : s.clean = accepted := hs ▸ hbalanced.clean
  have hflawed : s.failed = rejected := hs ▸ hbalanced.flawed
  have hwarnings : s.withWarnings = 0 := hs ▸ hbalanced.withWarnings
  have hr : r = (p.exitStatus, (printSummary o.files.length p).transcript) := run_eq hcommand htext
  obtain ⟨herr, hout⟩ := head?_printSummary o.files.length hbalanced.rests.initialized
  obtain ⟨entries, hentries⟩ : ∃ entries, p.journal.ledger.report = entries ++ s.line :=
    ⟨_, congrArg (_ ++ Ledger.Summary.line ·) hs.symm⟩
  refine ⟨htotal, ⟨hrejected, hfailed, by omega⟩, ⟨hunits, hclean, hwarnings, hflawed⟩, hr,
    ⟨entries, ?_⟩, ?_, ?_⟩
  · rw [hr, herr, hentries, Ledger.Summary.line, hunits, hclean, hwarnings, hflawed, Nat.add_zero]
  · have haccepted : o.files.length - p.rejected - p.failed = accepted := by omega
    rw [hr, hout, haccepted, hrejected, hfailed]
  · rw [hr, exitStatus_eq_zero_iff, hrejected, hfailed, count_eq_zero_iff, List.forall_mem_map]

/-- Three paths: to an empty file, to a file with a character that starts no token, and to none. -/
def threeFiles (path : String) : Lookup :=
  if path = "empty" then .file 0 (.ofBytes [])
  else if path = "flawed" then .file 1 (.ofBytes [0x60])
  else .missing

/-- One file of each fate. -/
theorem books_agree_threeFiles :
    let arguments := ["--lang", "cpp", "--tokens", "empty", "flawed", "absent"]
    let o : Options :=
      { files := ["empty", "flawed", "absent"], language := some .cpp, dumpTokens := true }
    let r := run "frontend" [] arguments threeFiles
    parseOptions {} arguments = .run o ∧ o.json = false ∧ o.files.Nodup ∧
      r.2.out.head? =
        some "Processed 3 unit(s): 1 accepted, 1 rejected, 1 failed to open" ∧
      r.1 ≠ 0 := by
  intro arguments o r
  have hcommand : parseOptions {} arguments = .run o := by decide
  have hdistinct : o.files.Nodup := by decide
  let fate := fateOf o.language (preferencesOf o []) threeFiles
  have hempty : fate "empty" = .accepted := by
    have hend : (Pipeline.lexemesOf Cpp.lexicon ⟨"empty", .ofBytes [], some 0⟩ {}).isAtEnd =
      true := by decide +kernel
    have hnone : isFlawedIn .cpp ⟨"empty", .ofBytes [], some 0⟩ {} = false := by
      rw [isFlawedIn, Pipeline.isFlawed, LexemeStream.rest_of_isAtEnd hend]
      rfl
    exact (fateOf_eq _ _ _ _).trans (if_neg (ne_true_of_eq_false hnone))
  have hflawed : fate "flawed" = .rejected := by
    let s := Pipeline.lexemesOf Cpp.lexicon ⟨"flawed", .ofBytes [0x60], some 1⟩ {}
    have hopen : s.isAtEnd = false := by decide +kernel
    have hinvalid : s.lookahead.isInvalid = true := by decide +kernel
    have hfirst : isFlawedIn .cpp ⟨"flawed", .ofBytes [0x60], some 1⟩ {} = true := by
      rw [isFlawedIn, Pipeline.isFlawed, LexemeStream.rest_of_open hopen, List.any_cons, hinvalid]
      rfl
    exact (fateOf_eq _ _ _ _).trans (if_pos hfirst)
  have habsent : fate "absent" = .failed := fateOf_eq _ _ _ _
  have hfates : o.files.map fate = [.accepted, .rejected, .failed] := by
    simp only [o, List.map_cons, List.map_nil, hempty, hflawed, habsent]
  obtain ⟨-, -, -, -, -, hout, hstatus⟩ := books_agree "frontend" [] threeFiles hcommand rfl
    hdistinct
  refine ⟨hcommand, rfl, hdistinct, ?_, fun hzero ↦ ?_⟩
  · rw [hfates] at hout
    exact hout.trans (by decide)
  · have haccepted : fate "absent" = .accepted := hstatus.1 hzero "absent" (by decide)
    cases habsent.symm.trans haccepted

end CommandLine

end LexFront
