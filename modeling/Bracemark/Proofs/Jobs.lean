import Bracemark.Command.Outcome
import Bracemark.Proofs.Logs
import Bracemark.Proofs.Writing

/-!
# All or nothing

A job writes after everything else is done: a stage in front of the writing one can stop the job and
leaves the files alone (`checkEnvironment_cases`, `readSource_cases`, `compileSource_cases`). The
stage that writes makes directories, opens the output file, which empties it, and only then encodes
the HTML (`writeHtml_ends`).

So there are three ways for a job to end (`Job.Ends`): the output file holds the encoded HTML of the
input, or no file has changed, or the output file was opened for HTML that the encoding has no bytes
for. A complaint is never of the third kind (`Outcome.ofJob_allOrNothing`).
-/

namespace Bracemark

namespace Job

/-! ## What a job is to do -/

def inputPath (j : Job) : Path := j.inputDirectory.join (Path.ofText j.options.inputFile)

def outputPath (j : Job) : Path := j.outputDirectory.join (Path.ofText j.options.outputFile)

/-- What the input is compiled in. -/
def inputContext (j : Job) : Context :=
  { path := j.inputPath.toText, settings := j.settings, files := j.files, patience := j.patience }

/-- The text of the input file in the encoding of sources. -/
def Reads (j : Job) (text : Text) : Prop :=
  ∃ bytes encoding raw, j.files.read j.inputPath = .ok bytes ∧
    Encoding.ofName? j.settings.sourceEncoding = some encoding ∧
    encoding.decode bytes = .ok raw ∧ raw.unixLines = text

/-- The HTML of the input. -/
def Compiles (j : Job) (html : Text) : Prop :=
  ∃ text, j.Reads text ∧ (compile j.inputContext text).result = .ok html

/-- The bytes of a text in the encoding of outputs. -/
def Encodes (j : Job) (html : Text) (bytes : Bytes) : Prop :=
  ∃ encoding, Encoding.ofName? j.settings.outputEncoding = some encoding ∧
    encoding.encode? html = some bytes

/-- Of all files only the output file is another one; it stands at `spot` and holds `bytes`. -/
structure Writes (j j' : Job) (spot : Spot) (bytes : Bytes) : Prop where
  place : j'.files.locate j.outputPath = .ok spot
  content : j'.files.file? spot = some bytes
  others : ∀ other, other ≠ spot → j'.files.file? other = j.files.file? other

/-- How a job ends. -/
inductive Ends (j : Job) : EStateM.Result Stop Job Unit → Prop where
  | stopped {stop : Stop} {j' : Job} (files : j'.files.files = j.files.files)
      (unopened : j'.written = j.written) : Ends j (.error stop j')
  | interrupted {html : Text} {spot : Spot} {e : Failure} {j' : Job} (compiles : j.Compiles html)
      (unencoded : ∀ bytes, ¬j.Encodes html bytes) (writes : j.Writes j' spot [])
      (opened : j'.written = spot :: j.written) : Ends j (.error (.failed e) j')
  | delivered {html : Text} {bytes : Bytes} {spot : Spot} {j' : Job} (compiles : j.Compiles html)
      (encodes : j.Encodes html bytes) (writes : j.Writes j' spot bytes)
      (result : j'.result? = some ⟨j.outputPath.toText, html.length⟩) : Ends j (.ok () j')

/-! ## The stages in front -/

theorem get_bind {α : Type} (x : Job → JobStep α) (j : Job) : (get >>= x) j = x j j := rfl

theorem checkEnvironment_cases (j : Job) :
    (∃ progress, checkEnvironment j = .ok () { j with
      source := j.inputPath, target := j.outputPath, ready := true, progress := progress }) ∨
    ∃ stop progress, checkEnvironment j = .error stop { j with progress := progress } := by
  unfold checkEnvironment
  by_cases h : j.files.isFile j.inputPath = true
  · refine .inl ⟨((j.progress.push .checkingEnvironment).push
      (.inputFile j.inputPath.toText)).push (.outputFile j.outputPath.toText), ?_⟩
    refine (bind_of_ok rfl).trans ((bind_of_ok rfl).trans ?_)
    change (if (!j.files.isFile j.inputPath) = true then _ else _ : JobStep _) _ = _
    rw [if_neg (by simp [h])]
    rfl
  · refine .inr ⟨.diagnosed ⟨.usage, j.inputPath.toText, none, .missingInput j.inputPath.toText⟩,
      j.progress.push .checkingEnvironment, ?_⟩
    refine (bind_of_ok rfl).trans ((bind_of_ok rfl).trans ?_)
    change (if (!j.files.isFile j.inputPath) = true then _ else _ : JobStep _) _ = _
    rw [if_pos (by simp [h])]
    rfl

/-- Reading stops the job, or gives the text of the input. -/
theorem readSource_cases (j : Job) (hsource : j.source = j.inputPath) :
    (∃ text progress, j.Reads text ∧
      readSource j = .ok () { j with text? := some text, progress := progress }) ∨
    ∃ stop progress, readSource j = .error stop { j with progress := progress } := by
  have hnote : note .readingSource j =
      .ok () { j with progress := j.progress.push .readingSource } := rfl
  unfold readSource
  rw [bind_of_ok hnote, get_bind]
  simp only [complain]
  cases hread : j.files.read j.source with
  | error e =>
    refine .inr ?_
    cases e with
    | embeddedNul => exact ⟨_, _, rfl⟩
    | _ => exact ⟨_, _, rfl⟩
  | ok bytes =>
    cases hencoding : Encoding.ofName? j.settings.sourceEncoding with
    | none => exact .inr ⟨_, _, rfl⟩
    | some encoding =>
      cases hdecode : encoding.decode bytes with
      | error e => simp only [hdecode]; exact .inr ⟨_, _, rfl⟩
      | ok raw =>
        simp only [hdecode]
        rw [hsource] at hread
        exact .inl ⟨raw.unixLines, _, ⟨bytes, encoding, raw, hread, hencoding, hdecode, rfl⟩, rfl⟩

/-- Compiling stops the job, or gives the HTML that a fresh compilation gives. -/
theorem compileSource_cases (j : Job) :
    (∃ html tree? warnings progress, (compile j.context (j.text?.getD [])).result = .ok html ∧
      compileSource j = .ok () { j with
        html? := some html, tree? := tree?, warnings := warnings, progress := progress }) ∨
    ∃ stop warnings progress, compileSource j =
      .error stop { j with warnings := warnings, progress := progress } := by
  have hresult := result_compileFrom j.context (j.text?.getD []) j.warnings j.progress
  unfold compileSource
  rw [get_bind]
  cases hcompile : (compile j.context (j.text?.getD [])).result with
  | error e =>
    rw [hcompile] at hresult
    simp only [hresult]
    exact .inr ⟨_, _, _, rfl⟩
  | ok html =>
    rw [hcompile] at hresult
    simp only [hresult]
    exact .inl ⟨html, _, _, _, rfl, rfl⟩


/-! ## The stage that writes -/

theorem changeFiles_cases (change : FileTree → Except FileError FileTree) (j : Job) :
    (∃ files, change j.files = .ok files ∧
      changeFiles change j = .ok () { j with files := files }) ∨
    ∃ e, changeFiles change j = .error (.failed (.file e)) j := by
  unfold changeFiles
  rw [get_bind]
  cases hchange : change j.files with
  | error e => exact .inr ⟨e, rfl⟩
  | ok files => exact .inl ⟨files, rfl, rfl⟩

/-- The output file is opened at a place where there is no directory, and where it can be written
again, or no file changes. -/
theorem openTarget_cases (j : Job) :
    (∃ (files : FileTree) (spot : Spot), files.files = j.files.files ∧
      files.locate j.target = .ok spot ∧ files.isDirectory spot = false ∧
      openTarget j = .ok () { j with
        files := files.put spot [], written := spot :: j.written }) ∨
    ∃ (files : FileTree) (e : FileError), files.files = j.files.files ∧
      openTarget j = .error (.failed (.file e)) { j with files := files } := by
  unfold openTarget
  rw [get_bind]
  rcases changeFiles_cases (fun files =>
    files.makeDirectories j.target.parent j.target.parent.parts.length) j with
    ⟨files, hmake, hchange⟩ | ⟨e, hchange⟩
  · have hfiles := FileTree.files_of_makeDirectories hmake
    rw [bind_of_ok hchange]
    rcases changeFiles_cases (fun files => files.write j.target []) { j with files := files } with
      ⟨written, hwrite, hchange⟩ | ⟨e, hchange⟩
    · obtain ⟨spot, hspot, hdirectory, rfl⟩ := FileTree.write_eq_ok_iff.1 hwrite
      refine .inl ⟨files, spot, hfiles, hspot, hdirectory, ?_⟩
      rw [bind_of_ok hchange]
      have hplace : (files.put spot []).locate j.target = .ok spot := FileTree.locate_put hspot
      show EStateM.Result.ok () _ = _
      simp only [hplace]
      rfl
    · refine .inr ⟨files, e, hfiles, ?_⟩
      rw [bind_of_error hchange]
  · exact .inr ⟨j.files, e, rfl, bind_of_error hchange⟩

/-- No file changes, or the output file is opened; then it is left empty if the HTML has no bytes,
and holds them if it has. -/
theorem writeHtml_cases (j : Job) {html : Text} (hhtml : j.html? = some html) :
    (∃ (files : FileTree) (e : FileError), files.files = j.files.files ∧
      writeHtml j = .error (.failed (.file e)) { j with files := files }) ∨
    ∃ (files : FileTree) (spot : Spot), files.files = j.files.files ∧
      files.locate j.target = .ok spot ∧
      ((∃ e, (∀ bytes, ¬j.Encodes html bytes) ∧ writeHtml j = .error (.failed e) { j with
          files := files.put spot [], written := spot :: j.written }) ∨
        ∃ bytes j', j.Encodes html bytes ∧ j'.files = files.put spot bytes ∧
          j'.result? = some ⟨j.target.toText, html.length⟩ ∧ writeHtml j = .ok () j') := by
  unfold writeHtml
  rw [get_bind]
  simp only [hhtml]
  rcases openTarget_cases j with ⟨files, spot, hfiles, hspot, hdirectory, hopen⟩ |
    ⟨files, e, hfiles, hopen⟩
  · simp only [hhtml] at hopen
    refine .inr ⟨files, spot, hfiles, hspot, ?_⟩
    rw [bind_of_ok hopen]
    cases hencoding : Encoding.ofName? j.settings.outputEncoding with
    | none =>
      refine .inl ⟨_, ?_, rfl⟩
      rintro bytes ⟨encoding, h, -⟩
      rw [hencoding] at h
      cases h
    | some encoding =>
      cases hencode : encoding.encode? html with
      | none =>
        simp only [hencode]
        refine .inl ⟨_, ?_, rfl⟩
        rintro bytes ⟨encoding', h, hbytes⟩
        rw [hencoding] at h
        cases h
        rw [hencode] at hbytes
        cases hbytes
      | some bytes =>
        simp only [hencode]
        have hwrite : (files.put spot []).write j.target bytes = .ok (files.put spot bytes) :=
          FileTree.write_put hspot hdirectory [] bytes
        have hchange : changeFiles (fun files => files.write j.target bytes)
            { j with files := files.put spot [], written := spot :: j.written } =
            .ok () { j with files := files.put spot bytes, written := spot :: j.written } := by
          unfold changeFiles
          rw [get_bind]
          simp only [hwrite]
          rfl
        simp only [hhtml] at hchange
        exact .inr ⟨bytes, _, ⟨encoding, hencoding, hencode⟩, rfl, rfl,
          (bind_of_ok hchange).trans rfl⟩
  · simp only [hhtml] at hopen
    exact .inl ⟨files, e, hfiles, bind_of_error hopen⟩

theorem reportResult_of_some {j : Job} {r : JobResult} (h : j.result? = some r) :
    ∃ progress, reportResult j = .ok () { j with progress := progress } := by
  refine ⟨((j.progress.push .succeeded).push (.reportOutput r.outputFile)).push
    (.reportSize r.characters), ?_⟩
  have hrun : reportResult j = (do
      note .succeeded
      note (.reportOutput r.outputFile)
      note (.reportSize r.characters)) j := by
    unfold reportResult
    rw [get_bind]
    simp only [h]
  exact hrun.trans rfl

/-! ## The whole job -/

/-- A job whose files are those of its start and the one that is put at the place of its output has
written nothing else. -/
theorem writes_of_put {j j' : Job} {files : FileTree} {spot : Spot} {bytes : Bytes}
    (hfiles : files.files = j.files.files) (hspot : files.locate j.outputPath = .ok spot)
    (hj' : j'.files = files.put spot bytes) : j.Writes j' spot bytes where
  place := by
    rw [hj']
    exact FileTree.locate_put hspot
  content := by rw [hj', FileTree.file?_put, if_pos rfl]
  others other hother := by
    rw [hj', FileTree.file?_put, if_neg hother, FileTree.file?, hfiles]
    rfl

/-- Every job ends in one of the three ways. -/
theorem stages_all_ends (j : Job) : j.Ends (stages Stage.all j) := by
  have hall : stages Stage.all j = (do
      checkEnvironment
      readSource
      compileSource
      writeHtml
      reportResult
      pure ()) j := rfl
  rw [hall]
  rcases checkEnvironment_cases j with ⟨p₁, h⟩ | ⟨_, _, h⟩
  case inr =>
    rw [bind_of_error h]
    exact .stopped rfl rfl
  rw [bind_of_ok h]
  rcases readSource_cases { j with
    source := j.inputPath, target := j.outputPath, ready := true, progress := p₁ } rfl with
    ⟨text, p₂, hreads, h⟩ | ⟨_, _, h⟩
  case inr =>
    rw [bind_of_error h]
    exact .stopped rfl rfl
  rw [bind_of_ok h]
  rcases compileSource_cases { j with
    source := j.inputPath, target := j.outputPath, ready := true, text? := some text
    progress := p₂ } with ⟨html, tree?, warnings, p₃, hcompile, h⟩ | ⟨_, _, _, h⟩
  case inr =>
    rw [bind_of_error h]
    exact .stopped rfl rfl
  rw [bind_of_ok h]
  have hcompiles : j.Compiles html := ⟨text, hreads, hcompile⟩
  rcases writeHtml_cases { j with
    source := j.inputPath, target := j.outputPath, ready := true, text? := some text
    html? := some html, tree? := tree?, warnings := warnings, progress := p₃ } rfl with
    ⟨files, _, hfiles, h⟩ |
    ⟨files, spot, hfiles, hspot, ⟨e, hunencoded, h⟩ | ⟨bytes, j', hencodes, hj', hresult, h⟩⟩
  · rw [bind_of_error h]
    exact .stopped hfiles rfl
  · rw [bind_of_error h]
    exact .interrupted hcompiles hunencoded (writes_of_put hfiles hspot rfl) rfl
  · obtain ⟨progress, hreport⟩ := reportResult_of_some hresult
    rw [bind_of_ok h, bind_of_ok hreport]
    exact .delivered hcompiles hencodes (writes_of_put hfiles hspot hj') hresult

end Job

namespace Outcome

/-- What a job leaves behind, by its status: the output file is written if the job ends well, and
not touched if it ends with a complaint, nor by any failure before it is opened. -/
structure AllOrNothing (j j' : Job) (status : Except Failure Nat) : Prop where
  exits : ∀ n, status = .ok n → n = 0 ∨ n = 1
  delivered : status = .ok 0 → ∃ html bytes spot, j.Compiles html ∧ j.Encodes html bytes ∧
    j.Writes j' spot bytes ∧ j'.result? = some ⟨j.outputPath.toText, html.length⟩
  complained : status = .ok 1 → ∀ spot, j'.files.file? spot = j.files.file? spot
  failed : ∀ e, status = .error e → j'.written = j.written →
    ∀ spot, j'.files.file? spot = j.files.file? spot
  interrupted : ∀ e, status = .error e → j'.written ≠ j.written → ∃ html spot,
    j.Compiles html ∧ (∀ bytes, ¬j.Encodes html bytes) ∧ j.Writes j' spot []

namespace AllOrNothing

variable {j j' : Job}

theorem success {html : Text} {bytes : Bytes} {spot : Spot} (compiles : j.Compiles html)
    (encodes : j.Encodes html bytes) (writes : j.Writes j' spot bytes)
    (result : j'.result? = some ⟨j.outputPath.toText, html.length⟩) :
    AllOrNothing j j' (.ok 0) where
  exits _ hn := .inl (Except.ok.inj hn).symm
  delivered _ := ⟨html, bytes, spot, compiles, encodes, writes, result⟩
  complained h := nomatch h
  failed _ h := nomatch h
  interrupted _ h := nomatch h

theorem complaint (same : ∀ spot, j'.files.file? spot = j.files.file? spot) :
    AllOrNothing j j' (.ok 1) where
  exits _ hn := .inr (Except.ok.inj hn).symm
  delivered h := nomatch h
  complained _ := same
  failed _ h := nomatch h
  interrupted _ h := nomatch h

theorem failure {e : Failure}
    (failed : j'.written = j.written → ∀ spot, j'.files.file? spot = j.files.file? spot)
    (interrupted : j'.written ≠ j.written → ∃ html spot,
      j.Compiles html ∧ (∀ bytes, ¬j.Encodes html bytes) ∧ j.Writes j' spot []) :
    AllOrNothing j j' (.error e) where
  exits _ h := nomatch h
  delivered h := nomatch h
  complained h := nomatch h
  failed _ _ := failed
  interrupted _ _ := interrupted

end AllOrNothing

/-- A job writes all of its output or, unless it has none in the encoding, nothing. -/
theorem ofJob_allOrNothing (j : Job) :
    ∃ j', (ofJob Stage.all j).job? = some j' ∧ AllOrNothing j j' (ofJob Stage.all j).status := by
  have hends := j.stages_all_ends
  unfold ofJob
  cases hrun : Job.stages Stage.all j with
  | ok u j' =>
    rw [hrun] at hends
    cases hends with
    | delivered compiles encodes writes result =>
      exact ⟨j', rfl, .success compiles encodes writes result⟩
  | error stop j' =>
    rw [hrun] at hends
    cases hends with
    | stopped files unopened =>
      have hsame (spot : Spot) : j'.files.file? spot = j.files.file? spot := by
        rw [FileTree.file?, files]
        rfl
      cases stop with
      | failed e => exact ⟨j', rfl, .failure (fun _ => hsame) fun h => absurd unopened h⟩
      | diagnosed d => exact ⟨j', rfl, .complaint hsame⟩
      | noHtml => exact ⟨j', rfl, .complaint hsame⟩
      | noResult => exact ⟨j', rfl, .complaint hsame⟩
    | interrupted compiles unencoded writes opened =>
      refine ⟨j', rfl, .failure ?_ fun _ => ⟨_, _, compiles, unencoded, writes⟩⟩
      intro hunopened
      rw [opened] at hunopened
      exact absurd hunopened (List.cons_ne_self _ _)

/-- A job on one source, whose output directory is still to be made. -/
def sampleJob (source : Text) : Job where
  options := ⟨"doc".toList, "index.html".toList, 1⟩
  settings := {}
  inputDirectory := Path.ofText "in".toList
  outputDirectory := Path.ofText "out/html".toList
  files := { files := [(["in".toList, "doc".toList], source.flatMap Encoding.Utf8.encodeChar)] }
  patience := 0

theorem ofJob_allOrNothing_sample :
    (∃ j' html, (ofJob Stage.all (sampleJob "main\x7btext\x7ba\x7d\x7d".toList)).job? = some j' ∧
      (sampleJob "main\x7btext\x7ba\x7d\x7d".toList).Compiles html ∧
      j'.result? = some ⟨"out/html/index.html".toList, html.length⟩) ∧
    ∃ j', (ofJob Stage.all (sampleJob ".macro\x7bm\x7d".toList)).job? = some j' ∧
      ∀ spot, j'.files.file? spot = (sampleJob ".macro\x7bm\x7d".toList).files.file? spot := by
  have hstatus {r : Except Failure Nat} {n : Nat} (h : r.toOption = some n) : r = .ok n := by
    cases r with
    | error e => cases h
    | ok m => exact congrArg Except.ok (Option.some.inj h)
  have hwell : (ofJob Stage.all (sampleJob "main\x7btext\x7ba\x7d\x7d".toList)).status =
      .ok 0 := hstatus (by decide +kernel)
  have hcomplaint : (ofJob Stage.all (sampleJob ".macro\x7bm\x7d".toList)).status = .ok 1 :=
    hstatus (by decide +kernel)
  have houtput (source : Text) : (sampleJob source).outputPath.toText =
      "out/html/index.html".toList := by
    show (Path.join (Path.ofText "out/html".toList) (Path.ofText "index.html".toList)).toText = _
    decide +kernel
  obtain ⟨j₁, hj₁, h₁⟩ := ofJob_allOrNothing (sampleJob "main\x7btext\x7ba\x7d\x7d".toList)
  obtain ⟨j₂, hj₂, h₂⟩ := ofJob_allOrNothing (sampleJob ".macro\x7bm\x7d".toList)
  obtain ⟨html, -, -, hcompiles, -, -, hresult⟩ := h₁.delivered hwell
  rw [houtput] at hresult
  exact ⟨⟨j₁, html, hj₁, hcompiles, hresult⟩, ⟨j₂, hj₂, h₂.complained hcomplaint⟩⟩

end Outcome

end Bracemark
