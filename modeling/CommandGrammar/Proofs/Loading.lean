import CommandGrammar.Proofs.Verdicts

/-!
# Tables that cannot be loaded

A file that gives a table gives a valid one, whatever reader of YAML there is. Most files that give none are told
so with an error that names the file. Two kinds of files escape this: bytes that encode no text, and texts on which
the reader fails instead of refusing them, such as a date that does not exist. On these the program fails, where it
should have reported an error.

* `GrammarFile.Escapes` — what is wrong with a file without being reported as an error of the file.
* `GrammarFile.foreseen_iff` — everything else is.
* `CommandLine.ComesTo` — a call of the program that comes to reading the table at a path.
* `CommandLine.loads_or_reports` — the statement about readers, files and the program.
-/

namespace CommandGrammar

namespace GrammarFile

variable {yaml : Yaml.Reader} {content : List UInt8} {e : LoadError}

/-- What is wrong with bytes in a file, and does not count as an error of the file. -/
inductive Escapes (yaml : Yaml.Reader) (content : List UInt8) : LoadError → Prop where
  /-- The bytes encode no text. -/
  | undecodable (h : Text.decodeUtf8? content = none) : Escapes yaml content .undecodable
  /-- The reader fails on the text that they encode, and does not refuse it. -/
  | fails {cs : List Char} {fault : Yaml.Fault} (hdecode : Text.decodeUtf8? content = some cs)
    (hread : yaml (Text.unifyLineEnds cs) = .error fault) (h : fault ≠ .malformed) :
    Escapes yaml content (.yaml fault)

/-- What escapes is not reported. -/
theorem Escapes.not_foreseen (h : Escapes yaml content e) : e.foreseen = false := by
  cases h with
  | undecodable => rfl
  | fails hdecode hread h => exact beq_eq_false_iff_ne.mpr h

/-- What is not reported of the value of a file escapes. -/
theorem escapes_of_read (h : read yaml content = .error e) (he : e.foreseen = false) :
    Escapes yaml content e := by
  unfold read at h
  split at h
  · next hdecode => exact Except.error.inj h ▸ .undecodable hdecode
  next cs hdecode =>
  cases hread : yaml (Text.unifyLineEnds cs) with
  | ok v =>
    rw [hread] at h
    cases h
  | error fault =>
    rw [hread] at h
    obtain rfl := Except.error.inj h
    exact .fails hdecode hread (beq_eq_false_iff_ne.mp he)

/-- A value that is no table is told so. -/
theorem foreseen_of_toTable {v : Document.Value} (h : toTable v = .error e) : e.foreseen = true := by
  unfold toTable at h
  split at h
  · next entries =>
    cases hv : Document.toTable (.map entries) with
    | ok t => rw [hv] at h; cases h
    | error d => rw [hv] at h; exact Except.error.inj h ▸ rfl
  · exact Except.error.inj h ▸ rfl

/-- **Whatever is wrong with a file is reported as an error of the file**, unless it escapes. -/
theorem foreseen_iff {content : Except FileFault (List UInt8)} (h : load yaml content = .error e) :
    e.foreseen = true ↔ ∀ bytes, content = .ok bytes → ¬Escapes yaml bytes e := by
  constructor
  · rintro hforeseen bytes - hescapes
    exact absurd hforeseen (Bool.eq_false_iff.mp hescapes.not_foreseen)
  · intro hnone
    cases content with
    | error fault => exact Except.error.inj h ▸ rfl
    | ok bytes =>
      by_contra hforeseen
      rw [Bool.not_eq_true] at hforeseen
      refine hnone bytes rfl ?_
      cases hread : read yaml bytes with
      | error e' =>
        rw [load_ok, hread] at h
        obtain rfl : e' = e := Except.error.inj h
        exact escapes_of_read hread hforeseen
      | ok v =>
        rw [load_ok, hread] at h
        exact absurd (foreseen_of_toTable h) (Bool.eq_false_iff.mp hforeseen)

end GrammarFile

/-! ## The program -/

namespace CommandLine

/-- Arguments with which the program comes to reading the table at a path: they make a request, and the settings
are all right. -/
inductive ComesTo (arguments : List String) (s : Surroundings Id) (path : FilePath) : Prop where
  | intro {request : Request} {settings : Settings}
    (hrequest : Request.ofArguments? arguments = .ok (some request))
    (hsettings : Settings.resolve { environment := s.environment, envFile := s.envFile } = .ok settings)
    (hlevel : (Level.ofName? (Text.upper settings.logLevel)).isSome)
    (hpath : (request.grammar <|> settings.grammarPath) = some path)

/-- A table that cannot be loaded is all that the program tells. -/
theorem launch_of_load_error {arguments : List String} {s : Surroundings Id} {path : FilePath} {e : LoadError}
    (hcomes : ComesTo arguments s path) (h : GrammarFile.load s.yaml (s.contentOf path) = .error e) :
    ∃ complaints, Id.run (launch arguments s) = .ofResult s.terminal complaints (.error (.load path e)) := by
  obtain ⟨hrequest, hsettings, hlevel, hpath⟩ := hcomes
  obtain ⟨complaints, hexit⟩ := launch_of_request hrequest hsettings hlevel
  refine ⟨complaints, hexit.trans ?_⟩
  rw [perform_of_error (tableFor_eq_error_iff.mpr ⟨path, e, hpath, h, rfl⟩)]

/-- **A file gives a valid table or an error, and the program reports the error with exit code 2**, unless what is
wrong with the file escapes; then the exit code is 1. This holds with every reader of YAML. -/
theorem loads_or_reports (yaml : Yaml.Reader) (content : Except FileFault (List UInt8)) :
    (∀ t, GrammarFile.load yaml content = .ok t → t.validate = .ok t)
    ∧ ∀ e, GrammarFile.load yaml content = .error e →
      (e.foreseen = true ↔ ∀ bytes, content = .ok bytes → ¬GrammarFile.Escapes yaml bytes e)
      ∧ ∀ {arguments : List String} {s : Surroundings Id} {path : FilePath},
        ComesTo arguments s path → s.yaml = yaml → s.contentOf path = content →
          (Id.run (launch arguments s)).failure = some (.load path e)
          ∧ (Id.run (launch arguments s)).output = ""
          ∧ (Id.run (launch arguments s)).complaints.getLast? = some ((Failure.load path e).complaint s.terminal)
          ∧ (Id.run (launch arguments s)).code = if e.foreseen then 2 else 1 := by
  refine ⟨fun t h => GrammarFile.validate_of_load h, fun e h => ⟨GrammarFile.foreseen_iff h, ?_⟩⟩
  rintro arguments s path hcomes rfl rfl
  obtain ⟨complaints, hexit⟩ := launch_of_load_error hcomes h
  rw [hexit]
  exact ⟨rfl, rfl, List.getLast?_concat, rfl⟩

/-- A file with a day of a thirteenth month. -/
def datedFile : List UInt8 := "states: 2020-13-01\n".toList.map (·.toNat.toUInt8)

/-- That file alone. -/
def datedSurroundings : Surroundings Id where
  environment := []
  contentOf path := if path = .ofString "dated.yaml" then .ok datedFile else .error .notFound

theorem load_datedFile : GrammarFile.load Yaml.read (.ok datedFile) = .error (.yaml (.time .month)) := by
  have h : (GrammarFile.load Yaml.read (.ok datedFile)).map (fun _ => ()) = .error (.yaml (.time .month)) := by
    decide +kernel
  cases hload : GrammarFile.load Yaml.read (.ok datedFile) with
  | ok t => rw [hload] at h; cases h
  | error e => rw [hload] at h; exact congrArg _ (Except.error.inj h)

/-- The states of a table are asked for. -/
theorem comesTo_states (path : String) :
    ComesTo ["states", "--grammar", path] datedSurroundings (.ofString path) :=
  .intro (show Request.ofArguments? _ = .ok (some (.states (some (.ofString path)))) from rfl)
    (show Settings.resolve _ = .ok {} from rfl) (by decide) rfl

/-- Three files: one with a table, one with a date that does not exist, and one that is not there. -/
theorem loads_or_reports_dated :
    (∃ t, GrammarFile.load Yaml.read (.ok pingFile) = .ok t ∧ t.validate = .ok t)
      ∧ GrammarFile.load Yaml.read (.ok datedFile) = .error (.yaml (.time .month))
      ∧ GrammarFile.Escapes Yaml.read datedFile (.yaml (.time .month))
      ∧ (Id.run (launch ["states", "--grammar", "dated.yaml"] datedSurroundings)).code = 1
      ∧ GrammarFile.load Yaml.read (.error .notFound) = .error (.unreadable .notFound)
      ∧ (Id.run (launch ["states", "--grammar", "missing.yaml"] datedSurroundings)).code = 2 := by
  have hping : (GrammarFile.load Yaml.read (.ok pingFile)).toOption.isSome := by decide +kernel
  obtain ⟨hforeseen, hdated⟩ := (loads_or_reports Yaml.read (.ok datedFile)).2 _ load_datedFile
  obtain ⟨-, hmissing⟩ := (loads_or_reports Yaml.read (.error .notFound)).2 (.unreadable .notFound) rfl
  refine ⟨?_, load_datedFile, ?_, (hdated (comesTo_states _) rfl rfl).2.2.2, rfl,
    (hmissing (comesTo_states "missing.yaml") rfl rfl).2.2.2⟩
  · cases hload : GrammarFile.load Yaml.read (.ok pingFile) with
    | ok t => exact ⟨t, rfl, (loads_or_reports Yaml.read (.ok pingFile)).1 t hload⟩
    | error e => rw [hload] at hping; cases hping
  · by_contra hnone
    refine absurd (hforeseen.mpr ?_) (by decide)
    rintro bytes ⟨⟩
    exact hnone

/-- **A file can fail the program**: neither does it give a table nor is it told that it does not. With bytes that
encode no text this is so whatever the reader of YAML is. -/
theorem not_always_foreseen :
    (¬∀ content : Except FileFault (List UInt8),
        (∃ t, GrammarFile.load Yaml.read content = .ok t ∧ t.validate = .ok t)
          ∨ ∃ e, GrammarFile.load Yaml.read content = .error e ∧ e.foreseen = true)
      ∧ GrammarFile.load Yaml.read (.ok datedFile) = .error (.yaml (.time .month))
      ∧ (Id.run (launch ["states", "--grammar", "dated.yaml"] datedSurroundings)).code = 1
      ∧ (∀ yaml, GrammarFile.load yaml (.ok [0xFF]) = .error .undecodable)
      ∧ LoadError.undecodable.foreseen = false := by
  refine ⟨fun h => ?_, load_datedFile, ?_, fun _ => rfl, rfl⟩
  · rcases h (.ok datedFile) with ⟨t, hload, -⟩ | ⟨e, hload, hforeseen⟩
    · cases load_datedFile.symm.trans hload
    · obtain rfl := Except.error.inj (load_datedFile.symm.trans hload)
      cases hforeseen
  · obtain ⟨complaints, hexit⟩ := launch_of_load_error (comesTo_states "dated.yaml") load_datedFile
    rw [hexit]
    rfl

end CommandLine

end CommandGrammar
