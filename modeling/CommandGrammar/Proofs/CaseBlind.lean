import CommandGrammar.Proofs.Folding
import CommandGrammar.Proofs.Sources

/-!
# Runs that differ in letter case alone

Two runs on texts that differ in the case of ASCII letters alone go on side by side: what is captured may
differ in the case of its letters, but nothing that is captured steers the run.

* `Config.Alike`, `Progress.Alike` — configurations and stretches that differ in letter case alone.
* `Config.Alike.step` — one step keeps two runs alike; `Config.Alike.run` — so does any number of them.
* `Parser.case_blind` — the statement about whole texts.
-/

namespace CommandGrammar

open Text

/-! ## What a run leaves behind, up to letter case -/

/-- Captures with the ASCII letters of their values in small form. -/
def foldHeld (held : List (String × String)) : List (String × String) :=
  held.map fun x => (x.1, foldText x.2)

/-- An event with the ASCII letters of what was read off the text in small form. -/
def Event.fold : Event → Event
  | .started text => .started (foldText text)
  | .matched position state token lexeme => .matched position state token (token.fold lexeme)
  | .invoked action name held => .invoked action name (foldHeld held)
  | e => e

/-- A call with the ASCII letters of its arguments in small form. -/
def Call.fold (call : Call) : Call := ⟨call.action, foldHeld call.arguments⟩

/-- An outcome with the ASCII letters of its arguments and of its text in small form. -/
def Outcome.fold (o : Outcome Call) : Outcome Call :=
  { o with
    results := o.results.map Call.fold
    diagnostic := o.diagnostic.map fun d => { d with input := foldText d.input } }

@[simp] theorem foldHeld_append (held more : List (String × String)) :
    foldHeld (held ++ more) = foldHeld held ++ foldHeld more := List.map_append

theorem map_fst_foldHeld (held : List (String × String)) :
    (foldHeld held).map Prod.fst = held.map Prod.fst := by
  unfold foldHeld
  rw [List.map_map]
  rfl

theorem length_foldHeld (held : List (String × String)) : (foldHeld held).length = held.length :=
  List.length_map _

/-- What a token captures differs in letter case alone. -/
theorem Token.capture?_fold (token : Token) {l l' : Lexeme} (h : token.fold l = token.fold l') :
    (token.capture? l).map (fun x => (x.1, foldText x.2))
      = (token.capture? l').map fun x => (x.1, foldText x.2) := by
  have hvalue : l.value.map foldText = l'.value.map foldText := by
    unfold Token.fold at h
    split at h
    · rw [h]
    · exact congrArg Lexeme.value h
  have hcapture : ∀ x : Lexeme, (token.capture? x).map (fun y => (y.1, foldText y.2))
      = token.capture.bind fun identifier => (x.value.map foldText).map (identifier, ·) := by
    intro x
    unfold Token.capture?
    cases token.capture with
    | none => rfl
    | some identifier => cases x.value <;> rfl
  rw [hcapture, hcapture, hvalue]

/-! ## Two runs side by side -/

/-- Two configurations that differ in letter case alone, whatever has been recorded. -/
structure Config.Alike (c d : Config Trace) : Prop where
  position : c.position = d.position
  rest : foldCase c.rest = foldCase d.rest
  state : c.state = d.state
  capacity : c.captures.capacity = d.captures.capacity
  held : foldHeld c.captures.toList = foldHeld d.captures.toList

/-- Two stretches that differ in letter case alone. -/
structure Progress.Alike (q r : Progress Trace Call TableError) : Prop where
  config : q.config.Alike r.config
  ending : q.ending = r.ending
  journal : q.journal.map Event.fold = r.journal.map Event.fold
  actions : q.actions = r.actions
  results : q.results.map Call.fold = r.results.map Call.fold

namespace Progress

variable {c d : Config Trace} {q r : Progress Trace Call TableError}

theorem Alike.note (h : c.Alike d) {i j : Journal} (hj : i.map Event.fold = j.map Event.fold) :
    (Progress.note c i : Progress Trace Call TableError).Alike (.note d j) :=
  ⟨h, rfl, hj, rfl, rfl⟩

theorem Alike.stop (h : c.Alike d) (e : Ending TableError) :
    (Progress.stop c e : Progress Trace Call TableError).Alike (.stop d e) :=
  ⟨h, rfl, rfl, rfl, rfl⟩

/-- **Stretches that are alike are alike one behind the other.** -/
theorem Alike.andThen (h : q.Alike r) {f g : Config Trace → Progress Trace Call TableError}
    (hnext : ∀ c d : Config Trace, c.Alike d → (f c).Alike (g d)) :
    (q.andThen f).Alike (r.andThen g) := by
  cases he : q.ending with
  | some e =>
    rw [Progress.andThen_of_some he, Progress.andThen_of_some (h.ending ▸ he)]
    exact h
  | none =>
    have hfg := hnext q.config r.config h.config
    rw [Progress.andThen_of_none he, Progress.andThen_of_none (h.ending ▸ he)]
    exact
      { config := hfg.config
        ending := hfg.ending
        journal := by rw [List.map_append, List.map_append, h.journal, hfg.journal]
        actions := by rw [h.actions, hfg.actions]
        results := by rw [List.map_append, List.map_append, h.results, hfg.results] }

end Progress

/-- Captures that differ in letter case alone take another one alike, or refuse it alike. -/
theorem Captures.push_fold {a b : Captures} (hcapacity : a.capacity = b.capacity)
    (hheld : foldHeld a.toList = foldHeld b.toList) (identifier : String) {v w : String}
    (hvalue : foldText v = foldText w) :
    (∃ a' b', a.push identifier v = .ok a' ∧ b.push identifier w = .ok b' ∧ a'.capacity = b'.capacity
        ∧ foldHeld a'.toList = foldHeld b'.toList)
      ∨ ∃ e, a.push identifier v = .error e ∧ b.push identifier w = .error e := by
  have hnames : a.toList.map Prod.fst = b.toList.map Prod.fst := by
    rw [← map_fst_foldHeld, hheld, map_fst_foldHeld]
  have hlength : a.toList.length = b.toList.length := by
    rw [← length_foldHeld, hheld, length_foldHeld]
  have herror : ∀ e, a.push identifier v = .error e ↔ b.push identifier w = .error e := by
    intro e
    rw [Captures.push_eq_error_iff, Captures.push_eq_error_iff, hnames, hlength, hcapacity]
  cases ha : a.push identifier v with
  | error e => exact Or.inr ⟨e, rfl, (herror e).mp ha⟩
  | ok a' =>
    cases hb : b.push identifier w with
    | error e =>
      rw [(herror e).mpr hb] at ha
      cases ha
    | ok b' =>
      refine Or.inl ⟨a', b', rfl, rfl, ?_, ?_⟩
      · rw [Captures.capacity_push ha, Captures.capacity_push hb, hcapacity]
      · rw [Captures.toList_push ha, Captures.toList_push hb, foldHeld_append, foldHeld_append, hheld]
        simp [foldHeld, hvalue]

namespace Config.Alike

variable {t : Table} {c d : Config Trace}

theorem skipBlanks (h : c.Alike d) : c.skipBlanks.Alike d.skipBlanks := by
  have htake : foldCase (c.rest.takeWhile isBlank) = foldCase (d.rest.takeWhile isBlank) := by
    rw [← takeWhile_foldCase isBlank_toLower, h.rest, takeWhile_foldCase isBlank_toLower]
  have hlength : (c.rest.takeWhile isBlank).length = (d.rest.takeWhile isBlank).length := by
    rw [← length_foldCase, htake, length_foldCase]
  exact
    { position := by
        show c.position + _ = d.position + _
        rw [h.position, hlength]
      rest := by
        show foldCase (c.rest.dropWhile isBlank) = foldCase (d.rest.dropWhile isBlank)
        rw [← dropWhile_foldCase isBlank_toLower, h.rest, dropWhile_foldCase isBlank_toLower]
      state := h.state
      capacity := h.capacity
      held := h.held }

theorem dropCaptures (h : c.Alike d) :
    (Machine.dropCaptures c : Progress Trace Call TableError).Alike (Machine.dropCaptures d) := by
  have hsize : c.captures.size = d.captures.size := by
    show c.captures.toList.length = d.captures.toList.length
    rw [← length_foldHeld, h.held, length_foldHeld]
  unfold Machine.dropCaptures
  rw [hsize]
  exact Progress.Alike.note (c := { c with captures := c.captures.clear })
    (d := { d with captures := d.captures.clear }) ⟨h.position, h.rest, h.state, h.capacity, rfl⟩ rfl

theorem hold (h : c.Alike d) (token : Token) {l l' : Lexeme} (hl : token.fold l = token.fold l') :
    (Machine.hold token l c : Progress Trace Call TableError).Alike (Machine.hold token l' d) := by
  have hcapture := token.capture?_fold hl
  rw [Machine.hold_eq, Machine.hold_eq]
  cases hc : token.capture? l with
  | none =>
    rw [hc] at hcapture
    rw [Option.map_eq_none_iff.mp hcapture.symm]
    exact .note h rfl
  | some x =>
    obtain ⟨identifier, v⟩ := x
    rw [hc] at hcapture
    obtain ⟨⟨identifier', w⟩, hc', hpair⟩ := Option.map_eq_some_iff.mp hcapture.symm
    obtain ⟨rfl, hvalue⟩ := Prod.mk.inj hpair
    rw [hc']
    rcases Captures.push_fold h.capacity h.held identifier' hvalue.symm with
      ⟨a, b, ha, hb, hcapacity, hheld⟩ | ⟨e, ha, hb⟩
    · simp only [ha, hb]
      exact Progress.Alike.note (c := { c with captures := a }) (d := { d with captures := b })
        ⟨h.position, h.rest, h.state, hcapacity, hheld⟩ rfl
    · simp only [ha, hb]
      exact .stop h _

theorem follow (h : c.Alike d) (transition : Transition) :
    ((Parser.tracing t).follow transition c).Alike ((Parser.tracing t).follow transition d) := by
  cases transition with
  | goto state =>
    have hstate : ({ c with state } : Config Trace).Alike { d with state } :=
      ⟨h.position, h.rest, rfl, h.capacity, h.held⟩
    simp only [Machine.follow]
    split
    · exact hstate.dropCaptures
    · exact .note hstate rfl
  | invoke action next =>
    simp only [Machine.follow, Machine.invoke]
    cases hn : t.actionName action with
    | error e =>
      simp only [Parser.tracing_table, hn]
      exact .stop h _
    | ok name =>
      have hdispatch : ∀ x : Config Trace,
          (Parser.tracing t).callbacks.dispatch action x.captures x.environment
            = ⟨{ x.environment with calls := x.environment.calls ++ [⟨name, x.captures.toList⟩] }, [],
                .ok (some ⟨name, x.captures.toList⟩)⟩ := by
        intro x
        show Trace.record t action x.captures x.environment = _
        simp only [Trace.record, hn]
      simp only [Parser.tracing_table, hn, hdispatch]
      refine Progress.Alike.andThen (Progress.Alike.andThen (.note ?_ ?_) fun _ _ h' => h'.dropCaptures)
        fun _ _ h' => ?_
      · exact ⟨h.position, h.rest, h.state, h.capacity, h.held⟩
      · simp [Event.fold, h.held]
      · exact ⟨⟨h'.position, h'.rest, rfl, h'.capacity, h'.held⟩, rfl, rfl, rfl,
          by simp [Call.fold, h.held]⟩

theorem signal (h : c.Alike d) (token : Token) {l l' : Lexeme} (hl : token.fold l = token.fold l') :
    ((Parser.tracing t).signal token l c).Alike ((Parser.tracing t).signal token l' d) := by
  have hcompletes : l.completesCommand = l'.completesCommand := by
    unfold Lexeme.completesCommand
    rw [← token.terminator_fold l, hl, token.terminator_fold]
  show (if token.kind = .commandEnd ∧ l.completesCommand then _ else _ : Progress _ _ _).Alike
    (if token.kind = .commandEnd ∧ l'.completesCommand then _ else _)
  rw [hcompletes]
  split
  · refine Progress.Alike.andThen (.note ?_ (by rw [h.position])) fun _ _ h' => .note h' rfl
    exact ⟨h.position, h.rest, h.state, h.capacity, h.held⟩
  · exact .note h rfl

theorem advance (h : c.Alike d) (token : Token) {l l' : Lexeme} (hl : token.fold l = token.fold l') :
    (Machine.advance l c : Progress Trace Call TableError).Alike (Machine.advance l' d) := by
  have hconsumed : l.consumed = l'.consumed := by
    rw [← token.consumed_fold l, hl, token.consumed_fold]
  have hlength : c.rest.length = d.rest.length := by
    rw [← length_foldCase, h.rest, length_foldCase]
  have hmoved : (c.moved l).Alike (d.moved l') :=
    { position := by
        show c.position + _ = d.position + _
        rw [h.position, hconsumed]
      rest := by
        show (c.rest.drop l.consumed).map Char.toLower = (d.rest.drop l'.consumed).map Char.toLower
        rw [List.map_drop, List.map_drop, hconsumed]
        exact congrArg (List.drop _) h.rest
      state := h.state
      capacity := h.capacity
      held := h.held }
  by_cases hle : l.consumed ≤ c.rest.length
  · rw [Machine.advance_of_le hle, Machine.advance_of_le (hconsumed ▸ hlength ▸ hle)]
    exact .note hmoved rfl
  · have hlt := Nat.lt_of_not_le hle
    rw [Machine.advance_of_lt hlt, Machine.advance_of_lt (hconsumed ▸ hlength ▸ hlt)]
    exact .stop hmoved _

theorem accept (h : c.Alike d) (token : Token) {l l' : Lexeme} (hl : token.fold l = token.fold l') :
    ((Parser.tracing t).accept token l c).Alike ((Parser.tracing t).accept token l' d) := by
  have hmatched : [Event.matched c.position c.state token l].map Event.fold
      = [Event.matched d.position d.state token l'].map Event.fold := by
    simp [Event.fold, h.position, h.state, hl]
  exact Progress.Alike.note h hmatched
    |>.andThen (fun _ _ h' => h'.hold token hl)
    |>.andThen (fun _ _ h' => h'.follow token.transition)
    |>.andThen (fun _ _ h' => h'.signal token hl)
    |>.andThen (fun _ _ h' => h'.advance token hl)

/-- **One step keeps two runs alike.** -/
theorem step (h : c.Alike d) : ((Parser.tracing t).step c).Alike ((Parser.tracing t).step d) := by
  have hskip := h.skipBlanks
  unfold Machine.step
  simp only [← hskip.state]
  cases (Parser.tracing t).table.tokens c.skipBlanks.state with
  | error e => exact .stop hskip _
  | ok tokens =>
    have htried : triedTokens tokens c.skipBlanks.rest = triedTokens tokens d.skipBlanks.rest := by
      rw [← triedTokens_foldCase, hskip.rest, triedTokens_foldCase]
    simp only [htried]
    refine Progress.Alike.andThen (.note hskip rfl) fun c' d' h' => ?_
    have hchoice := choose?_foldCase tokens c'.rest
    rw [h'.rest, choose?_foldCase] at hchoice
    cases hc : choose? tokens c'.rest with
    | none =>
      rw [hc] at hchoice
      rw [Option.map_eq_none_iff.mp hchoice]
      exact .stop h' _
    | some x =>
      obtain ⟨token, l⟩ := x
      rw [hc] at hchoice
      obtain ⟨⟨token', l'⟩, hd, hpair⟩ := Option.map_eq_some_iff.mp hchoice
      obtain ⟨rfl, hl⟩ := Prod.mk.inj hpair
      rw [hd]
      exact h'.accept token' hl.symm

/-- **Any number of steps keeps two runs alike.** -/
theorem run (h : c.Alike d) (budget : Nat) :
    ((Parser.tracing t).run budget c).Alike ((Parser.tracing t).run budget d) := by
  induction budget generalizing c d with
  | zero => exact .stop h _
  | succ n ih => exact h.step.andThen fun _ _ h' => ih h'

end Config.Alike

/-! ## Captures with their tokens -/

/-- A capture with the ASCII letters of its value in small form, unless a literal has made it. -/
def Source.fold (x : Source) : Source :=
  (x.1, x.2.1, if x.1.kind = .literal then x.2.2 else foldText x.2.2)

theorem Token.source?_fold (token : Token) (l : Lexeme) :
    token.source? (token.fold l) = (token.source? l).map Source.fold := by
  unfold Token.source? Token.capture? Token.fold
  cases token.capture with
  | none => rfl
  | some identifier =>
    by_cases hk : token.kind = .literal
    · cases hl : l.value <;> simp [hk, hl, Source.fold]
    · cases hl : l.value <;> simp [hk, hl, Source.fold, Lexeme.fold]

theorem Journal.sourcedFrom_fold (held : List Source) (j : Journal) :
    Journal.sourcedFrom (held.map Source.fold) (j.map Event.fold)
      = (j.sourcedFrom held).map fun x => (x.1, x.2.map Source.fold) := by
  induction j generalizing held with
  | nil => rfl
  | cons e j ih =>
    cases e with
    | matched p s token l =>
      show Journal.sourcedFrom (_ ++ (token.source? (token.fold l)).toList) (j.map Event.fold) = _
      have hsource : (token.source? (token.fold l)).toList = (token.source? l).toList.map Source.fold := by
        rw [Token.source?_fold]
        cases token.source? l <;> rfl
      rw [hsource, ← List.map_append, ih]
      rfl
    | cleared n => exact ih []
    | invoked a n h => exact congrArg ((a, held.map Source.fold) :: ·) (ih held)
    | _ => exact ih held

/-! ## What is read off a journal -/

namespace Journal

theorem accepted_fold (j : Journal) :
    accepted (j.map Event.fold) = j.accepted.map fun a => (a.1, a.2.1, a.2.2.1, a.2.2.1.fold a.2.2.2) := by
  induction j with
  | nil => rfl
  | cons e j ih =>
    cases e with
    | matched p s token l => exact congrArg ((p, s, token, token.fold l) :: ·) ih
    | _ => exact ih

theorem boundariesFrom_fold (count : Nat) (j : Journal) :
    boundariesFrom count (j.map Event.fold) = boundariesFrom count j := by
  induction j generalizing count with
  | nil => rfl
  | cons e j ih =>
    cases e with
    | boundary p => exact congrArg (count :: ·) (ih count)
    | _ => exact ih _

theorem trace_fold (j : Journal) :
    trace (j.map Event.fold) = ⟨j.trace.calls.map Call.fold, j.trace.boundaries⟩ := by
  unfold trace
  rw [List.filterMap_map, List.map_filterMap, List.countP_map]
  congr 2 <;> funext e <;> cases e <;> rfl

end Journal

/-! ## Whole texts -/

namespace Parser

/-- Two texts make the parser do the same, up to the case of ASCII letters. -/
structure SteersAlike (p : Parser Trace Call TableError) (x y : String) : Prop where
  /-- The same tokens are accepted at the same positions and in the same states. A literal has the same
  value in both runs, and the value of a word or a string differs in the case of ASCII letters alone. -/
  accepted : (p.parse x {}).journal.accepted.map (fun a => (a.1, a.2.1, a.2.2.1, a.2.2.1.fold a.2.2.2))
    = (p.parse y {}).journal.accepted.map fun a => (a.1, a.2.1, a.2.2.1, a.2.2.1.fold a.2.2.2)
  /-- The same actions are invoked, with captures made by the same tokens. One made by a literal has the
  same value in both runs, and one made by a word or a string differs in the case of ASCII letters alone. -/
  invocations : (p.parse x {}).journal.sourced.map (fun i => (i.1, i.2.map Source.fold))
    = (p.parse y {}).journal.sourced.map fun i => (i.1, i.2.map Source.fold)
  /-- The captures with their tokens are those that the actions see. -/
  sourced : (p.parse x {}).journal.sourced.map unsourced = (p.parse x {}).journal.invocations
    ∧ (p.parse y {}).journal.sourced.map unsourced = (p.parse y {}).journal.invocations
  /-- The boundaries lie between the same invocations. -/
  boundaries : (p.parse x {}).journal.boundaries = (p.parse y {}).journal.boundaries
  /-- The same is recorded, up to the case of ASCII letters. -/
  calls : (p.parse x {}).environment.calls.map Call.fold = (p.parse y {}).environment.calls.map Call.fold
    ∧ (p.parse x {}).environment.boundaries = (p.parse y {}).environment.boundaries
  /-- The same fault is raised, or the same actions are reported, with the same diagnostic but for the
  text. -/
  verdict : (p.parse x {}).verdict.map Outcome.fold = (p.parse y {}).verdict.map Outcome.fold

/-- Runs that are alike come to reports that are. -/
theorem conclude_fold {x y : String} (h : foldText x = foldText y)
    {q r : Progress Trace Call TableError} (hqr : q.Alike r) :
    (conclude x q).journal.map Event.fold = (conclude y r).journal.map Event.fold
      ∧ (conclude x q).verdict.map Outcome.fold = (conclude y r).verdict.map Outcome.fold := by
  have hjournal : ∀ last : Journal, (.started x :: q.journal ++ last : Journal).map Event.fold
      = (.started y :: r.journal ++ last : Journal).map Event.fold := by
    intro last
    rw [List.map_append, List.map_append, List.map_cons, List.map_cons, hqr.journal, Event.fold,
      Event.fold, h]
  unfold conclude
  rw [← hqr.ending]
  cases q.ending with
  | none => exact ⟨hjournal [], rfl⟩
  | some e =>
    cases e with
    | complete =>
      simp only [hqr.actions]
      exact ⟨hjournal _, by simp [Except.map, Outcome.fold, hqr.results]⟩
    | unmatched expected =>
      simp only [hqr.actions, hqr.config.position, hqr.config.state]
      exact ⟨hjournal _, by simp [Except.map, Outcome.fold, hqr.results, h]⟩
    | abandoned fault => exact ⟨hjournal [], rfl⟩

theorem parse_fold (t : Table) (capacity : Int) (limit : Option Int) {x y : String}
    (h : foldText x = foldText y) :
    ((limited t capacity limit).parse x {}).journal.map Event.fold
        = ((limited t capacity limit).parse y {}).journal.map Event.fold
      ∧ ((limited t capacity limit).parse x {}).verdict.map Outcome.fold
        = ((limited t capacity limit).parse y {}).verdict.map Outcome.fold := by
  have hrest : foldCase x.toList = foldCase y.toList := by
    rw [← toList_foldText, h, toList_foldText]
  have hlength : x.length = y.length := by
    rw [← String.length_toList, ← length_foldCase, hrest, length_foldCase, String.length_toList]
  have hexceeds : (limited t capacity limit).exceeds x = (limited t capacity limit).exceeds y := by
    unfold exceeds
    rw [hlength]
  unfold parse
  rw [hexceeds]
  cases (limited t capacity limit).exceeds y with
  | some n =>
    simp only [hlength]
    exact ⟨trivial, trivial⟩
  | none =>
    cases Captures.empty? (limited t capacity limit).captureCapacity with
    | error e => exact ⟨by simp [Event.fold, h], rfl⟩
    | ok captures =>
      have hstart : ((limited t capacity limit).start x captures {}).Alike
          ((limited t capacity limit).start y captures {}) := ⟨rfl, hrest, rfl, rfl, rfl⟩
      have hbudget : budget x = budget y := congrArg (· + 1) hlength
      refine conclude_fold h ?_
      unfold progress
      rw [hbudget]
      exact hstart.run (budget y)

/-- **Letter case never steers the parser**: on texts that differ in the case of ASCII letters alone it
does the same, up to the case of what it reads off them. -/
theorem case_blind (t : Table) (capacity : Int) (limit : Option Int) {x y : String}
    (h : foldText x = foldText y) : (limited t capacity limit).SteersAlike x y := by
  obtain ⟨hjournal, hverdict⟩ := parse_fold t capacity limit h
  have htrace := congrArg Journal.trace hjournal
  rw [Journal.trace_fold, Journal.trace_fold, ← environment_eq_trace, ← environment_eq_trace] at htrace
  exact
    { accepted := by rw [← Journal.accepted_fold, hjournal, Journal.accepted_fold]
      invocations := by
        have hsourced := congrArg Journal.sourced hjournal
        exact (Journal.sourcedFrom_fold [] _).symm.trans
          (hsourced.trans (Journal.sourcedFrom_fold [] _))
      sourced := ⟨unsourced_sourced (limited t capacity limit) x {},
        unsourced_sourced (limited t capacity limit) y {}⟩
      boundaries := by
        have hboundaries := congrArg Journal.boundaries hjournal
        exact (Journal.boundariesFrom_fold 0 _).symm.trans
          (hboundaries.trans (Journal.boundariesFrom_fold 0 _))
      calls := Trace.mk.inj htrace
      verdict := hverdict }

/-- A chain whose keywords and names are written in two ways. -/
theorem case_blind_window :
    foldText "[Class=\"Xterm\"] MOVE Left 10 PX; mark aB, jump"
        = foldText "[cLASS=\"xTERM\"] move lEFT 10 px; MARK Ab, Jump"
      ∧ (limited Window.grammar 2 none).SteersAlike "[Class=\"Xterm\"] MOVE Left 10 PX; mark aB, jump"
          "[cLASS=\"xTERM\"] move lEFT 10 px; MARK Ab, Jump" := by
  have h : foldText "[Class=\"Xterm\"] MOVE Left 10 PX; mark aB, jump"
      = foldText "[cLASS=\"xTERM\"] move lEFT 10 px; MARK Ab, Jump" := by
    decide +kernel
  exact ⟨h, case_blind Window.grammar 2 none h⟩

end Parser

end CommandGrammar
