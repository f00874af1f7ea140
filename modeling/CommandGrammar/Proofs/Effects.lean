import CommandGrammar.Proofs.Boundaries
import CommandGrammar.Proofs.Requests

/-!
# What accepted tokens bring about

What a run has done to its callbacks is fixed by the tokens that it has accepted: each one asks for its action,
on the captures since the last reset and its own, and then, if it ended a command and not with a comma, for the
hook, if there is one. As long as a run is not given up nothing else is asked for, and the actions that it names
are those of its tokens.

* `Table.signals` — what tokens ask for, one after another.
* `effects_step` — one step asks for what belongs to the token that it accepts.
* `Effected` — what holds behind any number of steps (`effected_steps`).
* `Parser.effects_of_outcome` — the same for whole texts, with what the callbacks make of it.
-/

namespace CommandGrammar

/-! ## What tokens ask for -/

/-- What a token asks of the callbacks when it is accepted: its action, which sees the captures held, and then
the hook, if anyone hears and the token completes its command. -/
def Token.signals (token : Token) (lexeme : Lexeme) (heard : Bool) (held : List (String × String)) :
    List Signal :=
  token.action?.toList.map (Signal.perform · held)
    ++ if heard = true ∧ token.kind = .commandEnd ∧ lexeme.completesCommand = true then [.boundary] else []

namespace Table

/-- What tokens accepted behind others ask for. -/
def signalsBehind (t : Table) (text : List Char) (heard : Bool) :
    (before accepted : List Acceptance) → List Signal
  | _, [] => []
  | before, a :: accepted =>
    a.2.2.1.signals a.2.2.2 heard (t.scope text before ++ (captured? text a).toList)
      ++ t.signalsBehind text heard (before ++ [a]) accepted

/-- What the tokens accepted in a run ask for, in order. -/
def signals (t : Table) (text : List Char) (heard : Bool) (accepted : List Acceptance) : List Signal :=
  t.signalsBehind text heard [] accepted

variable {t : Table} {text : List Char} {heard : Bool}

theorem signalsBehind_append (before front back : List Acceptance) :
    t.signalsBehind text heard before (front ++ back)
      = t.signalsBehind text heard before front ++ t.signalsBehind text heard (before ++ front) back := by
  induction front generalizing before with
  | nil => simp [signalsBehind]
  | cons a front ih => simp [signalsBehind, ih]

@[simp] theorem signals_nil : t.signals text heard [] = [] := rfl

/-- A token accepted last asks last, on the captures of the tokens in front of it and its own. -/
theorem signals_concat (accepted : List Acceptance) (a : Acceptance) :
    t.signals text heard (accepted ++ [a])
      = t.signals text heard accepted
        ++ a.2.2.1.signals a.2.2.2 heard (t.scope text accepted ++ (captured? text a).toList) := by
  simp [signals, signalsBehind_append, signalsBehind]

end Table

/-! ## The parts of a step -/

namespace Machine

variable {σ ρ ε : Type} {m : Machine σ ρ ε} {c : Config σ} {token : Token} {lexeme : Lexeme}

/-- A transition that is followed asks for its action, if it has one. -/
theorem Followed.signals {t : Transition} {q : Progress σ ρ ε} (h : m.Followed c t q) (hq : q.ending = none) :
    q.journal.signals = t.action?.toList.map (Signal.perform · c.captures.toList) := by
  cases h with
  | home => exact (Journal.silent_dropCaptures _).1
  | away => rfl
  | unknown | failed => cases hq
  | @performed action next name result =>
    show (m.invocation action name c).signals = [.perform action c.captures.toList]
    unfold invocation
    rw [Journal.signals_append, (Journal.silent_dropCaptures c).1, List.append_nil]
    exact congrArg (.perform action c.captures.toList :: ·) (Journal.signals_map_call _)

/-- It names that action as the table does. -/
theorem Followed.named {t : Transition} {q : Progress σ ρ ε} (h : m.Followed c t q) (hq : q.ending = none) :
    q.actions.map Except.ok = t.action?.toList.map m.table.actionName := by
  cases h with
  | home | away => rfl
  | unknown | failed => cases hq
  | performed hn => exact congrArg (fun name => [name]) hn.symm

/-- The hook is asked for if there is one and the token completes its command. -/
theorem signals_signal (m : Machine σ ρ ε) (token : Token) (lexeme : Lexeme) (c : Config σ) :
    (m.signal token lexeme c).journal.signals
      = if m.callbacks.onBoundary.isSome = true ∧ token.kind = .commandEnd ∧ lexeme.completesCommand = true
        then [.boundary] else [] := by
  cases hhook : m.callbacks.onBoundary.isSome with
  | true =>
    rw [signal_journal_of_hook hhook]
    by_cases hend : token.kind = .commandEnd ∧ lexeme.completesCommand = true
    · rw [if_pos hend, if_pos ⟨rfl, hend⟩]
      rfl
    · rw [if_neg hend, if_neg fun h => hend h.2]
      rfl
  | false =>
    rcases m.signal_cases token lexeme c with h | ⟨hook, hh, -⟩
    · rw [h]
      rfl
    · rw [hh] at hhook
      cases hhook

/-- **A token that is accepted asks for what belongs to it**, on the captures held and its own. -/
theorem effects_perform (he : (m.perform token lexeme c).ending = none) :
    (m.perform token lexeme c).journal.signals
        = token.signals lexeme m.callbacks.onBoundary.isSome
          (c.captures.toList ++ (token.capture? lexeme).toList)
      ∧ (m.perform token lexeme c).actions.map Except.ok = token.action?.toList.map m.table.actionName := by
  rcases room_or_refused token lexeme c with h | ⟨_, _, _, h, hp⟩
  · obtain ⟨captures, hcaptures, -, hq⟩ := perform_of_room (m := m) h
    have hf := m.followed token.transition { c with captures }
    rw [hq, Progress.andThen_note] at he ⊢
    generalize m.follow token.transition { c with captures } = f at hf he ⊢
    obtain ⟨hnone, -⟩ := Progress.ending_andThen_eq_none.mp he
    rw [Progress.andThen_of_none hnone]
    constructor
    · show Journal.signals (f.journal ++ (m.signal token lexeme f.config).journal) = _
      rw [Journal.signals_append, hf.signals hnone, signals_signal, ← hcaptures]
      rfl
    · show (f.actions ++ (m.signal token lexeme f.config).actions).map Except.ok = _
      rw [signal_actions, List.append_nil]
      exact hf.named hnone
  · rw [perform_of_refused h hp] at he
    cases he

/-! ## Steps and runs -/

/-- What a stretch from a configuration accepts, asks for and names, if it is not given up: nothing, or one token
with what belongs to it. -/
inductive Effects (m : Machine σ ρ ε) (text : List Char) (c : Config σ) (q : Progress σ ρ ε) : Prop where
  | nothing (accepted : q.journal.accepted = []) (signals : q.journal.signals = []) (actions : q.actions = [])
  | token (a : Acceptance) (accepted : q.journal.accepted = [a])
    (signals : q.journal.signals = a.2.2.1.signals a.2.2.2 m.callbacks.onBoundary.isSome
      (c.captures.toList ++ (captured? text a).toList))
    (actions : q.actions.map Except.ok = a.2.2.1.action?.toList.map m.table.actionName)

variable {text : List Char}

/-- **A step asks for what belongs to the token that it accepts.** -/
theorem effects_step (hc : c.Within text) (hq : ∀ f, (m.step c).ending ≠ some (.abandoned f)) :
    Effects m text c (m.step c) := by
  have hperform : ∀ {tokens token lexeme}, choose? tokens c.skipBlanks.rest = some (token, lexeme) →
      (m.perform token lexeme c.skipBlanks).ending = none → ∀ {config ending results},
      Effects m text c
        { config, ending, results
          journal := tries tokens c.skipBlanks ++ (m.perform token lexeme c.skipBlanks).journal
          actions := (m.perform token lexeme c.skipBlanks).actions } := by
    intro tokens token lexeme hch he config ending results
    obtain ⟨hsignals, hactions⟩ := effects_perform he
    refine .token (c.skipBlanks.position, c.skipBlanks.state, token, lexeme) ?_ ?_ hactions
    · rw [Journal.accepted_append, tries_accepted, perform_accepted]
      rfl
    · rw [Journal.signals_append, (Journal.silent_tries _ _).1, hsignals,
        captured?_of_choose? hc.skipBlanks hch]
      rfl
  revert hq
  have hs := m.stepped c
  generalize m.step c = q at hs ⊢
  intro hq
  cases hs with
  | lost => exact absurd rfl (hq _)
  | unmatched => exact .nothing (tries_accepted _ _) (Journal.silent_tries _ _).1 rfl
  | cut _ _ he => exact absurd he (hq _)
  | moved _ hch he | completed _ hch he => exact hperform hch he

/-- What a run that is not given up has asked for and named is what its accepted tokens ask for and name. -/
structure Effected (m : Machine σ ρ ε) (text : List Char) (q : Progress σ ρ ε) : Prop where
  signals : (∀ f, q.ending ≠ some (.abandoned f)) →
    q.journal.signals = m.table.signals text m.callbacks.onBoundary.isSome q.journal.accepted
  actions : (∀ f, q.ending ≠ some (.abandoned f)) →
    q.actions.map Except.ok = (q.journal.accepted.filterMap (·.2.2.1.action?)).map m.table.actionName

/-- **The effects of any number of steps** are those of the accepted tokens. -/
theorem effected_steps (h : m.table.Consistent) (hc : c.Within text)
    (hstate : ∃ tokens, m.table.tokens c.state = .ok tokens) (hempty : c.captures.toList = []) (n : Nat) :
    Effected m text (m.steps n c) := by
  induction n with
  | zero => exact ⟨fun _ => rfl, fun _ => rfl⟩
  | succ n ih =>
    rw [steps_succ]
    cases hn : (m.steps n c).ending with
    | some e => rw [Progress.andThen_of_some hn]; exact ih
    | none =>
      have hscoped := scoped_steps h hc hstate hempty n
      obtain ⟨hw, -, -⟩ := hscoped.going hn
      have hheld := hscoped.held fun e he => by cases hn.symm.trans he
      have hgoing : ∀ f, (m.steps n c).ending ≠ some (.abandoned f) := by simp [hn]
      have hsignals := ih.signals hgoing
      have hactions := ih.actions hgoing
      generalize m.steps n c = q at hn hw hheld hsignals hactions
      rw [Progress.andThen_of_none hn]
      refine ⟨fun he => ?_, fun he => ?_⟩
      · show Journal.signals (q.journal ++ (m.step q.config).journal)
          = m.table.signals text _ (Journal.accepted (q.journal ++ (m.step q.config).journal))
        rw [Journal.signals_append, Journal.accepted_append, hsignals]
        cases effects_step hw he with
        | nothing haccepted hnone => rw [haccepted, hnone, List.append_nil, List.append_nil]
        | token a haccepted hlast => rw [haccepted, hlast, Table.signals_concat, hheld]
      · show (q.actions ++ (m.step q.config).actions).map Except.ok
          = ((Journal.accepted (q.journal ++ (m.step q.config).journal)).filterMap _).map m.table.actionName
        rw [Journal.accepted_append, List.filterMap_append, List.map_append, List.map_append, hactions]
        cases effects_step hw he with
        | nothing haccepted _ hnone => rw [haccepted, hnone]; rfl
        | token a haccepted _ hlast =>
          rw [haccepted, hlast, List.filterMap_cons]
          cases a.2.2.1.action? <;> rfl

end Machine

/-! ## Whole texts -/

namespace Parser

variable {σ ρ ε : Type} {p : Parser σ ρ ε} {text : String} {environment : σ}

/-- What a text with an outcome did is what its accepted tokens ask for and what the callbacks make of that. -/
structure HasEffects (p : Parser σ ρ ε) (text : String) (environment : σ) (o : Outcome ρ) : Prop where
  /-- The actions named are those of the accepted tokens, in order. -/
  actions : o.actions.map Except.ok
    = ((p.parse text environment).journal.accepted.filterMap (·.2.2.1.action?)).map p.table.actionName
  /-- Actions are invoked and the hook is called for the accepted tokens and for nothing else. -/
  signals : (p.parse text environment).journal.signals
    = p.table.signals text.toList p.callbacks.onBoundary.isSome (p.parse text environment).journal.accepted
  /-- These are the requests of the text. All of them are answered, and their answers are the results. -/
  requests : (p.requests text).map Request.signal
    = p.table.signals text.toList p.callbacks.onBoundary.isSome (p.parse text environment).journal.accepted
  answered : p.Answered text environment
  results : o.results = (p.service text environment).results
  environment : (p.parse text environment).environment = (p.service text environment).environment

/-- **The effects of a text that comes to an outcome** are those of its accepted tokens, on a valid table. -/
theorem effects_of_outcome (hvalid : p.table.validate = .ok p.table) {o : Outcome ρ}
    (h : (p.parse text environment).verdict = .ok o) : p.HasEffects text environment o := by
  have hcons := Table.consistent_of_validate hvalid
  have hserves := serves p text environment
  have hanswered := answered_of_outcome h
  obtain ⟨hverdict, -, hrequests⟩ := hserves.answered hanswered
  obtain ⟨captures, hcaptures, hparse⟩ := exists_parse_eq_conclude h
  rw [progress_eq_behind hcons.literals] at hparse
  have heffected := Machine.effected_steps hcons (p.start_within text captures environment) hcons.initial
    (toList_of_empty? hcaptures) (text.length + 1)
  have houtcome := h
  rw [hparse] at houtcome
  have hsignals : (p.parse text environment).journal.signals = p.table.signals text.toList
      p.callbacks.onBoundary.isSome (p.parse text environment).journal.accepted := by
    rw [hparse, (conclude_silent text _).1, conclude_accepted]
    exact heffected.signals (not_abandoned_of_conclude houtcome)
  exact
    { actions := by
        rw [(outcome_of_conclude houtcome).1, hparse, conclude_accepted]
        exact heffected.actions (not_abandoned_of_conclude houtcome)
      signals := hsignals
      requests := hrequests.symm.trans hsignals
      answered := hanswered
      results := Outcome.results_of_judged (hverdict.symm.trans h)
      environment := hserves.environment }

end Parser

end CommandGrammar
