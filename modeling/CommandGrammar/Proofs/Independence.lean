import CommandGrammar.Proofs.Requests
import CommandGrammar.Proofs.Scope
import CommandGrammar.Window.Grammar

/-!
# Runs do not listen

A run hands its captures out and takes answers in, but what it asks next does not depend on them. Two parsers
that differ in their callbacks only ask the same of them, in the same order and up to the first failure, and say
the same of a text but for the results.

* `Journal.BoundariesLast` — a boundary comes behind the end of its command and behind what this end invokes.
* `Verdict.Alike` — verdicts that differ in the results at most.
* `Parser.runs_alike` — the statement about two parsers.
-/

namespace CommandGrammar

/-! ## Boundaries -/

namespace Journal

/-- Every boundary comes behind a token that ends a command at the same place, with no other token accepted
between, and behind the action that this token may invoke. -/
def BoundariesLast (j : Journal) : Prop :=
  ∀ pre position post, j = pre ++ .boundary position :: post →
    ∃ before state token lexeme between,
      pre = before ++ .matched position state token lexeme :: between
        ∧ token.kind = .commandEnd ∧ lexeme.completesCommand = true ∧ accepted between = []
        ∧ ∀ action next, token.transition = .invoke action next →
          ∃ name held, .invoked action name held ∈ between

namespace BoundariesLast

variable {i j : Journal}

/-- A journal without a boundary. -/
theorem of_not_mem (h : ∀ position, .boundary position ∉ j) : j.BoundariesLast := by
  intro pre position post hj
  exact absurd (by simp [hj]) (h position)

theorem append (hi : i.BoundariesLast) (hj : j.BoundariesLast) : (i ++ j).BoundariesLast := by
  intro pre position post h
  rcases Machine.exists_split_of_append h with ⟨post', h'⟩ | ⟨pre', rfl, h'⟩
  · exact hi pre position post' h'
  · obtain ⟨before, state, token, lexeme, between, rfl, hbetween⟩ := hj pre' position post h'
    exact ⟨i ++ before, state, token, lexeme, between, by simp, hbetween⟩

end BoundariesLast

end Journal

namespace Machine

variable {σ ρ ε : Type} {m : Machine σ ρ ε} {c : Config σ}

theorem Followed.not_boundary {t : Transition} {q : Progress σ ρ ε} (h : m.Followed c t q)
    (position : Nat) : .boundary position ∉ q.journal := by
  intro hm
  cases h with
  | home =>
    obtain ⟨k, hk⟩ := dropCaptures_journal _ _ hm
    cases hk
  | away | unknown => cases hm
  | failed | performed =>
    simp only [invocation, List.mem_cons, List.mem_append, List.mem_map, reduceCtorEq, false_or,
      and_false, exists_false] at hm
    obtain ⟨k, hk⟩ := dropCaptures_journal c _ hm
    cases hk

/-- An action that is performed has been written down. -/
theorem Followed.exists_invoked {action : ActionId} {next : Option StateName} {q : Progress σ ρ ε}
    (h : m.Followed c (.invoke action next) q) (hq : q.ending = none) :
    ∃ name held, .invoked action name held ∈ q.journal := by
  cases h with
  | unknown | failed => cases hq
  | @performed _ _ name => exact ⟨name, c.captures.toList, List.mem_append_left _ List.mem_cons_self⟩

theorem boundariesLast_perform (m : Machine σ ρ ε) (token : Token) (lexeme : Lexeme) (c : Config σ) :
    (m.perform token lexeme c).journal.BoundariesLast := by
  rcases room_or_refused token lexeme c with h | ⟨_, _, _, h, hp⟩
  · obtain ⟨captures, -, -, hq⟩ := perform_of_room (m := m) h
    have hf := m.followed token.transition { c with captures }
    rw [hq, Progress.andThen_note]
    generalize m.follow token.transition { c with captures } = f at hf
    show Journal.BoundariesLast (_ :: (f.andThen (m.signal token lexeme)).journal)
    have hfollow : Journal.BoundariesLast (.matched c.position c.state token lexeme :: f.journal) :=
      .of_not_mem fun position hm => by
        rcases List.mem_cons.mp hm with hm | hm
        · cases hm
        · exact hf.not_boundary position hm
    cases he : f.ending with
    | some e => rwa [Progress.andThen_of_some he]
    | none =>
      rw [Progress.andThen_of_none he]
      show Journal.BoundariesLast (_ :: (f.journal ++ (m.signal token lexeme f.config).journal))
      rcases m.signal_cases token lexeme f.config with hs | ⟨hook, -, hkind, hcompletes, hs⟩
      · rw [hs]
        show Journal.BoundariesLast (_ :: (f.journal ++ []))
        rwa [List.append_nil]
      · -- The one boundary is the last event, with the transition followed in front of it.
        rw [hs]
        intro pre position post hj
        rcases exists_split_of_append (i := .matched c.position c.state token lexeme :: f.journal) hj
          with ⟨post', hj'⟩ | ⟨pre', rfl, hj'⟩
        · exact hfollow pre position post' hj'
        · obtain ⟨rfl, hposition⟩ : pre' = [] ∧ f.config.position = position := by
            cases pre' with
            | nil => exact ⟨rfl, Event.boundary.inj (List.cons.inj hj').1⟩
            | cons e pre' => simp at hj'
          have hplace : f.config.position = c.position := hf.place.1
          refine ⟨[], c.state, token, lexeme, f.journal, by simp [← hposition, hplace], hkind, hcompletes,
            Journal.accepted_eq_nil hf.noMatch, fun action next ht => ?_⟩
          rw [ht] at hf
          exact hf.exists_invoked he
  · rw [perform_of_refused h hp]
    exact .of_not_mem (by simp)

theorem boundariesLast_step (m : Machine σ ρ ε) (c : Config σ) : (m.step c).journal.BoundariesLast := by
  have htries : ∀ tokens, (tries tokens c.skipBlanks).BoundariesLast := fun tokens =>
    .of_not_mem fun position hm => ((Journal.quiet_tries tokens c.skipBlanks) _ hm).2 position rfl
  have hs := m.stepped c
  generalize m.step c = q at hs ⊢
  cases hs with
  | lost => exact .of_not_mem (by simp [Progress.stop])
  | unmatched => exact htries _
  | cut | moved | completed => exact (htries _).append (boundariesLast_perform m _ _ _)

/-- **A boundary is the last thing that happens to the end of a command**, in any number of steps. -/
theorem boundariesLast_steps (m : Machine σ ρ ε) (n : Nat) (c : Config σ) :
    (m.steps n c).journal.BoundariesLast := by
  refine m.steps_induction (P := fun q => q.journal.BoundariesLast) (.of_not_mem (by simp [Progress.note])) ?_ n
  intro q hq he
  rw [Progress.andThen_of_none he]
  exact hq.append (boundariesLast_step m q.config)

end Machine

theorem Parser.boundariesLast {σ ρ ε : Type} (p : Parser σ ρ ε) (text : String) (environment : σ) :
    (p.parse text environment).journal.BoundariesLast := by
  unfold parse
  split
  · exact .of_not_mem (by simp)
  · split
    · exact .of_not_mem (by simp)
    · next captures _ =>
      obtain ⟨last, hj, hlast, -⟩ := conclude_quiet text (p.progress text captures environment)
      have hrun : (p.progress text captures environment).journal.BoundariesLast := by
        rw [progress, p.run_eq_steps]
        cases he : (p.steps (budget text) (p.start text captures environment)).ending with
        | some e => rw [Progress.andThen_of_some he]; exact p.boundariesLast_steps _ _
        | none =>
          rw [Progress.andThen_of_none he]
          exact (p.boundariesLast_steps _ _).append (.of_not_mem (by simp [Progress.stop]))
      rw [hj]
      exact (Journal.BoundariesLast.append (i := [.started text]) (.of_not_mem (by simp)) hrun).append
        (.of_not_mem fun position hm => (hlast _ hm).2 position rfl)

/-! ## Verdicts -/

/-- Two verdicts that differ in the results at most. A fault that they share is none of the callbacks. -/
inductive Verdict.Alike {ρ ε κ δ : Type} :
    Except (Fault ε) (Outcome ρ) → Except (Fault δ) (Outcome κ) → Prop where
  | outcome (actions : List String) (diagnostic : Option Diagnostic) (results : List ρ)
    (results' : List κ) : Alike (.ok ⟨actions, results, diagnostic⟩) (.ok ⟨actions, results', diagnostic⟩)
  | fault (own : Fault Empty) : Alike (.error (own.map Empty.elim)) (.error (own.map Empty.elim))

theorem Verdict.alike_judged {ρ ε κ δ : Type} (results : List ρ) (results' : List κ)
    (v : Except (Fault Empty) (Outcome Empty)) :
    Alike (Outcome.judged results v : Except (Fault ε) (Outcome ρ))
      (Outcome.judged results' v : Except (Fault δ) (Outcome κ)) := by
  cases v with
  | ok o => exact .outcome o.actions o.diagnostic results results'
  | error own => exact .fault own

/-- Verdicts that are alike are none on a run that a callback gave up. -/
theorem Verdict.Alike.ne_callback {ρ ε κ δ : Type} {v : Except (Fault ε) (Outcome ρ)}
    {w : Except (Fault δ) (Outcome κ)} (h : Alike v w) (e : ε) : v ≠ .error (.callback e) := by
  cases h with
  | outcome => nofun
  | fault own => cases own <;> nofun

/-! ## Two parsers -/

namespace Parser

variable {σ ρ ε τ κ δ : Type}

/-- What the callbacks make of the first `n` requests of a text. -/
def serviceOf (p : Parser σ ρ ε) (n : Nat) (text : String) (environment : σ) : Service σ ρ ε :=
  p.callbacks.serve ((p.requests text).take n) environment

/-- What a run of `p` has in common with a run of `q` on the same text, where `q` has other callbacks, which
answer all that is asked of them. -/
structure RunsAlike (p : Parser σ ρ ε) (q : Parser τ κ δ) (text : String) (s : σ) (u : τ) : Prop where
  /-- The requests of the text are what `q` is seen to ask, and the callbacks of `p` work on their environment
  for these requests only. -/
  asked : (q.parse text u).journal.signals = (p.requests text).map Request.signal
    ∧ (p.parse text s).environment = (p.service text s).environment
  /-- As long as the callbacks of `p` answer as well, the same is asked in the same order and said of the
  text. -/
  answered : p.Answered text s →
    (p.parse text s).journal.signals = (q.parse text u).journal.signals
      ∧ (p.parse text s).journal.accepted = (q.parse text u).journal.accepted
      ∧ Verdict.Alike (p.parse text s).verdict (q.parse text u).verdict
  /-- The results are then those with which the dispatcher answers, in order. -/
  results : p.Answered text s → ∀ o, (p.parse text s).verdict = .ok o →
    o.results = (p.service text s).results
  /-- A dispatcher that fails has been asked up to the action with which it fails, and the captures are
  dropped. -/
  dispatcher : ∀ n action captures e, (p.requests text)[n]? = some (.perform action captures) →
    (p.serviceOf n text s).failure = none →
    (p.callbacks.dispatch action captures (p.serviceOf n text s).environment).answer = .error e →
    (p.parse text s).verdict = .error (.callback e)
      ∧ (p.parse text s).journal.signals = (q.parse text u).journal.signals.take (n + 1)
      ∧ (p.parse text s).held = []
  /-- A hook that fails has been told of the boundaries up to the one with which it fails. -/
  hook : ∀ n hook e, (p.requests text)[n]? = some .boundary → p.callbacks.onBoundary = some hook →
    (p.serviceOf n text s).failure = none →
    (hook (p.serviceOf n text s).environment).2 = .error e →
    (p.parse text s).verdict = .error (.callback e)
      ∧ (p.parse text s).journal.signals = (q.parse text u).journal.signals.take (n + 1)
  /-- In front of each boundary stand the end of its command and the action that this end invokes. -/
  boundaries : (p.parse text s).journal.BoundariesLast ∧ (q.parse text u).journal.BoundariesLast

/-- **A run does not listen to its callbacks**: with other ones, which are told of boundaries as well, it asks
the same and says the same of a text, up to the first failure. -/
theorem runs_alike (p : Parser σ ρ ε) (b : Callbacks τ κ δ)
    (hhooks : b.onBoundary.isSome = p.callbacks.onBoundary.isSome) (text : String) (s : σ) (u : τ)
    (hanswered : (p.withCallbacks b).Answered text u) :
    p.RunsAlike (p.withCallbacks b) text s u := by
  have hp := serves p text s
  have hq := serves (p.withCallbacks b) text u
  have hhears : (p.withCallbacks b).callbacks.hears = p.callbacks.hears := by
    funext request
    cases request with
    | perform => rfl
    | boundary => exact hhooks
  have hrequests : (p.withCallbacks b).requests text = p.requests text := by
    unfold requests
    rw [hhears]
    rfl
  obtain ⟨hverdict, haccepted, hsignals⟩ := hq.answered hanswered
  rw [hrequests] at hsignals
  -- The same failure, once of a dispatcher and once of a hook.
  have hfailed : ∀ n request e, (p.requests text)[n]? = some request →
      (p.serviceOf n text s).failure = none →
      (p.callbacks.reply request (p.serviceOf n text s).environment).answer = .error e →
      (p.parse text s).verdict = .error (.callback e)
        ∧ (p.parse text s).journal.signals
          = ((p.withCallbacks b).parse text u).journal.signals.take (n + 1)
        ∧ ∀ action captures, request = .perform action captures → (p.parse text s).held = [] := by
    intro n request e hn hfirst he
    obtain ⟨hfault, hasked, hheld⟩ := hp.failed n e (Callbacks.serve_failure_eq_some hn hfirst he)
    refine ⟨hfault, ?_, fun action captures hrequest => hheld action captures (hrequest ▸ hn)⟩
    rw [hasked, hsignals, List.map_take]
  refine
    { asked := ⟨hsignals, hp.environment⟩
      answered := fun h => ?_
      results := fun h o ho => ?_
      dispatcher := fun n action captures e hn hfirst he => ?_
      hook := fun n hook e hn hh hfirst he => ?_
      boundaries := ⟨p.boundariesLast text s, (p.withCallbacks b).boundariesLast text u⟩ }
  · obtain ⟨hverdict', haccepted', hsignals'⟩ := hp.answered h
    rw [hverdict, haccepted, hsignals, hverdict', haccepted', hsignals']
    exact ⟨rfl, rfl, Verdict.alike_judged _ _ _⟩
  · rw [(hp.answered h).1] at ho
    exact Outcome.results_of_judged ho
  · obtain ⟨hfault, hasked, hheld⟩ := hfailed n _ e hn hfirst he
    exact ⟨hfault, hasked, hheld action captures rfl⟩
  · obtain ⟨hfault, hasked, -⟩ := hfailed n _ e hn hfirst
      (by simp [Callbacks.reply, hh, he, Except.map])
    exact ⟨hfault, hasked⟩

/-- A parser whose dispatcher counts actions, answers with the length of a criterion's value, and fails at the
third action. -/
def counting : Parser Nat Nat String where
  table := Window.grammar
  callbacks :=
    { dispatch := fun _ captures count =>
        ⟨count + 1, [],
          if count < 2 then .ok ((captures.get? "cvalue").map String.length) else .error "no more"⟩
      onBoundary := some fun count => (count, .ok ()) }

/-- A chain whose third action fails, beside the trace of the chain. -/
theorem runs_alike_window :
    (Trace.callbacks Window.grammar).onBoundary.isSome = counting.callbacks.onBoundary.isSome
      ∧ (counting.withCallbacks (Trace.callbacks Window.grammar)).Answered "[class=abc] kill; exit" {}
      ∧ counting.RunsAlike (counting.withCallbacks (Trace.callbacks Window.grammar))
          "[class=abc] kill; exit" 0 {}
      ∧ (counting.parse "[class=abc] kill; exit" 0).verdict = .error (.callback "no more") :=
  ⟨rfl, rfl, runs_alike counting (Trace.callbacks Window.grammar) rfl _ _ _ rfl, rfl⟩

end Parser

end CommandGrammar
