import CommandGrammar.Proofs.Termination
import CommandGrammar.Proofs.Tracing

/-!
# What a recording run leaves behind

A dispatcher that records keeps a trace beside the journal of the run. The two say the same: the trace is
read off the invocations and the boundaries of the journal.

* `Journal.trace` — the calls and the number of boundaries in a journal; a `Quiet` journal leaves none.
* `Parser.records_step` — a step adds to the trace what it writes down.
* `Parser.environment_eq_trace` — so does a whole run, however it ends.
-/

namespace CommandGrammar

/-! ## The trace of a journal -/

/-- The trace that the events of a journal leave behind. -/
def Journal.trace (j : Journal) : Trace where
  calls := j.filterMap fun
    | .invoked _ name captures => some ⟨name, captures⟩
    | _ => none
  boundaries := j.countP fun
    | .boundary _ => true
    | _ => false

namespace Journal

@[simp] theorem trace_append (i j : Journal) : (i ++ j).trace = i.trace ++ j.trace := by
  unfold trace
  rw [List.filterMap_append, List.countP_append]
  rfl

/-- The boundaries of a longer journal: those behind count on from the actions in front. -/
theorem boundariesFrom_append (count : Nat) (i j : Journal) :
    boundariesFrom count (i ++ j)
      = boundariesFrom count i ++ boundariesFrom (count + (invocations i).length) j := by
  induction i generalizing count with
  | nil => rfl
  | cons e i ih =>
    cases e with
    | invoked action name held =>
      have hcount : count + 1 + (invocations i).length
          = count + (invocations (.invoked action name held :: i)).length := by
        rw [Nat.add_assoc, Nat.add_comm 1]
        rfl
      rw [← hcount]
      exact ih (count + 1)
    | boundary position => exact congrArg (count :: ·) (ih count)
    | _ => exact ih count

/-- Nothing is invoked in the journal, and no boundary is met. -/
def Quiet (j : Journal) : Prop :=
  ∀ e ∈ j, (∀ action name held, e ≠ .invoked action name held) ∧ ∀ position, e ≠ .boundary position

namespace Quiet

variable {i j : Journal}

theorem invocations (h : j.Quiet) : j.invocations = [] := by
  unfold Journal.invocations
  rw [List.filterMap_eq_nil_iff]
  intro e he
  cases e with
  | invoked a n held => exact absurd rfl ((h _ he).1 a n held)
  | _ => rfl

/-- A quiet journal leaves no trace. -/
theorem trace (h : j.Quiet) : j.trace = {} := by
  unfold Journal.trace
  congr 1
  · rw [List.filterMap_eq_nil_iff]
    intro e he
    cases e with
    | invoked a n held => exact absurd rfl ((h _ he).1 a n held)
    | _ => rfl
  · rw [List.countP_eq_zero]
    intro e he
    cases e with
    | boundary p => exact absurd rfl ((h _ he).2 p)
    | _ => simp

theorem boundariesFrom (h : j.Quiet) (count : Nat) : j.boundariesFrom count = [] := by
  induction j generalizing count with
  | nil => rfl
  | cons e j ih =>
    have hrest := ih fun e' he' => h e' (List.mem_cons_of_mem e he')
    cases e with
    | invoked a n held => exact absurd rfl ((h _ List.mem_cons_self).1 a n held)
    | boundary p => exact absurd rfl ((h _ List.mem_cons_self).2 p)
    | _ => exact hrest _

/-- A quiet journal behind another one adds no boundary. -/
theorem boundariesFrom_append (h : j.Quiet) (count : Nat) :
    (i ++ j).boundariesFrom count = i.boundariesFrom count := by
  rw [Journal.boundariesFrom_append, h.boundariesFrom, List.append_nil]

end Quiet

theorem quiet_tries {σ : Type} (tokens : List Token) (c : Config σ) :
    (Machine.tries tokens c).Quiet := by
  intro e he
  obtain ⟨u, -, rfl⟩ := List.mem_map.mp he
  simp

theorem quiet_dropCaptures {σ ρ ε : Type} (c : Config σ) :
    (Machine.dropCaptures c : Progress σ ρ ε).journal.Quiet := by
  intro e he
  obtain ⟨k, rfl⟩ := Machine.dropCaptures_journal c e he
  simp

end Journal

namespace Trace

theorem append_assoc (a b c : Trace) : a ++ b ++ c = a ++ (b ++ c) := by
  show (⟨_ ++ _ ++ _, _ + _ + _⟩ : Trace) = ⟨_ ++ (_ ++ _), _ + (_ + _)⟩
  rw [List.append_assoc, Nat.add_assoc]

@[simp] theorem empty_append (s : Trace) : ({} : Trace) ++ s = s := by
  obtain ⟨calls, boundaries⟩ := s
  show (⟨[] ++ calls, 0 + boundaries⟩ : Trace) = _
  rw [List.nil_append, Nat.zero_add]

end Trace

/-! ## The parts of a step -/

namespace Parser

variable {t : Table} {c : Config Trace}

/-- What a stretch adds to the trace is what its events leave behind. -/
def Records (c : Config Trace) (q : Progress Trace Call TableError) : Prop :=
  q.config.environment = c.environment ++ q.journal.trace

theorem Records.andThen {q : Progress Trace Call TableError}
    {next : Config Trace → Progress Trace Call TableError} (h : Records c q)
    (hnext : Records q.config (next q.config)) : Records c (q.andThen next) := by
  cases he : q.ending with
  | some e => rw [Progress.andThen_of_some he]; exact h
  | none =>
    rw [Progress.andThen_of_none he]
    show (next q.config).config.environment = _ ++ (q.journal ++ _).trace
    rw [hnext, h, Trace.append_assoc, Journal.trace_append]

/-- A call is recorded where an action is invoked. -/
theorem records_follow (t : Table) (transition : Transition) (c : Config Trace) :
    Records c ((tracing t).follow transition c) := by
  have hf := (tracing t).followed transition c
  generalize (tracing t).follow transition c = q at hf ⊢
  have hrecord : ∀ {action name}, t.actionName action = .ok name →
      Trace.record t action c.captures c.environment
        = ⟨{ c.environment with calls := c.environment.calls ++ [⟨name, c.captures.toList⟩] }, [],
            .ok (some ⟨name, c.captures.toList⟩)⟩ := by
    intro action name hn
    simp only [Trace.record, hn]
  cases hf with
  | home =>
    show c.environment = c.environment ++ Journal.trace _
    rw [(Journal.quiet_dropCaptures _).trace, Trace.append_empty]
  | away | unknown => exact (Trace.append_empty _).symm
  | failed hn ha =>
    have hd : (tracing t).callbacks.dispatch _ c.captures c.environment = _ := hrecord hn
    rw [hd] at ha
    cases ha
  | @performed action next name result hn ha =>
    have hd : (tracing t).callbacks.dispatch _ c.captures c.environment = _ := hrecord hn
    show ((tracing t).callbacks.dispatch action c.captures c.environment).environment
      = c.environment ++ ((tracing t).invocation action name c).trace
    unfold Machine.invocation
    rw [Journal.trace_append, (Journal.quiet_dropCaptures c).trace, Trace.append_empty, hd]
    rfl

theorem records_signal (t : Table) (token : Token) (lexeme : Lexeme) (c : Config Trace) :
    Records c ((tracing t).signal token lexeme c) := by
  rcases (tracing t).signal_cases token lexeme c with h | ⟨hook, hh, -, -, h⟩
  · rw [h]
    exact (Trace.append_empty _).symm
  · obtain rfl := Option.some.inj hh
    rw [h]
    show (Trace.markBoundary c.environment).1 = _
    unfold Trace.markBoundary
    show _ = (⟨_, _⟩ : Trace)
    simp [Journal.trace]

theorem records_perform (t : Table) (token : Token) (lexeme : Lexeme) (c : Config Trace) :
    Records c ((tracing t).perform token lexeme c) := by
  have hmatched : ∀ d : Config Trace, Records d (.note d [.matched d.position d.state token lexeme]) :=
    fun d => (Trace.append_empty _).symm
  rcases Machine.room_or_refused token lexeme c with hroom | ⟨_, _, _, hc, hp⟩
  · obtain ⟨captures, -, -, hq⟩ := Machine.perform_of_room (m := (tracing t).toMachine) hroom
    rw [hq]
    refine Records.andThen (hmatched { c with captures }) ?_
    exact (records_follow t token.transition _).andThen (records_signal t token lexeme _)
  · rw [Machine.perform_of_refused hc hp]
    exact hmatched c

/-! ## Steps and runs -/

/-- **A step records what it writes down.** -/
theorem records_step (t : Table) (c : Config Trace) : Records c ((tracing t).step c) := by
  have hs := (tracing t).stepped c
  generalize (tracing t).step c = q at hs ⊢
  cases hs with
  | lost => exact (Trace.append_empty _).symm
  | unmatched =>
    show c.environment = c.environment ++ Journal.trace _
    rw [(Journal.quiet_tries _ _).trace, Trace.append_empty]
  | @cut _ token lexeme | @moved _ token lexeme | @completed _ token lexeme =>
    show ((tracing t).perform token lexeme c.skipBlanks).config.environment
      = c.environment ++ Journal.trace (_ ++ _)
    rw [Journal.trace_append, (Journal.quiet_tries _ _).trace, Trace.empty_append]
    exact records_perform t token lexeme c.skipBlanks

theorem records_steps (t : Table) (n : Nat) (c : Config Trace) :
    Records c ((tracing t).steps n c) := by
  refine (tracing t).steps_induction (P := Records c) (Trace.append_empty _).symm ?_ n
  intro q hq _
  exact hq.andThen (records_step t q.config)

/-! ## Whole texts -/

/-- The parser that records on a table, with room for so many captures and for texts up to a length. -/
def limited (t : Table) (capacity : Int) (limit : Option Int) : Parser Trace Call TableError :=
  { tracing t with captureCapacity := capacity, maxInputLength := limit }

/-- A text within the limit is run on with as much budget as it needs. -/
theorem parse_limited (h : t.Consistent) {capacity : Int} {limit : Option Int} {captures : Captures}
    (hempty : Captures.empty? capacity = .ok captures) {text : String}
    (hlimit : (limited t capacity limit).exceeds text = none) :
    (limited t capacity limit).parse text {}
        = conclude text ((tracing t).behind (text.length + 1) text captures {})
      ∧ ((tracing t).behind (text.length + 1) text captures {}).ending ≠ none := by
  refine ⟨?_, (run_eq_behind (p := limited t capacity limit) h.literals text captures {}).1⟩
  rw [parse_eq_conclude hlimit hempty, progress_eq_behind h.literals]
  rfl

/-- Around a run nothing is accepted or invoked, and no boundary is met. -/
theorem conclude_quiet {σ ρ ε : Type} (text : String) (q : Progress σ ρ ε) :
    ∃ last, (conclude text q).journal = .started text :: q.journal ++ last ∧ last.Quiet
      ∧ ∀ e ∈ last, Machine.NoMatch e := by
  obtain ⟨last, hj, hlast⟩ := conclude_last text q
  refine ⟨last, hj, fun e he => ?_, fun e he p s t l => ?_⟩
  · rcases hlast e he with ⟨_, rfl⟩ | ⟨_, _, rfl⟩ <;> simp
  · rcases hlast e he with ⟨_, rfl⟩ | ⟨_, _, rfl⟩ <;> simp

theorem trace_conclude (text : String) (q : Progress Trace Call TableError) :
    (conclude text q).journal.trace = q.journal.trace := by
  obtain ⟨last, hj, hlast, -⟩ := conclude_quiet text q
  rw [hj, Journal.trace_append, hlast.trace]
  exact Trace.append_empty _

theorem invocations_conclude {σ ρ ε : Type} (text : String) (q : Progress σ ρ ε) :
    (conclude text q).journal.invocations = q.journal.invocations := by
  obtain ⟨last, hj, hlast, -⟩ := conclude_quiet text q
  rw [hj, Journal.invocations_append, hlast.invocations, List.append_nil]
  rfl

theorem boundaries_conclude {σ ρ ε : Type} (text : String) (q : Progress σ ρ ε) :
    (conclude text q).journal.boundaries = q.journal.boundaries := by
  obtain ⟨last, hj, hlast, -⟩ := conclude_quiet text q
  rw [hj]
  exact hlast.boundariesFrom_append 0

/-- **A run leaves behind the trace of its journal**, however it ends. -/
theorem environment_eq_trace (t : Table) (capacity : Int) (limit : Option Int) (text : String) :
    ((limited t capacity limit).parse text {}).environment
      = ((limited t capacity limit).parse text {}).journal.trace := by
  unfold parse
  split
  · rfl
  · split
    · rfl
    · next captures _ =>
      rw [conclude_environment, trace_conclude]
      -- The stop behind the last step records nothing.
      have hstop : ∀ d : Config Trace, Records d (.stop d (.abandoned .noProgress)) :=
        fun d => (Trace.append_empty _).symm
      have hrun : Records ((limited t capacity limit).start text captures {})
          ((limited t capacity limit).progress text captures {}) := by
        rw [progress, (limited t capacity limit).run_eq_steps]
        exact (records_steps t (budget text) _).andThen (hstop _)
      exact hrun.trans (Trace.empty_append _)

end Parser

end CommandGrammar
