import CommandGrammar.Proofs.Embedding
import CommandGrammar.Trace

/-!
# Recording runs

The callbacks that record never fail on a valid table, count every boundary, and record behind another
trace what they record alone.

* `Parser.unfailing_tracing`, `Parser.signal_tracing` — the callbacks of a recording parser.
* `Parser.respects_after` — a trace may be continued behind another one.
-/

namespace CommandGrammar

/-- One trace behind another. -/
instance : Append Trace := ⟨fun s x => ⟨s.calls ++ x.calls, s.boundaries + x.boundaries⟩⟩

namespace Trace

@[simp] theorem calls_append (s x : Trace) : (s ++ x).calls = s.calls ++ x.calls := rfl

@[simp] theorem boundaries_append (s x : Trace) :
    (s ++ x).boundaries = s.boundaries + x.boundaries := rfl

@[simp] theorem append_empty (s : Trace) : s ++ ({} : Trace) = s := by
  obtain ⟨calls, boundaries⟩ := s
  show (⟨calls ++ [], boundaries + 0⟩ : Trace) = _
  rw [List.append_nil, Nat.add_zero]

end Trace

/-- A recording configuration behind so many characters and another trace. -/
def Embedding.after (k : Nat) (s : Trace) : Embedding Trace := ⟨k, [], (s ++ ·)⟩

namespace Parser

@[simp] theorem tracing_table (t : Table) : (tracing t).table = t := rfl

/-- Recording never fails on an action that the table names. -/
theorem unfailing_tracing (t : Table) : (tracing t).Unfailing := by
  refine ⟨fun action name hname captures s => ?_, fun hook hh s => ?_⟩
  · refine ⟨some ⟨name, captures.toList⟩, ?_⟩
    show (Trace.record t action captures s).answer = _
    unfold Trace.record
    rw [show t.actionName action = .ok name from hname]
  · obtain rfl := Option.some.inj hh
    rfl

/-- A boundary is counted where the end of a command completes it. -/
theorem signal_tracing (t : Table) {token : Token} (hk : token.kind = .commandEnd) (lexeme : Lexeme)
    (c : Config Trace) :
    (tracing t).signal token lexeme c =
      if lexeme.completesCommand then
        .note { c with environment := (Trace.markBoundary c.environment).1 } [.boundary c.position]
      else .note c [] := by
  show (if token.kind = .commandEnd ∧ lexeme.completesCommand then _ else _) = _
  by_cases h : lexeme.completesCommand = true
  · rw [if_pos ⟨hk, h⟩, if_pos h]
    rfl
  · rw [if_neg fun h' => h h'.2, if_neg h]

/-- **What is recorded behind another trace is what is recorded alone.** -/
theorem respects_after (t : Table) (k : Nat) (s : Trace) :
    (tracing t).Respects (.after k s) where
  dispatch action captures x := by
    show Trace.record t action captures (s ++ x)
      = { Trace.record t action captures x with
          environment := s ++ (Trace.record t action captures x).environment }
    unfold Trace.record
    cases t.actionName action with
    | error e => rfl
    | ok name =>
      have hcalls : ∀ call : Call, (s ++ x).calls ++ [call] = s.calls ++ (x.calls ++ [call]) :=
        fun call => List.append_assoc _ _ _
      simp only [hcalls]
      rfl
  hook hook hh x := by
    obtain rfl := Option.some.inj hh
    rfl

end Parser

end CommandGrammar
