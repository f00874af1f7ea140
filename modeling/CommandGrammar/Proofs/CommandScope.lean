import CommandGrammar.Proofs.Chaining
import CommandGrammar.Proofs.Searches

/-!
# Captures behind the end of a command

Captures are dropped by actions and on the way to the initial state. The end of a command drops them only if it
does one of these, so what was captured in front of it may still be held behind it: for the actions to see, and in
the way of further captures.

* `Table.crossing` — what is captured in front of some tokens and still held behind them (`scope_append`).
* `Parser.KeepsToCommands` — nothing that is captured in front of the end of a command matters behind it.
* `Parser.DropsBehindEnds` — what is captured there has been dropped by then.
* `Parser.keeps_to_commands_iff` — the two are the same, and hold on tables where every end of a command resets.
-/

namespace CommandGrammar

/-! ## What crosses the end of a command -/

namespace Table

variable {t : Table} {text : List Char}

/-- One of the tokens drops the captures. -/
def ResetsIn (t : Table) (accepted : List Acceptance) : Prop :=
  ∃ a ∈ accepted, t.resets a.2.2.1.transition = true

instance (t : Table) : DecidablePred t.ResetsIn := fun accepted =>
  inferInstanceAs (Decidable (∃ a ∈ accepted, t.resets a.2.2.1.transition = true))

theorem resetsIn_concat {accepted : List Acceptance} {a : Acceptance} :
    t.ResetsIn (accepted ++ [a]) ↔ t.ResetsIn accepted ∨ t.resets a.2.2.1.transition = true := by
  unfold ResetsIn
  simp only [List.mem_append, List.mem_singleton, or_and_right, exists_or, exists_eq_left]

/-- What the tokens in front have captured and what is still held behind the tokens that follow. -/
def crossing (t : Table) (text : List Char) (front back : List Acceptance) : List (String × String) :=
  if t.ResetsIn back then [] else t.scope text front

/-- What is held consists of what has come across the last tokens and of what these have captured. -/
theorem scope_append (front back : List Acceptance) :
    t.scope text (front ++ back) = t.crossing text front back ++ t.scope text back := by
  induction back using List.reverseRecOn with
  | nil => simp [crossing, ResetsIn]
  | append_singleton back a ih =>
    rw [← List.append_assoc, scope_concat, scope_concat, ih]
    simp only [crossing, resetsIn_concat]
    cases hr : t.resets a.2.2.1.transition with
    | true => simp
    | false => simp

theorem crossing_eq_nil_iff {front back : List Acceptance} :
    t.crossing text front back = [] ↔ t.ResetsIn back ∨ t.scope text front = [] := by
  unfold crossing
  by_cases h : t.ResetsIn back <;> simp [h]

theorem not_mem_crossing_iff {front back : List Acceptance} {identifier : String} :
    identifier ∉ (t.crossing text front back).map Prod.fst
      ↔ t.ResetsIn back ∨ identifier ∉ (t.scope text front).map Prod.fst := by
  unfold crossing
  by_cases h : t.ResetsIn back <;> simp [h]

/-- The end of a command captures nothing. -/
theorem captured?_of_commandEnd {a : Acceptance} (h : a.2.2.1.kind = .commandEnd) :
    captured? text a = none := by
  unfold captured? Token.capture? Token.value?
  rw [h]
  cases a.2.2.1.capture <;> rfl

/-- So behind the end of a command is held what has come across it and what was captured behind it. -/
theorem scope_across {front back : List Acceptance} {e : Acceptance} (he : e.2.2.1.kind = .commandEnd) :
    t.scope text (front ++ e :: back) = t.crossing text front (e :: back) ++ t.scope text back := by
  have hend : t.scope text [e] = [] := by
    rw [← List.nil_append [e], scope_concat, captured?_of_commandEnd he, scope_nil]
    split <;> rfl
  have hcons : t.scope text (e :: back) = t.scope text back := by
    rw [← List.singleton_append, scope_append]
    unfold crossing
    rw [hend, ite_self, List.nil_append]
  rw [scope_append, hcons]

/-- Every token that ends a command invokes an action or leads to the initial state. -/
def EndsReset (t : Table) : Prop :=
  ∀ state token, t.Lists state token → token.kind = .commandEnd → t.resets token.transition = true

theorem Chains.endsReset (h : t.Chains) : t.EndsReset := by
  intro state token hlist hk
  have htarget := h.ends state token hlist hk
  cases ht : token.transition with
  | goto target =>
    rw [ht] at htarget
    exact decide_eq_true htarget
  | invoke => rfl

end Table

/-! ## Runs -/

namespace Parser

variable {σ ρ ε : Type} {p : Parser σ ρ ε} {text : String} {environment : σ}

/-- In a run on a text, nothing that was captured in front of the end of a command matters behind it. -/
structure KeepsToCommands (p : Parser σ ρ ε) (text : String) (environment : σ) : Prop where
  /-- An action that is invoked behind the end of a command sees what was captured behind that end only. -/
  visible : ∀ pre action name held post,
    (p.parse text environment).journal = pre ++ .invoked action name held :: post →
    ∀ front e back a, Journal.accepted pre = front ++ e :: (back ++ [a]) →
      e.2.2.1.kind = .commandEnd →
      held = p.table.scope text.toList back ++ (captured? text.toList a).toList
  /-- An identifier whose second capture gives the run up was first captured behind that end as well. -/
  duplicate : ∀ identifier,
    (p.parse text environment).verdict = .error (.capture (.duplicate identifier)) →
    ∀ front e back a, (p.parse text environment).journal.accepted = front ++ e :: (back ++ [a]) →
      e.2.2.1.kind = .commandEnd →
      identifier ∈ (p.table.scope text.toList back).map Prod.fst

/-- In a run on a text, what was captured in front of the end of a command has been dropped, from that end on,
before it could matter. -/
structure DropsBehindEnds (p : Parser σ ρ ε) (text : String) (environment : σ) : Prop where
  /-- Before an action is invoked, one of the tokens from the end of the command on resets, or nothing was held. -/
  invoked : ∀ pre action name held post,
    (p.parse text environment).journal = pre ++ .invoked action name held :: post →
    ∀ front e back a, Journal.accepted pre = front ++ e :: (back ++ [a]) →
      e.2.2.1.kind = .commandEnd →
      p.table.ResetsIn (e :: back) ∨ p.table.scope text.toList front = []
  /-- Before a second capture gives the run up, one of them resets, or the identifier was not held. -/
  duplicate : ∀ identifier,
    (p.parse text environment).verdict = .error (.capture (.duplicate identifier)) →
    ∀ front e back a, (p.parse text environment).journal.accepted = front ++ e :: (back ++ [a]) →
      e.2.2.1.kind = .commandEnd →
      p.table.ResetsIn (e :: back) ∨ identifier ∉ (p.table.scope text.toList front).map Prod.fst

/-- Every token accepted in a run on a valid table is listed. -/
theorem lists_of_accepted (hcons : p.table.Consistent) {a : Acceptance}
    (ha : a ∈ (p.parse text environment).journal.accepted) : p.table.Lists a.2.1 a.2.2.1 := by
  obtain ⟨tokens, ht, hc⟩ := choice_of_mem_accepted hcons.literals ha
  exact ⟨tokens, ht, mem_of_choose? hc⟩

/-- **What an action sees behind the end of a command** is what has come across it, what was captured behind it, and
the capture of its own token. -/
theorem KeepsScope.held_across (h : p.KeepsScope text environment) {pre post : Journal} {action : ActionId}
    {name : String} {held : List (String × String)}
    (hj : (p.parse text environment).journal = pre ++ .invoked action name held :: post)
    {front back : List Acceptance} {e a : Acceptance}
    (hacc : Journal.accepted pre = front ++ e :: (back ++ [a])) (he : e.2.2.1.kind = .commandEnd) :
    held = p.table.crossing text.toList front (e :: back)
      ++ (p.table.scope text.toList back ++ (captured? text.toList a).toList) := by
  obtain ⟨before, b, next, hpre, -, hheld⟩ := h.invoked pre action name held post hj
  rw [hpre, ← List.cons_append, ← List.append_assoc] at hacc
  obtain ⟨rfl, hb⟩ := List.append_inj' hacc rfl
  obtain rfl := List.head_eq_of_cons_eq hb
  rw [hheld, Table.scope_across he, List.append_assoc]

theorem nodup_held (p : Parser σ ρ ε) (text : String) (environment : σ) :
    ((p.parse text environment).held.map Prod.fst).Nodup := by
  unfold parse
  split
  · exact List.nodup_nil
  · split
    · exact List.nodup_nil
    · rw [conclude_held]
      exact OrderedMap.nodup _

/-- The identifier whose second capture gives the run up is held once: it has come across the end of a command, or
was captured behind it. -/
theorem KeepsScope.duplicate_across (h : p.KeepsScope text environment) {identifier : String}
    (hv : (p.parse text environment).verdict = .error (.capture (.duplicate identifier)))
    {front back : List Acceptance} {e a : Acceptance}
    (hacc : (p.parse text environment).journal.accepted = front ++ e :: (back ++ [a]))
    (he : e.2.2.1.kind = .commandEnd) :
    identifier ∈ (p.table.scope text.toList back).map Prod.fst
      ↔ identifier ∉ (p.table.crossing text.toList front (e :: back)).map Prod.fst := by
  obtain ⟨before, b, hb, hheld⟩ := h.refused _ hv
  obtain ⟨i, v, -, hrefused⟩ := (h.refuses_iff before b _ (hb ▸ List.prefix_rfl)).mpr ⟨hv, hb⟩
  have hmem : identifier ∈ (p.table.scope text.toList before).map Prod.fst := by
    rcases hrefused with ⟨hm, hi⟩ | ⟨-, -, hi⟩
    · cases hi
      exact hm
    · cases hi
  -- No identifier is held twice, so it lies on one side of the end of the command only.
  have hnodup := nodup_held p text environment
  rw [hb, ← List.cons_append, ← List.append_assoc] at hacc
  obtain ⟨rfl, -⟩ := List.append_inj' hacc rfl
  rw [hheld] at hnodup
  rw [Table.scope_across he, List.map_append] at hmem hnodup
  obtain ⟨-, -, hdisjoint⟩ := List.nodup_append.mp hnodup
  constructor
  · intro hback hfront
    exact hdisjoint identifier hfront identifier hback rfl
  · intro hfront
    exact (List.mem_append.mp hmem).resolve_left hfront

/-- **A run keeps to its commands exactly if what was captured in front of the end of a command has been dropped**
before an action is invoked or an identifier captured again behind that end; and so does every run on a table on
which every end of a command resets. -/
theorem keeps_to_commands_iff (p : Parser σ ρ ε) (hvalid : p.table.validate = .ok p.table)
    (hcapacity : 1 ≤ p.captureCapacity) (text : String) (environment : σ) :
    (p.KeepsToCommands text environment ↔ p.DropsBehindEnds text environment)
      ∧ (p.table.EndsReset → p.KeepsToCommands text environment) := by
  have hscope := captures_keep_scope p hvalid hcapacity text environment
  have hiff : p.KeepsToCommands text environment ↔ p.DropsBehindEnds text environment := by
    constructor
    · intro h
      refine ⟨fun pre action name held post hj front e back a hacc he => ?_,
        fun identifier hv front e back a hacc he => ?_⟩
      · have hsame := (hscope.held_across hj hacc he).symm.trans
          (h.visible pre action name held post hj front e back a hacc he)
        exact Table.crossing_eq_nil_iff.mp (List.append_left_eq_self.mp hsame)
      · exact Table.not_mem_crossing_iff.mp
          ((hscope.duplicate_across hv hacc he).mp (h.duplicate identifier hv front e back a hacc he))
    · intro h
      refine ⟨fun pre action name held post hj front e back a hacc he => ?_,
        fun identifier hv front e back a hacc he => ?_⟩
      · have hnil := Table.crossing_eq_nil_iff.mpr (h.invoked pre action name held post hj front e back a hacc he)
        rw [hscope.held_across hj hacc he, hnil, List.nil_append]
      · exact (hscope.duplicate_across hv hacc he).mpr
          (Table.not_mem_crossing_iff.mpr (h.duplicate identifier hv front e back a hacc he))
  refine ⟨hiff, fun hends => hiff.mpr ?_⟩
  have hresets : ∀ e ∈ (p.parse text environment).journal.accepted, e.2.2.1.kind = .commandEnd →
      ∀ back, p.table.ResetsIn (e :: back) := fun e he hk back =>
    ⟨e, List.mem_cons_self, hends _ _ (lists_of_accepted (Table.consistent_of_validate hvalid) he) hk⟩
  refine ⟨fun pre action name held post hj front e back a hacc he => Or.inl (hresets e ?_ he back),
    fun identifier hv front e back a hacc he => Or.inl (hresets e ?_ he back)⟩
  · rw [hj, Journal.accepted_append, hacc]
    simp
  · rw [hacc]
    simp

/-- A chain of commands with captures, on a table on which every end of a command leads to the initial state. -/
theorem keeps_to_commands_iff_window :
    Window.grammar.validate = .ok Window.grammar ∧ (1 : Int) ≤ (tracing Window.grammar).captureCapacity
      ∧ Window.grammar.EndsReset
      ∧ (tracing Window.grammar).KeepsToCommands "kill window; kill, move left 10 px" {} := by
  have hends := Window.chains_grammar.endsReset
  exact ⟨Window.validate_grammar, by decide, hends,
    (keeps_to_commands_iff (tracing Window.grammar) Window.validate_grammar (by decide) _ _).2 hends⟩

/-- A valid table with an end of a command that goes to a state of its own. -/
def leaking : Table where
  states := OrderedMap.ofList [
    ("INITIAL", [.literal "set" (.goto "SET") (some "value"), .commandEnd (.goto "INITIAL")]),
    ("SET", [.commandEnd (.goto "NEXT")]),
    ("NEXT", [.literal "set" (.goto "SET") (some "value"), .literal "show" (.invoke 0 none),
      .commandEnd (.goto "INITIAL")])]
  actions := OrderedMap.ofList [(0, "cmd_show")]

/-- **Not every run on a valid table keeps to its commands**: an action sees what was captured in front of a
semicolon, and an identifier cannot be captured once on each side of one. -/
theorem not_keeps_to_commands_leaking :
    leaking.validate = .ok leaking
      ∧ ((tracing leaking).parse "set; show" {}).journal.invocations = [(0, [("value", "set")])]
      ∧ ¬(tracing leaking).KeepsToCommands "set; show" {}
      ∧ ((tracing leaking).parse "set; set" {}).verdict = .error (.capture (.duplicate "value"))
      ∧ ¬(tracing leaking).KeepsToCommands "set; set" {} := by
  refine ⟨rfl, rfl, fun h => ?_, rfl, fun h => ?_⟩
  · have hvisible := h.visible (((tracing leaking).parse "set; show" {}).journal.take 9) 0 "cmd_show"
      [("value", "set")] _ rfl [_] _ [] _ rfl rfl
    cases hvisible
  · have hduplicate := h.duplicate "value" rfl [_] _ [] _ rfl rfl
    cases hduplicate

end Parser

end CommandGrammar
