import CommandGrammar.Proofs.Recording
import CommandGrammar.Proofs.Safety

/-!
# Calling conventions

Which captures an action sees can be told from the table alone if each state has a shape: the captures
that are held whenever it is entered. A table keeps to its shapes and conventions when every token leads
from the shape of its state to that of its target, or to an action that takes what is then held.

* `Slot`, `Convention` — what may be captured under an identifier, and what an action takes.
* `Table.Conforms` — the check, token by token.
* `Machine.conforming_steps` — no run leaves the shapes: no capture is refused, and every action is invoked
  with captures that it takes.
* `Parser.parse_conforms` — the statement about whole texts on any such table.
* `Window.calls_conform` — the shapes and conventions of the window language.
-/

namespace CommandGrammar

/-! ## Slots -/

/-- A capture: its identifier, and the values that it may have if they are known. -/
structure Slot where
  identifier : String
  values : Option (List String) := none
  deriving DecidableEq, Repr

/-- What an action takes: its name, and a slot for each capture in the order in which they are made. -/
structure Convention where
  action : String
  slots : List Slot
  deriving DecidableEq, Repr

namespace Slot

/-- The capture is one that the slot takes. -/
def Admits (s : Slot) (x : String × String) : Prop :=
  x.1 = s.identifier ∧ ∀ vs, s.values = some vs → x.2 ∈ vs

/-- Whether every capture of the one slot is taken by the other. -/
def narrows (s u : Slot) : Bool :=
  s.identifier = u.identifier && match u.values, s.values with
    | none, _ => true
    | some _, none => false
    | some us, some vs => vs.all (· ∈ us)

theorem Admits.widen {s u : Slot} {x : String × String} (h : s.Admits x) (hu : s.narrows u = true) :
    u.Admits x := by
  simp only [narrows, Bool.and_eq_true, decide_eq_true_eq] at hu
  refine ⟨h.1.trans hu.1, fun us hus => ?_⟩
  rw [hus] at hu
  cases hs : s.values with
  | none => simp [hs] at hu
  | some vs =>
    have hall : ∀ v ∈ vs, v ∈ us := by simpa [hs] using hu.2
    exact hall x.2 (h.2 vs hs)

/-- Whether the captures of some slots are taken by as many others, one by one. -/
def narrow : List Slot → List Slot → Bool
  | [], [] => true
  | s :: ss, u :: us => s.narrows u && narrow ss us
  | _, _ => false

/-- The captures held are those of the slots, one by one. -/
abbrev Hold (slots : List Slot) (held : List (String × String)) : Prop :=
  List.Forall₂ Slot.Admits slots held

theorem Hold.widen {ss us : List Slot} {held : List (String × String)} (h : Hold ss held)
    (hu : narrow ss us = true) : Hold us held := by
  induction h generalizing us with
  | nil =>
    cases us with
    | nil => exact .nil
    | cons => cases hu
  | cons hx _ ih =>
    cases us with
    | nil => cases hu
    | cons u us =>
      simp only [narrow, Bool.and_eq_true] at hu
      exact .cons (hx.widen hu.1) (ih hu.2)

/-- Slots that narrow others have their identifiers. -/
theorem identifiers_of_narrow {ss us : List Slot} (h : narrow ss us = true) :
    ss.map Slot.identifier = us.map Slot.identifier := by
  induction ss generalizing us with
  | nil =>
    cases us with
    | nil => rfl
    | cons => cases h
  | cons s ss ih =>
    cases us with
    | nil => cases h
    | cons u us =>
      simp only [narrow, narrows, Bool.and_eq_true, decide_eq_true_eq] at h
      rw [List.map_cons, List.map_cons, h.1.1, ih h.2]

theorem Hold.identifiers {slots : List Slot} {held : List (String × String)} (h : Hold slots held) :
    held.map Prod.fst = slots.map Slot.identifier := by
  induction h with
  | nil => rfl
  | cons hx _ ih => rw [List.map_cons, List.map_cons, hx.1, ih]

end Slot

/-- The call is one that the convention allows. -/
def Convention.Admits (k : Convention) (call : Call) : Prop :=
  call.action = k.action ∧ Slot.Hold k.slots call.arguments

/-- What a token captures: a literal its own spelling, a word or a string any text. -/
def Token.slots (token : Token) : List Slot :=
  match token.capture, token.kind with
  | none, _ | _, .commandEnd => []
  | some identifier, .literal => [⟨identifier, some [token.text.getD ""]⟩]
  | some identifier, .word | some identifier, .string => [⟨identifier, none⟩]

/-- **A token captures what its slots say.** -/
theorem Token.hold_capture? {token : Token} {cs : List Char} {lexeme : Lexeme}
    (h : token.lexeme? cs = some lexeme) : Slot.Hold token.slots (token.capture? lexeme).toList := by
  obtain ⟨taken, rest, -, -, rfl⟩ := Token.lexeme?_eq_some_iff.mp h
  unfold Token.slots Token.capture? Token.lexemeOf Token.value?
  cases token.capture with
  | none => exact .nil
  | some identifier =>
    cases token.kind with
    | literal => exact .cons ⟨rfl, by simp⟩ .nil
    | word | string => exact .cons ⟨rfl, by simp⟩ .nil
    | commandEnd => exact .nil

/-! ## Tables -/

namespace Table

/-- Whether a token of a state keeps to the shapes: there is room for its capture, and what is then held
is what its target starts with, or what the action that it invokes takes. -/
def conforms (t : Table) (shape : StateName → List Slot) (conventions : List Convention) (capacity : Nat)
    (state : StateName) (token : Token) : Bool :=
  let held := shape state ++ token.slots
  decide (held.map Slot.identifier).Nodup && decide (held.length ≤ capacity)
    && match token.transition with
      | .goto target => target = t.initial || Slot.narrow held (shape target)
      | .invoke action next => (shape (t.nextStateAfter next)).isEmpty
          && conventions.any fun k =>
            (match t.actionName action with | .ok name => name = k.action | .error _ => false)
              && Slot.narrow held k.slots

/-- The table keeps to the shapes of its states and to the conventions of its actions. -/
structure Conforms (t : Table) (shape : StateName → List Slot) (conventions : List Convention)
    (capacity : Nat) : Prop where
  initial : shape t.initial = []
  tokens : ∀ state token, t.Lists state token → t.conforms shape conventions capacity state token = true

variable {t : Table} {shape : StateName → List Slot} {conventions : List Convention} {capacity : Nat}
  {state : StateName} {token : Token}

/-- There is room for the capture of a token that keeps to the shapes. -/
theorem room_of_conforms (h : t.conforms shape conventions capacity state token = true) :
    ((shape state ++ token.slots).map Slot.identifier).Nodup
      ∧ (shape state ++ token.slots).length ≤ capacity := by
  simp only [conforms, Bool.and_eq_true, decide_eq_true_eq] at h
  exact h.1

/-- What is held behind a token that keeps to the shapes is what its target starts with. -/
theorem hold_target (hinitial : shape t.initial = [])
    (h : t.conforms shape conventions capacity state token = true) {held : List (String × String)}
    (hheld : Slot.Hold (shape state ++ token.slots) held) :
    Slot.Hold (shape (t.target token.transition))
      (if t.resets token.transition then [] else held) := by
  simp only [conforms, Bool.and_eq_true] at h
  have htarget := h.2
  cases ht : token.transition with
  | goto target =>
    simp only [ht, Bool.or_eq_true, decide_eq_true_eq] at htarget
    by_cases hhome : target = t.initial
    · simp [Table.target, Table.resets, hhome, hinitial]
    · simpa [Table.target, Table.resets, hhome] using hheld.widen (htarget.resolve_left hhome)
  | invoke action next =>
    simp only [ht, Bool.and_eq_true, List.isEmpty_iff] at htarget
    simp [Table.target, Table.resets, htarget.1]

/-- An action that a token invokes takes what is then held. -/
theorem exists_convention (h : t.conforms shape conventions capacity state token = true)
    {action : ActionId} {next : Option StateName} (ht : token.transition = .invoke action next)
    {name : String} (hname : t.actionName action = .ok name) {held : List (String × String)}
    (hheld : Slot.Hold (shape state ++ token.slots) held) :
    ∃ k ∈ conventions, name = k.action ∧ Slot.Hold k.slots held := by
  simp only [conforms, Bool.and_eq_true, ht, List.any_eq_true, hname, decide_eq_true_eq] at h
  obtain ⟨-, -, k, hk, hn, hnarrow⟩ := h
  exact ⟨k, hk, hn, hheld.widen hnarrow⟩

end Table

/-! ## One step -/

namespace Machine

variable {σ ρ ε : Type} {m : Machine σ ρ ε} {c : Config σ} {shape : StateName → List Slot}
  {conventions : List Convention} {capacity : Nat} {token : Token} {lexeme : Lexeme}

/-- There is room for the capture of a token if the slots behind it have different identifiers and are no
more than the captures that may be held. -/
theorem hasRoom_of_hold {slots : List Slot}
    (h : Slot.Hold slots (c.captures.toList ++ (token.capture? lexeme).toList))
    (hnodup : (slots.map Slot.identifier).Nodup) (hlength : slots.length ≤ c.captures.capacity) :
    HasRoom token lexeme c := by
  intro identifier value e hcapture hp
  rw [hcapture] at h
  rw [← h.identifiers, List.map_append, List.nodup_append] at hnodup
  rw [h.length_eq, List.length_append] at hlength
  rcases Captures.push_eq_error_iff.mp hp with ⟨hmem, -⟩ | ⟨-, hfull, -⟩
  · exact hnodup.2.2 identifier hmem identifier (by simp) rfl
  · simp only [Option.toList_some, List.length_singleton] at hlength
    omega

/-- What a stretch of a run leaves behind on a table that keeps to its shapes and conventions. -/
structure Conforming (m : Machine σ ρ ε) (shape : StateName → List Slot) (conventions : List Convention)
    (q : Progress σ ρ ε) : Prop where
  /-- The captures held are those with which the state is entered. -/
  held : Slot.Hold (shape q.config.state) q.config.captures.toList
  /-- Every action takes what it is invoked with. -/
  invoked : ∀ action name held, .invoked action name held ∈ q.journal →
    ∃ k ∈ conventions, name = k.action ∧ Slot.Hold k.slots held
  /-- The run is not given up. -/
  ending : ∀ f, q.ending ≠ some (.abandoned f)

/-- **A token that keeps to the shapes is accepted**, and everything is as it should be behind it. -/
theorem conforming_perform (h : m.table.Consistent) (hcallbacks : m.Unfailing)
    (hconforms : m.table.Conforms shape conventions capacity) {tokens : List Token}
    (ht : m.table.tokens c.state = .ok tokens) (hch : choose? tokens c.rest = some (token, lexeme))
    (hroom : capacity ≤ c.captures.capacity) (hheld : Slot.Hold (shape c.state) c.captures.toList) :
    Conforming m shape conventions (m.perform token lexeme c)
      ∧ (m.perform token lexeme c).ending = none := by
  have hlist : m.table.Lists c.state token := ⟨tokens, ht, mem_of_choose? hch⟩
  have hc := hconforms.tokens c.state token hlist
  obtain ⟨hnodup, hlength⟩ := Table.room_of_conforms hc
  have hall : Slot.Hold (shape c.state ++ token.slots)
      (c.captures.toList ++ (token.capture? lexeme).toList) :=
    List.rel_append hheld (Token.hold_capture? (lexeme?_of_choose? hch))
  have hhas := hasRoom_of_hold hall hnodup (hlength.trans hroom)
  have hnone := perform_ending_eq_none hcallbacks hhas (h.actions c.state token hlist)
  refine ⟨⟨?_, ?_, by simp [hnone]⟩, hnone⟩
  · rw [perform_state hnone, perform_captures (by simp [hnone]) (by simp [hnone])]
    exact Table.hold_target hconforms.initial hc hall
  · intro action name held hi
    obtain ⟨tail, hj, -, hinvoked⟩ := perform_journal m token lexeme c
    rw [hj] at hi
    rcases List.mem_cons.mp hi with hi | hi
    · cases hi
    · obtain ⟨rfl, hname, next, htransition⟩ := hinvoked action name held hi
      exact Table.exists_convention hc htransition hname hall

/-- **A step keeps to the shapes and conventions.** -/
theorem conforming_step (h : m.table.Consistent) (hcallbacks : m.Unfailing)
    (hconforms : m.table.Conforms shape conventions capacity) (hstate : m.table.HasTokens c.state)
    (hroom : capacity ≤ c.captures.capacity) (hheld : Slot.Hold (shape c.state) c.captures.toList) :
    Conforming m shape conventions (m.step c) := by
  have htries : ∀ {tokens action name held} {j : Journal},
      .invoked action name held ∈ tries tokens c.skipBlanks ++ j → .invoked action name held ∈ j := by
    intro tokens action name held j he
    rcases List.mem_append.mp he with he | he
    · obtain ⟨u, -, hu⟩ := List.mem_map.mp he
      cases hu
    · exact he
  have hs := m.stepped c
  generalize m.step c = q at hs ⊢
  cases hs with
  | lost ht =>
    obtain ⟨token, tokens, ht'⟩ := hstate
    rw [ht'] at ht
    cases ht
  | unmatched =>
    refine ⟨hheld, fun action name held he => ?_, by simp⟩
    obtain ⟨u, -, hu⟩ := List.mem_map.mp he
    cases hu
  | cut ht hch he =>
    obtain ⟨-, hnone⟩ := conforming_perform (c := c.skipBlanks) h hcallbacks hconforms ht hch hroom hheld
    rw [hnone] at he
    cases he
  | moved ht hch | completed ht hch =>
    obtain ⟨hq, -⟩ := conforming_perform (c := c.skipBlanks) h hcallbacks hconforms ht hch hroom hheld
    exact ⟨hq.held, fun action name held he => hq.invoked action name held (htries he), by simp⟩

/-! ## Any number of steps -/

/-- **No run leaves the shapes and conventions.** -/
theorem conforming_steps (h : m.table.Consistent) (hcallbacks : m.Unfailing)
    (hconforms : m.table.Conforms shape conventions capacity) (hstate : m.table.HasTokens c.state)
    (hroom : capacity ≤ c.captures.capacity) (hheld : Slot.Hold (shape c.state) c.captures.toList)
    (n : Nat) : Conforming m shape conventions (m.steps n c) := by
  induction n with
  | zero => exact ⟨hheld, by simp [steps_zero, Progress.note], by simp [steps_zero, Progress.note]⟩
  | succ n ih =>
    rw [steps_succ]
    cases he : (m.steps n c).ending with
    | some e => rw [Progress.andThen_of_some he]; exact ih
    | none =>
      have hstep := conforming_step h hcallbacks hconforms (contained_steps h hstate n).state
        (by rw [steps_capacity]; exact hroom) ih.held
      rw [Progress.andThen_of_none he]
      refine ⟨hstep.held, fun action name held hi => ?_, hstep.ending⟩
      rcases List.mem_append.mp hi with hi | hi
      · exact ih.invoked action name held hi
      · exact hstep.invoked action name held hi

end Machine

/-! ## Whole texts -/

namespace Parser

variable {t : Table} {shape : StateName → List Slot} {conventions : List Convention} {slots : Nat}

/-- A call that is recorded is an invocation that is written down. -/
theorem exists_invoked_of_mem_calls {capacity : Int} {limit : Option Int} {text : String} {call : Call}
    (h : call ∈ ((limited t capacity limit).parse text {}).environment.calls) :
    ∃ action, .invoked action call.action call.arguments
      ∈ ((limited t capacity limit).parse text {}).journal := by
  rw [environment_eq_trace] at h
  obtain ⟨e, he, hcall⟩ := List.mem_filterMap.mp h
  cases e with
  | invoked action name held =>
    obtain rfl := Option.some.inj hcall
    exact ⟨action, he⟩
  | _ => cases hcall

/-- **On a table that keeps to its shapes no text makes the parser give up**, and every call that is
recorded is one that its conventions allow. -/
theorem parse_conforms (h : t.Consistent) (hconforms : t.Conforms shape conventions slots)
    {capacity : Int} (hpos : 1 ≤ capacity) (hroom : slots ≤ capacity.toNat) (text : String) :
    (∃ o, ((limited t capacity none).parse text {}).verdict = .ok o)
      ∧ ∀ call ∈ ((limited t capacity none).parse text {}).environment.calls,
        ∃ k ∈ conventions, k.Admits call := by
  obtain ⟨captures, hempty, hnil, hcapacity⟩ := empty?_of_pos hpos
  have hlimit : (limited t capacity none).exceeds text = none := rfl
  obtain ⟨hparse, hends⟩ := parse_limited h hempty hlimit
  have hrun : Machine.Conforming (tracing t).toMachine shape conventions
      ((tracing t).behind (text.length + 1) text captures {}) := by
    refine Machine.conforming_steps h (unfailing_tracing t) hconforms (h.hasTokens h.initial) ?_ ?_ _
    · exact hroom.trans (Nat.le_of_eq hcapacity.symm)
    · show Slot.Hold (shape t.initial) captures.toList
      rw [hconforms.initial, hnil]
      exact .nil
  refine ⟨?_, fun call hcall => ?_⟩
  · cases hverdict : ((limited t capacity none).parse text {}).verdict with
    | ok o => exact ⟨o, rfl⟩
    | error fault =>
      rw [hparse] at hverdict
      exact absurd (ending_of_conclude_eq_error hends hverdict) (hrun.ending fault)
  · obtain ⟨action, hinvoked⟩ := exists_invoked_of_mem_calls hcall
    obtain ⟨last, hj, hquiet, -⟩ := conclude_quiet text
      ((tracing t).behind (text.length + 1) text captures {})
    rw [hparse, hj] at hinvoked
    rcases List.mem_append.mp hinvoked with hinvoked | hinvoked
    · rcases List.mem_cons.mp hinvoked with hinvoked | hinvoked
      · cases hinvoked
      · obtain ⟨k, hk, hname, hheld⟩ := hrun.invoked action call.action call.arguments hinvoked
        exact ⟨k, hk, hname, hheld⟩
    · exact absurd rfl ((hquiet _ hinvoked).1 action call.action call.arguments)

end Parser

/-! ## The window language -/

namespace Window

/-- The captures with which the states of the window language are entered, where there are any. -/
def shapes : List (StateName × List Slot) :=
  [ ("CRITERION", [⟨"ctype", some criteria⟩]),
    ("CRITERION_STR", [⟨"ctype", some criteria⟩]),
    ("MOVE_DIRECTION", [⟨"direction", some directions⟩]),
    ("MOVE_DIRECTION_PX", [⟨"direction", some directions⟩, ⟨"pixels", none⟩]),
    ("EXEC_COMMAND", [⟨"nosn", some ["--no-startup-id"]⟩]) ]

/-- The captures with which a state of the window language is entered. -/
def shape (state : StateName) : List Slot := (shapes.lookup state).getD []

/-- What the actions of the window language take. Some of them take one thing or another. -/
def conventions : List Convention :=
  [ ⟨"cmd_criteria_add", [⟨"ctype", some criteria⟩, ⟨"cvalue", none⟩]⟩,
    ⟨"cmd_move_direction", [⟨"direction", some directions⟩]⟩,
    ⟨"cmd_move_direction", [⟨"direction", some directions⟩, ⟨"pixels", none⟩]⟩,
    ⟨"cmd_move_con_to_workspace", [⟨"direction", some ["next", "prev"]⟩]⟩,
    ⟨"cmd_move_con_to_workspace_name", [⟨"workspace", none⟩]⟩,
    ⟨"cmd_workspace_name", [⟨"workspace", none⟩]⟩,
    ⟨"cmd_exec", [⟨"command", none⟩]⟩,
    ⟨"cmd_exec", [⟨"nosn", some ["--no-startup-id"]⟩, ⟨"command", none⟩]⟩,
    ⟨"cmd_border", [⟨"border_style", some ["normal", "none", "1pixel", "toggle"]⟩]⟩,
    ⟨"cmd_workspace", [⟨"direction", some ["next_on_output", "prev_on_output", "next", "prev"]⟩]⟩,
    ⟨"cmd_focus_direction", [⟨"direction", some directions⟩]⟩,
    ⟨"cmd_focus_level", [⟨"level", some ["parent", "child"]⟩]⟩,
    ⟨"cmd_kill", []⟩,
    ⟨"cmd_kill", [⟨"kill_mode", some ["window", "client"]⟩]⟩,
    ⟨"cmd_mark", [⟨"mark", none⟩]⟩,
    ⟨"cmd_nop", []⟩,
    ⟨"cmd_nop", [⟨"comment", none⟩]⟩,
    ⟨"cmd_exit", []⟩, ⟨"cmd_restart", []⟩, ⟨"cmd_reload", []⟩, ⟨"cmd_fullscreen", []⟩,
    ⟨"cmd_criteria_match_windows", []⟩, ⟨"cmd_workspace_back_and_forth", []⟩, ⟨"cmd_focus", []⟩ ]

/-- The window language keeps to its shapes and conventions, and never holds more than two captures. -/
theorem conforms_grammar : grammar.Conforms shape conventions 2 := by
  have htokens : ∀ entry ∈ states, ∀ token ∈ entry.2,
      grammar.conforms shape conventions 2 entry.1 token = true := by
    decide +kernel
  have hentries : grammar.states.entries = states := by
    decide +kernel
  refine ⟨rfl, fun state token hlist => ?_⟩
  obtain ⟨entry, he, rfl, hm⟩ := Table.lists_iff.mp hlist
  exact htokens entry (hentries ▸ he) token hm

/-- No two conventions of one action have the same identifiers. -/
theorem convention_unique : ∀ k ∈ conventions, ∀ l ∈ conventions, k.action = l.action →
    k.slots.map Slot.identifier = l.slots.map Slot.identifier → k = l := by
  decide +kernel

/-- **Every text of the window language is run on to its end**, and every call is one that exactly one of
the conventions allows. -/
theorem calls_conform (capacity : Int) (hcapacity : 2 ≤ capacity) (text : String) :
    (∃ o, ((Parser.limited grammar capacity none).parse text {}).verdict = .ok o)
      ∧ ∀ call ∈ ((Parser.limited grammar capacity none).parse text {}).environment.calls,
        ∃! k, k ∈ conventions ∧ k.Admits call := by
  have hcons := Table.consistent_of_validate validate_grammar
  have hpos : 1 ≤ capacity := by omega
  have hroom : 2 ≤ capacity.toNat := by omega
  obtain ⟨hverdict, hcalls⟩ := Parser.parse_conforms hcons conforms_grammar hpos hroom text
  refine ⟨hverdict, fun call hcall => ?_⟩
  obtain ⟨k, hk, hadmits⟩ := hcalls call hcall
  refine ⟨k, ⟨hk, hadmits⟩, ?_⟩
  rintro l ⟨hl, hladmits⟩
  refine convention_unique l hl k hk (hladmits.1.symm.trans hadmits.1) ?_
  rw [← hladmits.2.identifiers, hadmits.2.identifiers]

/-- A chain of commands that goes through most of the states. -/
theorem calls_conform_chain :
    (2 : Int) ≤ 2
      ∧ (∃ o, ((Parser.limited grammar 2 none).parse "[id=7 title=a] move left 10 px; exec vi" {}).verdict
          = .ok o)
      ∧ ∀ call ∈ ((Parser.limited grammar 2 none).parse "[id=7 title=a] move left 10 px; exec vi"
          {}).environment.calls, ∃! k, k ∈ conventions ∧ k.Admits call :=
  ⟨by decide, calls_conform 2 (by decide) _⟩

end Window

end CommandGrammar
