import CommandGrammar.Proofs.Assembly
import CommandGrammar.Proofs.Handling
import Mathlib.Data.List.Nodup

/-!
# Tables built step by step

A table is built by steps in any order: actions are called, states are opened and opened again, and tokens are
added now to one state and now to another. The table that comes of it can be read off the steps: the actions stand
in the order of their first call and are numbered in it, the states in the order in which they were first opened,
and the tokens of a state are those of the steps that added to it.

* `Builder.Step` — a step, with what it calls, which state it opens and which tokens it adds.
* `Builder.Records` — what a builder knows of the steps so far, kept by each step (`Records.perform`).
* `Table.actionId_eq_ok_iff` — in a table with different names for its actions, names and numbers are inverse.
* `Builder.accounts_for_steps` — the statement about tables.
-/

namespace CommandGrammar

open Document

/-! ## Inserting again -/

namespace OrderedMap

variable {κ ν : Type} [DecidableEq κ]

theorem setEntry_setEntry (k : κ) (v w : ν) (es : List (κ × ν)) :
    setEntry k w (setEntry k v es) = setEntry k w es := by
  induction es with
  | nil => simp [setEntry]
  | cons e es ih =>
    by_cases he : e.1 = k
    · simp [setEntry, he]
    · simp [setEntry, he, ih]

/-- Only the last value inserted for a key counts. -/
theorem insert_insert_self (m : OrderedMap κ ν) (k : κ) (v w : ν) :
    (m.insert k v).insert k w = m.insert k w :=
  ext (setEntry_setEntry k v w m.entries)

/-- To insert the value that a key has changes nothing. -/
theorem insert_of_get? {m : OrderedMap κ ν} {k : κ} {v : ν} (h : m.get? k = some v) : m.insert k v = m := by
  have aux : ∀ es : List (κ × ν), es.lookup k = some v → setEntry k v es = es := by
    intro es
    induction es with
    | nil => simp
    | cons e es ih =>
      obtain ⟨key, old⟩ := e
      by_cases he : key = k
      · subst he
        simp +contextual [setEntry]
      · have hk : (k == key) = false := beq_false_of_ne (Ne.symm he)
        rw [List.lookup_cons, hk, setEntry, if_neg he]
        intro h
        rw [ih h]
  exact ext (aux m.entries h)

/-- The keys, with a new one behind them. -/
theorem keys_insert (m : OrderedMap κ ν) (k : κ) (v : ν) :
    (m.insert k v).keys = if k ∈ m.keys then m.keys else m.keys ++ [k] :=
  keys_setEntry k v m.entries

theorem get?_eq_none_of_not_mem {m : OrderedMap κ ν} {k : κ} (h : k ∉ m.keys) : m.get? k = none :=
  Option.eq_none_iff_forall_ne_some.mpr fun _ hv => h (List.mem_map_of_mem (get?_eq_some_iff.mp hv))

end OrderedMap

/-! ## Names and numbers of actions -/

namespace Table

variable {t : Table} {action : ActionId} {name : String}

/-- The number of a name is that of an action with this name. -/
theorem actionName_of_actionId (h : t.actionId name = .ok action) : t.actionName action = .ok name := by
  unfold actionId at h
  split at h
  · next entry hentry =>
    obtain rfl := Except.ok.inj h
    have hname : entry.2 = name := by simpa using List.find?_some hentry
    rw [actionName_eq_ok_iff, OrderedMap.get?_eq_some_iff, ← hname]
    exact List.mem_reverse.mp (List.mem_of_find?_eq_some hentry)
  · cases h

/-- **Names and numbers are inverse** where the actions have different names. -/
theorem actionId_eq_ok_iff (h : t.actions.values.Nodup) :
    t.actionId name = .ok action ↔ t.actionName action = .ok name := by
  refine ⟨actionName_of_actionId, fun hname => ?_⟩
  have hentry := OrderedMap.get?_eq_some_iff.mp (actionName_eq_ok_iff.mp hname)
  obtain ⟨action', haction'⟩ := actionId_of_mem (mem_values_of_actionName hname)
  have hentry' := OrderedMap.get?_eq_some_iff.mp (actionName_eq_ok_iff.mp (actionName_of_actionId haction'))
  have hsame : action' = action := (Prod.mk.inj (List.inj_on_of_nodup_map h hentry' hentry rfl)).1
  rw [haction', hsame]

end Table

namespace Builder

/-! ## Steps -/

/-- One step of building a table. Tokens are added to a state that is open; to open it again changes nothing. -/
inductive Step where
  | call (name : String) (next : Option StateName)
  | openState (name : StateName)
  | literal (state : StateName) (texts : List String) (capture : Option String) (goto : Option StateName)
    (call : Option Transition)
  | word (state : StateName) (capture : Option String) (goto : Option StateName) (call : Option Transition)
  | string (state : StateName) (capture : Option String) (goto : Option StateName) (call : Option Transition)
  | commandEnd (state : StateName) (goto : Option StateName) (call : Option Transition)

namespace Step

/-- The builder behind a step. -/
def perform (b : Builder) : Step → Except TableError Builder
  | .call name next => .ok (b.call name next).1
  | .openState name => .ok (b.openState name)
  | .literal state texts capture goto invoke => (b.openState state).literal state texts capture goto invoke
  | .word state capture goto invoke => (b.openState state).word state capture goto invoke
  | .string state capture goto invoke => (b.openState state).string state capture goto invoke
  | .commandEnd state goto invoke => (b.openState state).commandEnd state goto invoke

/-- The action that a step calls. -/
def called? : Step → Option String
  | .call name _ => some name
  | _ => none

/-- The state that a step opens. -/
def opened? : Step → Option StateName
  | .call .. => none
  | .openState state | .literal state .. | .word state .. | .string state .. | .commandEnd state .. => some state

/-- The tokens that a step adds to its state: one, or one for each text of a literal. A token without a target stays
in its state, the end of a command leads to the initial one. -/
def tokens (initial : StateName) : Step → List Token
  | .call .. | .openState _ => []
  | .literal state texts capture goto invoke =>
    texts.map fun text => .literal text (invoke.getD (.goto (goto.getD state))) capture
  | .word state capture goto invoke => [.word (invoke.getD (.goto (goto.getD state))) capture]
  | .string state capture goto invoke => [.string (invoke.getD (.goto (goto.getD state))) capture]
  | .commandEnd _ goto invoke => [.commandEnd (invoke.getD (.goto (goto.getD initial)))]

end Step

/-- The builder behind some steps. -/
def run (b : Builder) (steps : List Step) : Except TableError Builder := steps.foldlM Step.perform b

/-- The tokens that some steps add to a state. -/
def tokensOf (initial state : StateName) (steps : List Step) : List Token :=
  steps.flatMap fun step => if step.opened? = some state then step.tokens initial else []

/-! ## What a step does -/

variable {b b' : Builder} {step : Step} {state : StateName}

theorem eq_of_transition {goto : Option StateName} {call : Option Transition} {transition : Transition}
    (h : Builder.transition state goto call = .ok transition) :
    transition = call.getD (.goto (goto.getD state)) := by
  cases goto <;> cases call <;> cases h <;> rfl

theorem eq_of_transition_end {initial : StateName} {goto : Option StateName} {call : Option Transition}
    {transition : Transition}
    (h : Builder.transition state (if goto.isNone && call.isNone then some initial else goto) call
      = .ok transition) :
    transition = call.getD (.goto (goto.getD initial)) := by
  cases goto <;> cases call <;> cases h <;> rfl

/-- To add tokens opens the state. -/
theorem append_openState (tokens : List Token) :
    (b.openState state).append state tokens = b.append state tokens := by
  unfold openState
  split
  · rfl
  · next hnew =>
    have hnone : b.states.get? state = none :=
      OrderedMap.get?_eq_none_of_not_mem (by simpa [OrderedMap.contains] using hnew)
    simp only [append, OrderedMap.get?_insert_self, OrderedMap.insert_insert_self, hnone]
    rfl

/-- To add no tokens does nothing else. -/
theorem append_nil : b.append state [] = b.openState state := by
  unfold append openState
  rw [List.append_nil]
  split
  · next hopen =>
    obtain ⟨tokens, htokens⟩ := OrderedMap.contains_iff.mp hopen
    rw [htokens, Option.getD_some, OrderedMap.insert_of_get? htokens]
  · next hnew =>
    rw [OrderedMap.get?_eq_none_of_not_mem (by simpa [OrderedMap.contains] using hnew)]
    rfl

@[simp] theorem initial_openState : (b.openState state).initial = b.initial := by
  unfold openState
  split <;> rfl

/-- **A step calls an action, or it adds its tokens to its state.** -/
theorem perform_eq_ok (h : step.perform b = .ok b') :
    (∃ name next, step = .call name next ∧ b' = (b.call name next).1)
      ∨ ∃ state, step.opened? = some state ∧ step.called? = none
        ∧ b' = b.append state (step.tokens b.initial) := by
  have hadd : ∀ {state goto call} {tokens : Transition → List Token},
      (do let transition ← Builder.transition state goto call
          return (b.openState state).append state (tokens transition)) = Except.ok b' →
        ∃ transition, Builder.transition state goto call = .ok transition
          ∧ b' = b.append state (tokens transition) := by
    intro state goto call tokens h
    cases htransition : Builder.transition state goto call with
    | error e =>
      rw [htransition] at h
      cases h
    | ok transition =>
      rw [htransition] at h
      exact ⟨transition, rfl, (Except.ok.inj h).symm.trans (append_openState _)⟩
  cases step with
  | call name next => exact Or.inl ⟨name, next, rfl, (Except.ok.inj h).symm⟩
  | openState state => exact Or.inr ⟨state, rfl, rfl, (Except.ok.inj h).symm.trans append_nil.symm⟩
  | literal state texts capture goto call =>
    obtain ⟨transition, htransition, rfl⟩ := hadd h
    rw [eq_of_transition htransition]
    exact Or.inr ⟨state, rfl, rfl, rfl⟩
  | word state capture goto call =>
    obtain ⟨transition, htransition, rfl⟩ := hadd h
    rw [eq_of_transition htransition]
    exact Or.inr ⟨state, rfl, rfl, rfl⟩
  | string state capture goto call =>
    obtain ⟨transition, htransition, rfl⟩ := hadd h
    rw [eq_of_transition htransition]
    exact Or.inr ⟨state, rfl, rfl, rfl⟩
  | commandEnd state goto call =>
    obtain ⟨transition, htransition, rfl⟩ := hadd h
    rw [initial_openState] at htransition
    rw [eq_of_transition_end htransition]
    exact Or.inr ⟨state, rfl, rfl, rfl⟩

/-! ## What is known of the steps so far -/

/-- What a builder holds of the steps that led to it. -/
structure Records (start : StateName) (steps : List Step) (b : Builder) : Prop where
  initial : b.initial = start
  actions : b.actions = (steps.filterMap Step.called?).eraseDups
  states : b.states.keys = (steps.filterMap Step.opened?).eraseDups
  tokens : ∀ state, (b.states.get? state).getD [] = tokensOf start state steps

theorem tokensOf_concat (initial state : StateName) (steps : List Step) (step : Step) :
    tokensOf initial state (steps ++ [step])
      = tokensOf initial state steps ++ if step.opened? = some state then step.tokens initial else [] := by
  simp [tokensOf]

variable {initial : StateName} {steps : List Step}

/-- The builder that nothing was done to holds nothing. -/
theorem records_nil (initial : StateName) : Records initial [] { initial } :=
  ⟨rfl, rfl, rfl, fun _ => rfl⟩

/-- **Each step is recorded.** -/
theorem Records.perform (h : Records initial steps b) (hstep : step.perform b = .ok b') :
    Records initial (steps ++ [step]) b' := by
  rcases perform_eq_ok hstep with ⟨name, next, rfl, rfl⟩ | ⟨state, hopened, hcalled, rfl⟩
  · refine ⟨h.initial, ?_, ?_, fun state => ?_⟩
    · rw [call_eq h.actions, List.filterMap_append]
      rfl
    · rw [List.filterMap_append]
      exact h.states.trans (congrArg List.eraseDups (List.append_nil _).symm)
    · rw [tokensOf_concat, if_neg (by simp [Step.opened?]), List.append_nil]
      exact h.tokens state
  · refine ⟨h.initial, ?_, ?_, fun other => ?_⟩
    · rw [List.filterMap_append, List.filterMap_cons, hcalled, List.filterMap_nil, List.append_nil]
      exact h.actions
    · rw [List.filterMap_append, List.filterMap_cons, hopened, List.filterMap_nil, eraseDups_concat, ← h.states]
      simp only [List.contains_iff_mem]
      exact OrderedMap.keys_insert b.states state _
    · rw [tokensOf_concat, hopened]
      rw [← h.tokens, ← h.initial]
      by_cases hother : other = state
      · subst hother
        rw [if_pos rfl]
        simp only [append, OrderedMap.get?_insert_self, Option.getD_some]
      · rw [if_neg fun heq => hother (Option.some.inj heq).symm, List.append_nil]
        simp only [append, OrderedMap.get?_insert_of_ne hother]

/-- What is done in two parts is done part by part. -/
theorem run_append_eq_ok_iff {more : List Step} :
    b.run (steps ++ more) = .ok b' ↔ ∃ mid, b.run steps = .ok mid ∧ mid.run more = .ok b' := by
  unfold run
  rw [List.foldlM_append]
  cases List.foldlM Step.perform b steps <;> simp [bind, Except.bind]

/-- **Whole runs are recorded.** -/
theorem records_run (h : Builder.run { initial } steps = .ok b) : Records initial steps b := by
  induction steps using List.reverseRecOn generalizing b with
  | nil =>
    obtain rfl := Except.ok.inj h
    exact records_nil initial
  | append_singleton steps step ih =>
    obtain ⟨mid, hmid, hlast⟩ := run_append_eq_ok_iff.mp h
    have hstep : step.perform mid = .ok b := by simpa [run] using hlast
    exact (ih hmid).perform hstep

/-! ## Tables -/

/-- The numbered names are the actions of the table collected so far. -/
theorem entries_actions_table (b : Builder) :
    b.table.actions.entries = b.actions.zipIdx.map fun (name, i) => ((i : Int), name) :=
  entries_ofList_zipIdx b.actions

theorem values_actions_table (b : Builder) : b.table.actions.values = b.actions := by
  rw [OrderedMap.values, entries_actions_table, List.map_map]
  exact List.zipIdx_map_fst 0 _

theorem actionName_table {name : String} (h : name ∈ b.actions) :
    b.table.actionName (b.actions.idxOf name) = .ok name := by
  rw [Table.actionName_eq_ok_iff, OrderedMap.get?_eq_some_iff, entries_actions_table]
  exact idxOf_mem_zipIdx h

/-- What a table says about the steps that it comes of. -/
structure AccountsFor (t : Table) (start : StateName) (steps : List Step) : Prop where
  initial : t.initial = start
  /-- The actions are numbered from zero on. -/
  numbers : t.actions.keys = (List.range t.actions.size).map Nat.cast
  /-- They stand in the order of their first call. -/
  names : t.actions.values = (steps.filterMap Step.called?).eraseDups
  distinct : t.actions.values.Nodup
  /-- Their names and numbers are inverse to each other. -/
  inverse : ∀ action name, t.actionId name = .ok action ↔ t.actionName action = .ok name
  /-- What a call gave, wherever it stood, still stands for the action called. -/
  calls : ∀ before name next after, steps = before ++ .call name next :: after →
    ∃ b action, Builder.run { initial := start } before = .ok b ∧ (b.call name next).2 = .invoke action next
      ∧ t.actionName action = .ok name
  /-- The states stand in the order in which they were first opened. -/
  states : t.states.keys = (steps.filterMap Step.opened?).eraseDups
  /-- The tokens of a state are those that were added to it, in the order of the steps. -/
  tokens : ∀ state ∈ t.states.keys, t.tokens state = .ok (tokensOf start state steps)

/-- The table collected along some steps accounts for them. -/
theorem accountsFor_table (h : Builder.run { initial } steps = .ok b) : AccountsFor b.table initial steps := by
  have hrecords := records_run h
  have hvalues : b.table.actions.values = (steps.filterMap Step.called?).eraseDups :=
    (values_actions_table b).trans hrecords.actions
  have hdistinct : b.table.actions.values.Nodup := hvalues ▸ nodup_eraseDups _
  refine
    { initial := hrecords.initial
      numbers := ?_
      names := hvalues
      distinct := hdistinct
      inverse := fun action name => Table.actionId_eq_ok_iff hdistinct
      calls := ?_
      states := hrecords.states
      tokens := ?_ }
  · have hsize : b.table.actions.size = b.actions.length := by
      rw [OrderedMap.size, entries_actions_table, List.length_map, List.length_zipIdx]
    rw [hsize, ← map_fst_zipIdx, ← entries_actions_table]
    rfl
  · rintro before name next after rfl
    obtain ⟨mid, hmid, -⟩ := run_append_eq_ok_iff.mp h
    refine ⟨mid, _, hmid, congrArg Prod.snd (call_eq (records_run hmid).actions name next), ?_⟩
    -- Names called later have no influence on the number of this one.
    have hplace : b.actions.idxOf name = (before.filterMap Step.called? ++ [name]).eraseDups.idxOf name := by
      rw [hrecords.actions, List.filterMap_append, ← idxOf_eraseDups_append (List.mem_concat_self),
        List.append_assoc]
      rfl
    rw [← hplace]
    refine actionName_table ?_
    rw [hrecords.actions, List.mem_eraseDups, List.filterMap_append]
    exact List.mem_append_right _ List.mem_cons_self
  · intro state hstate
    obtain ⟨tokens, htokens⟩ := OrderedMap.contains_iff.mp (List.contains_iff_mem.mpr hstate)
    have hrecorded := hrecords.tokens state
    rw [show b.states.get? state = some tokens from htokens, Option.getD_some] at hrecorded
    rw [Table.tokens_eq_ok_iff, htokens, hrecorded]

/-- **Tables account for the steps that they are built by**, in whatever order the steps are taken. And in any table
the number of an action's name is that of an action with this name. -/
theorem accounts_for_steps :
    (∀ initial steps b t, Builder.run { initial } steps = .ok b → b.build = .ok t → AccountsFor t initial steps)
      ∧ ∀ (t : Table) (name : String), name ∈ t.actions.values →
        ∃ action, t.actionId name = .ok action ∧ t.actionName action = .ok name := by
  refine ⟨fun initial steps b t hrun hbuild => ?_, fun t name hname => ?_⟩
  · obtain ⟨-, rfl⟩ := Table.validate_eq_ok_iff.mp hbuild
    exact accountsFor_table hrun
  · obtain ⟨action, haction⟩ := Table.actionId_of_mem hname
    exact ⟨action, haction, Table.actionName_of_actionId haction⟩

/-- Two states in turns, the first one opened again, and an action called before and behind another. -/
def turnsSteps : List Step :=
  [ .call "cmd_kill" none, .openState "INITIAL",
    .literal "MOVE" ["left", "right"] (some "direction") none (some (.invoke 0 (some "MOVE"))),
    .call "cmd_exit" none, .literal "INITIAL" ["move"] none (some "MOVE") none, .call "cmd_kill" (some "MOVE"),
    .commandEnd "MOVE" none none, .word "INITIAL" none none (some (.invoke 1 none)), .commandEnd "INITIAL" none none ]

/-- A table whose action has two numbers. -/
def sharedTable : Table where
  states := .empty
  actions := ⟨[(3, "cmd_nop"), (7, "cmd_nop")], by decide⟩

/-- Steps that take turns are accounted for, and a name with two numbers has the number of one of them. -/
theorem accounts_for_steps_turns :
    ∃ b t, Builder.run {} turnsSteps = .ok b ∧ b.build = .ok t ∧ AccountsFor t defaultInitial turnsSteps
      ∧ "cmd_nop" ∈ sharedTable.actions.values
      ∧ ∃ action, sharedTable.actionId "cmd_nop" = .ok action ∧ sharedTable.actionName action = .ok "cmd_nop" := by
  have hsome : ((Builder.run {} turnsSteps).bind Builder.build).toOption.isSome = true := by decide +kernel
  have hshared : "cmd_nop" ∈ sharedTable.actions.values := by decide
  obtain ⟨hsteps, hnames⟩ := accounts_for_steps
  cases hrun : Builder.run {} turnsSteps with
  | error e =>
    rw [hrun] at hsome
    cases hsome
  | ok b =>
    rw [hrun] at hsome
    cases hbuild : b.build with
    | error e =>
      rw [show (Except.ok b).bind Builder.build = b.build from rfl, hbuild] at hsome
      cases hsome
    | ok t => exact ⟨b, t, rfl, hbuild, hsteps _ _ b t hrun hbuild, hshared, hnames sharedTable _ hshared⟩

end Builder

end CommandGrammar
