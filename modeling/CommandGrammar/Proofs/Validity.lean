import CommandGrammar.Window.Grammar

/-!
# What validation establishes

`Table.Consistent` lists what a table must satisfy so that no run on it can leave it, field by field.
`validate_eq_ok_iff_consistent`: validation accepts exactly the consistent tables, among them the one of
the window language (`Window.validate_grammar`).
-/

namespace CommandGrammar

/-! ## Looking up entries -/

namespace OrderedMap

variable {κ ν : Type} [DecidableEq κ]

theorem get?_eq_some_iff {m : OrderedMap κ ν} {k : κ} {v : ν} :
    m.get? k = some v ↔ (k, v) ∈ m.entries := by
  obtain ⟨entries, hnd⟩ := m
  show entries.lookup k = some v ↔ (k, v) ∈ entries
  induction entries with
  | nil => simp
  | cons e rest ih =>
    obtain ⟨k', v'⟩ := e
    obtain ⟨hk', hrest⟩ := List.nodup_cons.mp hnd
    rw [List.lookup_cons]
    by_cases h : k = k'
    · subst h
      have hnot : (k, v) ∉ rest := fun hm => hk' (List.mem_map.mpr ⟨_, hm, rfl⟩)
      simp [hnot, eq_comm]
    · have hb : (k == k') = false := by simpa using h
      rw [hb, ih hrest]
      simp [h]

theorem contains_iff {m : OrderedMap κ ν} {k : κ} :
    m.contains k = true ↔ ∃ v, m.get? k = some v := by
  simp only [contains, keys, List.contains_iff_mem, List.mem_map, Prod.exists, get?_eq_some_iff]
  constructor
  · rintro ⟨k', v, h, rfl⟩
    exact ⟨v, h⟩
  · rintro ⟨v, h⟩
    exact ⟨k, v, h, rfl⟩

end OrderedMap

namespace Table

variable {t : Table}

theorem tokens_eq_ok_iff {state : StateName} {tokens : List Token} :
    t.tokens state = .ok tokens ↔ t.states.get? state = some tokens := by
  unfold Table.tokens
  cases t.states.get? state <;> simp

theorem actionName_eq_ok_iff {action : ActionId} {name : String} :
    t.actionName action = .ok name ↔ t.actions.get? action = some name := by
  unfold actionName
  cases t.actions.get? action <;> simp

theorem contains_states_iff {state : StateName} :
    t.states.contains state = true ↔ ∃ tokens, t.tokens state = .ok tokens := by
  simp only [tokens_eq_ok_iff, OrderedMap.contains_iff]

theorem contains_actions_iff {action : ActionId} :
    t.actions.contains action = true ↔ ∃ name, t.actionName action = .ok name := by
  simp only [actionName_eq_ok_iff, OrderedMap.contains_iff]

/-! ## Consistent tables -/

/-- The table lists the token among those of the state. -/
def Lists (t : Table) (state : StateName) (token : Token) : Prop :=
  ∃ tokens, t.tokens state = .ok tokens ∧ token ∈ tokens

theorem lists_iff {state : StateName} {token : Token} :
    t.Lists state token ↔ ∃ entry ∈ t.states.entries, entry.1 = state ∧ token ∈ entry.2 := by
  simp only [Lists, tokens_eq_ok_iff, OrderedMap.get?_eq_some_iff]
  constructor
  · rintro ⟨tokens, he, hm⟩
    exact ⟨_, he, rfl, hm⟩
  · rintro ⟨⟨state, tokens⟩, he, rfl, hm⟩
    exact ⟨tokens, he, hm⟩

/-- No literal of the table is without a text. -/
def LiteralsHaveText (t : Table) : Prop :=
  ∀ state token, t.Lists state token → token.kind = .literal → token.text.getD "" ≠ ""

/-- What keeps a run inside a table. -/
structure Consistent (t : Table) : Prop where
  initial : ∃ tokens, t.tokens t.initial = .ok tokens
  nonempty : ∀ state, t.tokens state ≠ .ok []
  literals : t.LiteralsHaveText
  ends : ∀ state token, t.Lists state token → token.kind = .commandEnd → token.capture = none
  loops : ∀ state token, t.Lists state token → token.capture ≠ none → token.transition ≠ .goto state
  actions : ∀ state token, t.Lists state token → ∀ action next,
    token.transition = .invoke action next → ∃ name, t.actionName action = .ok name
  targets : ∀ state token, t.Lists state token →
    ∃ tokens, t.tokens (t.target token.transition) = .ok tokens

theorem textDefect?_eq_none_iff (state : StateName) (token : Token) :
    textDefect? state token = none ↔ (token.kind = .literal → token.text.getD "" ≠ "") := by
  simp [textDefect?]

theorem captureDefect?_eq_none_iff (state : StateName) (token : Token) :
    captureDefect? state token = none
      ↔ (token.kind = .commandEnd → token.capture = none)
        ∧ (token.capture ≠ none → token.transition ≠ .goto state) := by
  unfold captureDefect?
  cases hc : token.capture with
  | none => cases hk : token.kind <;> simp
  | some capture =>
    cases hk : token.kind <;> cases ht : token.transition <;> simp

theorem actionDefect?_eq_none_iff (state : StateName) (token : Token) :
    t.actionDefect? state token = none
      ↔ ∀ action next, token.transition = .invoke action next
        → ∃ name, t.actionName action = .ok name := by
  unfold actionDefect?
  cases ht : token.transition with
  | goto target => simp
  | invoke action next => simp [← contains_actions_iff]

theorem targetDefect?_eq_none_iff (state : StateName) (token : Token) :
    t.targetDefect? state token = none
      ↔ ∃ tokens, t.tokens (t.target token.transition) = .ok tokens := by
  simp [targetDefect?, contains_states_iff]

theorem tokenDefect?_eq_none_iff {state : StateName} {token : Token} :
    t.tokenDefect? state token = none
      ↔ (token.kind = .literal → token.text.getD "" ≠ "")
        ∧ ((token.kind = .commandEnd → token.capture = none)
          ∧ (token.capture ≠ none → token.transition ≠ .goto state))
        ∧ (∀ action next, token.transition = .invoke action next
          → ∃ name, t.actionName action = .ok name)
        ∧ ∃ tokens, t.tokens (t.target token.transition) = .ok tokens := by
  rw [← textDefect?_eq_none_iff state token, ← captureDefect?_eq_none_iff state token,
    ← actionDefect?_eq_none_iff state token, ← targetDefect?_eq_none_iff state token]
  simp [tokenDefect?]

theorem stateDefect?_eq_none_iff {state : StateName} {tokens : List Token} :
    t.stateDefect? state tokens = none
      ↔ tokens ≠ [] ∧ ∀ token ∈ tokens, t.tokenDefect? state token = none := by
  unfold stateDefect?
  cases tokens <;> simp

theorem defect?_eq_none_iff :
    t.defect? = none
      ↔ (∃ tokens, t.tokens t.initial = .ok tokens)
        ∧ ∀ state tokens, t.tokens state = .ok tokens → t.stateDefect? state tokens = none := by
  unfold defect?
  rw [← contains_states_iff]
  by_cases h : t.states.contains t.initial = true
  · simp only [h, if_true, true_and, List.findSome?_eq_none_iff, Prod.forall, tokens_eq_ok_iff,
      OrderedMap.get?_eq_some_iff]
  · simp [h]

/-- **Validation accepts the consistent tables and no others.** -/
theorem validate_eq_ok_iff_consistent {t' : Table} :
    t.validate = .ok t' ↔ t.Consistent ∧ t' = t := by
  rw [validate_eq_ok_iff, defect?_eq_none_iff]
  simp only [stateDefect?_eq_none_iff, tokenDefect?_eq_none_iff]
  refine and_congr_left fun _ => ?_
  constructor
  · -- The conditions are read off the checks state by state, and token by token.
    rintro ⟨hinit, h⟩
    have hl : ∀ state token, t.Lists state token → _ :=
      fun state token ⟨tokens, ht, hm⟩ => (h state tokens ht).2 token hm
    exact
      { initial := hinit
        nonempty := fun state ht => (h state [] ht).1 rfl
        literals := fun state token hlist => (hl state token hlist).1
        ends := fun state token hlist => (hl state token hlist).2.1.1
        loops := fun state token hlist => (hl state token hlist).2.1.2
        actions := fun state token hlist => (hl state token hlist).2.2.1
        targets := fun state token hlist => (hl state token hlist).2.2.2 }
  · intro h
    refine ⟨h.initial, fun state tokens ht => ⟨?_, fun token hm => ?_⟩⟩
    · rintro rfl
      exact h.nonempty state ht
    · have hlist : t.Lists state token := ⟨tokens, ht, hm⟩
      exact ⟨h.literals state token hlist, ⟨h.ends state token hlist, h.loops state token hlist⟩,
        h.actions state token hlist, h.targets state token hlist⟩

theorem consistent_of_validate {t' : Table} (h : t.validate = .ok t') : t.Consistent :=
  (validate_eq_ok_iff_consistent.mp h).1

end Table

/-- The table of the window language is valid. -/
theorem Window.validate_grammar : Window.grammar.validate = .ok Window.grammar :=
  Table.validate_eq_ok_iff.mpr ⟨by decide +kernel, rfl⟩

end CommandGrammar
