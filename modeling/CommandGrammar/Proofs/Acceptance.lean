import CommandGrammar.Proofs.Assembly

/-!
# Which documents are tables

A document is a table when it can be read and what it says fits together: the initial state is there, every
state has a token, no literal is empty, and all tokens lead to states of the document, those that capture
without a call to other states than their own. `Outline.Sound` says this about the entries of a document,
before literals with several texts are taken apart and actions are numbered.

* `Outline.consistent_assembled_iff` — this is what makes the assembled table consistent.
* `toTable_eq_ok_iff` — the table that comes of a value, if one does.
* `toTable_accepts` — the values in JSON that are tables.
-/

namespace CommandGrammar.Document

/-- Where an entry leads: to its target, behind a call to the state named next or to the initial state, and
without either to the initial state at the end of a command and else nowhere. -/
def Entry.target (initial state : StateName) (e : Entry) : StateName :=
  match e.goto, e.call with
  | some target, _ => target
  | none, some _ => e.next.getD initial
  | none, none => if e.commandEnd then initial else state

/-- What makes the states of a document fit together. An entry whose literal has an empty list of texts stands
for no token at all. -/
structure Outline.Sound (o : Outline) : Prop where
  initial : o.initial ∈ o.states.keys
  nonempty : ∀ s ∈ o.states.entries, ∃ e ∈ s.2, e.literal ≠ some []
  texts : ∀ s ∈ o.states.entries, ∀ e ∈ s.2, ∀ texts, e.literal = some texts → "" ∉ texts
  targets : ∀ s ∈ o.states.entries, ∀ e ∈ s.2, e.literal ≠ some [] →
    e.target o.initial s.1 ∈ o.states.keys
  loops : ∀ s ∈ o.states.entries, ∀ e ∈ s.2, e.literal ≠ some [] → e.capture ≠ none → e.call = none →
    e.target o.initial s.1 ≠ s.1

/-! ## The tokens of an entry -/

namespace Entry

variable {e : Entry} {names : List String} {initial state : StateName} {token : Token}

/-- Only the end of a command is of that kind. -/
theorem kind_eq_commandEnd_iff (h : e.WellShaped) : e.kind = .commandEnd ↔ e.commandEnd = true := by
  have hkind := h.kind
  revert hkind
  unfold kindCount kind
  cases e.literal <;> cases e.word <;> cases e.string <;> cases e.commandEnd <;> simp

/-- What the tokens of an entry have in common holds of the entry, if it stands for a token at all. -/
theorem forall_mem_tokens_iff {p : TokenKind → Option String → Transition → Prop} :
    (∀ token ∈ e.tokens names initial state, p token.kind token.capture token.transition)
      ↔ (e.literal ≠ some [] → p e.kind e.capture (e.transition names initial state)) := by
  unfold tokens
  cases hliteral : e.literal with
  | none => simp
  | some texts =>
    have hkind : e.kind = .literal := by simp [kind, hliteral]
    rw [hkind]
    cases texts with
    | nil => simp
    | cons text texts => simpa [Token.literal] using fun h _ _ => h

theorem forall_text_iff :
    (∀ token ∈ e.tokens names initial state, token.kind = .literal → token.text.getD "" ≠ "")
      ↔ ∀ texts, e.literal = some texts → "" ∉ texts := by
  unfold tokens
  cases hliteral : e.literal with
  | none =>
    have hkind : e.kind ≠ .literal := by
      unfold kind
      rw [hliteral]
      cases e.word <;> cases e.string <;> simp
    simp [hkind]
  | some texts =>
    simp only [List.forall_mem_map, Token.literal, Option.getD_some, Option.some.injEq, forall_eq', forall_const]
    constructor
    · intro h hm
      exact h "" hm rfl
    · rintro h _ hm rfl
      exact h hm

theorem tokens_eq_nil_iff : e.tokens names initial state = [] ↔ e.literal = some [] := by
  unfold tokens
  cases e.literal <;> simp

/-- The tokens of an entry lead where the entry leads. -/
theorem target_transition (h : e.WellShaped) (t : Table) :
    t.target (e.transition names t.initial state) = e.target t.initial state := by
  have hkind := kind_eq_commandEnd_iff h
  have htarget := h.target
  unfold transition target
  cases hgoto : e.goto with
  | some goto =>
    obtain hcall := htarget.resolve_left (by simp [hgoto])
    simp [hcall, Table.target]
  | none =>
    cases hcall : e.call with
    | some name => simp [Table.target, Table.nextStateAfter]
    | none => simp [Table.target, hkind]

theorem transition_eq_goto_iff (h : e.WellShaped) {target : StateName} :
    e.transition names initial state = .goto target ↔ e.call = none ∧ e.target initial state = target := by
  have hkind := kind_eq_commandEnd_iff h
  unfold transition Entry.target
  cases e.call <;> cases e.goto <;> simp [hkind]

end Entry

/-! ## The assembled table -/

namespace Outline

variable {o : Outline} {state : StateName} {token : Token}

theorem lists_assembled_iff :
    o.assembled.Lists state token
      ↔ ∃ s ∈ o.states.entries, s.1 = state ∧ ∃ e ∈ s.2, token ∈ e.tokens o.actionNames o.initial s.1 := by
  rw [Table.lists_iff]
  constructor
  · rintro ⟨entry, he, rfl, hm⟩
    obtain ⟨s, hs, rfl⟩ := List.mem_map.mp he
    obtain ⟨e, he, hm⟩ := List.mem_flatMap.mp hm
    exact ⟨s, hs, rfl, e, he, hm⟩
  · rintro ⟨s, hs, rfl, e, he, hm⟩
    exact ⟨_, List.mem_map.mpr ⟨s, hs, rfl⟩, rfl, List.mem_flatMap.mpr ⟨e, he, hm⟩⟩

theorem knows_assembled_iff : (∃ tokens, o.assembled.tokens state = .ok tokens) ↔ state ∈ o.states.keys := by
  rw [← Table.contains_states_iff, ← map_fst_tokenLists]
  simp [OrderedMap.contains, OrderedMap.keys, assembled]

theorem forall_lists_iff {p : StateName → Token → Prop} :
    (∀ state token, o.assembled.Lists state token → p state token)
      ↔ ∀ s ∈ o.states.entries, ∀ e ∈ s.2, ∀ token ∈ e.tokens o.actionNames o.initial s.1, p s.1 token := by
  constructor
  · intro h s hs e he token hm
    exact h _ _ (lists_assembled_iff.mpr ⟨s, hs, rfl, e, he, hm⟩)
  · intro h state token hlist
    obtain ⟨s, hs, rfl, e, he, hm⟩ := lists_assembled_iff.mp hlist
    exact h s hs e he token hm

theorem nonempty_assembled_iff :
    (∀ state, o.assembled.tokens state ≠ .ok []) ↔ ∀ s ∈ o.states.entries, ∃ e ∈ s.2, e.literal ≠ some [] := by
  have hempty : ∀ s : StateName × List Entry,
      s.2.flatMap (Entry.tokens o.actionNames o.initial s.1) ≠ [] ↔ ∃ e ∈ s.2, e.literal ≠ some [] := by
    intro s
    rw [Ne, List.flatMap_eq_nil_iff]
    simp only [Entry.tokens_eq_nil_iff, not_forall, exists_prop, ne_eq]
  simp only [← hempty, ne_eq, Table.tokens_eq_ok_iff, OrderedMap.get?_eq_some_iff]
  constructor
  · intro h s hs hnil
    exact h s.1 (List.mem_map.mpr ⟨s, hs, by rw [hnil]⟩)
  · intro h state hm
    obtain ⟨s, hs, heq⟩ := List.mem_map.mp hm
    exact h s hs (Prod.mk.inj heq).2

/-- **The assembled table is consistent exactly if the document fits together.** The rest of what a table needs
is there in any document whose entries are in good shape: the end of a command holds nothing, and every action
called has its name. -/
theorem consistent_assembled_iff (h : ∀ s ∈ o.states.entries, ∀ e ∈ s.2, e.WellShaped) :
    o.assembled.Consistent ↔ o.Sound := by
  have hends : ∀ state token, o.assembled.Lists state token → token.kind = .commandEnd →
      token.capture = none := by
    refine forall_lists_iff.mpr fun s hs e he => ?_
    rw [Entry.forall_mem_tokens_iff (p := fun kind capture _ => kind = .commandEnd → capture = none)]
    intro _ hk
    exact (h s hs e he).ends ((Entry.kind_eq_commandEnd_iff (h s hs e he)).mp hk)
  have hactions : ∀ state token, o.assembled.Lists state token → ∀ action next,
      token.transition = .invoke action next → ∃ name, o.assembled.actionName action = .ok name := by
    refine forall_lists_iff.mpr fun s hs e he => ?_
    rw [Entry.forall_mem_tokens_iff (p := fun _ _ transition => ∀ action next,
      transition = .invoke action next → ∃ name, o.assembled.actionName action = .ok name)]
    intro _ action next htransition
    unfold Entry.transition at htransition
    cases hcall : e.call with
    | none =>
      rw [hcall] at htransition
      cases htransition
    | some name =>
      rw [hcall] at htransition
      obtain ⟨rfl, -⟩ := Transition.invoke.inj htransition
      exact ⟨name, actionName_assembled (mem_calls hs he hcall)⟩
  have hloops : (∀ state token, o.assembled.Lists state token → token.capture ≠ none →
        token.transition ≠ .goto state)
      ↔ ∀ s ∈ o.states.entries, ∀ e ∈ s.2, e.literal ≠ some [] → e.capture ≠ none → e.call = none →
        e.target o.initial s.1 ≠ s.1 := by
    rw [forall_lists_iff]
    refine forall₂_congr fun s hs => forall₂_congr fun e he => ?_
    rw [Entry.forall_mem_tokens_iff (p := fun _ capture transition => capture ≠ none → transition ≠ .goto s.1)]
    simp only [ne_eq, Entry.transition_eq_goto_iff (h s hs e he), not_and]
  have htargets : (∀ state token, o.assembled.Lists state token →
        ∃ tokens, o.assembled.tokens (o.assembled.target token.transition) = .ok tokens)
      ↔ ∀ s ∈ o.states.entries, ∀ e ∈ s.2, e.literal ≠ some [] → e.target o.initial s.1 ∈ o.states.keys := by
    rw [forall_lists_iff]
    refine forall₂_congr fun s hs => forall₂_congr fun e he => ?_
    have htarget : o.assembled.target (e.transition o.actionNames o.initial s.1) = e.target o.initial s.1 :=
      Entry.target_transition (h s hs e he) o.assembled
    rw [Entry.forall_mem_tokens_iff (p := fun _ _ transition =>
      ∃ tokens, o.assembled.tokens (o.assembled.target transition) = .ok tokens), knows_assembled_iff, htarget]
  have htexts : o.assembled.LiteralsHaveText
      ↔ ∀ s ∈ o.states.entries, ∀ e ∈ s.2, ∀ texts, e.literal = some texts → "" ∉ texts := by
    unfold Table.LiteralsHaveText
    rw [forall_lists_iff]
    exact forall₂_congr fun s hs => forall₂_congr fun e he => Entry.forall_text_iff
  constructor
  · intro hcons
    exact ⟨knows_assembled_iff.mp hcons.initial, nonempty_assembled_iff.mp hcons.nonempty,
      htexts.mp hcons.literals, htargets.mp hcons.targets, hloops.mp hcons.loops⟩
  · intro hsound
    exact ⟨knows_assembled_iff.mpr hsound.initial, nonempty_assembled_iff.mpr hsound.nonempty,
      htexts.mpr hsound.texts, hends, hloops.mpr hsound.loops, hactions, htargets.mpr hsound.targets⟩

end Outline

/-! ## Values -/

/-- **The table of a value**: there is one if the value passes the check and what it says fits together. -/
theorem toTable_eq_ok_iff {v : Value} {t : Table} :
    toTable v = .ok t ↔ ∃ o, Outline.check v = .ok o ∧ o.Sound ∧ t = o.assembled := by
  unfold toTable
  cases hcheck : Outline.check v with
  | rejected defects => simp
  | ok o =>
    have hshaped := Outline.wellShaped_of_check hcheck
    have htable : o.table.mapError DocumentError.table = .ok t ↔ o.assembled.validate = .ok t := by
      rw [Outline.table_eq_validate hshaped]
      cases o.assembled.validate <;> simp [Except.mapError]
    simp only [htable, Table.validate_eq_ok_iff_consistent, Outline.consistent_assembled_iff hshaped,
      Checked.ok.injEq, exists_eq_left']

/-- The values that are tables: those off which a document can be read that fits together. -/
def Accepted (v : Value) : Prop := ∃ o, ReadsOutline v o ∧ o.Sound

/-- **Documents are accepted exactly**: a value in JSON is a table if a document can be read off it that fits
together, and otherwise it is refused with an error. The table is valid. -/
theorem toTable_accepts {v : Value} (hv : v.IsJson) :
    ((∃ t, toTable v = .ok t) ↔ Accepted v) ∧ (¬ Accepted v → ∃ e, toTable v = .error e)
      ∧ ∀ t, toTable v = .ok t → t.validate = .ok t := by
  have haccepted : (∃ t, toTable v = .ok t) ↔ Accepted v := by
    simp only [toTable_eq_ok_iff, Outline.check_eq_ok_iff hv]
    constructor
    · rintro ⟨t, o, hread, hsound, -⟩
      exact ⟨o, hread, hsound⟩
    · rintro ⟨o, hread, hsound⟩
      exact ⟨o.assembled, o, hread, hsound, rfl⟩
  refine ⟨haccepted, fun hno => ?_, fun t ht => ?_⟩
  · cases htable : toTable v with
    | error e => exact ⟨e, rfl⟩
    | ok t => exact absurd (haccepted.mp ⟨t, htable⟩) hno
  · obtain ⟨o, hcheck, hsound, rfl⟩ := toTable_eq_ok_iff.mp ht
    have hcons := (Outline.consistent_assembled_iff (Outline.wellShaped_of_check hcheck)).mpr hsound
    exact Table.validate_eq_ok_iff_consistent.mpr ⟨hcons, rfl⟩

/-- A document with a literal of two texts and a call that leads back to the initial state. -/
def moveDocument : Value :=
  .map [(.text "states", .map
    [ (.text "INITIAL", .seq
        [ .map [(.text "end", .bool true)],
          .map [(.text "literal", .text "move"), (.text "goto", .text "MOVE")] ]),
      (.text "MOVE", .seq
        [ .map [(.text "literal", .seq [.text "left", .text "right"]), (.text "capture", .text "direction"),
            (.text "call", .text "cmd_move")] ]) ])]

theorem isJson_moveDocument : moveDocument.IsJson := by
  refine .map (by simp) (by simp) (List.forall_mem_singleton.mpr ?_)
  refine .map (by simp) (by simp) (List.forall_mem_cons.mpr ⟨?_, List.forall_mem_singleton.mpr ?_⟩)
  · refine .seq (List.forall_mem_cons.mpr ⟨?_, List.forall_mem_singleton.mpr ?_⟩)
    · exact .map (by simp) (by simp) (by simpa using .bool true)
    · exact .map (by simp) (by simp) (by simpa using ⟨.text "move", .text "MOVE"⟩)
  · refine .seq (List.forall_mem_singleton.mpr ?_)
    refine .map (by simp) (by simp) ?_
    simpa using ⟨.seq (by simpa using ⟨.text "left", .text "right"⟩), .text "direction", .text "cmd_move"⟩

/-- It is accepted, and its table is valid. -/
theorem toTable_accepts_moveDocument :
    moveDocument.IsJson ∧ Accepted moveDocument
      ∧ ∃ t, toTable moveDocument = .ok t ∧ t.validate = .ok t := by
  obtain ⟨haccepted, -, hvalid⟩ := toTable_accepts isJson_moveDocument
  have hsome : (toTable moveDocument).toOption.isSome = true := by decide +kernel
  cases htable : toTable moveDocument with
  | error e =>
    rw [htable] at hsome
    cases hsome
  | ok t => exact ⟨isJson_moveDocument, haccepted.mp ⟨t, htable⟩, t, rfl, hvalid t htable⟩

end CommandGrammar.Document
