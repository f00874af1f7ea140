import CommandGrammar.Document.Load
import CommandGrammar.Proofs.Checks
import Mathlib.Data.List.Induction

/-!
# The table of a document

A builder adds the tokens of a document one by one and numbers the actions as they come. What it ends up with
can be said at once: every state has the tokens of its entries in their order, and the number of an action is
the place of its name among all names called, each counted where it comes first.

* `Outline.assembled` — the table of a document, without a builder.
* `Entry.addTo_eq` — what adding one entry does.
* `Outline.table_eq_validate` — the builder makes that table, and validates it.
-/

namespace CommandGrammar

/-! ## First occurrences -/

section EraseDups

variable {α : Type} [BEq α] [LawfulBEq α]

theorem eraseDups_concat (as : List α) (a : α) :
    (as ++ [a]).eraseDups = if as.eraseDups.contains a then as.eraseDups else as.eraseDups ++ [a] := by
  rw [List.eraseDups_append]
  by_cases h : a ∈ as
  · simp [List.removeAll, h]
  · simp [List.removeAll, h, List.eraseDups_cons]

/-- What comes later does not change the place of what has come before. -/
theorem idxOf_eraseDups_append {as bs : List α} {a : α} (h : a ∈ as) :
    (as ++ bs).eraseDups.idxOf a = as.eraseDups.idxOf a := by
  rw [List.eraseDups_append]
  exact List.idxOf_append_of_mem (List.mem_eraseDups.mpr h)

theorem nodup_eraseDups (as : List α) : as.eraseDups.Nodup := by
  induction as using List.reverseRecOn with
  | nil => exact List.nodup_nil
  | append_singleton as a ih =>
    rw [eraseDups_concat]
    split
    · exact ih
    · next h =>
      refine List.nodup_append.mpr ⟨ih, by simp, ?_⟩
      rintro b hb c hc rfl
      obtain rfl := List.mem_singleton.mp hc
      exact h (List.contains_iff_mem.mpr hb)

end EraseDups

/-! ## Entries at the end of a map -/

namespace OrderedMap

variable {κ ν : Type} [DecidableEq κ] {m : OrderedMap κ ν} {k : κ} {done : List (κ × ν)} {old : ν}

/-- The value of the last entry is replaced where it is. -/
theorem entries_insert_last (h : m.entries = done ++ [(k, old)]) (v : ν) :
    (m.insert k v).entries = done ++ [(k, v)] := by
  have hk : k ∉ done.map Prod.fst := by
    have hnodup := m.nodup
    rw [h, List.map_append, List.nodup_append] at hnodup
    exact fun hk => hnodup.2.2 k hk k (by simp) rfl
  show setEntry k v m.entries = _
  rw [h]
  clear h
  induction done with
  | nil => simp [setEntry]
  | cons e done ih =>
    have hne : ¬ e.1 = k := fun he => hk (by simp [he])
    rw [List.cons_append, setEntry, if_neg hne, ih fun hm => hk (List.mem_cons_of_mem _ hm)]
    rfl

end OrderedMap

/-! ## Calls and transitions of a builder -/

namespace Builder

/-- A target or a call decides where a token leads; it stays in its state without either. -/
theorem transition_eq (state : StateName) {goto : Option StateName} {call : Option Transition}
    (h : goto = none ∨ call = none) :
    transition state goto call = .ok (call.getD (.goto (goto.getD state))) := by
  cases goto with
  | none => cases call <;> rfl
  | some target =>
    obtain rfl := h.resolve_left (by simp)
    rfl

/-- At the end of a command the initial state takes the place of the own one. -/
theorem transition_end_eq {initial : StateName} (state : StateName) {goto : Option StateName}
    {call : Option Transition} (h : goto = none ∨ call = none) :
    transition state (if goto.isNone && call.isNone then some initial else goto) call
      = .ok (call.getD (.goto (goto.getD initial))) := by
  cases goto with
  | none => cases call <;> rfl
  | some target =>
    obtain rfl := h.resolve_left (by simp)
    rfl

/-- A new state is put last, without tokens. -/
theorem openState_eq {b : Builder} {name : StateName} (h : name ∉ b.states.keys) :
    b.openState name = { b with states := b.states.insert name [] } := by
  unfold openState
  rw [if_neg]
  simpa [OrderedMap.contains] using h

/-- Calling an action numbers it, if its name is new. -/
theorem call_eq {b : Builder} {before : List String} (hb : b.actions = before.eraseDups) (name : String)
    (next : Option StateName) :
    b.call name next
      = ({ b with actions := (before ++ [name]).eraseDups },
          .invoke ((before ++ [name]).eraseDups.idxOf name) next) := by
  unfold call
  rw [eraseDups_concat, hb]

end Builder

namespace Document

/-! ## The tokens of an entry -/

namespace Entry

variable (names : List String) (initial state : StateName) (e : Entry)

/-- The kind of the tokens of an entry. -/
def kind : TokenKind :=
  if e.literal.isSome then .literal else if e.word then .word else if e.string then .string
  else .commandEnd

/-- Where the tokens of an entry lead, when the actions have these names. -/
def transition : Transition :=
  match e.call with
  | some name => .invoke (names.idxOf name) e.next
  | none => .goto (e.goto.getD (if e.kind = .commandEnd then initial else state))

/-- The tokens of an entry: one, or one for each text of a literal. -/
def tokens : List Token :=
  match e.literal with
  | some texts => texts.map fun text => .literal text (e.transition names initial state) e.capture
  | none => [⟨e.kind, none, e.capture, e.transition names initial state⟩]

end Entry

namespace Outline

variable (o : Outline)

/-- All names called in a document, in the order in which they stand there. -/
def calls : List String := o.states.entries.flatMap fun s => s.2.filterMap Entry.call

theorem mem_calls {o : Outline} {s : StateName × List Entry} {e : Entry} {name : String}
    (hs : s ∈ o.states.entries) (he : e ∈ s.2) (hcall : e.call = some name) : name ∈ o.calls :=
  List.mem_flatMap.mpr ⟨s, hs, List.mem_filterMap.mpr ⟨e, he, hcall⟩⟩

/-- The names of the actions, each where it is called first. -/
def actionNames : List String := o.calls.eraseDups

/-- The states with their tokens. -/
def tokenLists : List (StateName × List Token) :=
  o.states.entries.map fun s => (s.1, s.2.flatMap (Entry.tokens o.actionNames o.initial s.1))

theorem map_fst_tokenLists : o.tokenLists.map Prod.fst = o.states.keys := by
  rw [tokenLists, List.map_map]
  rfl

/-- The table of a document. -/
def assembled : Table :=
  { states := ⟨o.tokenLists, o.map_fst_tokenLists ▸ o.states.nodup⟩
    actions := .ofList (o.actionNames.zipIdx.map fun (name, i) => ((i : Int), name))
    initial := o.initial }

end Outline

/-! ## Numbered names -/

section Numbers

variable (names : List String)

theorem map_fst_zipIdx :
    (names.zipIdx.map fun (name, i) => ((i : Int), name)).map Prod.fst
      = (List.range names.length).map Nat.cast := by
  rw [List.range_eq_range', ← List.zipIdx_map_snd 0 names, List.map_map, List.map_map]
  rfl

/-- The numbered names are the entries of the map that they make. -/
theorem entries_ofList_zipIdx :
    (OrderedMap.ofList (names.zipIdx.map fun (name, i) => ((i : Int), name))).entries
      = names.zipIdx.map fun (name, i) => ((i : Int), name) := by
  refine OrderedMap.entries_ofList ?_
  rw [map_fst_zipIdx]
  exact List.pairwise_map.mpr (List.nodup_range.imp fun hne h => hne (Int.ofNat.inj h))

variable {names} in
/-- The number of a name is the place where it comes first. -/
theorem idxOf_mem_zipIdx {name : String} (h : name ∈ names) :
    ((names.idxOf name : Int), name) ∈ names.zipIdx.map fun (name, i) => ((i : Int), name) :=
  List.mem_map.mpr ⟨(name, names.idxOf name),
    List.mk_mem_zipIdx_iff_getElem?.mpr (List.getElem?_idxOf h), rfl⟩

end Numbers

namespace Outline

variable {o : Outline}

theorem keys_actions_assembled :
    o.assembled.actions.keys = (List.range o.actionNames.length).map Nat.cast := by
  rw [← map_fst_zipIdx]
  exact congrArg (List.map Prod.fst) (entries_ofList_zipIdx o.actionNames)

/-- A name that is called is that of the action with its number. -/
theorem actionName_assembled {name : String} (h : name ∈ o.calls) :
    o.assembled.actionName (o.actionNames.idxOf name) = .ok name := by
  rw [Table.actionName_eq_ok_iff, OrderedMap.get?_eq_some_iff]
  have hentries : o.assembled.actions.entries = _ := entries_ofList_zipIdx o.actionNames
  rw [hentries]
  exact idxOf_mem_zipIdx (List.mem_eraseDups.mpr h)

end Outline

/-! ## Adding entries to a builder -/

namespace Entry

variable {e : Entry} {initial state : StateName} {before more : List String}

/-- Names called later change nothing about the tokens of an entry. -/
theorem tokens_append (h : ∀ name ∈ e.call, name ∈ before) :
    e.tokens (before ++ more).eraseDups initial state = e.tokens before.eraseDups initial state := by
  have htransition : e.transition (before ++ more).eraseDups initial state
      = e.transition before.eraseDups initial state := by
    unfold transition
    cases hc : e.call with
    | none => rfl
    | some name => simp only [idxOf_eraseDups_append (h name hc)]
  unfold tokens
  rw [htransition]

/-- What an entry calls, when the actions have these names. -/
def invocation? (e : Entry) (names : List String) : Option Transition :=
  e.call.map fun name => .invoke (names.idxOf name) e.next

theorem transition_eq_getD (names : List String) :
    e.transition names initial state
      = (e.invocation? names).getD (.goto (e.goto.getD (if e.kind = .commandEnd then initial else state))) := by
  unfold transition invocation?
  cases e.call <;> rfl

/-- The action is called before any token is added. -/
theorem addTo_of_names {b : Builder} (hb : b.actions = before.eraseDups) (state : StateName)
    {names : List String} (hnames : names = (before ++ e.call.toList).eraseDups) :
    e.addTo b state =
      match e.literal with
      | some texts => { b with actions := names }.literal state texts e.capture e.goto (e.invocation? names)
      | none =>
        if e.word then { b with actions := names }.word state e.capture e.goto (e.invocation? names)
        else if e.string then { b with actions := names }.string state e.capture e.goto (e.invocation? names)
        else { b with actions := names }.commandEnd state e.goto (e.invocation? names) := by
  rw [hnames]
  unfold addTo invocation?
  cases hc : e.call with
  | none =>
    have hsame : { b with actions := (before ++ (none : Option String).toList).eraseDups } = b := by
      simp [← hb]
    rw [hsame]
    rfl
  | some name =>
    simp only [Builder.call_eq hb]
    rfl

/-- **Adding an entry puts its tokens behind those of the state** and numbers its action, if that is new. -/
theorem addTo_eq (h : e.WellShaped) {b : Builder} (hb : b.actions = before.eraseDups) (state : StateName) :
    e.addTo b state
      = .ok { b.append state (e.tokens (before ++ e.call.toList).eraseDups b.initial state) with
          actions := (before ++ e.call.toList).eraseDups } := by
  generalize hnames : (before ++ e.call.toList).eraseDups = names
  have htarget : e.goto = none ∨ e.invocation? names = none := by
    rw [invocation?, Option.map_eq_none_iff]
    exact h.target
  rw [addTo_of_names hb state hnames.symm]
  unfold tokens
  rw [transition_eq_getD]
  cases hliteral : e.literal with
  | some texts =>
    have hkind : e.kind = .literal := by simp [kind, hliteral]
    simp only [Builder.literal, Builder.transition_eq state htarget, hkind]
    rfl
  | none =>
    by_cases hword : e.word = true
    · have hkind : e.kind = .word := by simp [kind, hliteral, hword]
      simp only [hword, if_true, Builder.word, Builder.transition_eq state htarget, hkind]
      rfl
    by_cases hstring : e.string = true
    · have hkind : e.kind = .string := by simp [kind, hliteral, hword, hstring]
      simp only [hword, hstring, if_true, Builder.string, Builder.transition_eq state htarget, hkind]
      rfl
    -- What is left ends a command, holds nothing, and leads to the initial state unless told otherwise.
    have hkind : e.kind = .commandEnd := by simp [kind, hliteral, hword, hstring]
    have hcapture : e.capture = none := by
      refine h.ends ?_
      have hone := h.kind
      simpa [kindCount, hliteral, hword, hstring] using hone
    simp only [hword, hstring, Bool.false_eq_true, if_false, Builder.commandEnd,
      Builder.transition_end_eq state htarget, hkind, hcapture]
    rfl

end Entry

/-! ## Adding states to a builder -/

variable {b : Builder} {before : List String}

/-- Adding entries puts their tokens behind those of the last state. -/
theorem exists_foldlM_addTo {es : List Entry} (hes : ∀ e ∈ es, e.WellShaped) {state : StateName}
    {done : List (StateName × List Token)} {tokens : List Token} (hb : b.actions = before.eraseDups)
    (hstates : b.states.entries = done ++ [(state, tokens)]) :
    ∃ b', es.foldlM (fun b e => e.addTo b state) b = .ok b' ∧ b'.initial = b.initial
      ∧ b'.actions = (before ++ es.filterMap Entry.call).eraseDups
      ∧ b'.states.entries
        = done ++ [(state, tokens ++ es.flatMap (Entry.tokens b'.actions b.initial state))] := by
  induction es generalizing b before tokens with
  | nil => exact ⟨b, rfl, rfl, by simpa using hb, by simpa using hstates⟩
  | cons e es ih =>
    have hget : b.states.get? state = some tokens := by
      rw [OrderedMap.get?_eq_some_iff, hstates]
      simp
    obtain ⟨next, hnext⟩ : ∃ next : Builder, next =
        { b.append state (e.tokens (before ++ e.call.toList).eraseDups b.initial state) with
          actions := (before ++ e.call.toList).eraseDups } := ⟨_, rfl⟩
    have hadd : e.addTo b state = .ok next := by
      rw [hnext]
      exact Entry.addTo_eq (hes e List.mem_cons_self) hb state
    have hlast : next.states.entries
        = done ++ [(state, tokens ++ e.tokens (before ++ e.call.toList).eraseDups b.initial state)] := by
      rw [hnext]
      show (b.states.insert state ((b.states.get? state).getD [] ++ _)).entries = _
      rw [OrderedMap.entries_insert_last hstates, hget]
      rfl
    have hactions : next.actions = (before ++ e.call.toList).eraseDups := by rw [hnext]
    have hinitial : next.initial = b.initial := by
      rw [hnext]
      rfl
    obtain ⟨b', hb', hinitial', hactions', hentries⟩ :=
      ih (fun e' he' => hes e' (List.mem_cons_of_mem e he')) hactions hlast
    have hcalls : before ++ e.call.toList ++ es.filterMap Entry.call = before ++ (e :: es).filterMap Entry.call := by
      cases hc : e.call <;> simp [hc]
    rw [hcalls] at hactions'
    refine ⟨b', ?_, hinitial'.trans hinitial, hactions', ?_⟩
    · rw [List.foldlM_cons, hadd]
      exact hb'
    · -- What is called later does not change the tokens just added.
      have hsame : e.tokens b'.actions b.initial state
          = e.tokens (before ++ e.call.toList).eraseDups b.initial state := by
        rw [hactions', ← hcalls]
        exact Entry.tokens_append fun name hname => by simp [Option.mem_def.mp hname]
      rw [hentries, hinitial, List.flatMap_cons, hsame, List.append_assoc]

/-- Adding states puts them behind those that the builder has, with the tokens of their entries. -/
theorem exists_foldlM_addState {states : List (StateName × List Entry)}
    (hes : ∀ s ∈ states, ∀ e ∈ s.2, e.WellShaped) (hb : b.actions = before.eraseDups)
    (hnodup : (b.states.keys ++ states.map Prod.fst).Nodup) :
    ∃ b', states.foldlM Outline.addState b = .ok b' ∧ b'.initial = b.initial
      ∧ b'.actions = (before ++ states.flatMap fun s => s.2.filterMap Entry.call).eraseDups
      ∧ b'.states.entries
        = b.states.entries
          ++ states.map fun s => (s.1, s.2.flatMap (Entry.tokens b'.actions b.initial s.1)) := by
  induction states generalizing b before with
  | nil => exact ⟨b, rfl, rfl, by simpa using hb, by simp⟩
  | cons s states ih =>
    have hsplit := List.nodup_append.mp hnodup
    have hnew : s.1 ∉ b.states.keys := fun hk => hsplit.2.2 s.1 hk s.1 (by simp) rfl
    obtain ⟨next, hnext, hinitial, hactions, hentries⟩ := exists_foldlM_addTo
      (b := { b with states := b.states.insert s.1 [] }) (hes s List.mem_cons_self) hb
      (OrderedMap.entries_insert_of_not_mem hnew [])
    have hkeys : next.states.keys = b.states.keys ++ [s.1] := by
      unfold OrderedMap.keys
      rw [hentries, List.map_append]
      rfl
    obtain ⟨b', hb', hinitial', hactions', hentries'⟩ := ih
      (fun s' hs' => hes s' (List.mem_cons_of_mem s hs')) hactions (by rw [hkeys]; simpa using hnodup)
    rw [List.append_assoc] at hactions'
    refine ⟨b', ?_, hinitial'.trans hinitial, hactions', ?_⟩
    · rw [List.foldlM_cons, Outline.addState, Builder.openState_eq hnew, hnext]
      exact hb'
    · -- What is called in later states does not change the tokens of this one.
      have hsame : s.2.flatMap (Entry.tokens next.actions b.initial s.1)
          = s.2.flatMap (Entry.tokens b'.actions b.initial s.1) := by
        refine List.flatMap_congr fun e he => ?_
        rw [hactions, hactions', ← List.append_assoc]
        refine (Entry.tokens_append fun name hname => ?_).symm
        exact List.mem_append_right _ (List.mem_filterMap.mpr ⟨e, he, hname⟩)
      rw [hentries', hentries, hinitial, List.append_assoc, List.nil_append, hsame]
      rfl

/-- The builder of a document holds the assembled table. -/
theorem Outline.table_eq_validate {o : Outline} (h : ∀ s ∈ o.states.entries, ∀ e ∈ s.2, e.WellShaped) :
    o.table = o.assembled.validate := by
  have hnil : ({ initial := o.initial } : Builder).actions = ([] : List String).eraseDups := rfl
  obtain ⟨b, hb, hinitial, hactions, hentries⟩ := exists_foldlM_addState h hnil
    (by simpa [OrderedMap.keys, OrderedMap.empty] using o.states.nodup)
  rw [List.nil_append] at hactions
  have hnames : b.actions = o.actionNames := hactions
  have hstates : b.states = o.assembled.states := by
    refine OrderedMap.ext ?_
    rw [hentries, hnames]
    rfl
  have htable : b.table = o.assembled := by
    unfold Builder.table
    rw [hstates, hnames, hinitial]
    rfl
  unfold Outline.table Outline.builder
  rw [hb, ← htable]
  rfl

end Document

end CommandGrammar
