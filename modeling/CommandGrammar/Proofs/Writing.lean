import CommandGrammar.Proofs.Acceptance
import Mathlib.Data.List.Nodup

/-!
# Tables written as documents

A table can be written as a document with one entry for each token: its kind, what it captures, and where it
goes or which action it calls. The numbers of the actions are not written down, so only a table whose actions
are numbered in the order of their first use comes back as it was; every table of a document without empty
literals is of that kind.

* `Table.toDocument` — the document of a table.
* `Table.Writable` — what a table needs so that the document says everything about it.
* `Table.readsOutline_toDocument` — what is read off that document.
* `Table.toTable_toDocument_of_writable` — a valid table that is writable comes back as it was.
* `Document.Outline.writable_assembled` — the tables of documents without empty literals are writable.
* `Document.toTable_toDocument` — both together: to write such a table and to read it again changes nothing.
-/

namespace CommandGrammar

open Document

/-! ## First occurrences -/

section EraseDups

variable {α β : Type} [BEq α] [LawfulBEq α] [BEq β] [LawfulBEq β]

/-- Where different members have different images, first occurrences are mapped to first occurrences. -/
theorem eraseDups_map {f : α → β} {as : List α} (h : ∀ a ∈ as, ∀ b ∈ as, f a = f b → a = b) :
    (as.map f).eraseDups = as.eraseDups.map f := by
  induction as using List.reverseRecOn with
  | nil => rfl
  | append_singleton as a ih =>
    have hcontains : (as.eraseDups.map f).contains (f a) = as.eraseDups.contains a := by
      rw [Bool.eq_iff_iff, List.contains_iff_mem, List.contains_iff_mem, List.mem_map]
      constructor
      · rintro ⟨b, hb, hf⟩
        have hmem : b ∈ as := List.mem_eraseDups.mp hb
        rwa [← h b (by simp [hmem]) a (by simp) hf]
      · exact fun ha => ⟨a, ha, rfl⟩
    rw [List.map_append, List.map_singleton, eraseDups_concat, eraseDups_concat,
      ih fun a ha b hb => h a (by simp [ha]) b (by simp [hb]), hcontains]
    split
    · rfl
    · rw [List.map_append, List.map_singleton]

/-- Of equal members only the first is kept. -/
theorem eraseDups_eq_singleton {as : List α} {a : α} (hne : as ≠ []) (h : ∀ b ∈ as, b = a) :
    as.eraseDups = [a] := by
  obtain ⟨b, bs, rfl⟩ := List.exists_cons_of_ne_nil hne
  obtain rfl := h b List.mem_cons_self
  have hnone : bs.filter (fun c => !c == b) = [] :=
    List.filter_eq_nil_iff.mpr fun c hc => by simp [h c (List.mem_cons_of_mem b hc)]
  rw [List.eraseDups_cons, hnone]
  rfl

theorem eraseDups_filter (p : α → Bool) (as : List α) : (as.filter p).eraseDups = as.eraseDups.filter p := by
  induction as using List.reverseRecOn with
  | nil => rfl
  | append_singleton as a ih =>
    rw [List.filter_append, eraseDups_concat]
    by_cases ha : p a = true
    · have hcontains : (as.eraseDups.filter p).contains a = as.eraseDups.contains a := by
        rw [Bool.eq_iff_iff, List.contains_iff_mem, List.contains_iff_mem, List.mem_filter]
        exact and_iff_left ha
      have hone : [a].filter p = [a] := by simp [ha]
      rw [hone, eraseDups_concat, ih, hcontains]
      split
      · rfl
      · rw [List.filter_append, hone]
    · have hnone : [a].filter p = [] := by simp [ha]
      rw [hnone, List.append_nil, ih]
      split
      · rfl
      · rw [List.filter_append, hnone, List.append_nil]

/-- The first occurrences in two lists one behind the other follow from those in each. -/
theorem eraseDups_append_congr {as as' bs bs' : List α} (ha : as.eraseDups = as'.eraseDups)
    (hb : bs.eraseDups = bs'.eraseDups) : (as ++ bs).eraseDups = (as' ++ bs').eraseDups := by
  have hmem : ∀ x, as.elem x = as'.elem x := by
    intro x
    rw [Bool.eq_iff_iff, List.elem_iff, List.elem_iff, ← List.mem_eraseDups, ha, List.mem_eraseDups]
  rw [List.eraseDups_append, List.eraseDups_append, ha, List.removeAll, List.removeAll, eraseDups_filter,
    eraseDups_filter, hb]
  simp only [hmem]

theorem eraseDups_flatMap_congr {γ : Type} {f g : γ → List α} {xs : List γ}
    (h : ∀ x ∈ xs, (f x).eraseDups = (g x).eraseDups) :
    (xs.flatMap f).eraseDups = (xs.flatMap g).eraseDups := by
  induction xs with
  | nil => rfl
  | cons x xs ih =>
    rw [List.flatMap_cons, List.flatMap_cons]
    exact eraseDups_append_congr (h x List.mem_cons_self) (ih fun y hy => h y (List.mem_cons_of_mem x hy))

end EraseDups

/-! ## Objects with fields left out -/

namespace Document

/-- The fields of an object; those without a value are left out. -/
def Value.present (fields : List (String × Option Value)) : List (Scalar × Value) :=
  fields.filterMap fun f => f.2.map (Prod.mk (.text f.1))

section Present

variable {fields : List (String × Option Value)} {name : String} {v? : Option Value}

theorem mem_present_iff {e : Scalar × Value} :
    e ∈ Value.present fields ↔ ∃ name, (name, some e.2) ∈ fields ∧ e.1 = .text name := by
  obtain ⟨key, v⟩ := e
  simp only [Value.present, List.mem_filterMap, Option.map_eq_some_iff, Prod.exists, Prod.mk.injEq]
  constructor
  · rintro ⟨name, _, hm, w, rfl, rfl, rfl⟩
    exact ⟨name, hm, rfl⟩
  · rintro ⟨name, hm, rfl⟩
    exact ⟨name, some v, hm, v, rfl, rfl, rfl⟩

/-- The fields of an object that is written down are names. -/
theorem exists_name_of_mem_present {e : Scalar × Value} (he : e ∈ Value.present fields) :
    ∃ name ∈ fields.map Prod.fst, e.1 = .text name := by
  obtain ⟨name, hm, hkey⟩ := mem_present_iff.mp he
  exact ⟨name, List.mem_map_of_mem hm, hkey⟩

theorem nodup_present (hnodup : (fields.map Prod.fst).Nodup) :
    ((Value.present fields).map Prod.fst).Nodup := by
  have hsub : ((Value.present fields).map Prod.fst).Sublist ((fields.map Prod.fst).map .text) := by
    clear hnodup
    induction fields with
    | nil => exact .slnil
    | cons f fields ih =>
      obtain ⟨name, v?⟩ := f
      cases v? with
      | none => exact ih.cons _
      | some v => exact ih.cons_cons _
  exact hsub.nodup (hnodup.map fun _ _ => Scalar.text.inj)

/-- **What is read in a field is what was written there**, if the fields have different names. -/
theorem field?_present (hnodup : (fields.map Prod.fst).Nodup) (hm : (name, v?) ∈ fields) :
    Value.field? (Value.present fields) name = v? := by
  have hread : ∀ v, Value.field? (Value.present fields) name = some v ↔ (name, some v) ∈ fields := by
    intro v
    refine (OrderedMap.get?_eq_some_iff (m := ⟨Value.present fields, nodup_present hnodup⟩)).trans ?_
    rw [mem_present_iff]
    constructor
    · rintro ⟨_, hm, hkey⟩
      obtain rfl := Scalar.text.inj hkey
      exact hm
    · exact fun hm => ⟨name, hm, rfl⟩
  cases v? with
  | some v => exact (hread v).mpr hm
  | none =>
    refine Option.eq_none_iff_forall_ne_some.mpr fun v h => ?_
    cases List.inj_on_of_nodup_map hnodup hm ((hread v).mp h) rfl

/-- An object is one in JSON if its fields have different names and their values are. -/
theorem isJson_present (hnodup : (fields.map Prod.fst).Nodup)
    (h : ∀ f ∈ fields, ∀ v ∈ f.2, v.IsJson) : (Value.map (Value.present fields)).IsJson := by
  refine .map (fun e he => ?_) (nodup_present hnodup) fun e he => ?_
  · obtain ⟨name, -, hkey⟩ := mem_present_iff.mp he
    exact ⟨name, hkey⟩
  · obtain ⟨name, hm, -⟩ := mem_present_iff.mp he
    exact h (name, some e.2) hm e.2 rfl

end Present

theorem readsText?_map (o : Option String) : ReadsText? (o.map .text) o := by
  cases o with
  | none => exact .absent
  | some s => exact .text s

theorem readsFlag_ite (p : Prop) [Decidable p] :
    ReadsFlag (if p then some (.bool true) else none) (decide p) := by
  by_cases hp : p
  · simpa [hp] using ReadsFlag.bool true
  · simpa [hp] using ReadsFlag.absent

theorem readsKeywords_ite (p : Prop) [Decidable p] (text : String) :
    ReadsKeywords (if p then some (.text text) else none) (if p then some [text] else none) := by
  by_cases hp : p
  · simpa [hp] using ReadsKeywords.one text
  · simpa [hp] using ReadsKeywords.absent

end Document

/-! ## Writing -/

namespace Transition

/-- The state to which a transition goes without an action. -/
def goto? : Transition → Option StateName
  | .goto state => some state
  | .invoke .. => none

/-- The state to which a transition goes behind its action, if it tells. -/
def next? : Transition → Option StateName
  | .invoke _ next => next
  | .goto _ => none

end Transition

namespace Table

variable (t : Table)

/-- The actions that are called, token by token and state by state. -/
def invoked : List ActionId := t.states.entries.flatMap fun s => s.2.filterMap Token.action?

/-- What a table needs so that its document says everything about it. -/
structure Writable : Prop where
  /-- Only literals have a text. -/
  texts : ∀ state token, t.Lists state token → token.kind ≠ .literal → token.text = none
  /-- The actions are numbered from zero on. -/
  numbers : t.actions.keys = (List.range t.actions.size).map Nat.cast
  /-- They have different names. -/
  names : t.actions.values.Nodup
  /-- They stand in the order of their first use, and all are used. -/
  uses : t.invoked.eraseDups = t.actions.keys

/-- The name of an action, or no name. -/
def nameOf (action : ActionId) : String := (t.actions.get? action).getD ""

/-- The fields of a token: its kind, what it captures, and where it leads. -/
def fields (token : Token) : List (String × Option Value) :=
  [ ("literal", if token.kind = .literal then some (.text (token.text.getD "")) else none),
    ("word", if token.kind = .word then some (.bool true) else none),
    ("string", if token.kind = .string then some (.bool true) else none),
    ("end", if token.kind = .commandEnd then some (.bool true) else none),
    ("capture", token.capture.map .text),
    ("goto", token.transition.goto?.map .text),
    ("call", (token.action?.map t.nameOf).map .text),
    ("then", token.transition.next?.map .text) ]

/-- A token as an entry of a document. -/
def tokenToValue (token : Token) : Value := .map (Value.present (t.fields token))

/-- A table as a document. -/
def toDocument : Value :=
  .map
    [ (.text "initial", .text t.initial),
      (.text "states", .map (t.states.entries.map fun s => (.text s.1, .seq (s.2.map t.tokenToValue)))) ]

/-! ## Reading what is written -/

/-- The entry that is read off a token. -/
def toEntry (token : Token) : Entry :=
  { literal := if token.kind = .literal then some [token.text.getD ""] else none
    word := token.kind = .word
    string := token.kind = .string
    commandEnd := token.kind = .commandEnd
    capture := token.capture
    goto := token.transition.goto?
    call := token.action?.map t.nameOf
    next := token.transition.next? }

/-- The document that is read off a table. -/
def outline : Outline :=
  { initial := t.initial
    states := ⟨t.states.entries.map fun s => (s.1, s.2.map t.toEntry), by
      rw [List.map_map]
      exact t.states.nodup⟩ }

variable {t}

theorem nodup_fields (token : Token) : ((t.fields token).map Prod.fst).Nodup :=
  (by decide : Entry.fieldNames.Nodup)

theorem isJson_tokenToValue (token : Token) : (t.tokenToValue token).IsJson := by
  have hkind : ∀ (p : Prop) [Decidable p] {w : Value}, w.IsJson → ∀ v ∈ if p then some w else none, v.IsJson := by
    intro p _ w hw v hv
    obtain ⟨-, heq⟩ := Option.ite_none_right_eq_some.mp hv
    exact Option.some.inj heq ▸ hw
  have htext : ∀ o : Option String, ∀ v ∈ o.map Value.text, v.IsJson := by
    intro o v hv
    obtain ⟨text, -, rfl⟩ := Option.map_eq_some_iff.mp hv
    exact .text text
  refine isJson_present (nodup_fields token) ?_
  simp only [fields, List.forall_mem_cons]
  exact ⟨hkind _ (.text _), hkind _ (.bool true), hkind _ (.bool true), hkind _ (.bool true), htext _, htext _,
    htext _, htext _, nofun⟩

/-- The entry of a token is in good shape, if the end of a command captures nothing. -/
theorem wellShaped_toEntry {token : Token} (h : token.kind = .commandEnd → token.capture = none) :
    (t.toEntry token).WellShaped where
  kind := by
    unfold toEntry Entry.kindCount
    cases token.kind <;> rfl
  target := by
    unfold toEntry Token.action? Transition.action? Transition.goto?
    cases token.transition <;> simp
  next := by
    unfold toEntry Token.action? Transition.action? Transition.next?
    cases token.transition <;> simp
  ends hend := h (of_decide_eq_true hend)

/-- **What is written for a token is read as its entry.** -/
theorem readsEntry_tokenToValue {token : Token} (h : token.kind = .commandEnd → token.capture = none) :
    ReadsEntry (t.tokenToValue token) (t.toEntry token) := by
  have hfields : ∀ f ∈ t.fields token, Value.field? (Value.present (t.fields token)) f.1 = f.2 :=
    fun f hf => field?_present (nodup_fields token) hf
  have hknown : ∀ f ∈ Value.present (t.fields token), ∃ name ∈ Entry.fieldNames, f.1 = .text name :=
    fun f hf => exists_name_of_mem_present hf
  generalize hpresent : Value.present (t.fields token) = present at hfields hknown
  simp only [fields, List.forall_mem_cons] at hfields
  obtain ⟨hliteral, hword, hstring, hend, hcapture, hgoto, hcall, hthen, -⟩ := hfields
  rw [tokenToValue, hpresent]
  exact .intro hknown (hliteral ▸ readsKeywords_ite _ _) (hword ▸ readsFlag_ite _) (hstring ▸ readsFlag_ite _)
    (hend ▸ readsFlag_ite _) (hcapture ▸ readsText?_map _) (hgoto ▸ readsText?_map _)
    (hcall ▸ readsText?_map _) (hthen ▸ readsText?_map _) (wellShaped_toEntry h)

theorem isJson_toDocument : t.toDocument.IsJson := by
  have hstates : (Value.map (t.states.entries.map fun s =>
      (.text s.1, .seq (s.2.map t.tokenToValue)))).IsJson := by
    refine .map ?_ ?_ ?_
    · rintro f hf
      obtain ⟨s, -, rfl⟩ := List.mem_map.mp hf
      exact ⟨s.1, rfl⟩
    · have hnames : (t.states.keys.map Scalar.text).Nodup := t.states.nodup.map fun _ _ => Scalar.text.inj
      rw [OrderedMap.keys, List.map_map] at hnames
      rwa [List.map_map]
    · rintro f hf
      obtain ⟨s, -, rfl⟩ := List.mem_map.mp hf
      refine .seq fun v hv => ?_
      obtain ⟨token, -, rfl⟩ := List.mem_map.mp hv
      exact isJson_tokenToValue token
  refine .map (by simp) (by simp) ?_
  simpa using ⟨.text t.initial, hstates⟩

/-- **What is written for a table is read as its outline.** -/
theorem readsOutline_toDocument
    (h : ∀ state token, t.Lists state token → token.kind = .commandEnd → token.capture = none) :
    ReadsOutline t.toDocument t.outline := by
  have hstates : List.Forall₂ ReadsState
      (t.states.entries.map fun s => (.text s.1, .seq (s.2.map t.tokenToValue))) t.outline.states.entries := by
    show List.Forall₂ _ _ (t.states.entries.map fun s => (s.1, s.2.map t.toEntry))
    rw [List.forall₂_map_left_iff, List.forall₂_map_right_iff, List.forall₂_same]
    intro s hs
    refine .intro ?_
    rw [List.forall₂_map_left_iff, List.forall₂_map_right_iff, List.forall₂_same]
    intro token hm
    exact readsEntry_tokenToValue (h s.1 token (lists_iff.mpr ⟨s, hs, rfl, hm⟩))
  exact .intro (by simp [Outline.fieldNames]) (.text t.initial) rfl hstates

/-! ## Assembling what is read -/

section Assembling

variable {names : List String} {initial state : StateName} {token : Token}

/-- The entry of a token leads where the token does, if the places of the names are the numbers. -/
theorem transition_toEntry
    (hnumber : ∀ action ∈ token.action?, (names.idxOf (t.nameOf action) : Int) = action) :
    (t.toEntry token).transition names initial state = token.transition := by
  unfold Entry.transition toEntry
  unfold Token.action? Transition.action? at hnumber ⊢
  cases htransition : token.transition with
  | goto target => rfl
  | invoke action next =>
    rw [htransition] at hnumber
    simp [hnumber action rfl, Transition.next?]

/-- A token is all that comes of its entry. -/
theorem tokens_toEntry (hliteral : token.kind = .literal → token.text ≠ none)
    (htext : token.kind ≠ .literal → token.text = none)
    (hnumber : ∀ action ∈ token.action?, (names.idxOf (t.nameOf action) : Int) = action) :
    (t.toEntry token).tokens names initial state = [token] := by
  unfold Entry.tokens
  rw [transition_toEntry hnumber]
  obtain ⟨kind, text, capture, transition⟩ := token
  cases kind with
  | literal =>
    obtain ⟨text, rfl⟩ := Option.ne_none_iff_exists'.mp (hliteral rfl)
    rfl
  | word | string | commandEnd =>
    obtain rfl : text = none := htext (by simp)
    rfl

/-- The names called are those of the actions invoked. -/
theorem calls_outline : t.outline.calls = t.invoked.map t.nameOf := by
  have hcalls : ∀ tokens : List Token,
      (tokens.map t.toEntry).filterMap Entry.call = (tokens.filterMap Token.action?).map t.nameOf := by
    intro tokens
    rw [List.filterMap_map, List.map_filterMap]
    rfl
  show (t.states.entries.map fun s => (s.1, s.2.map t.toEntry)).flatMap (fun s => s.2.filterMap Entry.call) = _
  rw [List.flatMap_map, invoked, List.map_flatMap]
  simp only [hcalls]

end Assembling

namespace Writable

variable (h : t.Writable)
include h

/-- The numbered names are all that there is to the actions. -/
theorem entries_actions : t.actions.entries = t.actions.values.zipIdx.map fun (name, i) => ((i : Int), name) := by
  have hkeys : t.actions.entries.map Prod.fst = (List.range t.actions.values.length).map Nat.cast := by
    rw [OrderedMap.values, List.length_map]
    exact h.numbers
  have hvalues : (t.actions.values.zipIdx.map fun (name, i) => ((i : Int), name)).map Prod.snd
      = t.actions.values := by
    rw [List.map_map]
    exact List.zipIdx_map_fst 0 _
  exact (List.zip_of_prod hkeys rfl).trans (List.zip_of_prod (map_fst_zipIdx _) hvalues).symm

/-- The name of an action stands in the place that is its number. -/
theorem idxOf_nameOf {action : ActionId} (hm : action ∈ t.actions.keys) :
    (t.actions.values.idxOf (t.nameOf action) : Int) = action := by
  obtain ⟨⟨_, name⟩, he, rfl⟩ := List.mem_map.mp hm
  have hget := OrderedMap.get?_eq_some_iff.mpr he
  rw [h.entries_actions] at he
  obtain ⟨⟨name', i⟩, hi, heq⟩ := List.mem_map.mp he
  obtain ⟨rfl, rfl⟩ := Prod.mk.inj heq
  obtain ⟨hlt, hname⟩ := List.getElem?_eq_some_iff.mp (List.mk_mem_zipIdx_iff_getElem?.mp hi)
  rw [nameOf, hget, Option.getD_some, ← hname, h.names.idxOf_getElem i hlt]

/-- The names of the actions in the document are those in the table, in the same order. -/
theorem actionNames_outline : t.outline.actionNames = t.actions.values := by
  have hknown : ∀ action ∈ t.invoked, action ∈ t.actions.keys := by
    intro action hm
    rw [← h.uses]
    exact List.mem_eraseDups.mpr hm
  rw [Outline.actionNames, calls_outline, eraseDups_map, h.uses]
  · rw [OrderedMap.keys, List.map_map]
    refine List.map_congr_left fun e he => ?_
    have hget : t.actions.get? e.1 = some e.2 := OrderedMap.get?_eq_some_iff.mpr he
    simp [nameOf, hget]
  · intro a ha b hb hname
    rw [← h.idxOf_nameOf (hknown a ha), ← h.idxOf_nameOf (hknown b hb), hname]

/-- **The table of a document written for a table is that table.** -/
theorem assembled_outline (hcons : t.Consistent) : t.outline.assembled = t := by
  have htokens : ∀ s ∈ t.states.entries,
      (s.2.map t.toEntry).flatMap (Entry.tokens t.actions.values t.initial s.1) = s.2 := by
    intro s hs
    have hsingle : ∀ token ∈ s.2,
        (t.toEntry token).tokens t.actions.values t.initial s.1 = [token] := by
      intro token hm
      have hlist : t.Lists s.1 token := lists_iff.mpr ⟨s, hs, rfl, hm⟩
      refine tokens_toEntry (fun hk hnone => ?_) (h.texts _ _ hlist) fun action haction => h.idxOf_nameOf ?_
      · exact hcons.literals _ _ hlist hk (by rw [hnone]; rfl)
      · rw [← h.uses, List.mem_eraseDups]
        exact List.mem_flatMap.mpr ⟨s, hs, List.mem_filterMap.mpr ⟨token, hm, haction⟩⟩
    rw [List.flatMap_map, List.flatMap_congr hsingle]
    simp
  have hstates : t.outline.assembled.states = t.states := by
    refine OrderedMap.ext ?_
    show t.outline.tokenLists = t.states.entries
    unfold Outline.tokenLists
    rw [h.actionNames_outline]
    show (t.states.entries.map fun s => (s.1, s.2.map t.toEntry)).map _ = _
    rw [List.map_map]
    refine (List.map_congr_left fun s hs => ?_).trans (List.map_id _)
    exact congrArg (Prod.mk s.1) (htokens s hs)
  have hactions : t.outline.assembled.actions = t.actions := by
    refine OrderedMap.ext ?_
    show (OrderedMap.ofList _).entries = _
    rw [entries_ofList_zipIdx, h.actionNames_outline]
    exact h.entries_actions.symm
  obtain ⟨states, actions, initial⟩ := t
  exact congrArg₂ (fun s a => Table.mk s a initial) hstates hactions

end Writable

/-! ## Whole tables -/

/-- A valid table that is writable comes back from its document as it was. -/
theorem toTable_toDocument_of_writable (hvalid : t.validate = .ok t) (h : t.Writable) :
    toTable t.toDocument = .ok t := by
  have hcons := consistent_of_validate hvalid
  have hcheck := (Outline.check_eq_ok_iff isJson_toDocument).mpr (readsOutline_toDocument hcons.ends)
  have hassembled := h.assembled_outline hcons
  have hsound := (Outline.consistent_assembled_iff (Outline.wellShaped_of_check hcheck)).mp
    (hassembled.symm ▸ hcons)
  exact toTable_eq_ok_iff.mpr ⟨t.outline, hcheck, hsound, hassembled.symm⟩

end Table

/-- The document of the window language says everything about it. -/
theorem Window.writable_grammar : Window.grammar.Writable where
  texts := by
    have htexts : ∀ entry ∈ Window.grammar.states.entries, ∀ token ∈ entry.2, token.kind ≠ .literal →
        token.text = none := by
      decide +kernel
    intro state token hlist
    obtain ⟨entry, he, -, hm⟩ := Table.lists_iff.mp hlist
    exact htexts entry he token hm
  numbers := by decide +kernel
  names := by decide +kernel
  uses := by decide +kernel

/-! ## The tables of documents -/

namespace Document

/-- The tokens of an entry invoke the action that it calls, once or several times. -/
theorem Entry.eraseDups_invoked {e : Entry} {names : List String} {initial state : StateName}
    (h : e.literal ≠ some []) :
    ((e.tokens names initial state).filterMap Token.action?).eraseDups
      = (e.call.map fun name => (names.idxOf name : Int)).toList.eraseDups := by
  have haction : ∀ token ∈ e.tokens names initial state,
      token.action? = e.call.map fun name => (names.idxOf name : Int) := by
    refine (Entry.forall_mem_tokens_iff (p := fun _ _ transition =>
      transition.action? = e.call.map fun name => (names.idxOf name : Int))).mpr fun _ => ?_
    unfold Entry.transition
    cases e.call <;> rfl
  cases hcall : e.call with
  | none =>
    have hnil : (e.tokens names initial state).filterMap Token.action? = [] := by
      rw [List.filterMap_eq_nil_iff]
      intro token hm
      rw [haction token hm, hcall]
      rfl
    rw [hnil]
    rfl
  | some name =>
    simp only [hcall, Option.map_some] at haction
    refine (eraseDups_eq_singleton (a := (names.idxOf name : Int)) ?_ ?_).trans rfl
    · have hne : e.tokens names initial state ≠ [] := mt Entry.tokens_eq_nil_iff.mp h
      obtain ⟨token, hm⟩ := List.exists_mem_of_ne_nil _ hne
      exact List.ne_nil_of_mem (List.mem_filterMap.mpr ⟨token, hm, haction token hm⟩)
    · intro b hb
      obtain ⟨token, hm, hb⟩ := List.mem_filterMap.mp hb
      exact Option.some.inj (hb.symm.trans (haction token hm))

/-- The places of different names are the numbers from zero on. -/
theorem map_idxOf {names : List String} (h : names.Nodup) :
    names.map (fun name => (names.idxOf name : Int)) = (List.range names.length).map Nat.cast := by
  refine List.ext_getElem (by simp) fun i hi hi' => ?_
  simp only [List.getElem_map, List.getElem_range]
  rw [h.idxOf_getElem i]

namespace Outline

variable {o : Outline}

theorem values_actions_assembled : o.assembled.actions.values = o.actionNames := by
  show (OrderedMap.ofList _).entries.map Prod.snd = _
  rw [entries_ofList_zipIdx, List.map_map]
  exact List.zipIdx_map_fst 0 _

/-- Up to repetitions the actions invoked by the table are the names called in the document, as numbers. -/
theorem eraseDups_invoked_assembled (h : ∀ s ∈ o.states.entries, ∀ e ∈ s.2, e.literal ≠ some []) :
    o.assembled.invoked.eraseDups
      = (o.calls.map fun name => (o.actionNames.idxOf name : Int)).eraseDups := by
  have hcalls : ∀ es : List Entry,
      (es.filterMap Entry.call).map (fun name => (o.actionNames.idxOf name : Int))
        = es.flatMap fun e => (e.call.map fun name => (o.actionNames.idxOf name : Int)).toList := by
    intro es
    induction es with
    | nil => rfl
    | cons e es ih => cases hcall : e.call <;> simp [hcall, ih]
  show (o.tokenLists.flatMap fun s => s.2.filterMap Token.action?).eraseDups = _
  rw [tokenLists, List.flatMap_map, calls, List.map_flatMap]
  refine eraseDups_flatMap_congr fun s hs => ?_
  rw [List.filterMap_flatMap, hcalls]
  exact eraseDups_flatMap_congr fun e he => Entry.eraseDups_invoked (h s hs e he)

/-- **The tables of documents without empty literals are writable.** -/
theorem writable_assembled (h : ∀ s ∈ o.states.entries, ∀ e ∈ s.2, e.literal ≠ some []) :
    o.assembled.Writable where
  texts := by
    refine forall_lists_iff.mpr fun s _ e _ token hm hk => ?_
    unfold Entry.tokens at hm
    cases hliteral : e.literal with
    | none =>
      simp only [hliteral] at hm
      obtain rfl := List.mem_singleton.mp hm
      rfl
    | some texts =>
      simp only [hliteral] at hm
      obtain ⟨text, -, rfl⟩ := List.mem_map.mp hm
      exact absurd rfl hk
  numbers := by
    have hsize : o.assembled.actions.size = o.actionNames.length := by
      rw [← values_actions_assembled, OrderedMap.values, List.length_map]
      rfl
    rw [hsize]
    exact keys_actions_assembled
  names := by
    rw [values_actions_assembled]
    exact nodup_eraseDups _
  uses := by
    have hinjective : ∀ a ∈ o.calls, ∀ b ∈ o.calls,
        (o.actionNames.idxOf a : Int) = o.actionNames.idxOf b → a = b := by
      intro a ha b hb hplace
      exact (List.idxOf_inj (List.mem_eraseDups.mpr ha)).mp (Int.ofNat.inj hplace)
    rw [eraseDups_invoked_assembled h, eraseDups_map hinjective, keys_actions_assembled]
    exact map_idxOf (nodup_eraseDups _)

end Outline

theorem exists_check_moveDocument :
    ∃ o, Outline.check moveDocument = .ok o ∧ ∀ s ∈ o.states.entries, ∀ e ∈ s.2, e.literal ≠ some [] := by
  have hall : (match Outline.check moveDocument with
      | .ok o => o.states.entries.all fun s => s.2.all fun e => e.literal != some []
      | .rejected _ => false) = true := by
    decide +kernel
  cases hcheck : Outline.check moveDocument with
  | ok o => exact ⟨o, rfl, by simpa [hcheck] using hall⟩
  | rejected defects => simp [hcheck] at hall

/-- **Tables survive a trip through a document**: a valid table whose document says everything about it comes
back as it was, with its states, tokens and actions in their order and the numbers of the actions. Every table
of a document without empty literals is of that kind. -/
theorem toTable_toDocument :
    (∀ t : Table, t.validate = .ok t → t.Writable → toTable t.toDocument = .ok t)
      ∧ ∀ v o t, Outline.check v = .ok o → (∀ s ∈ o.states.entries, ∀ e ∈ s.2, e.literal ≠ some []) →
        toTable v = .ok t → t.Writable ∧ toTable t.toDocument = .ok t := by
  refine ⟨fun t hvalid h => Table.toTable_toDocument_of_writable hvalid h, fun v o t hcheck hliteral ht => ?_⟩
  obtain ⟨o', hcheck', hsound, rfl⟩ := toTable_eq_ok_iff.mp ht
  obtain rfl := Checked.ok.inj (hcheck.symm.trans hcheck')
  have hcons := (Outline.consistent_assembled_iff (Outline.wellShaped_of_check hcheck)).mpr hsound
  have hwritable := Outline.writable_assembled hliteral
  exact ⟨hwritable, Table.toTable_toDocument_of_writable
    (Table.validate_eq_ok_iff_consistent.mpr ⟨hcons, rfl⟩) hwritable⟩

/-- The table of the window language comes back from its document, and so does a table read off a document. -/
theorem toTable_toDocument_window :
    Window.grammar.validate = .ok Window.grammar ∧ Window.grammar.Writable
      ∧ toTable Window.grammar.toDocument = .ok Window.grammar
      ∧ ∃ o t, Outline.check moveDocument = .ok o ∧ (∀ s ∈ o.states.entries, ∀ e ∈ s.2, e.literal ≠ some [])
        ∧ toTable moveDocument = .ok t ∧ t.Writable ∧ toTable t.toDocument = .ok t := by
  have hsome : (toTable moveDocument).toOption.isSome = true := by decide +kernel
  obtain ⟨o, hcheck, hliteral⟩ := exists_check_moveDocument
  cases htable : toTable moveDocument with
  | error e =>
    rw [htable] at hsome
    cases hsome
  | ok t =>
    obtain ⟨hback, hreload⟩ := toTable_toDocument
    obtain ⟨hwritable, hagain⟩ := hreload moveDocument o t hcheck hliteral htable
    exact ⟨Window.validate_grammar, Window.writable_grammar,
      hback Window.grammar Window.validate_grammar Window.writable_grammar,
      o, t, hcheck, hliteral, rfl, hwritable, hagain⟩

end Document

end CommandGrammar
