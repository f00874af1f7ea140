import CommandGrammar.Proofs.Building
import CommandGrammar.Proofs.Writing

/-!
# Documents without shorthand

Much in a document may be left unsaid. The initial state has a usual name; a token without a target stays in its
state or, at the end of a command, returns to the initial one; a list of keywords stands for as many entries with
one keyword each; a flag may be lowered, and a field may be null. A document can be spelled out, so that it leaves
nothing of this kind to be understood, and its table remains what it was.

* `Value.explicit` — the document spelled out, as it is written; `Outline.explicit` — as it is read.
* `Value.Explicit` — what it means that nothing is left to be understood.
* `check_explicit` — the one is read as the other.
* `Outline.assembled_explicit` — spelling out changes nothing about the assembled table.
* `toTable_explicit` — the table or the error of a document is that of the document spelled out.
-/

namespace CommandGrammar

/-! ## Mapped entries -/

/-- Entries can as well be mapped one by one before they are put together. -/
theorem OrderedMap.entries_ofList_map {κ ν μ : Type} [DecidableEq κ] (f : κ → ν → μ) (es : List (κ × ν)) :
    (ofList (es.map fun e => (e.1, f e.1 e.2))).entries = (ofList es).entries.map fun e => (e.1, f e.1 e.2) := by
  have hset : ∀ (k : κ) (v : ν) (es : List (κ × ν)),
      setEntry k (f k v) (es.map fun e => (e.1, f e.1 e.2))
        = (setEntry k v es).map fun e => (e.1, f e.1 e.2) := by
    intro k v es
    induction es with
    | nil => rfl
    | cons e es ih =>
      by_cases he : e.1 = k
      · simp [setEntry, he]
      · simp [setEntry, he, ih]
  induction es using List.reverseRecOn with
  | nil => rfl
  | append_singleton es e ih =>
    unfold ofList at ih ⊢
    rw [List.map_append, List.foldl_append, List.foldl_append]
    show setEntry e.1 (f e.1 e.2) (entries _) = _
    rw [ih]
    exact hset e.1 e.2 _

namespace Document

open Checked

/-! ## Spelling out what is written -/

namespace Value

/-- Whether a value is the absent one. -/
def isNull : Value → Bool
  | .scalar .null => true
  | _ => false

/-- The text that a value is read as. -/
def asText (v : Value) : String := (checkText v).value?.getD ""

/-- The value of a field that is not null. -/
def given? (fields : List (Scalar × Value)) (name : String) : Option Value :=
  (field? fields name).filter fun v => !v.isNull

/-- The value of a flag that is not lowered. -/
def raised? (fields : List (Scalar × Value)) (name : String) : Option Value :=
  (field? fields name).filter fun v => checkBool v ≠ .ok false

/-- The keywords of a list, one by one; whatever else stands for a literal is kept. -/
def separate : Option Value → List (Option Value)
  | none => [none]
  | some v =>
    match checkItems v with
    | .ok (item :: items) => (item :: items).map some
    | _ => [some v]

/-- The fields of an entry that has this literal, without lowered flags and nulls and with a target unless there is
a call. -/
def explicitFields (initial state : StateName) (fields : List (Scalar × Value)) (literal : Option Value) :
    List (String × Option Value) :=
  let home : StateName := if (raised? fields "end").isSome then initial else state
  [ ("literal", literal),
    ("word", raised? fields "word"),
    ("string", raised? fields "string"),
    ("end", raised? fields "end"),
    ("capture", given? fields "capture"),
    ("goto", (given? fields "goto").or (if (given? fields "call").isSome then none else some (.text home))),
    ("call", given? fields "call"),
    ("then", given? fields "then") ]

/-- A token entry spelled out, with an entry for each keyword. -/
def explicitEntry (initial state : StateName) : Value → List Value
  | .map fields =>
    (separate (given? fields "literal")).map fun literal =>
      .map (present (explicitFields initial state fields literal))
  | v => [v]

/-- The token entries of a state spelled out. -/
def explicitTokens (initial state : StateName) : Value → Value
  | .seq items => .seq (items.flatMap (explicitEntry initial state))
  | v => v

/-- The states spelled out. -/
def explicitStates (initial : StateName) : Value → Value
  | .map states => .map (states.map fun s => (s.1, s.2.explicitTokens initial (asText (.scalar s.1))))
  | v => v

/-- A document spelled out. -/
def explicit : Value → Value
  | .map fields =>
    let initial := (field? fields "initial").getD (.text defaultInitial)
    .map (present [ ("initial", some initial), ("states", (field? fields "states").map (explicitStates initial.asText)) ])
  | v => v

/-! ## Nothing left to be understood -/

/-- The fields of an entry that leave nothing to be understood. -/
structure ExplicitFields (fields : List (Scalar × Value)) : Prop where
  /-- No field is null. -/
  given : ∀ f ∈ fields, f.2 ≠ .null
  /-- No flag is lowered. -/
  raised : ∀ name ∈ ["word", "string", "end"], field? fields name ≠ none →
    ∃ v, field? fields name = some v ∧ checkBool v = .ok true
  /-- A literal is no list, unless it has no keywords. -/
  separate : ∀ v items, field? fields "literal" = some v → checkItems v = .ok items → items = []
  /-- The target is named, or an action is called. -/
  target : field? fields "goto" ≠ none ∨ field? fields "call" ≠ none

/-- A document that leaves nothing to be understood: it names its initial state, and so do all its entries what they
stand for. -/
inductive Explicit : Value → Prop where
  | intro {fields states : List (Scalar × Value)} (hinitial : field? fields "initial" ≠ none)
    (hstates : field? fields "states" = some (.map states))
    (h : ∀ s ∈ states, ∀ items, checkItems s.2 = .ok items →
      ∀ item ∈ items, ∃ entry, item = .map entry ∧ ExplicitFields entry) : Explicit (.map fields)

end Value

/-! ## Spelling out what is read -/

namespace Entry

variable (initial state : StateName) (e : Entry)

/-- The texts of a literal, one by one; a literal without any is kept. -/
def separate : Option (List String) → List (Option (List String))
  | some (text :: texts) => (text :: texts).map fun text => some [text]
  | literal => [literal]

/-- The target of an entry, named unless there is a call. -/
def explicitGoto : Option StateName :=
  e.goto.or (if e.call.isSome then none else some (if e.commandEnd then initial else state))

/-- An entry with its target named and with this literal. -/
def explicitWith (literal : Option (List String)) : Entry :=
  { e with literal, goto := e.explicitGoto initial state }

/-- An entry spelled out, with an entry for each text. -/
def explicit : List Entry := (separate e.literal).map (e.explicitWith initial state)

end Entry

/-- A document spelled out. -/
def Outline.explicit (o : Outline) : Outline where
  initial := o.initial
  states := ⟨o.states.entries.map fun s => (s.1, s.2.flatMap (Entry.explicit o.initial s.1)), by
    rw [List.map_map]
    exact o.states.nodup⟩

/-! ## Fields of one kind -/

namespace Value

variable {fields : List (Scalar × Value)} {name : String}

theorem asText_of_check {v : Value} {s : String} (h : checkText v = .ok s) : v.asText = s := by
  simp [asText, h, value?]

/-- A field that is read as nothing when it is null can as well be left out. -/
theorem elim_given? {α : Type} {check : Value → Checked (Option α)} {o : Option α} (hnull : check .null = .ok none)
    (h : checkField fields name (.ok none) check = .ok o) : (given? fields name).elim (.ok none) check = .ok o := by
  unfold checkField at h
  rw [under_eq_ok_iff] at h
  unfold given?
  cases hfield : field? fields name with
  | none => simpa [hfield] using h
  | some v =>
    rw [hfield, Option.elim_some] at h
    by_cases hv : v.isNull = true
    · obtain rfl : v = .null := by
        unfold isNull at hv
        split at hv
        · rfl
        · cases hv
      simpa [Option.filter, hv] using hnull.symm.trans h
    · simpa [Option.filter, hv] using h

/-- A field that is given is read, if only null is read as nothing. -/
theorem isSome_given? {α : Type} {check : Value → Checked (Option α)} {o : Option α} (hnull : check .null = .ok none)
    (hcheck : ∀ v, v.isNull = false → check v ≠ .ok none) (h : checkField fields name (.ok none) check = .ok o) :
    (given? fields name).isSome = o.isSome := by
  have hread := elim_given? hnull h
  cases hgiven : given? fields name with
  | none =>
    rw [hgiven] at hread
    obtain rfl : none = o := Checked.ok.inj hread
    rfl
  | some v =>
    rw [hgiven, Option.elim_some] at hread
    have hv : v.isNull = false := by simpa using (Option.filter_eq_some_iff.mp hgiven).2
    cases o with
    | none => exact absurd hread (hcheck v hv)
    | some a => rfl

theorem checkText?_ne_none {v : Value} (hv : v.isNull = false) : checkText? v ≠ .ok none := by
  unfold checkText?
  split
  · cases hv
  · cases checkText v <;> nofun

theorem checkKeywords_ne_none {v : Value} (hv : v.isNull = false) : checkKeywords v ≠ .ok none := by
  unfold checkKeywords
  split
  · cases hv
  · split <;> nofun

/-- A flag that is lowered can as well be left out. -/
theorem elim_raised? {b : Bool} (h : checkField fields name (.ok false) checkBool = .ok b) :
    (raised? fields name).elim (.ok false) checkBool = .ok b ∧ (raised? fields name).isSome = b := by
  unfold checkField at h
  rw [under_eq_ok_iff] at h
  unfold raised?
  cases hfield : field? fields name with
  | none =>
    rw [hfield] at h
    obtain rfl : false = b := Checked.ok.inj h
    exact ⟨rfl, rfl⟩
  | some v =>
    rw [hfield, Option.elim_some] at h
    cases b <;> simp [Option.filter, h]

end Value

/-! ## Literals -/

/-- A text by itself is read as a literal with this text. -/
theorem checkKeywords_of_checkText {v : Value} {s : String} (h : checkText v = .ok s) :
    checkKeywords v = .ok (some [s]) := by
  unfold checkKeywords
  split
  · cases h
  · rw [h]

/-- A list is read as a literal if its items are texts. -/
theorem checkKeywords_of_checkItems {v : Value} {literal : Option (List String)} {items : List Value}
    (h : checkKeywords v = .ok literal) (hitems : checkItems v = .ok items) :
    ∃ texts, literal = some texts ∧ List.Forall₂ (fun v s => checkText v = .ok s) items texts := by
  have htext : checkText v = .defect .notText := by
    cases v with
    | seq | set => rfl
    | scalar | map => cases hitems
  unfold checkKeywords at h
  split at h
  · cases hitems
  · rw [htext, hitems] at h
    cases heach : checkEach checkText items with
    | ok texts =>
      simp only [defect, andThen, heach] at h
      exact ⟨texts, (Checked.ok.inj h).symm, checkEach_eq_ok_iff.mp heach⟩
    | rejected defects =>
      simp only [defect, andThen, heach] at h
      cases h

/-- What is no list stands for one text at most. -/
theorem separate_of_checkKeywords {v : Value} {literal : Option (List String)} {defects : List (Defect DefectKind)}
    (h : checkKeywords v = .ok literal) (hitems : checkItems v = .rejected defects) :
    Entry.separate literal = [literal] := by
  unfold checkKeywords at h
  split at h
  · obtain rfl := Checked.ok.inj h
    rfl
  · rw [hitems] at h
    split at h
    · obtain rfl := Checked.ok.inj h
      rfl
    · next heach => cases heach
    · cases h

/-- What stands for a single literal: it is read as one if there was one, and it is no list of keywords. -/
structure ReadsOne (literal : Option (List String)) (v? : Option Value) (l : Option (List String)) : Prop where
  read : v?.elim (.ok none) checkKeywords = .ok l
  kept : l.isSome = literal.isSome
  single : ∀ items, v?.map checkItems = some (.ok items) → items = []

/-- **Keywords are read one by one as they are together.** -/
theorem forall₂_separate {v? : Option Value} {literal : Option (List String)}
    (h : v?.elim (.ok none) checkKeywords = .ok literal) :
    List.Forall₂ (ReadsOne literal) (Value.separate v?) (Entry.separate literal) := by
  cases v? with
  | none =>
    obtain rfl : none = literal := Checked.ok.inj h
    exact .cons ⟨rfl, rfl, nofun⟩ .nil
  | some v =>
    cases hitems : checkItems v with
    | rejected defects =>
      have hsame : Value.separate (some v) = [some v] := by simp only [Value.separate, hitems]
      rw [hsame, separate_of_checkKeywords h hitems]
      refine .cons ⟨h, rfl, fun items hok => ?_⟩ .nil
      cases hitems.symm.trans (Option.some.inj hok)
    | ok items =>
      obtain ⟨texts, rfl, htexts⟩ := checkKeywords_of_checkItems h hitems
      simp only [Value.separate, hitems]
      cases htexts with
      | nil =>
        refine .cons ⟨h, rfl, fun items hok => ?_⟩ .nil
        exact Checked.ok.inj ((Option.some.inj hok).symm.trans hitems)
      | @cons item text items texts hitem hrest =>
        simp only [Entry.separate]
        rw [List.forall₂_map_left_iff, List.forall₂_map_right_iff]
        refine List.Forall₂.imp ?_ (List.Forall₂.cons hitem hrest)
        intro v s hs
        refine ⟨checkKeywords_of_checkText hs, rfl, fun items hok => ?_⟩
        cases v with
        | scalar => cases hok
        | seq | map | set => cases hs

/-! ## Entries -/

section Present

variable {fields : List (String × Option Value)} {name : String}

/-- A field is checked as it was written down. -/
theorem checkField_present {α : Type} {v? : Option Value} {absent : Checked α} {check : Value → Checked α} {a : α}
    (hnodup : (fields.map Prod.fst).Nodup) (hm : (name, v?) ∈ fields) (h : v?.elim absent check = .ok a) :
    checkField (Value.present fields) name absent check = .ok a := by
  unfold checkField
  rw [under_eq_ok_iff, field?_present hnodup hm]
  exact h

end Present

variable {initial state : StateName} {e : Entry}

/-- An entry that is spelled out is in as good a shape as before. -/
theorem Entry.WellShaped.explicitWith (h : e.WellShaped) {literal : Option (List String)}
    (hliteral : literal.isSome = e.literal.isSome) : (e.explicitWith initial state literal).WellShaped where
  kind := by
    have hkind := h.kind
    unfold kindCount at hkind ⊢
    rw [← hkind, ← hliteral]
    rfl
  target := by
    show e.explicitGoto initial state = none ∨ e.call = none
    cases hcall : e.call with
    | none => exact Or.inr rfl
    | some name =>
      have hgoto : e.goto = none := h.target.resolve_right (by simp [hcall])
      exact Or.inl (by simp [explicitGoto, hcall, hgoto])
  next := h.next
  ends := h.ends

/-- The target that is written down is the one that is read. -/
theorem elim_explicitGoto {fields : List (Scalar × Value)}
    (hend : checkField fields "end" (.ok false) checkBool = .ok e.commandEnd)
    (hgoto : checkField fields "goto" (.ok none) checkText? = .ok e.goto)
    (hcall : checkField fields "call" (.ok none) checkText? = .ok e.call) :
    ((Value.given? fields "goto").or (if (Value.given? fields "call").isSome then none
        else some (.text (if (Value.raised? fields "end").isSome then initial else state)))).elim (.ok none) checkText?
      = .ok (e.explicitGoto initial state) := by
  have hread := Value.elim_given? rfl hgoto
  have hsome := Value.isSome_given? rfl (fun _ => Value.checkText?_ne_none) hgoto
  unfold Entry.explicitGoto
  rw [Value.isSome_given? rfl (fun _ => Value.checkText?_ne_none) hcall, (Value.elim_raised? hend).2]
  cases hgiven : Value.given? fields "goto" with
  | some v =>
    rw [hgiven] at hread hsome
    obtain ⟨target, htarget⟩ := Option.isSome_iff_exists.mp hsome.symm
    rw [htarget] at hread ⊢
    exact hread
  | none =>
    have hnone : e.goto = none := by simpa [hgiven] using hsome
    rw [hnone]
    cases e.call <;> rfl

/-- The fields of an entry spelled out are read as the entry spelled out. -/
theorem check_explicitFields {fields : List (Scalar × Value)} {literal : Option Value} {l : Option (List String)}
    (h : Entry.checkFields fields = .ok e) (hshaped : e.WellShaped) (hliteral : ReadsOne e.literal literal l) :
    Entry.check (.map (Value.present (Value.explicitFields initial state fields literal)))
      = .ok (e.explicitWith initial state l) := by
  obtain ⟨-, hword, hstring, hend, hcapture, hgoto, hcall, hthen, -⟩ := Entry.checkFields_eq_ok_iff.mp h
  have hread : ∀ {α name v?} {absent : Checked α} {check a},
      (name, v?) ∈ Value.explicitFields initial state fields literal → v?.elim absent check = .ok a →
      checkField (Value.present (Value.explicitFields initial state fields literal)) name absent check = .ok a :=
    fun hm => checkField_present (by decide : Entry.fieldNames.Nodup) hm
  have hfields : Entry.checkFields (Value.present (Value.explicitFields initial state fields literal))
      = .ok (e.explicitWith initial state l) := by
    refine Entry.checkFields_eq_ok_iff.mpr ⟨hread (by simp [Value.explicitFields]) hliteral.read,
      hread (by simp [Value.explicitFields]) (Value.elim_raised? hword).1,
      hread (by simp [Value.explicitFields]) (Value.elim_raised? hstring).1,
      hread (by simp [Value.explicitFields]) (Value.elim_raised? hend).1,
      hread (by simp [Value.explicitFields]) (Value.elim_given? rfl hcapture),
      hread (by simp [Value.explicitFields]) (elim_explicitGoto hend hgoto hcall),
      hread (by simp [Value.explicitFields]) (Value.elim_given? rfl hcall),
      hread (by simp [Value.explicitFields]) (Value.elim_given? rfl hthen),
      checkKeys_eq_ok_iff.mpr fun f hf => exists_name_of_mem_present hf⟩
  exact andThen_eq_ok_iff.mpr ⟨_, hfields, Entry.checkShape_eq_ok_iff.mpr ⟨rfl, hshaped.explicitWith hliteral.kept⟩⟩

/-- **An entry spelled out is read as its entries spelled out.** -/
theorem check_explicitEntry {item : Value} (h : Entry.check item = .ok e) :
    List.Forall₂ (fun v e' => Entry.check v = .ok e') (item.explicitEntry initial state) (e.explicit initial state) := by
  cases item with
  | map fields =>
    obtain ⟨d, hfields, hd⟩ := andThen_eq_ok_iff.mp h
    obtain ⟨rfl, hshaped⟩ := Entry.checkShape_eq_ok_iff.mp hd
    have hliteral := Value.elim_given? rfl (Entry.checkFields_eq_ok_iff.mp hfields).1
    unfold Value.explicitEntry Entry.explicit
    rw [List.forall₂_map_left_iff, List.forall₂_map_right_iff]
    exact (forall₂_separate hliteral).imp fun v l hl => check_explicitFields hfields hshaped hl
  | scalar | seq | set => cases h

/-! ## States -/

/-- The token entries of a state are a list, or there are none at all: the members of a set are scalars, and a
scalar is no entry. -/
theorem checkTokens_eq_ok {v : Value} {es : List Entry} (h : Outline.checkTokens v = .ok es) :
    (∃ items, v = .seq items ∧ List.Forall₂ (fun item e => Entry.check item = .ok e) items es)
      ∨ v = .set [] ∧ es = [] := by
  obtain ⟨items, hitems, heach⟩ := andThen_eq_ok_iff.mp h
  have hentries := checkEach_eq_ok_iff.mp heach
  cases v with
  | seq items =>
    obtain rfl := Checked.ok.inj hitems
    exact Or.inl ⟨items, rfl, hentries⟩
  | set members =>
    obtain rfl := Checked.ok.inj hitems
    cases members with
    | nil => exact Or.inr ⟨rfl, List.forall₂_nil_left_iff.mp hentries⟩
    | cons member members =>
      cases hentries with
      | cons hmember _ => cases hmember
  | scalar | map => cases hitems

/-- The token entries of a state spelled out are read as its entries spelled out. -/
theorem checkTokens_explicitTokens {v : Value} {es : List Entry} (h : Outline.checkTokens v = .ok es) :
    Outline.checkTokens (v.explicitTokens initial state) = .ok (es.flatMap (Entry.explicit initial state)) := by
  rcases checkTokens_eq_ok h with ⟨items, rfl, hentries⟩ | ⟨rfl, rfl⟩
  · exact checkEach_eq_ok_iff.mpr (List.rel_flatMap hentries fun _ _ hitem => check_explicitEntry hitem)
  · exact h

theorem checkState_explicit {key : Scalar} {v : Value} {s : StateName × List Entry}
    (h : Outline.checkState (key, v) = .ok s) :
    Outline.checkState (key, v.explicitTokens initial (Value.asText (.scalar key)))
      = .ok (s.1, s.2.flatMap (Entry.explicit initial s.1)) := by
  unfold Outline.checkState at h ⊢
  simp only [under_eq_ok_iff, seq_eq_ok_iff, fmap_eq_ok_iff] at h ⊢
  obtain ⟨_, es, ⟨name, hname, rfl⟩, hes, rfl⟩ := h
  rw [Value.asText_of_check hname]
  exact ⟨_, _, ⟨name, hname, rfl⟩, checkTokens_explicitTokens hes, rfl⟩

theorem checkStates_explicit {v : Value} {m : OrderedMap StateName (List Entry)}
    (h : Outline.checkStates v = .ok m) :
    Outline.checkStates (v.explicitStates initial) = .ok (Outline.explicit ⟨initial, m⟩).states := by
  cases v with
  | map states =>
    obtain ⟨ss, hss, rfl⟩ := map_eq_ok_iff.mp h
    refine map_eq_ok_iff.mpr ⟨ss.map fun s => (s.1, s.2.flatMap (Entry.explicit initial s.1)), ?_,
      OrderedMap.ext (OrderedMap.entries_ofList_map (fun name es => es.flatMap (Entry.explicit initial name)) ss)⟩
    rw [all_eq_ok_iff, List.forall₂_map_left_iff] at hss ⊢
    rw [List.forall₂_map_left_iff, List.forall₂_map_right_iff]
    exact hss.imp fun _ _ hs => checkState_explicit hs
  | scalar | seq | set => cases h

/-! ## Documents -/

/-- The initial state that is written down is the one that is read. -/
theorem checkText_initial {fields : List (Scalar × Value)}
    (h : checkField fields "initial" (.ok defaultInitial) checkText = .ok initial) :
    checkText ((Value.field? fields "initial").getD (.text defaultInitial)) = .ok initial := by
  unfold checkField at h
  rw [under_eq_ok_iff] at h
  cases hfield : Value.field? fields "initial" with
  | none =>
    rw [hfield] at h
    exact h
  | some v =>
    rw [hfield] at h
    exact h

/-- **A document spelled out is read as its outline spelled out.** -/
theorem check_explicit {v : Value} {o : Outline} (h : Outline.check v = .ok o) :
    Outline.check v.explicit = .ok o.explicit := by
  cases v with
  | map fields =>
    obtain ⟨hinitial, hstates, -⟩ := Outline.check_map_eq_ok_iff.mp h
    obtain ⟨states, hfield, hstates⟩ := Outline.exists_states_of_check hstates
    have hnamed := checkText_initial hinitial
    have hnodup : Outline.fieldNames.Nodup := by decide
    simp only [Value.explicit, Value.asText_of_check hnamed, hfield, Option.map_some]
    exact Outline.check_map_eq_ok_iff.mpr ⟨checkField_present hnodup List.mem_cons_self hnamed,
      checkField_present hnodup (List.mem_cons_of_mem _ List.mem_cons_self) (checkStates_explicit hstates),
      checkKeys_eq_ok_iff.mpr fun f hf => exists_name_of_mem_present hf⟩
  | scalar | seq | set => cases h

/-! ## Tables -/

namespace Entry

variable {names : List String}

theorem isSome_of_mem_separate {literal l : Option (List String)} (h : l ∈ separate literal) :
    l.isSome = literal.isSome := by
  unfold separate at h
  split at h
  · obtain ⟨text, -, rfl⟩ := List.mem_map.mp h
    rfl
  · rw [List.mem_singleton.mp h]

theorem separate_ne_nil (literal : Option (List String)) : separate literal ≠ [] := by
  unfold separate
  split <;> simp

theorem kind_explicitWith {literal : Option (List String)} (hliteral : literal.isSome = e.literal.isSome) :
    (e.explicitWith initial state literal).kind = e.kind := by
  unfold kind
  rw [← hliteral]
  rfl

/-- **An entry leads where it did when it is spelled out**, with any of its texts. -/
theorem transition_explicitWith (h : e.WellShaped) {literal : Option (List String)}
    (hliteral : literal.isSome = e.literal.isSome) :
    (e.explicitWith initial state literal).transition names initial state = e.transition names initial state := by
  have hinvocation : (e.explicitWith initial state literal).invocation? names = e.invocation? names := rfl
  rw [transition_eq_getD, transition_eq_getD, hinvocation, kind_explicitWith hliteral]
  cases hcall : e.call with
  | some name => simp [invocation?, hcall]
  | none =>
    have hgoto : (e.explicitWith initial state literal).goto
        = e.goto.or (some (if e.commandEnd then initial else state)) := by
      simp [explicitWith, explicitGoto, hcall]
    rw [hgoto]
    simp only [kind_eq_commandEnd_iff h]
    cases e.goto <;> rfl

/-- **The tokens of an entry spelled out are its tokens.** -/
theorem flatMap_tokens_explicit (h : e.WellShaped) :
    (e.explicit initial state).flatMap (tokens names initial state) = e.tokens names initial state := by
  have hone : ∀ literal, literal.isSome = e.literal.isSome →
      tokens names initial state (e.explicitWith initial state literal)
        = literal.elim [⟨e.kind, none, e.capture, e.transition names initial state⟩] fun texts =>
          texts.map fun text => .literal text (e.transition names initial state) e.capture := by
    intro literal hliteral
    unfold tokens
    rw [transition_explicitWith h hliteral, kind_explicitWith hliteral]
    cases literal <;> rfl
  rw [explicit, List.flatMap_map, List.flatMap_congr fun literal hm => hone literal (isSome_of_mem_separate hm)]
  unfold tokens
  cases e.literal with
  | none => rfl
  | some texts =>
    cases texts with
    | nil => rfl
    | cons text texts =>
      simp only [separate]
      rw [List.flatMap_map]
      exact (List.map_eq_flatMap ..).symm

/-- Up to repetitions the entries spelled out call what the entry calls. -/
theorem eraseDups_call_explicit :
    ((e.explicit initial state).filterMap call).eraseDups = e.call.toList.eraseDups := by
  have hcalls : ∀ e' ∈ e.explicit initial state, e'.call = e.call := by
    intro e' he'
    obtain ⟨literal, -, rfl⟩ := List.mem_map.mp he'
    rfl
  cases hcall : e.call with
  | none =>
    rw [List.filterMap_eq_nil_iff.mpr fun e' he' => (hcalls e' he').trans hcall]
    rfl
  | some name =>
    refine (eraseDups_eq_singleton (a := name) ?_ ?_).trans rfl
    · obtain ⟨literal, hm⟩ := List.exists_mem_of_ne_nil _ (separate_ne_nil e.literal)
      exact List.ne_nil_of_mem (List.mem_filterMap.mpr ⟨_, List.mem_map_of_mem hm, hcall⟩)
    · intro b hb
      obtain ⟨e', he', hb⟩ := List.mem_filterMap.mp hb
      exact Option.some.inj ((hb.symm.trans (hcalls e' he')).trans hcall)

end Entry

namespace Outline

variable {o : Outline}

/-- Spelling out does not change which actions there are, nor their order. -/
theorem actionNames_explicit : o.explicit.actionNames = o.actionNames := by
  have hcalls : ∀ es : List Entry, es.filterMap Entry.call = es.flatMap fun e => e.call.toList := by
    intro es
    induction es with
    | nil => rfl
    | cons e es ih => cases hcall : e.call <;> simp [hcall, ih]
  show (o.explicit.states.entries.flatMap _).eraseDups = (o.states.entries.flatMap _).eraseDups
  show ((o.states.entries.map _).flatMap _).eraseDups = _
  rw [List.flatMap_map]
  refine eraseDups_flatMap_congr fun s _ => ?_
  rw [List.filterMap_flatMap, hcalls]
  exact eraseDups_flatMap_congr fun e _ => Entry.eraseDups_call_explicit

/-- **Spelling out changes nothing about the table of a document.** -/
theorem assembled_explicit (h : ∀ s ∈ o.states.entries, ∀ e ∈ s.2, e.WellShaped) :
    o.explicit.assembled = o.assembled := by
  have htokens : o.explicit.tokenLists = o.tokenLists := by
    unfold tokenLists
    rw [actionNames_explicit]
    show (o.states.entries.map _).map _ = _
    rw [List.map_map]
    refine List.map_congr_left fun s hs => ?_
    show (s.1, (s.2.flatMap _).flatMap _) = _
    rw [List.flatMap_assoc]
    refine congrArg (Prod.mk s.1) (List.flatMap_congr fun e he => ?_)
    exact Entry.flatMap_tokens_explicit (h s hs e he)
  have hstates : o.explicit.assembled.states = o.assembled.states := OrderedMap.ext htokens
  have hactions : o.explicit.assembled.actions = o.assembled.actions := by
    unfold assembled
    rw [actionNames_explicit]
  show Table.mk _ _ _ = Table.mk _ _ _
  exact Table.mk.injEq .. |>.mpr ⟨hstates, hactions, rfl⟩

end Outline

/-! ## Nothing is left -/

/-- A literal by itself that is there is not null. -/
theorem ReadsOne.ne_null {literal l : Option (List String)} {v : Value} (h : ReadsOne literal (some v) l)
    (hliteral : literal.isSome = true) : v ≠ .null := by
  rintro rfl
  have hnone : none = l := Checked.ok.inj h.read
  have hkept := h.kept
  rw [← hnone, hliteral] at hkept
  cases hkept

/-- A field that is given is not null. -/
theorem Value.ne_null_of_given? {fields : List (Scalar × Value)} {name : String} {v : Value}
    (h : Value.given? fields name = some v) : v ≠ .null := by
  rintro rfl
  have hnull := (Option.filter_eq_some_iff.mp h).2
  cases hnull

/-- A flag that is raised is read as such. -/
theorem Value.checkBool_of_raised? {fields : List (Scalar × Value)} {name : String} {b : Bool} {v : Value}
    (h : checkField fields name (.ok false) checkBool = .ok b) (hv : Value.raised? fields name = some v) :
    checkBool v = .ok true := by
  obtain ⟨hread, hb⟩ := Value.elim_raised? h
  rw [hv] at hread hb
  rw [← hb] at hread
  exact hread

theorem Value.ne_null_of_raised? {fields : List (Scalar × Value)} {name : String} {b : Bool} {v : Value}
    (h : checkField fields name (.ok false) checkBool = .ok b) (hv : Value.raised? fields name = some v) :
    v ≠ .null := by
  rintro rfl
  cases Value.checkBool_of_raised? h hv

/-- No field that is written down is null. -/
theorem ne_null_of_mem_explicitFields {fields : List (Scalar × Value)} {literal : Option Value}
    (h : Entry.checkFields fields = .ok e) (hliteral : ∀ v, literal = some v → v ≠ .null) :
    ∀ f ∈ Value.explicitFields initial state fields literal, ∀ v, f.2 = some v → v ≠ .null := by
  obtain ⟨-, hword, hstring, hend, -, -, -, -, -⟩ := Entry.checkFields_eq_ok_iff.mp h
  simp only [Value.explicitFields, List.forall_mem_cons]
  refine ⟨hliteral, fun v => Value.ne_null_of_raised? hword, fun v => Value.ne_null_of_raised? hstring,
    fun v => Value.ne_null_of_raised? hend, fun v => Value.ne_null_of_given?, fun v hgoto => ?_,
    fun v => Value.ne_null_of_given?, fun v => Value.ne_null_of_given?, nofun⟩
  rcases Option.or_eq_some_iff.mp hgoto with hgiven | ⟨-, hhome⟩
  · exact Value.ne_null_of_given? hgiven
  · rintro rfl
    split at hhome <;> cases hhome

/-- The fields that are written down leave nothing to be understood. -/
theorem explicitFields_present {fields : List (Scalar × Value)} {literal : Option Value} {l : Option (List String)}
    (h : Entry.checkFields fields = .ok e) (hread : ReadsOne e.literal literal l)
    (hliteral : ∀ v, literal = some v → v ≠ .null) :
    Value.ExplicitFields (Value.present (Value.explicitFields initial state fields literal)) := by
  have hgiven : ∀ f ∈ Value.present (Value.explicitFields initial state fields literal), f.2 ≠ .null := by
    intro f hf
    obtain ⟨name, hm, -⟩ := mem_present_iff.mp hf
    exact ne_null_of_mem_explicitFields h hliteral _ hm f.2 rfl
  have hfields : ∀ f ∈ Value.explicitFields initial state fields literal,
      Value.field? (Value.present (Value.explicitFields initial state fields literal)) f.1 = f.2 :=
    fun f hm => field?_present (by decide : Entry.fieldNames.Nodup) hm
  generalize Value.present (Value.explicitFields initial state fields literal) = present at hfields hgiven
  simp only [Value.explicitFields, List.forall_mem_cons] at hfields
  obtain ⟨hl, hword, hstring, hend, -, hgoto, hcall, -, -⟩ := hfields
  obtain ⟨-, hword', hstring', hend', -, -, -, -, -⟩ := Entry.checkFields_eq_ok_iff.mp h
  have hraised : ∀ {name b}, checkField fields name (.ok false) checkBool = .ok b →
      Value.field? present name = Value.raised? fields name → Value.field? present name ≠ none →
      ∃ v, Value.field? present name = some v ∧ checkBool v = .ok true := by
    intro name b hcheck hsame hne
    obtain ⟨v, hv⟩ := Option.ne_none_iff_exists'.mp hne
    exact ⟨v, hv, Value.checkBool_of_raised? hcheck (hsame.symm.trans hv)⟩
  refine ⟨hgiven, ?_, fun v items hv hitems => ?_, ?_⟩
  · simp only [List.forall_mem_cons]
    exact ⟨hraised hword' hword, hraised hstring' hstring, hraised hend' hend, nofun⟩
  · refine hread.single items ?_
    rw [hl.symm.trans hv, Option.map_some, hitems]
  · rw [hgoto, hcall]
    cases Value.given? fields "call" with
    | some v => exact Or.inr nofun
    | none => exact Or.inl (by simp)

/-- Entries that are spelled out leave nothing to be understood. -/
theorem explicitFields_explicitEntry {item : Value} (h : Entry.check item = .ok e) :
    ∀ v ∈ item.explicitEntry initial state, ∃ fields, v = .map fields ∧ Value.ExplicitFields fields := by
  cases item with
  | map fields =>
    obtain ⟨d, hfields, hd⟩ := andThen_eq_ok_iff.mp h
    obtain ⟨rfl, -⟩ := Entry.checkShape_eq_ok_iff.mp hd
    have hliteral := (Entry.checkFields_eq_ok_iff.mp hfields).1
    have hsome := Value.isSome_given? rfl (fun _ => Value.checkKeywords_ne_none) hliteral
    intro v hv
    obtain ⟨literal, hm, rfl⟩ := List.mem_map.mp hv
    obtain ⟨l, hread⟩ :=
      exists_forall₂_iff.mp ⟨_, forall₂_separate (Value.elim_given? rfl hliteral)⟩ literal hm
    refine ⟨_, rfl, explicitFields_present hfields hread ?_⟩
    rintro w rfl
    cases hgiven : Value.given? fields "literal" with
    | none =>
      rw [hgiven] at hm
      cases List.mem_singleton.mp hm
    | some w' =>
      rw [hgiven] at hsome
      exact hread.ne_null hsome.symm
  | scalar | seq | set => cases h

theorem explicitFields_explicitTokens {tokens : Value} {es : List Entry} (h : Outline.checkTokens tokens = .ok es) :
    ∀ items, checkItems (tokens.explicitTokens initial state) = .ok items →
      ∀ item ∈ items, ∃ fields, item = .map fields ∧ Value.ExplicitFields fields := by
  intro items hitems item hitem
  rcases checkTokens_eq_ok h with ⟨written, rfl, hentries⟩ | ⟨rfl, rfl⟩
  · obtain rfl := Checked.ok.inj hitems
    obtain ⟨source, hm, hitem⟩ := List.mem_flatMap.mp hitem
    obtain ⟨e, he⟩ := exists_forall₂_iff.mp ⟨_, hentries⟩ source hm
    exact explicitFields_explicitEntry he item hitem
  · obtain rfl := Checked.ok.inj hitems
    cases hitem

/-- **A document that is spelled out leaves nothing to be understood.** -/
theorem explicit_of_check {v : Value} {o : Outline} (h : Outline.check v = .ok o) : v.explicit.Explicit := by
  cases v with
  | map fields =>
    obtain ⟨-, hstates, -⟩ := Outline.check_map_eq_ok_iff.mp h
    obtain ⟨states, hfield, hstates⟩ := Outline.exists_states_of_check hstates
    obtain ⟨ss, hss, -⟩ := map_eq_ok_iff.mp hstates
    rw [all_eq_ok_iff, List.forall₂_map_left_iff] at hss
    have hnodup : Outline.fieldNames.Nodup := by decide
    simp only [Value.explicit, hfield, Option.map_some]
    refine .intro (Eq.trans_ne (field?_present (by simp) List.mem_cons_self) (Option.some_ne_none _))
      (field?_present hnodup (List.mem_cons_of_mem _ List.mem_cons_self)) fun s hs => ?_
    obtain ⟨⟨key, tokens⟩, hm, rfl⟩ := List.mem_map.mp hs
    obtain ⟨_, hread⟩ := exists_forall₂_iff.mp ⟨_, hss⟩ _ hm
    obtain ⟨_, es, -, hes, -⟩ := seq_eq_ok_iff.mp (under_eq_ok_iff.mp hread)
    exact explicitFields_explicitTokens hes
  | scalar | seq | set => cases h

/-- An entry without keywords calls its action and does nothing else. -/
theorem Entry.addTo_of_empty (h : e.WellShaped) (hliteral : e.literal = some []) {b : Builder}
    (hopen : b.states.contains state = true) :
    e.addTo b state = .ok (e.call.elim b fun name => (b.call name e.next).1) := by
  have hnothing : ∀ b : Builder, b.states.contains state = true → b.append state [] = b := by
    intro b hopen
    rw [Builder.append_nil, Builder.openState, if_pos hopen]
  unfold addTo
  cases hcall : e.call with
  | none =>
    simp only [hliteral, Builder.literal, Builder.transition_eq state (Or.inr rfl)]
    exact congrArg Except.ok (hnothing b hopen)
  | some name =>
    have hgoto : e.goto = none := h.target.resolve_right (by simp [hcall])
    simp only [hliteral, Builder.literal, hgoto, Builder.transition_eq state (Or.inl rfl)]
    exact congrArg Except.ok (hnothing (b.call name e.next).1 hopen)

/-- **Shorthand means what it says.** A document that is read can be spelled out, with nothing left to be
understood; what is read is then its outline spelled out, and the table is the same, or the error. An entry without
keywords calls its action and does nothing else. -/
theorem toTable_explicit {v : Value} {o : Outline} (h : Outline.check v = .ok o) :
    v.explicit.Explicit ∧ Outline.check v.explicit = .ok o.explicit ∧ toTable v.explicit = toTable v
      ∧ ∀ s ∈ o.states.entries, ∀ e ∈ s.2, e.literal = some [] → ∀ b : Builder, b.states.contains s.1 = true →
        e.addTo b s.1 = .ok (e.call.elim b fun name => (b.call name e.next).1) := by
  have hshaped := Outline.wellShaped_of_check h
  have hexplicit := check_explicit h
  refine ⟨explicit_of_check h, hexplicit, ?_, fun s hs e he hliteral b hopen =>
    Entry.addTo_of_empty (hshaped s hs e he) hliteral hopen⟩
  have htable : o.explicit.table = o.table := by
    rw [Outline.table_eq_validate hshaped, Outline.table_eq_validate (Outline.wellShaped_of_check hexplicit),
      Outline.assembled_explicit hshaped]
  unfold toTable
  rw [h, hexplicit]
  exact congrArg (Except.mapError DocumentError.table) htable

/-- A document with all kinds of shorthand: no initial state, no targets, an empty list of keywords and one with
two, a lowered flag and a field that is null. -/
def shorthandDocument : Value :=
  .map [(.text "states", .map
    [ (.text "INITIAL", .seq
        [ .map [(.text "literal", .seq []), (.text "call", .text "cmd_nop")],
          .map [(.text "literal", .seq [.text "left", .text "right"]), (.text "word", .bool false),
            (.text "capture", .text "direction"), (.text "goto", .null), (.text "call", .text "cmd_move")],
          .map [(.text "literal", .text "please")],
          .map [(.text "end", .text "yes")] ]) ])]

/-- What is read off it. -/
def shorthandOutline : Outline :=
  { states := .ofList
      [ ("INITIAL",
          [ { literal := some [], call := some "cmd_nop" },
            { literal := some ["left", "right"], capture := some "direction", call := some "cmd_move" },
            { literal := some ["please"] },
            { commandEnd := true } ]) ] }

/-- It is read and is a table, and its first entry, which has no keywords, calls its action. -/
theorem toTable_explicit_shorthand :
    Outline.check shorthandDocument = .ok shorthandOutline ∧ shorthandDocument.explicit.Explicit
      ∧ Outline.check shorthandDocument.explicit = .ok shorthandOutline.explicit
      ∧ (∃ t, toTable shorthandDocument = .ok t ∧ toTable shorthandDocument.explicit = .ok t)
      ∧ ∃ s ∈ shorthandOutline.states.entries, ∃ e ∈ s.2, e.literal = some []
        ∧ (Builder.openState {} s.1).states.contains s.1 = true
        ∧ e.addTo (Builder.openState {} s.1) s.1 = .ok { Builder.openState {} s.1 with actions := ["cmd_nop"] } := by
  have hcheck : Outline.check shorthandDocument = .ok shorthandOutline := by rfl
  obtain ⟨hexplicit, hread, htable, hempty⟩ := toTable_explicit hcheck
  have hsome : (toTable shorthandDocument).toOption.isSome = true := by decide +kernel
  refine ⟨hcheck, hexplicit, hread, ?_, _, List.mem_cons_self, _, List.mem_cons_self, rfl, rfl,
    hempty _ List.mem_cons_self _ List.mem_cons_self rfl _ rfl⟩
  cases hok : toTable shorthandDocument with
  | error e =>
    rw [hok] at hsome
    cases hsome
  | ok t => exact ⟨t, rfl, htable.trans hok⟩

end Document

end CommandGrammar
