import CommandGrammar.Document.Load
import CommandGrammar.Proofs.Validity
import Mathlib.Data.List.Forall2

/-!
# Documents that pass the check

What a document has to look like so that its check finds nothing, and what is then read off it. The relations
say for each kind of field which values it may have, absent ones among them; `ReadsEntry` and `ReadsOutline`
put them together for the two kinds of objects.

* `Checked.all_eq_ok_iff` — parts are checked together exactly when each of them is.
* `Entry.check_eq_ok_iff`, `Outline.check_eq_ok_iff` — the check finds nothing exactly in what is read.
-/

namespace CommandGrammar

/-! ## Checks that find nothing -/

namespace Checked

variable {κ α β : Type}

@[simp] theorem map_eq_ok_iff {f : α → β} {c : Checked κ α} {b : β} :
    c.map f = .ok b ↔ ∃ a, c = .ok a ∧ f a = b := by
  cases c <;> simp [map]

@[simp] theorem ap_eq_ok_iff {f : Checked κ (α → β)} {c : Checked κ α} {b : β} :
    f.ap c = .ok b ↔ ∃ g a, f = .ok g ∧ c = .ok a ∧ g a = b := by
  cases f <;> cases c <;> simp [ap]

@[simp] theorem andThen_eq_ok_iff {c : Checked κ α} {f : α → Checked κ β} {b : β} :
    c.andThen f = .ok b ↔ ∃ a, c = .ok a ∧ f a = .ok b := by
  cases c <;> simp [andThen]

@[simp] theorem under_eq_ok_iff {step : PathStep} {c : Checked κ α} {a : α} :
    c.under step = .ok a ↔ c = .ok a := by
  cases c <;> simp [under]

@[simp] theorem fmap_eq_ok_iff {f : α → β} {c : Checked κ α} {b : β} :
    f <$> c = .ok b ↔ ∃ a, c = .ok a ∧ f a = b :=
  map_eq_ok_iff

@[simp] theorem seq_eq_ok_iff {f : Checked κ (α → β)} {c : Checked κ α} {b : β} :
    f <*> c = .ok b ↔ ∃ g a, f = .ok g ∧ c = .ok a ∧ g a = b :=
  ap_eq_ok_iff

@[simp] theorem seqLeft_eq_ok_iff {c : Checked κ α} {d : Checked κ β} {a : α} :
    c <* d = .ok a ↔ c = .ok a ∧ ∃ b, d = .ok b := by
  have hseq : (c <* d) = Function.const β <$> c <*> d := rfl
  rw [hseq]
  cases c <;> cases d <;> simp

/-- **Parts are in order together when each of them is.** -/
theorem all_eq_ok_iff {cs : List (Checked κ α)} {as : List α} :
    all cs = .ok as ↔ List.Forall₂ (fun c a => c = .ok a) cs as := by
  induction cs generalizing as with
  | nil => simp [all, eq_comm]
  | cons c rest ih => cases as <;> simp [all, ih]

end Checked

namespace Document

open Checked

/-! ## What fields may be -/

/-- A value as it comes from a text in JSON: no bytes, sets or points in time, and objects with different
texts for keys. -/
inductive Value.IsJson : Value → Prop where
  | null : IsJson .null
  | bool (b : Bool) : IsJson (.bool b)
  | int (i : Int) : IsJson (.scalar (.int i))
  | float (x : Decimal.Binary64) : IsJson (.scalar (.float x))
  | text (s : String) : IsJson (.text s)
  | seq {items : List Value} (h : ∀ v ∈ items, IsJson v) : IsJson (.seq items)
  | map {entries : List (Scalar × Value)} (hkeys : ∀ e ∈ entries, ∃ name, e.1 = .text name)
    (hnodup : (entries.map Prod.fst).Nodup) (h : ∀ e ∈ entries, IsJson e.2) : IsJson (.map entries)

/-- A text that may be absent or null. -/
inductive ReadsText? : Option Value → Option String → Prop where
  | absent : ReadsText? none none
  | null : ReadsText? (some .null) none
  | text (s : String) : ReadsText? (some (.text s)) (some s)

/-- The texts of a literal: absent or null, one text, or a list of texts. -/
inductive ReadsKeywords : Option Value → Option (List String) → Prop where
  | absent : ReadsKeywords none none
  | null : ReadsKeywords (some .null) none
  | one (s : String) : ReadsKeywords (some (.text s)) (some [s])
  | many (texts : List String) : ReadsKeywords (some (.seq (texts.map .text))) (some texts)

/-- A truth value: absent for false, one of the two, a number equal to zero or one, or one of a few words in any
ASCII case. -/
inductive ReadsFlag : Option Value → Bool → Prop where
  | absent : ReadsFlag none false
  | bool (b : Bool) : ReadsFlag (some (.bool b)) b
  | zero : ReadsFlag (some (.scalar (.int 0))) false
  | one : ReadsFlag (some (.scalar (.int 1))) true
  | floatZero {x : Decimal.Binary64} (h : x.toInt? = some 0) : ReadsFlag (some (.scalar (.float x))) false
  | floatOne {x : Decimal.Binary64} (h : x.toInt? = some 1) : ReadsFlag (some (.scalar (.float x))) true
  | word {s : String} {b : Bool} (h : (String.ofList (s.toList.map Char.toLower), b) ∈ boolWords) :
    ReadsFlag (some (.text s)) b

/-- The shape of a token entry: it is of exactly one kind, has at most one of `goto` and `call`, has `then` with
`call` alone, and captures nothing at the end of a command. -/
structure Entry.WellShaped (e : Entry) : Prop where
  kind : e.kindCount = 1
  target : e.goto = none ∨ e.call = none
  next : e.next ≠ none → e.call ≠ none
  ends : e.commandEnd = true → e.capture = none

/-- A token entry that is read off a value: an object without unknown fields, in good shape. -/
inductive ReadsEntry : Value → Entry → Prop where
  | intro {fields : List (Scalar × Value)} {e : Entry}
    (hknown : ∀ f ∈ fields, ∃ name ∈ Entry.fieldNames, f.1 = .text name)
    (hliteral : ReadsKeywords (Value.field? fields "literal") e.literal)
    (hword : ReadsFlag (Value.field? fields "word") e.word)
    (hstring : ReadsFlag (Value.field? fields "string") e.string)
    (hend : ReadsFlag (Value.field? fields "end") e.commandEnd)
    (hcapture : ReadsText? (Value.field? fields "capture") e.capture)
    (hgoto : ReadsText? (Value.field? fields "goto") e.goto)
    (hcall : ReadsText? (Value.field? fields "call") e.call)
    (hthen : ReadsText? (Value.field? fields "then") e.next)
    (hshape : e.WellShaped) : ReadsEntry (.map fields) e

/-- A state that is read off an entry of an object: its name and the list of its token entries. -/
inductive ReadsState : Scalar × Value → StateName × List Entry → Prop where
  | intro {name : String} {items : List Value} {es : List Entry} (h : List.Forall₂ ReadsEntry items es) :
    ReadsState (.text name, .seq items) (name, es)

/-- The initial state, which is named only if it is another one than usual. -/
inductive ReadsInitial : Option Value → StateName → Prop where
  | absent : ReadsInitial none defaultInitial
  | text (s : String) : ReadsInitial (some (.text s)) s

/-- A document that is read off a value: an object without unknown fields, with an object of states. -/
inductive ReadsOutline : Value → Outline → Prop where
  | intro {fields states : List (Scalar × Value)} {o : Outline}
    (hknown : ∀ f ∈ fields, ∃ name ∈ Outline.fieldNames, f.1 = .text name)
    (hinitial : ReadsInitial (Value.field? fields "initial") o.initial)
    (hstates : Value.field? fields "states" = some (.map states))
    (h : List.Forall₂ ReadsState states o.states.entries) : ReadsOutline (.map fields) o

/-! ## What stands for an absent field -/

theorem readsText?_none_iff {o : Option String} : ReadsText? none o ↔ none = o :=
  ⟨fun | .absent => rfl, fun | rfl => .absent⟩

theorem readsKeywords_none_iff {o : Option (List String)} : ReadsKeywords none o ↔ none = o :=
  ⟨fun | .absent => rfl, fun | rfl => .absent⟩

theorem readsFlag_none_iff {b : Bool} : ReadsFlag none b ↔ false = b :=
  ⟨fun | .absent => rfl, fun | rfl => .absent⟩

theorem readsInitial_none_iff {s : StateName} : ReadsInitial none s ↔ defaultInitial = s :=
  ⟨fun | .absent => rfl, fun | rfl => .absent⟩

/-! ## Lists of parts -/

/-- Relations that agree on the members of a list relate it to the same lists. -/
theorem forall₂_congr_left {α β : Type} {r s : α → β → Prop} {as : List α}
    (h : ∀ a ∈ as, ∀ b, r a b ↔ s a b) {bs : List β} :
    List.Forall₂ r as bs ↔ List.Forall₂ s as bs := by
  induction as generalizing bs with
  | nil => simp
  | cons a as ih =>
    cases bs with
    | nil => simp
    | cons b bs =>
      rw [List.forall₂_cons, List.forall₂_cons, h a List.mem_cons_self,
        ih fun a' ha' => h a' (List.mem_cons_of_mem a ha')]

/-- A list is related to some list when each of its members is related to something. -/
theorem exists_forall₂_iff {α β : Type} {r : α → β → Prop} {as : List α} :
    (∃ bs, List.Forall₂ r as bs) ↔ ∀ a ∈ as, ∃ b, r a b := by
  induction as with
  | nil => simp
  | cons a as ih =>
    rw [List.forall_mem_cons, ← ih]
    constructor
    · rintro ⟨bs, h⟩
      obtain ⟨b, bs, hb, hbs, rfl⟩ := List.forall₂_cons_left_iff.mp h
      exact ⟨⟨b, hb⟩, bs, hbs⟩
    · rintro ⟨⟨b, hb⟩, bs, hbs⟩
      exact ⟨b :: bs, .cons hb hbs⟩

theorem exists_of_forall₂_of_mem {α β : Type} {r : α → β → Prop} {as : List α} {bs : List β}
    (h : List.Forall₂ r as bs) {b : β} (hb : b ∈ bs) : ∃ a ∈ as, r a b := by
  induction h with
  | nil => cases hb
  | @cons a b' as bs hab _ ih =>
    rcases List.mem_cons.mp hb with rfl | hb
    · exact ⟨a, List.mem_cons_self, hab⟩
    · obtain ⟨a', ha', h'⟩ := ih hb
      exact ⟨a', List.mem_cons_of_mem a ha', h'⟩

/-- Each item of a list is in order by itself. -/
theorem checkEach_eq_ok_iff {α : Type} {check : Value → Checked α} {items : List Value} {as : List α} :
    checkEach check items = .ok as ↔ List.Forall₂ (fun v a => check v = .ok a) items as := by
  unfold checkEach
  rw [all_eq_ok_iff, List.forall₂_map_left_iff]
  simp only [under_eq_ok_iff]
  conv_rhs => rw [← List.zipIdx_map_fst 0 items, List.forall₂_map_left_iff]

/-- All keys are names of fields. -/
theorem checkKeys_eq_ok_iff {entries : List (Scalar × Value)} {fields : List String} :
    (∃ u, checkKeys entries fields = .ok u) ↔ ∀ f ∈ entries, ∃ name ∈ fields, f.1 = .text name := by
  unfold checkKeys
  have hunit : ∀ c : Checked (List Unit), (∃ u, c.map (fun _ => ()) = .ok u) ↔ ∃ us, c = .ok us := by
    intro c
    simp
  rw [hunit]
  simp only [all_eq_ok_iff, List.forall₂_map_left_iff, exists_forall₂_iff, under_eq_ok_iff]
  refine forall₂_congr fun f _ => ?_
  obtain ⟨key, value⟩ := f
  cases key <;> simp [defect]

/-! ## Fields -/

section Fields

variable {v : Value}

theorem checkText_eq_ok_iff (hv : v.IsJson) {s : String} : checkText v = .ok s ↔ v = .text s := by
  cases hv <;> simp [checkText, Value.null, Value.bool, Value.text, defect]

theorem checkText?_eq_ok_iff (hv : v.IsJson) {o : Option String} :
    checkText? v = .ok o ↔ ReadsText? (some v) o := by
  constructor
  · intro h
    cases hv with
    | null =>
      obtain rfl : none = o := Checked.ok.inj h
      exact .null
    | text s =>
      obtain rfl : some s = o := Checked.ok.inj h
      exact .text s
    | bool | int | float | seq | map => cases h
  · intro h
    cases h with
    | null | text => rfl

/-- Of the integers only zero and one stand for truth values. -/
theorem ofOption_boolOfInt?_eq_ok_iff {i : Int} {b : Bool} :
    checkBool.ofOption (boolOfInt? i) = .ok b ↔ i = 0 ∧ b = false ∨ i = 1 ∧ b = true := by
  unfold boolOfInt?
  split
  · next h => simp [h, checkBool.ofOption, eq_comm]
  · next h =>
    split
    · next h' => simp [h', checkBool.ofOption, eq_comm]
    · next h' => simp [h, h', checkBool.ofOption, defect]

theorem boolOfWord?_eq_some_iff {s : String} {b : Bool} :
    boolOfWord? s = some b ↔ (String.ofList (s.toList.map Char.toLower), b) ∈ boolWords := by
  have hnodup : (boolWords.map Prod.fst).Nodup := by decide
  exact OrderedMap.get?_eq_some_iff (m := ⟨boolWords, hnodup⟩)

theorem ofOption_eq_ok_iff {o : Option Bool} {b : Bool} : checkBool.ofOption o = .ok b ↔ o = some b := by
  cases o <;> simp [checkBool.ofOption, defect]

theorem checkBool_eq_ok_iff (hv : v.IsJson) {b : Bool} : checkBool v = .ok b ↔ ReadsFlag (some v) b := by
  have hlimit : 1 < wordLimit := by decide
  constructor
  · intro h
    cases hv with
    | bool b' =>
      obtain rfl : b' = b := Checked.ok.inj h
      exact .bool b'
    | int i =>
      simp only [checkBool] at h
      split at h
      · rcases ofOption_boolOfInt?_eq_ok_iff.mp h with ⟨rfl, rfl⟩ | ⟨rfl, rfl⟩
        · exact .zero
        · exact .one
      · cases h
    | float x =>
      simp only [checkBool] at h
      split at h
      · next i hx =>
        split at h
        · rcases ofOption_boolOfInt?_eq_ok_iff.mp h with ⟨rfl, rfl⟩ | ⟨rfl, rfl⟩
          · exact .floatZero hx
          · exact .floatOne hx
        · cases h
      · cases h
    | text s =>
      have h' : checkBool.ofOption (boolOfWord? s) = .ok b := h
      exact .word (boolOfWord?_eq_some_iff.mp (ofOption_eq_ok_iff.mp h'))
    | null | seq | map => cases h
  · intro h
    cases h with
    | bool | zero | one => rfl
    | floatZero hx =>
      simp only [checkBool, hx]
      rfl
    | floatOne hx =>
      simp only [checkBool, hx]
      rfl
    | word h => exact ofOption_eq_ok_iff.mpr (boolOfWord?_eq_some_iff.mpr h)

/-- A list of texts. -/
theorem forall₂_text_iff {items : List Value} {texts : List String} :
    List.Forall₂ (fun v s => v = .text s) items texts ↔ items = texts.map .text := by
  rw [← List.forall₂_map_right_iff (R := Eq), List.forall₂_eq_eq_eq]

theorem checkKeywords_eq_ok_iff (hv : v.IsJson) {o : Option (List String)} :
    checkKeywords v = .ok o ↔ ReadsKeywords (some v) o := by
  have htexts : ∀ {items : List Value}, (∀ v ∈ items, v.IsJson) → ∀ {texts : List String},
      (checkItems (.seq items)).andThen (checkEach checkText) = .ok texts ↔ items = texts.map .text := by
    intro items h texts
    show checkEach checkText items = .ok texts ↔ _
    rw [checkEach_eq_ok_iff, forall₂_congr_left fun v hm s => checkText_eq_ok_iff (h v hm)]
    exact forall₂_text_iff
  constructor
  · intro h
    cases hv with
    | null =>
      obtain rfl : none = o := Checked.ok.inj h
      exact .null
    | text s =>
      obtain rfl : some [s] = o := Checked.ok.inj h
      exact .one s
    | @seq items hitems =>
      cases hl : (checkItems (.seq items)).andThen (checkEach checkText) with
      | ok texts =>
        simp only [checkKeywords, checkText, defect, hl] at h
        obtain rfl : some texts = o := Checked.ok.inj h
        rw [(htexts hitems).mp hl]
        exact .many texts
      | rejected defects =>
        simp only [checkKeywords, checkText, defect, hl] at h
        cases h
    | bool | int | float | map => cases h
  · intro h
    cases h with
    | null | one => rfl
    | many texts =>
      have hitems : ∀ v ∈ texts.map Value.text, v.IsJson := by
        cases hv with
        | seq h => exact h
      have hl := (htexts hitems).mpr rfl
      simp only [checkKeywords, checkText, defect, hl]

/-- A field that may be absent is read off what stands there. -/
theorem checkField_eq_ok_iff {α : Type} {entries : List (Scalar × Value)} {name : String} {a a' : α}
    {check : Value → Checked α} {reads : Option Value → α → Prop}
    (hv : (Value.map entries).IsJson) (habsent : reads none a ↔ a' = a)
    (hcheck : ∀ v : Value, v.IsJson → (check v = .ok a ↔ reads (some v) a)) :
    checkField entries name (.ok a') check = .ok a ↔ reads (Value.field? entries name) a := by
  unfold checkField
  rw [under_eq_ok_iff]
  cases hfield : Value.field? entries name with
  | none => simp [habsent]
  | some v =>
    obtain ⟨before, after, hentries, -⟩ := List.lookup_eq_some_iff.mp hfield
    refine hcheck v ?_
    cases hv with
    | map _ _ h => exact h (.text name, v) (by simp [hentries])

end Fields

/-! ## Objects -/

/-- **No fault is found in the shape exactly when it is in order.** -/
theorem Entry.shapeError?_eq_none_iff {e : Entry} : e.shapeError? = none ↔ e.WellShaped := by
  have htarget : (e.goto = none ∨ e.call = none) ↔ ¬ (e.goto.isSome ∧ e.call.isSome) := by
    cases e.goto <;> cases e.call <;> simp
  have hnext : (e.next ≠ none → e.call ≠ none) ↔ ¬ (e.next.isSome ∧ e.call.isNone) := by
    cases e.next <;> cases e.call <;> simp
  have hends : (e.commandEnd = true → e.capture = none) ↔ ¬ (e.commandEnd ∧ e.capture.isSome) := by
    cases e.commandEnd <;> cases e.capture <;> simp
  unfold Entry.shapeError?
  constructor
  · intro h
    split at h
    · cases h
    next h1 =>
    split at h
    · cases h
    next h2 =>
    split at h
    · cases h
    next h3 =>
    split at h
    · cases h
    next h4 => exact ⟨Classical.not_not.mp h1, htarget.mpr h2, hnext.mpr h3, hends.mpr h4⟩
  · intro h
    rw [if_neg (Classical.not_not.mpr h.kind), if_neg (htarget.mp h.target), if_neg (hnext.mp h.next),
      if_neg (hends.mp h.ends)]

theorem Entry.checkShape_eq_ok_iff {d e : Entry} : checkShape d = .ok e ↔ d = e ∧ e.WellShaped := by
  unfold checkShape
  rw [← shapeError?_eq_none_iff]
  cases hd : d.shapeError? with
  | none =>
    simp only [Checked.ok.injEq, iff_self_and]
    rintro rfl
    exact hd
  | some error =>
    refine iff_of_false (by simp [defect]) ?_
    rintro ⟨rfl, hno⟩
    rw [hd] at hno
    cases hno

theorem Entry.checkFields_eq_ok_iff {entries : List (Scalar × Value)} {e : Entry} :
    Entry.checkFields entries = .ok e
      ↔ checkField entries "literal" (.ok none) checkKeywords = .ok e.literal
        ∧ checkField entries "word" (.ok false) checkBool = .ok e.word
        ∧ checkField entries "string" (.ok false) checkBool = .ok e.string
        ∧ checkField entries "end" (.ok false) checkBool = .ok e.commandEnd
        ∧ checkField entries "capture" (.ok none) checkText? = .ok e.capture
        ∧ checkField entries "goto" (.ok none) checkText? = .ok e.goto
        ∧ checkField entries "call" (.ok none) checkText? = .ok e.call
        ∧ checkField entries "then" (.ok none) checkText? = .ok e.next
        ∧ ∃ u, checkKeys entries Entry.fieldNames = .ok u := by
  unfold Entry.checkFields
  simp only [seqLeft_eq_ok_iff, seq_eq_ok_iff, fmap_eq_ok_iff]
  constructor
  · rintro ⟨⟨_, _, ⟨_, _, ⟨_, _, ⟨_, _, ⟨_, _, ⟨_, _, ⟨_, _, ⟨_, h1, rfl⟩, h2, rfl⟩, h3, rfl⟩, h4, rfl⟩, h5, rfl⟩,
      h6, rfl⟩, h7, rfl⟩, h8, rfl⟩, hkeys⟩
    exact ⟨h1, h2, h3, h4, h5, h6, h7, h8, hkeys⟩
  · rintro ⟨h1, h2, h3, h4, h5, h6, h7, h8, hkeys⟩
    exact ⟨⟨_, _, ⟨_, _, ⟨_, _, ⟨_, _, ⟨_, _, ⟨_, _, ⟨_, _, ⟨_, h1, rfl⟩, h2, rfl⟩, h3, rfl⟩, h4, rfl⟩, h5, rfl⟩,
      h6, rfl⟩, h7, rfl⟩, h8, rfl⟩, hkeys⟩

/-- **The check of a token entry finds nothing exactly in an entry that can be read**, and reads it. -/
theorem Entry.check_eq_ok_iff {v : Value} (hv : v.IsJson) {e : Entry} :
    Entry.check v = .ok e ↔ ReadsEntry v e := by
  cases hv with
  | @map entries hkeys hnodup h =>
    have hjson : (Value.map entries).IsJson := .map hkeys hnodup h
    have hfields : Entry.checkFields entries = .ok e ∧ e.WellShaped ↔ ReadsEntry (.map entries) e := by
      rw [checkFields_eq_ok_iff, checkField_eq_ok_iff hjson readsKeywords_none_iff fun _ h => checkKeywords_eq_ok_iff h,
        checkField_eq_ok_iff hjson readsFlag_none_iff fun _ h => checkBool_eq_ok_iff h,
        checkField_eq_ok_iff hjson readsFlag_none_iff fun _ h => checkBool_eq_ok_iff h,
        checkField_eq_ok_iff hjson readsFlag_none_iff fun _ h => checkBool_eq_ok_iff h,
        checkField_eq_ok_iff hjson readsText?_none_iff fun _ h => checkText?_eq_ok_iff h,
        checkField_eq_ok_iff hjson readsText?_none_iff fun _ h => checkText?_eq_ok_iff h,
        checkField_eq_ok_iff hjson readsText?_none_iff fun _ h => checkText?_eq_ok_iff h,
        checkField_eq_ok_iff hjson readsText?_none_iff fun _ h => checkText?_eq_ok_iff h, checkKeys_eq_ok_iff]
      constructor
      · rintro ⟨⟨h1, h2, h3, h4, h5, h6, h7, h8, hknown⟩, hshape⟩
        exact .intro hknown h1 h2 h3 h4 h5 h6 h7 h8 hshape
      · rintro ⟨hknown, h1, h2, h3, h4, h5, h6, h7, h8, hshape⟩
        exact ⟨⟨h1, h2, h3, h4, h5, h6, h7, h8, hknown⟩, hshape⟩
    show (checkFields entries).andThen checkShape = .ok e ↔ _
    rw [andThen_eq_ok_iff, ← hfields]
    constructor
    · rintro ⟨d, hd, hs⟩
      obtain ⟨rfl, hs⟩ := checkShape_eq_ok_iff.mp hs
      exact ⟨hd, hs⟩
    · rintro ⟨hd, hs⟩
      exact ⟨e, hd, checkShape_eq_ok_iff.mpr ⟨rfl, hs⟩⟩
  | null | bool | int | float | text | seq =>
    constructor
    · rintro ⟨⟩
    · rintro ⟨⟩

/-- The token entries of a state. -/
theorem checkTokens_eq_ok_iff {v : Value} (hv : v.IsJson) {es : List Entry} :
    Outline.checkTokens v = .ok es ↔ ∃ items, v = .seq items ∧ List.Forall₂ ReadsEntry items es := by
  cases hv with
  | @seq items h =>
    show checkEach Entry.check items = .ok es ↔ _
    rw [checkEach_eq_ok_iff, forall₂_congr_left fun v hm e => Entry.check_eq_ok_iff (h v hm)]
    simp
  | null | bool | int | float | text | map =>
    constructor
    · rintro ⟨⟩
    · rintro ⟨_, h, -⟩
      cases h

theorem checkState_eq_ok_iff {f : Scalar × Value} (hkey : ∃ name, f.1 = .text name) (hv : f.2.IsJson)
    {s : StateName × List Entry} : Outline.checkState f = .ok s ↔ ReadsState f s := by
  obtain ⟨key, v⟩ := f
  obtain ⟨name, es⟩ := s
  obtain ⟨name', rfl : key = .text name'⟩ := hkey
  unfold Outline.checkState
  simp only [under_eq_ok_iff, seq_eq_ok_iff, fmap_eq_ok_iff, checkTokens_eq_ok_iff hv]
  constructor
  · rintro ⟨_, _, ⟨_, hname, rfl⟩, ⟨items, rfl, h⟩, heq⟩
    obtain ⟨rfl, rfl⟩ := Prod.mk.inj heq
    obtain rfl := Checked.ok.inj hname
    exact .intro h
  · rintro ⟨h⟩
    exact ⟨_, _, ⟨_, rfl, rfl⟩, ⟨_, rfl, h⟩, rfl⟩

/-- The names of the states read are the keys under which they stand. -/
theorem keys_of_forall₂_readsState {states : List (Scalar × Value)} {ss : List (StateName × List Entry)}
    (h : List.Forall₂ ReadsState states ss) : states.map Prod.fst = (ss.map Prod.fst).map .text := by
  induction h with
  | nil => rfl
  | cons hs _ ih =>
    cases hs
    rw [List.map_cons, ih]
    rfl

theorem checkStates_eq_ok_iff {v : Value} (hv : v.IsJson) {m : OrderedMap StateName (List Entry)} :
    Outline.checkStates v = .ok m ↔ ∃ states, v = .map states ∧ List.Forall₂ ReadsState states m.entries := by
  cases hv with
  | @map states hkeys hnodup h =>
    show (Checked.all (states.map Outline.checkState)).map .ofList = .ok m ↔ _
    rw [map_eq_ok_iff]
    simp only [all_eq_ok_iff, List.forall₂_map_left_iff,
      forall₂_congr_left fun f hf s => checkState_eq_ok_iff (hkeys f hf) (h f hf)]
    constructor
    · rintro ⟨ss, hss, rfl⟩
      rw [keys_of_forall₂_readsState hss] at hnodup
      refine ⟨states, rfl, ?_⟩
      have hnames : (ss.map Prod.fst).Nodup :=
        List.Pairwise.of_map Scalar.text (fun _ _ hne h => hne (congrArg Scalar.text h)) hnodup
      rwa [OrderedMap.entries_ofList hnames]
    · rintro ⟨_, hstates, hss⟩
      obtain rfl := Value.map.inj hstates
      exact ⟨m.entries, hss, OrderedMap.ext (OrderedMap.entries_ofList m.nodup)⟩
  | null | bool | int | float | text | seq =>
    constructor
    · rintro ⟨⟩
    · rintro ⟨_, h, -⟩
      cases h

/-- The fields of a document that is read, and that they are all there are. -/
theorem Outline.check_map_eq_ok_iff {fields : List (Scalar × Value)} {o : Outline} :
    Outline.check (.map fields) = .ok o
      ↔ checkField fields "initial" (.ok defaultInitial) checkText = .ok o.initial
        ∧ checkField fields "states" (.defect .missing) Outline.checkStates = .ok o.states
        ∧ ∃ u, checkKeys fields Outline.fieldNames = .ok u := by
  unfold Outline.check
  simp only [seqLeft_eq_ok_iff, seq_eq_ok_iff, fmap_eq_ok_iff]
  constructor
  · rintro ⟨⟨_, _, ⟨_, hinitial, rfl⟩, hstates, rfl⟩, hkeys⟩
    exact ⟨hinitial, hstates, hkeys⟩
  · rintro ⟨hinitial, hstates, hkeys⟩
    exact ⟨⟨_, _, ⟨_, hinitial, rfl⟩, hstates, rfl⟩, hkeys⟩

/-- The states of a document that is read are there. -/
theorem Outline.exists_states_of_check {fields : List (Scalar × Value)} {m : OrderedMap StateName (List Entry)}
    (h : checkField fields "states" (.defect .missing) Outline.checkStates = .ok m) :
    ∃ states, Value.field? fields "states" = some (.map states) ∧ Outline.checkStates (.map states) = .ok m := by
  unfold checkField at h
  rw [under_eq_ok_iff] at h
  cases hfield : Value.field? fields "states" with
  | none =>
    rw [hfield] at h
    cases h
  | some v =>
    rw [hfield, Option.elim_some] at h
    cases v with
    | map states => exact ⟨states, rfl, h⟩
    | scalar | seq | set => cases h

/-- **The check of a document finds nothing exactly in a document that can be read**, and reads it. -/
theorem Outline.check_eq_ok_iff {v : Value} (hv : v.IsJson) {o : Outline} :
    Outline.check v = .ok o ↔ ReadsOutline v o := by
  have htext : ∀ v : Value, v.IsJson → ∀ {s}, checkText v = .ok s ↔ ReadsInitial (some v) s := by
    intro v h s
    rw [checkText_eq_ok_iff h]
    constructor
    · rintro rfl
      exact .text s
    · rintro ⟨⟩
      rfl
  cases hv with
  | @map fields hkeys hnodup h =>
    have hjson : (Value.map fields).IsJson := .map hkeys hnodup h
    have hmissing : checkField fields "states" (.defect .missing) Outline.checkStates = .ok o.states
        ↔ ∃ states, Value.field? fields "states" = some (.map states)
          ∧ List.Forall₂ ReadsState states o.states.entries := by
      unfold checkField
      rw [under_eq_ok_iff]
      cases hfield : Value.field? fields "states" with
      | none => simp [defect]
      | some v =>
        obtain ⟨before, after, hentries, -⟩ := List.lookup_eq_some_iff.mp hfield
        rw [Option.elim_some, checkStates_eq_ok_iff (h (.text "states", v) (by simp [hentries]))]
        simp
    rw [check_map_eq_ok_iff, checkField_eq_ok_iff hjson readsInitial_none_iff fun v h => htext v h, hmissing,
      checkKeys_eq_ok_iff]
    constructor
    · rintro ⟨hinitial, ⟨states, hstates, hss⟩, hknown⟩
      exact .intro hknown hinitial hstates hss
    · rintro ⟨hknown, hinitial, hstates, hss⟩
      exact ⟨hinitial, ⟨_, hstates, hss⟩, hknown⟩
  | null | bool | int | float | text | seq =>
    constructor
    · rintro ⟨⟩
    · rintro ⟨⟩

/-- Every entry of a checked document is in good shape, whatever kind of value it comes from. -/
theorem Outline.wellShaped_of_check {v : Value} {o : Outline} (h : Outline.check v = .ok o) :
    ∀ s ∈ o.states.entries, ∀ e ∈ s.2, e.WellShaped := by
  have hentry : ∀ {v e}, Entry.check v = .ok e → e.WellShaped := by
    intro v e h
    cases v with
    | map entries =>
      obtain ⟨d, -, hd⟩ := andThen_eq_ok_iff.mp h
      exact (Entry.checkShape_eq_ok_iff.mp hd).2
    | scalar | seq | set => cases h
  have htokens : ∀ {v es}, Outline.checkTokens v = .ok es → ∀ e ∈ es, e.WellShaped := by
    intro v es h e he
    obtain ⟨items, -, hitems⟩ := andThen_eq_ok_iff.mp h
    obtain ⟨item, -, hitem⟩ := exists_of_forall₂_of_mem (checkEach_eq_ok_iff.mp hitems) he
    exact hentry hitem
  intro s hs
  cases v with
  | map fields =>
    obtain ⟨-, hstates, -⟩ := check_map_eq_ok_iff.mp h
    obtain ⟨entries, -, hstates⟩ := exists_states_of_check hstates
    obtain ⟨ss, hss, heq⟩ := map_eq_ok_iff.mp hstates
    rw [all_eq_ok_iff, List.forall₂_map_left_iff] at hss
    rw [← heq] at hs
    obtain ⟨f, -, hf⟩ := exists_of_forall₂_of_mem hss (OrderedMap.mem_of_mem_ofList hs)
    obtain ⟨pair, es, hpair, hes, rfl⟩ := seq_eq_ok_iff.mp (under_eq_ok_iff.mp hf)
    obtain ⟨name, -, rfl⟩ := fmap_eq_ok_iff.mp hpair
    exact htokens hes
  | scalar | seq | set => cases h

end Document

end CommandGrammar
