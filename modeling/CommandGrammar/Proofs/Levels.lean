import CommandGrammar.GrammarFile
import Mathlib.Tactic

/-!
# How deep a document is looked at

A value may have any number of levels, and the objects of a YAML text may even hold themselves, but the check of
a document looks at the first few levels only. So the objects need not be shown any deeper, and it makes no
difference how often an object that holds itself is shown inside itself.

* `Value.cut` — a value down to a number of levels.
* `Outline.check_cut` — the check does not look deeper than `levels`.
* `Yaml.Objects.cut_view` — what is shown of an object is the beginning of what is shown deeper.
* `GrammarFile.toTable_view` — the table of an object, however deep the object is shown.
-/

namespace CommandGrammar

namespace Document

variable {α : Type} {n : Nat}

/-- A value down to a number of levels; nothing stands for what lies deeper. -/
def Value.cut : (levels : Nat) → Value → Value
  | 0, _ => .null
  | _ + 1, .scalar s => .scalar s
  | levels + 1, .seq items => .seq (items.map (cut levels))
  | levels + 1, .map entries => .map (entries.map fun e => (e.1, cut levels e.2))
  | _ + 1, .set members => .set members

/-! ## Fields -/

theorem checkText_cut (v : Value) : checkText (v.cut (n + 1)) = checkText v := by
  cases v <;> rfl

theorem checkText?_cut (v : Value) : checkText? (v.cut (n + 1)) = checkText? v := by
  cases v <;> rfl

theorem checkBool_cut (v : Value) : checkBool (v.cut (n + 1)) = checkBool v := by
  cases v <;> rfl

/-- The items of a list are cut with it. -/
theorem checkItems_cut (v : Value) :
    checkItems (v.cut (n + 2)) = (checkItems v).map (List.map (Value.cut (n + 1))) := by
  cases v with
  | set members => simp [Value.cut, checkItems, Checked.map]
  | scalar | seq | map => rfl

/-- A check of the items that does not look deeper does not see that they are cut. -/
theorem checkEach_cut {check : Value → Checked α} (h : ∀ v, check (v.cut (n + 1)) = check v) (v : Value) :
    (checkItems (v.cut (n + 2))).andThen (checkEach check) = (checkItems v).andThen (checkEach check) := by
  rw [checkItems_cut]
  cases checkItems v with
  | ok items => simp [Checked.map, Checked.andThen, checkEach, List.zipIdx_map, Function.comp_def, h]
  | rejected => rfl

theorem checkKeywords_cut (v : Value) : checkKeywords (v.cut (n + 2)) = checkKeywords v := by
  have hlist := checkEach_cut (n := n) checkText_cut v
  cases v with
  | seq items =>
    simp only [Value.cut] at hlist
    simp only [Value.cut, checkKeywords, hlist]
    rfl
  | scalar | map | set => rfl

/-! ## Objects -/

/-- Entries with their values cut. -/
def cutEntries (levels : Nat) (entries : List (Scalar × Value)) : List (Scalar × Value) :=
  entries.map fun e => (e.1, e.2.cut levels)

theorem field?_cutEntries (entries : List (Scalar × Value)) (name : String) :
    Value.field? (cutEntries n entries) name = (Value.field? entries name).map (Value.cut n) := by
  unfold Value.field? cutEntries
  induction entries with
  | nil => rfl
  | cons e rest ih =>
    obtain ⟨key, v⟩ := e
    simp only [List.map_cons, List.lookup_cons, ih]
    cases Scalar.text name == key <;> rfl

theorem checkField_cutEntries {check : Value → Checked α} (h : ∀ v, check (v.cut n) = check v)
    (entries : List (Scalar × Value)) (name : String) (absent : Checked α) :
    checkField (cutEntries n entries) name absent check = checkField entries name absent check := by
  unfold checkField
  rw [field?_cutEntries]
  cases Value.field? entries name <;> simp [h]

/-- Of keys nothing is cut. -/
theorem checkKeys_cutEntries (entries : List (Scalar × Value)) (fields : List String) :
    checkKeys (cutEntries n entries) fields = checkKeys entries fields := by
  simp [checkKeys, cutEntries, Function.comp_def]

theorem Entry.check_cut (v : Value) : Entry.check (v.cut (n + 3)) = Entry.check v := by
  cases v with
  | map entries =>
    show (checkFields (cutEntries (n + 2) entries)).andThen checkShape = _
    simp only [checkFields, checkField_cutEntries checkKeywords_cut, checkField_cutEntries checkBool_cut,
      checkField_cutEntries checkText?_cut, checkKeys_cutEntries]
    rfl
  | scalar | seq | set => rfl

namespace Outline

theorem checkTokens_cut (v : Value) : checkTokens (v.cut (n + 4)) = checkTokens v :=
  checkEach_cut Entry.check_cut v

theorem checkStates_cut (v : Value) : checkStates (v.cut (n + 5)) = checkStates v := by
  cases v with
  | map entries =>
    simp only [Value.cut, checkStates, List.map_map]
    congr 3
    funext e
    simp only [Function.comp_apply, checkState, checkTokens_cut]
  | scalar | seq | set => rfl

/-- **The check of a document does not look deeper than six levels.** -/
theorem check_cut (v : Value) : check (v.cut (levels + n)) = check v := by
  rw [Nat.add_comm]
  cases v with
  | map entries =>
    show check (.map (cutEntries (n + 5) entries)) = _
    simp only [check, checkField_cutEntries checkText_cut, checkField_cutEntries checkStates_cut,
      checkKeys_cutEntries]
  | scalar | seq | set => rfl

end Outline

end Document

open Document

/-! ## Objects of a YAML text -/

/-- What is shown of an object is the beginning of what is shown of it deeper. -/
theorem Yaml.Objects.cut_view (o : Objects) {m n : Nat} (h : n ≤ m) (id : NodeId) :
    (o.view m id).cut n = o.view n id := by
  induction n using Nat.strong_induction_on generalizing m id with
  | _ n ih =>
    match n, m, h with
    | 0, _, _ => rfl
    | n + 1, m + 1, h =>
      have hle : n ≤ m := Nat.le_of_succ_le_succ h
      have hparts : ∀ id, (o.view m id).cut n = o.view n id := ih n (Nat.lt_succ_self n) hle
      unfold view
      cases o.object? id with
      | none => rfl
      | some object =>
        cases object with
        | scalar | nan | broken | set => rfl
        | seq items => simp [Value.cut, hparts]
        | map entries => simp [Value.cut, hparts]
        | pairs items =>
          -- A pair is a level of its own.
          match n, m, hle with
          | 0, _, _ =>
            simp only [Value.cut, List.map_map]
            rfl
          | n + 1, m + 1, hle =>
            have hinner : ∀ id, (o.view m id).cut n = o.view n id :=
              ih n (by omega) (Nat.le_of_succ_le_succ hle)
            simp [Value.cut, hinner]

namespace GrammarFile

/-- The table of a value is that of its first levels. -/
theorem toTable_cut (v : Value) : toTable (v.cut levels) = toTable v := by
  cases v with
  | map entries =>
    have h := Outline.check_cut (n := 0) (.map entries)
    show (Document.toTable ((Value.map entries).cut levels)).mapError LoadError.document = _
    unfold Document.toTable
    rw [show (Value.map entries).cut levels = (Value.map entries).cut (levels + 0) from rfl, h]
    rfl
  | scalar | seq | set => rfl

/-- **However deep the object of a YAML text is shown**, it describes the same table or has the same defects. -/
theorem toTable_view (o : Yaml.Objects) (id : Yaml.NodeId) {m : Nat} (h : levels ≤ m) :
    toTable (o.view m id) = toTable (o.view levels id) := by
  rw [← o.cut_view h, toTable_cut]

end GrammarFile

end CommandGrammar
