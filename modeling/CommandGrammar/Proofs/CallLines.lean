import CommandGrammar.Proofs.Lexing
import CommandGrammar.Proofs.Validity
import CommandGrammar.Text.Numeral
import CommandGrammar.Trace
import Mathlib.Data.List.Nodup

/-!
# Lines of calls

A call is written on one line, with its arguments sorted by name and their values between quotes. The names are
words, so they end where the sign behind them stands; a quoted value ends at its first quote that is not escaped.
What is written can therefore be read in one way only, whatever the values are, and no value breaks the line.

* `Text.unquote?_quotedChar` — a character between quotes is read back from what is written for it.
* `Text.quotedChars_append_inj` — a quoted text can be told from whatever follows it.
* `Call.writtenArguments_inj` — so can the arguments of a call.
* `Call.line_tells_call` — the statement about lines.
-/

namespace CommandGrammar

/-! ## Quoted texts -/

namespace Text

theorem digitValue?_hexDigit : ∀ value < 16, digitValue? (hexDigit value) = some value := by
  decide

/-- **Hexadecimal digits spell the number that they are written for**, if there is room for it. -/
theorem natOfDigits?_hexDigits {width value : Nat} (hwidth : 0 < width) (h : value < Nat.pow 16 width) :
    natOfDigits? 16 (hexDigits width value) = some value := by
  have hne : (hexDigits width value).isEmpty = false := by
    rw [List.isEmpty_eq_false_iff, ← List.length_pos_iff, length_hexDigits]
    exact hwidth
  unfold natOfDigits?
  rw [hne]
  clear hne hwidth
  show List.foldlM _ 0 _ = _
  induction width generalizing value with
  | zero =>
    obtain rfl : value = 0 := Nat.lt_one_iff.mp h
    rfl
  | succ width ih =>
    have hfront : value / 16 < Nat.pow 16 width := Nat.div_lt_of_lt_mul (by rwa [Nat.mul_comm])
    have hlast := digitValue?_hexDigit (value % 16) (Nat.mod_lt value (by decide))
    rw [hexDigits, List.foldlM_append, ih hfront]
    simp [hlast, Nat.mod_lt, Nat.div_add_mod']

/-- The character that stands first between quotes, taken out of its escape, and what follows. -/
def unquote? : List Char → Option (Char × List Char)
  | '\\' :: 'x' :: rest => (natOfDigits? 16 (rest.take 2)).map fun n => (Char.ofNat n, rest.drop 2)
  | '\\' :: 'u' :: rest => (natOfDigits? 16 (rest.take 4)).map fun n => (Char.ofNat n, rest.drop 4)
  | '\\' :: 'U' :: rest => (natOfDigits? 16 (rest.take 8)).map fun n => (Char.ofNat n, rest.drop 8)
  | '\\' :: 'n' :: rest => some ('\n', rest)
  | '\\' :: 'r' :: rest => some ('\r', rest)
  | '\\' :: 't' :: rest => some ('\t', rest)
  | '\\' :: c :: rest => some (c, rest)
  | c :: rest => some (c, rest)
  | [] => none

/-- The digits of a character's number are read back as that character. -/
theorem map_natOfDigits?_take {width : Nat} {c : Char} (hwidth : 0 < width) (h : c.toNat < Nat.pow 16 width)
    (rest : List Char) :
    (natOfDigits? 16 ((hexDigits width c.toNat ++ rest).take width)).map
        (fun n => (Char.ofNat n, (hexDigits width c.toNat ++ rest).drop width))
      = some (c, rest) := by
  have hlength := length_hexDigits width c.toNat
  rw [List.take_left' hlength, List.drop_left' hlength, natOfDigits?_hexDigits hwidth h, Option.map_some,
    Char.ofNat_toNat]

theorem unquote?_numberEscape (c : Char) (rest : List Char) :
    unquote? (numberEscape c ++ rest) = some (c, rest) := by
  unfold numberEscape
  split
  · next h => exact map_natOfDigits?_take (by decide) h rest
  · split
    · next h => exact map_natOfDigits?_take (by decide) h rest
    · have hcode : c.toNat < Nat.pow 16 8 := c.val.toNat_lt
      exact map_natOfDigits?_take (by decide) hcode rest

/-- **What is written for a character between quotes is read back as that character.** -/
theorem unquote?_quotedChar {mark : Char} (hmark : mark = '\x27' ∨ mark = '"') (c : Char) (rest : List Char) :
    unquote? (quotedChar mark c ++ rest) = some (c, rest) := by
  unfold quotedChar
  split
  · next h =>
    rcases h with rfl | rfl
    · rcases hmark with rfl | rfl <;> rfl
    · rfl
  next hplain =>
  split
  · next h => rw [h]; rfl
  split
  · next h => rw [h]; rfl
  split
  · next h => rw [h]; rfl
  split
  · -- A character that is not escaped is no backslash, so it is not read as the start of an escape.
    unfold unquote?
    split <;> simp_all
  · exact unquote?_numberEscape c rest

/-- What is written for a character does not begin with the quote. -/
theorem head?_quotedChar {mark : Char} (hmark : mark ≠ '\\') (c : Char) (rest : List Char) :
    (quotedChar mark c ++ rest).head? ≠ some mark := by
  unfold quotedChar numberEscape
  grind

theorem quoteMark_eq (cs : List Char) : quoteMark cs = '\x27' ∨ quoteMark cs = '"' := by
  unfold quoteMark
  split
  · exact Or.inr rfl
  · exact Or.inl rfl

/-- Up to the closing quote there is one way to read. -/
theorem flatMap_quotedChar_inj {mark : Char} (hmark : mark = '\x27' ∨ mark = '"') {as bs r s : List Char}
    (h : as.flatMap (quotedChar mark) ++ mark :: r = bs.flatMap (quotedChar mark) ++ mark :: s) :
    as = bs ∧ r = s := by
  have hne : mark ≠ '\\' := by
    rintro rfl
    revert hmark
    decide
  have hhead : ∀ (c : Char) (cs t : List Char),
      (List.flatMap (quotedChar mark) (c :: cs) ++ t).head? ≠ some mark := by
    intro c cs t
    rw [List.flatMap_cons, List.append_assoc]
    exact head?_quotedChar hne c _
  induction as generalizing bs with
  | nil =>
    cases bs with
    | nil => exact ⟨rfl, (List.cons.inj h).2⟩
    | cons b bs => exact absurd (congrArg List.head? h).symm (hhead b bs _)
  | cons a as ih =>
    cases bs with
    | nil => exact absurd (congrArg List.head? h) (hhead a as _)
    | cons b bs =>
      rw [List.flatMap_cons, List.flatMap_cons, List.append_assoc, List.append_assoc] at h
      have hread := congrArg unquote? h
      rw [unquote?_quotedChar hmark, unquote?_quotedChar hmark] at hread
      obtain ⟨rfl, hrest⟩ := Prod.mk.inj (Option.some.inj hread)
      obtain ⟨rfl, hrs⟩ := ih hrest
      exact ⟨rfl, hrs⟩

/-- **A quoted text can be told from whatever follows it.** -/
theorem quotedChars_append_inj {as bs r s : List Char} (h : quotedChars as ++ r = quotedChars bs ++ s) :
    as = bs ∧ r = s := by
  unfold quotedChars at h
  simp only [List.cons_append, List.append_assoc, List.nil_append, List.cons.injEq] at h
  obtain ⟨hmark, h⟩ := h
  rw [hmark] at h
  exact flatMap_quotedChar_inj (quoteMark_eq bs) h

/-! ## Characters that end lines -/

/-- The characters that end a line. -/
def lineBreaks : List Char :=
  ['\n', '\r', '\x0B', '\x0C', '\x1C', '\x1D', '\x1E', '\x85', '\u2028', '\u2029']

theorem not_mem_lineBreaks_of_isPrintable {c : Char} (h : isPrintable c = true) : c ∉ lineBreaks := by
  have hall : (lineBreaks.all fun d => !isPrintable d) = true := by decide +kernel
  intro hm
  have hc := List.all_eq_true.mp hall c hm
  simp [h] at hc

theorem forall_mem_hexDigits (width value : Nat) : ∀ c ∈ hexDigits width value, c ∉ lineBreaks := by
  have hall : ∀ digit < 16, hexDigit digit ∉ lineBreaks := by decide
  induction width generalizing value with
  | zero => simp [hexDigits]
  | succ width ih =>
    rw [hexDigits, List.forall_mem_append]
    exact ⟨ih (value / 16), List.forall_mem_singleton.mpr (hall _ (Nat.mod_lt value (by decide)))⟩

theorem forall_mem_numberEscape (c : Char) : ∀ d ∈ numberEscape c, d ∉ lineBreaks := by
  have hletter : ∀ letter, letter ∉ lineBreaks → ∀ width,
      ∀ d ∈ '\\' :: letter :: hexDigits width c.toNat, d ∉ lineBreaks := fun letter hletter width =>
    List.forall_mem_cons.mpr ⟨by decide, List.forall_mem_cons.mpr ⟨hletter, forall_mem_hexDigits width _⟩⟩
  unfold numberEscape
  split
  · exact hletter 'x' (by decide) 2
  split
  · exact hletter 'u' (by decide) 4
  · exact hletter 'U' (by decide) 8

/-- A character that ends lines is written by an escape. -/
theorem forall_mem_quotedChar {mark : Char} (hmark : mark ∉ lineBreaks) (c : Char) :
    ∀ d ∈ quotedChar mark c, d ∉ lineBreaks := by
  unfold quotedChar
  split
  · next hc =>
    refine List.forall_mem_cons.mpr ⟨by decide, List.forall_mem_singleton.mpr ?_⟩
    rcases hc with rfl | rfl
    · exact hmark
    · decide
  split
  · simp [lineBreaks]
  split
  · simp [lineBreaks]
  split
  · simp [lineBreaks]
  split
  · next h => exact List.forall_mem_singleton.mpr (not_mem_lineBreaks_of_isPrintable h)
  · exact forall_mem_numberEscape c

/-- **No quoted text breaks a line.** -/
theorem forall_mem_quotedChars (cs : List Char) : ∀ c ∈ quotedChars cs, c ∉ lineBreaks := by
  have hmark : quoteMark cs ∉ lineBreaks := by
    rcases quoteMark_eq cs with h | h <;> rw [h] <;> decide
  unfold quotedChars
  rw [List.cons_append, List.forall_mem_cons, List.forall_mem_append, List.forall_mem_singleton]
  refine ⟨hmark, fun c hc => ?_, hmark⟩
  obtain ⟨d, -, hd⟩ := List.mem_flatMap.mp hc
  exact forall_mem_quotedChar hmark d c hd

/-! ## Words -/

/-- An ASCII letter, a digit or an underscore. -/
def isWordChar (c : Char) : Bool := c.isAlphanum || c == '_'

theorem not_mem_lineBreaks_of_isWordChar {c : Char} (h : isWordChar c = true) : c ∉ lineBreaks := by
  have hall : (lineBreaks.all fun d => !isWordChar d) = true := by decide
  intro hm
  have hc := List.all_eq_true.mp hall c hm
  simp [h] at hc

/-- A word can be told from what follows it, if that does not begin with a character of words. -/
theorem word_append_inj {as bs r s : List Char} (ha : ∀ c ∈ as, isWordChar c = true)
    (hb : ∀ c ∈ bs, isWordChar c = true) (hr : ∀ c ∈ r.head?, isWordChar c = false)
    (hs : ∀ c ∈ s.head?, isWordChar c = false) (h : as ++ r = bs ++ s) : as = bs ∧ r = s := by
  have hword := congrArg (List.takeWhile isWordChar) h
  rw [takeWhile_append_of_stop ha hr, takeWhile_append_of_stop hb hs] at hword
  subst hword
  exact ⟨rfl, List.append_cancel_left h⟩

end Text

/-! ## Arguments -/

namespace Call

open Text

/-- An argument as it is written: its name, and its value between quotes. -/
def writtenArgument (a : String × String) : List Char := a.1.toList ++ '=' :: quotedChars a.2.toList

/-- Arguments as they are written, up to the closing bracket. -/
def writtenArguments : List (String × String) → List Char
  | [] => [')']
  | a :: rest => writtenArgument a ++ (rest.flatMap fun b => ',' :: ' ' :: writtenArgument b) ++ [')']

/-- The name of an argument is a word. -/
def HasWord (a : String × String) : Prop := ∀ c ∈ a.1.toList, isWordChar c = true

instance (a : String × String) : Decidable (HasWord a) :=
  List.decidableBAll _ a.1.toList

/-- **An argument can be told from whatever follows it.** -/
theorem writtenArgument_append_inj {a b : String × String} {r s : List Char} (ha : HasWord a) (hb : HasWord b)
    (h : writtenArgument a ++ r = writtenArgument b ++ s) : a = b ∧ r = s := by
  unfold writtenArgument at h
  rw [List.append_assoc, List.append_assoc] at h
  obtain ⟨hname, hrest⟩ := word_append_inj ha hb (by simp; decide) (by simp; decide) h
  rw [List.cons_append, List.cons_append] at hrest
  obtain ⟨hvalue, hrs⟩ := quotedChars_append_inj (List.cons.inj hrest).2
  exact ⟨Prod.ext (String.toList_injective hname) (String.toList_injective hvalue), hrs⟩

/-- Further arguments are followed by a comma each, until the bracket closes. -/
theorem flatMap_writtenArgument_inj {as bs : List (String × String)} (ha : ∀ a ∈ as, HasWord a)
    (hb : ∀ b ∈ bs, HasWord b)
    (h : (as.flatMap fun a => ',' :: ' ' :: writtenArgument a) ++ [')']
      = (bs.flatMap fun b => ',' :: ' ' :: writtenArgument b) ++ [')']) : as = bs := by
  induction as generalizing bs with
  | nil =>
    cases bs with
    | nil => rfl
    | cons b bs => simp at h
  | cons a as ih =>
    cases bs with
    | nil => simp at h
    | cons b bs =>
      rw [List.forall_mem_cons] at ha hb
      simp only [List.flatMap_cons, List.cons_append, List.append_assoc, List.cons.injEq, true_and] at h
      obtain ⟨rfl, hrest⟩ := writtenArgument_append_inj ha.1 hb.1 h
      rw [ih ha.2 hb.2 hrest]

/-- **Arguments are read from a line in one way only.** -/
theorem writtenArguments_inj {as bs : List (String × String)} (ha : ∀ a ∈ as, HasWord a)
    (hb : ∀ b ∈ bs, HasWord b) (h : writtenArguments as = writtenArguments bs) : as = bs := by
  -- An argument begins with its name or, if that is empty, with the sign behind it, so never with the bracket.
  have hhead : ∀ {a : String × String} {cs}, HasWord a → writtenArgument a ++ cs ≠ [')'] := by
    intro a cs hword hbracket
    unfold writtenArgument at hbracket
    cases hname : a.1.toList with
    | nil => simp [hname] at hbracket
    | cons c name =>
      have hc := hword c (by simp [hname])
      simp only [hname, List.cons_append, List.cons.injEq] at hbracket
      rw [hbracket.1] at hc
      revert hc
      decide
  cases as with
  | nil =>
    cases bs with
    | nil => rfl
    | cons b bs =>
      rw [writtenArguments, writtenArguments, List.append_assoc] at h
      exact absurd h.symm (hhead (hb b List.mem_cons_self))
  | cons a as =>
    cases bs with
    | nil =>
      rw [writtenArguments, writtenArguments, List.append_assoc] at h
      exact absurd h (hhead (ha a List.mem_cons_self))
    | cons b bs =>
      rw [List.forall_mem_cons] at ha hb
      rw [writtenArguments, writtenArguments, List.append_assoc, List.append_assoc] at h
      obtain ⟨rfl, hrest⟩ := writtenArgument_append_inj ha.1 hb.1 h
      rw [flatMap_writtenArgument_inj ha.2 hb.2 hrest]

theorem forall_mem_writtenArgument {a : String × String} (ha : HasWord a) :
    ∀ c ∈ writtenArgument a, c ∉ lineBreaks := by
  unfold writtenArgument
  rw [List.forall_mem_append, List.forall_mem_cons]
  exact ⟨fun c hc => not_mem_lineBreaks_of_isWordChar (ha c hc), by decide, forall_mem_quotedChars _⟩

theorem forall_mem_writtenArguments {as : List (String × String)} (ha : ∀ a ∈ as, HasWord a) :
    ∀ c ∈ writtenArguments as, c ∉ lineBreaks := by
  have hbracket : ∀ c ∈ [')'], c ∉ lineBreaks := List.forall_mem_singleton.mpr (by decide)
  cases as with
  | nil => exact hbracket
  | cons a as =>
    rw [List.forall_mem_cons] at ha
    rw [writtenArguments, List.forall_mem_append, List.forall_mem_append]
    refine ⟨⟨forall_mem_writtenArgument ha.1, fun c hc => ?_⟩, hbracket⟩
    obtain ⟨b, hb, hc⟩ := List.mem_flatMap.mp hc
    exact List.forall_mem_cons.mpr ⟨by decide, List.forall_mem_cons.mpr
      ⟨by decide, forall_mem_writtenArgument (ha.2 b hb)⟩⟩ c hc

/-! ## Lines -/

/-- The arguments of a call, sorted by their names. -/
def sortedArguments (c : Call) : List (String × String) := c.arguments.mergeSort fun a b => a.1 ≤ b.1

theorem mem_sortedArguments {c : Call} {a : String × String} : a ∈ c.sortedArguments ↔ a ∈ c.arguments :=
  (List.mergeSort_perm _ _).mem_iff

/-- Texts with a separator between them are the first text and, for each further one, the separator and that. -/
theorem intercalate_cons {α : Type} (separator front : List α) (rest : List (List α)) :
    separator.intercalate (front :: rest) = front ++ rest.flatMap (separator ++ ·) := by
  induction rest generalizing front with
  | nil => simp
  | cons next rest ih =>
    rw [List.intercalate_cons_cons, ih, List.flatMap_cons, List.append_assoc, List.append_assoc]

/-- What stands between the brackets of a line. -/
theorem toList_intercalate_arguments (as : List (String × String)) :
    (", ".intercalate (as.map fun a => a.1 ++ "=" ++ quoted a.2)).toList ++ [')'] = writtenArguments as := by
  have hargument : ∀ a : String × String, (a.1 ++ "=" ++ quoted a.2).toList = writtenArgument a := by
    intro a
    simp [writtenArgument, quoted]
  rw [String.toList_intercalate, List.map_map]
  cases as with
  | nil => rfl
  | cons a as =>
    rw [List.map_cons, intercalate_cons, writtenArguments, List.flatMap_map, Function.comp_apply, hargument]
    refine congrArg (writtenArgument a ++ · ++ [')']) (List.flatMap_congr fun b _ => ?_)
    rw [Function.comp_apply, hargument]
    rfl

theorem toList_line (c : Call) :
    c.line.toList = "call ".toList ++ (c.action.toList ++ '(' :: writtenArguments c.sortedArguments) := by
  rw [← toList_intercalate_arguments]
  simp [line, sortedArguments]

/-- The action and the names of the arguments are words, and the arguments have different names. -/
structure WellNamed (c : Call) : Prop where
  action : ∀ d ∈ c.action.toList, isWordChar d = true
  arguments : ∀ a ∈ c.arguments, HasWord a
  nodup : (c.arguments.map Prod.fst).Nodup

variable {a b : Call}

theorem WellNamed.sortedArguments (h : a.WellNamed) : ∀ x ∈ a.sortedArguments, HasWord x :=
  fun x hx => h.arguments x (mem_sortedArguments.mp hx)

/-- Sorted by their names, the arguments of two calls are equal exactly if each name has the same value. -/
theorem sortedArguments_eq_iff (ha : a.WellNamed) (hb : b.WellNamed) :
    a.sortedArguments = b.sortedArguments
      ↔ ∀ name, a.arguments.lookup name = b.arguments.lookup name := by
  have hmem : (∀ name, a.arguments.lookup name = b.arguments.lookup name)
      ↔ ∀ x, x ∈ a.arguments ↔ x ∈ b.arguments := by
    have hlookup : ∀ {c : Call}, c.WellNamed → ∀ name value,
        c.arguments.lookup name = some value ↔ (name, value) ∈ c.arguments :=
      fun h name value => OrderedMap.get?_eq_some_iff (m := ⟨_, h.nodup⟩)
    constructor
    · rintro h ⟨name, value⟩
      rw [← hlookup ha, ← hlookup hb, h name]
    · intro h name
      refine Option.ext fun value => ?_
      rw [hlookup ha, hlookup hb, h (name, value)]
  rw [hmem]
  constructor
  · intro h x
    rw [← mem_sortedArguments, h, mem_sortedArguments]
  · intro h
    have hperm : a.sortedArguments.Perm b.sortedArguments :=
      (List.mergeSort_perm _ _).trans (((List.perm_ext_iff_of_nodup (ha.nodup.of_map _) (hb.nodup.of_map _)).mpr h).trans
        (List.mergeSort_perm _ _).symm)
    have hsorted : ∀ c : Call, c.sortedArguments.Pairwise fun x y => x.1 ≤ y.1 := by
      intro c
      refine (List.pairwise_mergeSort ?_ ?_ c.arguments).imp of_decide_eq_true
      · intro x y z hxy hyz
        exact decide_eq_true (String.le_trans (of_decide_eq_true hxy) (of_decide_eq_true hyz))
      · intro x y
        rw [Bool.or_eq_true, decide_eq_true_eq, decide_eq_true_eq]
        exact String.le_total x.1 y.1
    refine hperm.eq_of_pairwise ?_ (hsorted a) (hsorted b)
    intro x y hx hy hxy hyx
    -- Of two arguments with the same name one would be missing from the other call.
    exact List.inj_on_of_nodup_map ha.nodup (mem_sortedArguments.mp hx)
      ((h y).mpr (mem_sortedArguments.mp hy)) (String.le_antisymm hxy hyx)

/-- **A line tells its call**: two calls are written on the same line exactly if they have the same action and the
same arguments, in whatever order those were captured and whatever their values are; and a line is one line. -/
theorem line_tells_call (ha : a.WellNamed) (hb : b.WellNamed) :
    (a.line = b.line ↔ a.action = b.action ∧ ∀ name, a.arguments.lookup name = b.arguments.lookup name)
      ∧ ∀ c ∈ a.line.toList, c ∉ lineBreaks := by
  refine ⟨?_, ?_⟩
  · rw [← sortedArguments_eq_iff ha hb, ← String.toList_inj, toList_line, toList_line, List.append_cancel_left_eq]
    constructor
    · intro h
      obtain ⟨haction, hrest⟩ := word_append_inj ha.action hb.action (by simp; decide) (by simp; decide) h
      exact ⟨String.toList_injective haction,
        writtenArguments_inj ha.sortedArguments hb.sortedArguments (List.cons.inj hrest).2⟩
    · rintro ⟨haction, hsorted⟩
      rw [haction, hsorted]
  · rw [toList_line, List.forall_mem_append, List.forall_mem_append, List.forall_mem_cons]
    exact ⟨by simp [lineBreaks], fun c hc => not_mem_lineBreaks_of_isWordChar (ha.action c hc), by decide,
      forall_mem_writtenArguments ha.sortedArguments⟩

/-- A call with a value that looks like two arguments, and one that looks like two lines. -/
def crowdedCall : Call := ⟨"cmd_mark", [("mark", "a', then='b"), ("at", "1\ncall cmd_exit()")]⟩

/-- The same call with its captures made the other way round. -/
def turnedCall : Call := ⟨"cmd_mark", [("at", "1\ncall cmd_exit()"), ("mark", "a', then='b")]⟩

/-- A call with the two arguments that the first value looks like. -/
def splitCall : Call := ⟨"cmd_mark", [("at", "1\ncall cmd_exit()"), ("mark", "a"), ("then", "b")]⟩

/-- The order of capture does not show in the line, and what looks like an argument is none. -/
theorem line_tells_call_crowded :
    crowdedCall.WellNamed ∧ turnedCall.WellNamed ∧ splitCall.WellNamed
      ∧ crowdedCall.line = turnedCall.line ∧ crowdedCall.line ≠ splitCall.line
      ∧ ∀ c ∈ crowdedCall.line.toList, c ∉ lineBreaks := by
  have haction : ∀ d ∈ "cmd_mark".toList, isWordChar d = true := List.all_eq_true.mp (by decide +kernel)
  have hcrowded : crowdedCall.WellNamed := ⟨haction, by decide +kernel, by decide⟩
  have hturned : turnedCall.WellNamed := ⟨haction, by decide +kernel, by decide⟩
  have hsplit : splitCall.WellNamed := ⟨haction, by decide +kernel, by decide⟩
  obtain ⟨hsame, hbreaks⟩ := line_tells_call hcrowded hturned
  obtain ⟨hother, -⟩ := line_tells_call hcrowded hsplit
  refine ⟨hcrowded, hturned, hsplit, hsame.mpr ⟨rfl, fun name => ?_⟩, fun hline => ?_, hbreaks⟩
  · by_cases hmark : name = "mark"
    · subst hmark
      rfl
    · by_cases hat : name = "at"
      · subst hat
        rfl
      · simp [crowdedCall, turnedCall, List.lookup_cons, beq_false_of_ne hmark, beq_false_of_ne hat]
  · exact absurd ((hother.mp hline).2 "then") (by decide)

end Call

end CommandGrammar
