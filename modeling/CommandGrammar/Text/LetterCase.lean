import CommandGrammar.Text.Basic
import CommandGrammar.Text.CaseTables

/-!
# Small and capital forms of a text

`lower` is the full mapping of Unicode 14: one character may become two, and a capital sigma
becomes the final form `ς` at the end of a word. The end of a word is judged by the nearest
neighbours that are not case-ignorable: some letter with case before it, none after it.
`upper` looks at each character alone.

ASCII letters are mapped one by one: `lowerAfter_of_ascii`.
-/

namespace CommandGrammar.Text

/-! ## Properties of one character -/

/-- Whether a character is skipped when the neighbours of a sigma are looked up. -/
def isCaseIgnorable (c : Char) : Bool :=
  if c.toNat < 0x80 then c ∈ ['\x27', '.', ':', '^', '\x60']
  else inRanges caseIgnorableRanges c.toNat

/-- Whether a character that is not case-ignorable has letter case. -/
def isCased (c : Char) : Bool :=
  if c.toNat < 0x80 then c.isAlpha else inRanges casedRanges c.toNat

/-- The character that the first run with `c` in it leads to, or `c` itself. -/
def shiftBy (runs : List CaseRun) (c : Char) : Char :=
  match runs.find? (·.covers c.toNat) with
  | some r => Char.ofNat ((c.toNat : Int) + r.shift).toNat
  | none => c

/-- The small form of a character that stands alone. -/
def lowerChar (c : Char) : List Char :=
  if c.toNat < 0x80 then [c.toLower]
  else if c.toNat = 0x130 then ['i', '\u0307']
  else [shiftBy lowerRuns c]

/-- The capital form of a character. -/
def upperChar (c : Char) : List Char :=
  if c.toNat < 0x80 then [c.toUpper]
  else match upperExpansions.lookup c.toNat with
    | some codes => codes.map Char.ofNat
    | none => [shiftBy upperRuns c]

/-! ## Texts -/

/-- Whether the nearest character that is not case-ignorable has letter case. -/
def startsCased (cs : List Char) : Bool :=
  match cs.dropWhile isCaseIgnorable with
  | c :: _ => isCased c
  | [] => false

/--
The small form of a text that follows other characters; `afterCased` says whether the nearest of
those that is not case-ignorable has letter case.
-/
def lowerAfter : Bool → List Char → List Char
  | _, [] => []
  | afterCased, c :: rest =>
    (if c.toNat = 0x3A3 then
        [if afterCased && !startsCased rest then '\u03C2' else '\u03C3']
      else lowerChar c)
      ++ lowerAfter (if isCaseIgnorable c then afterCased else isCased c) rest

/-- The small form of a text. -/
def lower (cs : List Char) : List Char := lowerAfter false cs

/-- The capital form of a text. -/
def upper (text : String) : String := String.ofList (text.toList.flatMap upperChar)

@[simp] theorem lower_nil : lower [] = [] := rfl

/-- On ASCII texts `lower` works character by character. -/
theorem lowerAfter_of_ascii {cs : List Char} (h : ∀ c ∈ cs, c.toNat < 0x80) (b : Bool) :
    lowerAfter b cs = cs.map Char.toLower := by
  induction cs generalizing b with
  | nil => rfl
  | cons c rest ih =>
    have hc : c.toNat < 0x80 := h c List.mem_cons_self
    have hs : ¬ c.toNat = 0x3A3 := by omega
    simp [lowerAfter, lowerChar, hc, hs, ih fun d hd => h d (List.mem_cons_of_mem c hd)]

end CommandGrammar.Text
