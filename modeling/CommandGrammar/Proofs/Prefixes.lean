import CommandGrammar.Proofs.Chaining

/-!
# Runs in front of a cut

What a token takes in front of a cut does not depend on what stands behind it, unless the token goes on
across the cut. So a run that stays in front of the cut is the one on the text in front of it. Nothing is
asked of the literals here: one that would reach across the cut takes nothing in front of it, and it was
not the first to take something in the whole text either.

* `choose?_of_append` — the choice in front of a cut.
* `choose?_nil_of_separator` — the choice at the end of the text is the one at a separator.
* `Machine.steps_cut` — as long as a run stays in front of a cut, it is the one on the text in front of it.
-/

namespace CommandGrammar

open Text

/-! ## Tokens in front of a cut -/

namespace Token

variable {token : Token} {cs taken rest suffix : List Char}

/-- What is taken in front of a cut is taken without what stands behind it. -/
theorem Takes.cut (h : token.Takes taken (rest ++ suffix)) (hne : taken ≠ []) :
    token.Takes taken rest := by
  generalize hwhole : rest ++ suffix = whole at h
  cases h with
  | keyword hk hl hx => exact .keyword hk hl hx
  | bare hk hne' hq hx hrest =>
    refine .bare hk hne' hq hx fun c hc => hrest c ?_
    cases rest with
    | nil => cases hc
    | cons d tail => rw [← hwhole]; exact hc
  | quoted hk hv => exact .quoted hk hv
  | separator hk hc => exact .separator hk hc
  | endOfText => exact absurd rfl hne

/-- A token that takes something takes something where more text follows, though it may be more. -/
theorem lexeme?_append_ne_none (h : token.lexeme? cs ≠ none) (hne : cs ≠ []) :
    token.lexeme? (cs ++ suffix) ≠ none := by
  obtain ⟨l, hl⟩ := Option.ne_none_iff_exists'.mp h
  obtain ⟨taken, rest, rfl, htakes, -⟩ := lexeme?_eq_some_iff.mp hl
  suffices hmore : ∃ x y, taken ++ rest ++ suffix = x ++ y ∧ token.Takes x y by
    obtain ⟨x, y, hxy, htakes'⟩ := hmore
    rw [lexeme?_eq_some_iff.mpr ⟨x, y, hxy, htakes', rfl⟩]
    simp
  cases htakes with
  | keyword hk hl hx => exact ⟨taken, rest ++ suffix, by simp, .keyword hk hl hx⟩
  | @bare delimiter _ _ hk hne' hq hx hrest =>
    -- The longest run may go on behind the old end.
    obtain ⟨d, tail, rfl⟩ := List.exists_cons_of_ne_nil hne'
    exact exists_takes_of_head hk (hx d List.mem_cons_self) (fun hd => hq (congrArg some hd))
      (tail ++ rest ++ suffix)
  | @quoted _ v _ hk hv => exact ⟨'"' :: v ++ ['"'], rest ++ suffix, by simp, .quoted hk hv⟩
  | @separator c _ hk hc => exact ⟨[c], rest ++ suffix, by simp, .separator hk hc⟩
  | endOfText => exact absurd rfl hne

end Token

variable {tokens : List Token} {token : Token} {lexeme : Lexeme} {cs suffix b : List Char} {sep : Char}

/-- **A token chosen in front of a cut is chosen without what stands behind it**: the tokens tried before it
take nothing there either. -/
theorem choose?_of_append (h : choose? tokens (cs ++ suffix) = some (token, lexeme))
    (hpos : 0 < lexeme.consumed) (hle : lexeme.consumed ≤ cs.length) :
    choose? tokens cs = some (token, lexeme) := by
  have hne : cs ≠ [] := by
    rintro rfl
    rw [List.length_nil] at hle
    omega
  obtain ⟨before, after, htokens, hbefore, hl⟩ := choose?_eq_some_iff.mp h
  obtain ⟨taken, y, hsplit, htakes, rfl⟩ := Token.lexeme?_eq_some_iff.mp hl
  have hlen : (token.lexemeOf taken).consumed = taken.length := by
    rcases htakes.consumed with hlen | ⟨rfl, rfl, -⟩
    · exact hlen
    · exact absurd (List.append_eq_nil_iff.mp hsplit).1 hne
  rw [hlen] at hpos hle
  obtain ⟨rest, hcs, rfl⟩ : ∃ rest, cs = taken ++ rest ∧ y = rest ++ suffix := by
    rcases List.append_eq_append_iff.mp hsplit with ⟨front, htaken, hsuffix⟩ | ⟨rest, hcs, hy⟩
    · -- What is taken is no longer than what stands in front of the cut.
      have hnil : front = [] := by
        rw [htaken, List.length_append] at hle
        exact List.length_eq_zero_iff.mp (by omega)
      exact ⟨[], by simp [htaken, hnil], by simp [hsuffix, hnil]⟩
    · exact ⟨rest, hcs, hy⟩
  refine choose?_eq_some_iff.mpr ⟨before, after, htokens, fun u hu => ?_, ?_⟩
  · by_contra hu'
    exact Token.lexeme?_append_ne_none hu' hne (hbefore u hu)
  · exact Token.lexeme?_eq_some_iff.mpr
      ⟨taken, rest, hcs, htakes.cut (List.length_pos_iff.mp hpos), rfl⟩

/-- **The end of a command chosen at a separator is the one chosen where the text is cut off there**,
whatever the literals are. -/
theorem choose?_nil_of_separator
    (hlit : ∀ u ∈ tokens, u.kind = .literal → u.keyword ≠ []) (hsep : isSeparator sep = true)
    (hk : token.kind = .commandEnd) (h : choose? tokens (sep :: b) = some (token, lexeme)) :
    choose? tokens [] = some (token, { value := none, consumed := 1 }) := by
  obtain ⟨before, after, rfl, hbefore, -⟩ := choose?_eq_some_iff.mp h
  refine choose?_eq_some_iff.mpr ⟨before, after, rfl, fun u hu => ?_, ?_⟩
  · rw [lexeme?_nil (hlit u (by simp [hu])), if_neg]
    intro hu'
    have hnone := hbefore u hu
    simp [Token.lexeme?, hu', Lexeme.commandEnd?, hsep] at hnone
  · rw [lexeme?_nil (hlit token (by simp)), if_pos hk]

namespace Machine

variable {σ ρ ε : Type} {m : Machine σ ρ ε} {c : Config σ}

/-! ## The run in front of the cut -/

/-- Blanks are skipped at least as far where more text follows. -/
theorem position_skipBlanks_le (suffix : List Char) (c : Config σ) :
    c.skipBlanks.position ≤ ((Embedding.before suffix).config c).skipBlanks.position := by
  have hle : (c.rest.takeWhile isBlank).length ≤ ((c.rest ++ suffix).takeWhile isBlank).length := by
    rw [List.takeWhile_append]
    split
    · next hall =>
      rw [List.length_append]
      omega
    · exact Nat.le_refl _
  show c.position + (c.rest.takeWhile isBlank).length
    ≤ 0 + c.position + ((c.rest ++ suffix).takeWhile isBlank).length
  omega

/-- A step that goes on and leads no further than a cut is the one on the text in front of it. -/
theorem step_cut (hlit : m.table.LiteralsHaveText) {front : List Char} (hc : c.Within front)
    (hnone : (m.step ((Embedding.before suffix).config c)).ending = none)
    (hle : (m.step ((Embedding.before suffix).config c)).config.position ≤ front.length) :
    m.step ((Embedding.before suffix).config c) = (Embedding.before suffix).progress (m.step c) := by
  have hs := m.stepped ((Embedding.before suffix).config c)
  generalize hq : m.step ((Embedding.before suffix).config c) = q at hs hnone hle
  cases hs with
  | lost | unmatched | completed => cases hnone
  | cut _ _ he => cases he.symm.trans hnone
  | @moved tokens token lexeme ht hch he _ =>
    have hpos := consumed_pos_of_choose? hch (hlit c.state token ⟨tokens, ht, mem_of_choose? hch⟩)
    have hplace : (m.perform token lexeme ((Embedding.before suffix).config c).skipBlanks).config.position
        = ((Embedding.before suffix).config c).skipBlanks.position :=
      (perform_place m token lexeme _).1
    have hmoved : ((Embedding.before suffix).config c).skipBlanks.position + lexeme.consumed
        ≤ front.length := hplace ▸ hle
    have hsum := hc.skipBlanks.position_add
    -- Something is accepted in front of the cut, so there is something to accept.
    have hne : c.skipBlanks.rest ≠ [] := by
      intro hnil
      have hfar := position_skipBlanks_le suffix c
      rw [hnil, List.length_nil] at hsum
      omega
    have hskip := (Embedding.before (σ := σ) suffix).skipBlanks_config (c := c)
      fun hnil => absurd hnil hne
    have hfront : lexeme.consumed ≤ c.skipBlanks.rest.length := by
      rw [hskip] at hmoved
      have hmoved' : 0 + c.skipBlanks.position + lexeme.consumed ≤ front.length := hmoved
      omega
    rw [hskip] at hch
    have hchoose := choose?_of_append hch hpos hfront
    rw [← hq]
    exact step_embed (respects_before suffix) hne ht hchoose hch hfront

/-- **As long as a run stays in front of a cut, it is the one on the text in front of it.** -/
theorem steps_cut (hlit : m.table.LiteralsHaveText) {front : List Char} (hc : c.Within front) {n : Nat}
    (hnone : (m.steps n ((Embedding.before suffix).config c)).ending = none)
    (hle : (m.steps n ((Embedding.before suffix).config c)).config.position ≤ front.length) :
    m.steps n ((Embedding.before suffix).config c)
      = (Embedding.before suffix).progress (m.steps n c) := by
  induction n with
  | zero => rfl
  | succ n ih =>
    have hwhole : ((Embedding.before suffix).config c).Within (front ++ suffix) := by
      refine ⟨?_, ?_⟩
      · show 0 + c.position ≤ _
        have := hc.1
        rw [List.length_append]
        omega
      · show c.rest ++ suffix = (front ++ suffix).drop (0 + c.position)
        rw [Nat.zero_add, List.drop_append_of_le_length hc.1, ← hc.2]
    rw [steps_succ] at hnone hle ⊢
    obtain ⟨hn, hstep⟩ := Progress.ending_andThen_eq_none.mp hnone
    rw [Progress.config_andThen_of_none hn] at hle
    -- The position only moves on, so the steps before stay in front of the cut as well.
    obtain ⟨-, a, -, hfrom, hto⟩ := step_of_going hlit ((paced_steps hlit hwhole n).going hn).1 hstep
    have hfirst := ih hn (by omega)
    rw [hfirst] at hn hstep hle ⊢
    have hin := ((paced_steps hlit hc n).going hn).1
    rw [steps_succ, Embedding.progress_andThen]
    exact fun _ => step_cut hlit hin hstep hle

end Machine

end CommandGrammar
