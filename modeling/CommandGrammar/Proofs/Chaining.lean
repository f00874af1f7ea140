import CommandGrammar.Proofs.LetterCase
import CommandGrammar.Proofs.Termination
import CommandGrammar.Proofs.Tracing

/-!
# Chains of commands

Where a text that is accepted alone stands in front of a separator, it is read as it is alone: nothing
behind the separator changes the choice of a token in front of it, and the token that ends the command at
the end of the text ends it at the separator. What follows is read as if it stood alone.

* `choose?_append` — the choice in front of a character that no literal has, such as a separator.
* `choose?_separator` — the choice at the separator.
* `Parser.parse_chain` — the law for whole texts.
-/

namespace CommandGrammar

open Text

/-- What a table needs so that commands can be chained: the end of a command leads back to the initial
state, and no literal can run into a separator or into a quote. -/
structure Table.Chains (t : Table) : Prop where
  ends : ∀ state token, t.Lists state token → token.kind = .commandEnd →
    t.target token.transition = t.initial
  literals : ∀ state token, t.Lists state token → token.kind = .literal →
    (∀ c ∈ lower token.keyword, isSeparator c = false) ∧ token.keyword.head? ≠ some '"'

/-- Commands of the window language can be chained. -/
theorem Window.chains_grammar : Window.grammar.Chains := by
  have hends : ∀ entry ∈ Window.states, ∀ token ∈ entry.2, token.kind = .commandEnd →
      Window.grammar.target token.transition = Window.grammar.initial := by
    decide +kernel
  have hkeywords : ∀ entry ∈ Window.states, ∀ token ∈ entry.2, token.kind = .literal →
      (lower token.keyword).any isSeparator = false ∧ token.keyword.head? ≠ some '"' := by
    decide +kernel
  have hentries : Window.grammar.states.entries = Window.states := by
    decide +kernel
  refine ⟨fun state token hlist hk => ?_, fun state token hlist hk => ?_⟩
  · obtain ⟨entry, he, -, hm⟩ := Table.lists_iff.mp hlist
    exact hends entry (hentries ▸ he) token hm hk
  · obtain ⟨entry, he, -, hm⟩ := Table.lists_iff.mp hlist
    obtain ⟨hany, hquote⟩ := hkeywords entry (hentries ▸ he) token hm hk
    exact ⟨fun c hc => by simpa using List.any_eq_false.mp hany c hc, hquote⟩

/-! ## Tokens in front of a separator -/

theorem isPlain_of_isSeparator {sep : Char} (h : isSeparator sep = true) : IsPlain sep := by
  simp only [isSeparator, Bool.or_eq_true, beq_iff_eq] at h
  rcases h with rfl | rfl
  · decide
  · decide

/-- No separator is skipped as a blank. -/
theorem isBlank_of_mem_head? {sep : Char} {b : List Char} (h : isSeparator sep = true) :
    ∀ c ∈ (sep :: b).head?, isBlank c = false := by
  intro c hc
  obtain rfl : sep = c := Option.some.inj hc
  simp only [isSeparator, Bool.or_eq_true, beq_iff_eq] at h
  rcases h with rfl | rfl <;> rfl

theorem delimiter_of_isSeparator {kind : TokenKind} {delimiter : Char → Bool} {sep : Char}
    (hk : kind.delimiter? = some delimiter) (h : isSeparator sep = true) : delimiter sep = true := by
  cases kind with
  | word =>
    obtain rfl := Option.some.inj hk
    simp [isWordDelimiter, h]
  | string =>
    obtain rfl := Option.some.inj hk
    exact h
  | literal | commandEnd => cases hk

/-- A list without the separator that starts a longer one ends in front of the separator. -/
theorem exists_of_append_eq {x y cs b : List Char} {sep : Char} (hx : sep ∉ x)
    (h : x ++ y = cs ++ sep :: b) : ∃ rest, cs = x ++ rest ∧ y = rest ++ sep :: b := by
  rcases List.append_eq_append_iff.mp h with ⟨front, hcs, hy⟩ | ⟨front, hx', hback⟩
  · exact ⟨front, hcs, hy⟩
  · cases front with
    | nil => exact ⟨[], by simpa using hx'.symm, hback.symm⟩
    | cons d front =>
      obtain ⟨rfl, -⟩ := List.cons.inj hback
      exact absurd (by rw [hx']; simp) hx

namespace Token

variable {token : Token} {cs taken rest b : List Char} {stop : Char}

/-- What is taken is taken in front of a character as well, if that would end a word or a string that
reaches up to it. -/
theorem Takes.append (h : token.Takes taken rest) (hne : taken ≠ [])
    (hends : rest = [] → taken.head? ≠ some '"' →
      ∀ delimiter, token.kind.delimiter? = some delimiter → delimiter stop = true) :
    token.Takes taken (rest ++ stop :: b) := by
  cases h with
  | keyword hk hl hx => exact .keyword hk hl hx
  | bare hk hne' hq hx hrest =>
    refine .bare hk hne' hq hx ?_
    cases rest with
    | nil =>
      intro c hc
      obtain rfl : stop = c := Option.some.inj hc
      exact hends rfl hq _ hk
    | cons d tail => exact hrest
  | quoted hk hv => exact .quoted hk hv
  | separator hk hc => exact .separator hk hc
  | endOfText => exact absurd rfl hne

/-- A token that takes something in front of a character takes something without it, unless it is quoted
text. -/
theorem Takes.of_append {y : List Char} (h : token.Takes taken y) (hsplit : taken ++ y = cs ++ stop :: b)
    (hstop : IsPlain stop) (hne : cs ≠ []) (hlit : token.kind = .literal → stop ∉ lower token.keyword) :
    (∃ x rest, cs = x ++ rest ∧ token.Takes x rest)
      ∨ cs.head? = some '"' ∧ ∃ delimiter, token.kind.delimiter? = some delimiter := by
  cases h with
  | keyword hk hl hx =>
    have hnot : stop ∉ taken := by
      intro hm
      refine hlit hk ?_
      rw [← hx]
      exact (mem_lower_iff hstop taken).mpr hm
    obtain ⟨rest, hcs, -⟩ := exists_of_append_eq hnot hsplit
    exact Or.inl ⟨taken, rest, hcs, .keyword hk hl hx⟩
  | bare hk hne' hq hx hrest =>
    obtain ⟨c, x, rfl⟩ := List.exists_cons_of_ne_nil hne'
    obtain ⟨d, tail, rfl⟩ := List.exists_cons_of_ne_nil hne
    obtain ⟨rfl, -⟩ := List.cons.inj hsplit
    exact Or.inl (exists_takes_of_head hk (hx c List.mem_cons_self) (fun hc => hq (congrArg some hc)) tail)
  | quoted hk hv =>
    obtain ⟨d, tail, rfl⟩ := List.exists_cons_of_ne_nil hne
    obtain ⟨rfl, -⟩ := List.cons.inj hsplit
    exact Or.inr ⟨rfl, _, hk⟩
  | separator hk hc =>
    obtain ⟨d, tail, rfl⟩ := List.exists_cons_of_ne_nil hne
    obtain ⟨rfl, -⟩ := List.cons.inj hsplit
    exact Or.inl ⟨_, tail, rfl, .separator hk hc⟩
  | endOfText =>
    rw [List.nil_append] at hsplit
    exact absurd hsplit.symm (by simp)

/-- A token that takes something from an opening quote on takes quoted text, if no literal starts so. -/
theorem Takes.quoted_of_head? (h : token.Takes taken rest) (hq : (taken ++ rest).head? = some '"')
    (hlit : token.kind = .literal → token.keyword ≠ [] ∧ token.keyword.head? ≠ some '"') :
    ∃ v, taken = '"' :: v ++ ['"'] ∧ Quotable v := by
  have hhead : ∀ {x y : List Char}, x ≠ [] → (x ++ y).head? = x.head? := by
    intro x y hx
    obtain ⟨d, tail, rfl⟩ := List.exists_cons_of_ne_nil hx
    rfl
  cases h with
  | keyword hk hl hx =>
    obtain ⟨hne, hno⟩ := hlit hk
    have hne' : taken ≠ [] := by
      rintro rfl
      exact hne (List.length_eq_zero_iff.mp hl.symm)
    rw [hhead hne'] at hq
    have hlow := (head?_lower_iff (by decide : IsPlain '"') taken).mpr hq
    rw [hx] at hlow
    exact absurd ((head?_lower_iff (by decide : IsPlain '"') token.keyword).mp hlow) hno
  | bare hk hne hq' hx hrest =>
    rw [hhead hne] at hq
    exact absurd hq hq'
  | @quoted _ v _ hk hv => exact ⟨v, rfl, hv⟩
  | @separator c _ hk hc =>
    obtain rfl : c = '"' := Option.some.inj hq
    exact absurd hc (by decide)
  | endOfText => cases hq

end Token

/-! ## Choices -/

/-- No literal among some tokens is empty, starts with a quote, or has one of some characters in small
letters. -/
def LiteralsAvoid (stops : Char → Bool) (tokens : List Token) : Prop :=
  ∀ token ∈ tokens, token.kind = .literal → token.keyword ≠ []
    ∧ (∀ c ∈ lower token.keyword, stops c = false) ∧ token.keyword.head? ≠ some '"'

theorem Table.Chains.literalsAvoid {t : Table} (h : t.Chains) (hlit : t.LiteralsHaveText)
    {state : StateName} {tokens : List Token} (ht : t.tokens state = .ok tokens) :
    LiteralsAvoid isSeparator tokens := by
  intro token hm hk
  refine ⟨fun hnil => ?_, h.literals state token ⟨tokens, ht, hm⟩ hk⟩
  exact hlit state token ⟨tokens, ht, hm⟩ hk (String.toList_eq_nil_iff.mp hnil)

variable {tokens : List Token} {token : Token} {lexeme : Lexeme} {cs b : List Char} {sep stop : Char}

/-- **In front of a character that no literal has the token chosen is the one chosen without it**, as long as
there is one and its text ends there. -/
theorem choose?_append {stops : Char → Bool} (hlit : LiteralsAvoid stops tokens)
    (hstops : stops stop = true) (hstop : IsPlain stop) (hne : cs ≠ [])
    (h : choose? tokens cs = some (token, lexeme))
    (hends : lexeme.consumed = cs.length → cs.head? ≠ some '"' →
      ∀ delimiter, token.kind.delimiter? = some delimiter → delimiter stop = true) :
    choose? tokens (cs ++ stop :: b) = some (token, lexeme) := by
  have hmem := mem_of_choose? h
  obtain ⟨before, after, htokens, hbefore, hl⟩ := choose?_eq_some_iff.mp h
  obtain ⟨taken, rest, hcs, htakes, rfl⟩ := Token.lexeme?_eq_some_iff.mp hl
  refine choose?_eq_some_iff.mpr ⟨before, after, htokens, ?_, ?_⟩
  · intro u hu
    have hmem' : u ∈ tokens := by rw [htokens]; exact List.mem_append_left _ hu
    have hnot : u.kind = .literal → stop ∉ lower u.keyword := by
      intro hk hm
      rw [(hlit u hmem' hk).2.1 stop hm] at hstops
      cases hstops
    rw [Option.eq_none_iff_forall_ne_some]
    intro l hul
    obtain ⟨x, y, hxy, hux, rfl⟩ := Token.lexeme?_eq_some_iff.mp hul
    rcases hux.of_append hxy.symm hstop hne hnot with ⟨x, r, hr, hur⟩ | ⟨hq, delimiter, hk⟩
    · have := Token.lexeme?_eq_some_iff.mpr ⟨x, r, hr, hur, rfl⟩
      rw [hbefore u hu] at this
      cases this
    · -- The token chosen takes quoted text, and so would any word or string in front of it.
      obtain ⟨v, rfl, hv⟩ := htakes.quoted_of_head? (hcs ▸ hq)
        fun hk => ⟨(hlit token hmem hk).1, (hlit token hmem hk).2.2⟩
      have := Token.lexeme?_eq_some_iff.mpr ⟨_, rest, hcs, .quoted hk hv, rfl⟩
      rw [hbefore u hu] at this
      cases this
  · have htaken : taken ≠ [] := by
      rcases htakes.length_pos (fun hk hnil => (hlit token hmem hk).1
        (String.toList_eq_nil_iff.mpr hnil)) with hpos | ⟨rfl, rfl, -⟩
      · exact List.length_pos_iff.mp hpos
      · exact absurd hcs hne
    refine Token.lexeme?_eq_some_iff.mpr ⟨taken, rest ++ stop :: b, ?_, htakes.append htaken ?_, rfl⟩
    · rw [hcs, List.append_assoc]
    · rintro rfl hq
      rw [List.append_nil] at hcs
      rw [hcs] at hends
      refine hends ?_ hq
      rcases htakes.consumed with hlength | ⟨hnil, -⟩
      · exact hlength
      · exact absurd hnil htaken

/-- At the end of the text only the end of a command takes anything. -/
theorem lexeme?_nil (hlit : token.kind = .literal → token.keyword ≠ []) :
    token.lexeme? [] =
      if token.kind = .commandEnd then some { value := none, consumed := 1 } else none := by
  unfold Token.lexeme?
  cases hk : token.kind with
  | literal =>
    have hlen : 0 ≠ (token.text.getD "").toList.length :=
      fun h => hlit hk (List.length_eq_zero_iff.mp h.symm)
    unfold Lexeme.literal?
    rw [List.take_nil]
    exact if_neg fun h => hlen h.1
  | word | string | commandEnd => rfl

/-- At a separator as well. -/
theorem lexeme?_separator (hlit : token.kind = .literal → token.keyword ≠ []
      ∧ ∀ c ∈ lower token.keyword, isSeparator c = false) (hsep : isSeparator sep = true) :
    token.lexeme? (sep :: b) =
      if token.kind = .commandEnd then
        some { value := none, consumed := 1, terminator := some sep }
      else none := by
  have hquote : sep ≠ '"' := by
    rintro rfl
    exact absurd hsep (by decide)
  have hfree : ∀ delimiter : Char → Bool, delimiter sep = true →
      Lexeme.freeText? delimiter (sep :: b) = none := by
    intro delimiter hd
    unfold Lexeme.freeText?
    split
    · next h => exact absurd (List.cons.inj h).1 hquote
    · simp [Lexeme.bare?, hd]
  unfold Token.lexeme?
  cases hk : token.kind with
  | literal =>
    simp only [reduceCtorEq, if_false]
    rw [Option.eq_none_iff_forall_ne_some]
    intro l hl
    obtain ⟨x, rest, hx, hlen, hlow, -⟩ := Lexeme.literal?_eq_some_iff.mp hl
    obtain ⟨hne, hno⟩ := hlit hk
    cases x with
    | nil => exact hne (List.length_eq_zero_iff.mp hlen.symm)
    | cons d x =>
      obtain ⟨rfl, -⟩ := List.cons.inj hx
      have hm := (mem_lower_iff (isPlain_of_isSeparator hsep) (sep :: x)).mpr List.mem_cons_self
      rw [hlow] at hm
      rw [hno sep hm] at hsep
      cases hsep
  | word =>
    have hd : TokenKind.word.delimiter? = some isWordDelimiter := rfl
    exact hfree _ (delimiter_of_isSeparator hd hsep)
  | string =>
    have hd : TokenKind.string.delimiter? = some isSeparator := rfl
    exact hfree _ (delimiter_of_isSeparator hd hsep)
  | commandEnd => simp [Lexeme.commandEnd?, hsep]

/-- **The end of a command chosen at the end of the text is the one chosen at a separator.** -/
theorem choose?_separator (hlit : LiteralsAvoid isSeparator tokens) (hsep : isSeparator sep = true) :
    choose? tokens (sep :: b)
      = (choose? tokens []).map fun x => (x.1, { x.2 with terminator := some sep }) := by
  induction tokens with
  | nil => rfl
  | cons u us ih =>
    have hu := hlit u List.mem_cons_self
    have hus : LiteralsAvoid isSeparator us := fun v hv => hlit v (List.mem_cons_of_mem u hv)
    have hnil := lexeme?_nil fun hk => (hu hk).1
    have hat := lexeme?_separator (b := b) (fun hk => ⟨(hu hk).1, (hu hk).2.1⟩) hsep
    have hih := ih hus
    unfold choose? at hih ⊢
    rw [List.findSome?_cons, List.findSome?_cons, hnil, hat, hih]
    by_cases hk : u.kind = .commandEnd
    · simp only [hk, if_true]
      rfl
    · simp only [hk, if_false]
      rfl

/-! ## The run in front of the separator -/

/-- A configuration with more text behind it. -/
def Embedding.before {σ : Type} (suffix : List Char) : Embedding σ := ⟨0, suffix, id⟩

namespace Machine

variable {σ ρ ε : Type} {m : Machine σ ρ ε}

theorem respects_before (suffix : List Char) : m.Respects (.before suffix) where
  dispatch _ _ _ := rfl
  hook _ _ _ := rfl

/-- A step that goes on in front of a separator is the one without it. -/
theorem step_before (h : m.table.Consistent) (hchains : m.table.Chains)
    (hsep : isSeparator sep = true) {c : Config σ} (hc : (m.step c).ending = none) :
    m.step ((Embedding.before (sep :: b)).config c)
      = (Embedding.before (sep :: b)).progress (m.step c) := by
  have hs := m.stepped c
  generalize hq : m.step c = q at hs hc
  cases hs with
  | lost | unmatched | completed => cases hc
  | cut _ _ he => cases he.symm.trans hc
  | @moved tokens token lexeme ht hch he hle =>
    have hlist : m.table.Lists c.state token := ⟨tokens, ht, mem_of_choose? hch⟩
    have hpos := consumed_pos_of_choose? hch (h.literals c.state token hlist)
    have hne : c.skipBlanks.rest ≠ [] := by
      intro hnil
      rw [hnil, List.length_nil] at hle
      omega
    rw [← hq]
    exact step_embed (respects_before _) hne ht hch
      (choose?_append (hchains.literalsAvoid h.literals ht) hsep (isPlain_of_isSeparator hsep) hne hch
        fun _ _ _ hk => delimiter_of_isSeparator hk hsep) hle

/-- **As long as a run goes on, it does the same in front of a separator.** -/
theorem steps_before (h : m.table.Consistent) (hchains : m.table.Chains)
    (hsep : isSeparator sep = true) {n : Nat} {c : Config σ} (hc : (m.steps n c).ending = none) :
    m.steps n ((Embedding.before (sep :: b)).config c)
      = (Embedding.before (sep :: b)).progress (m.steps n c) := by
  induction n with
  | zero => rfl
  | succ n ih =>
    rw [steps_succ] at hc ⊢
    obtain ⟨hn, hstep⟩ := Progress.ending_andThen_eq_none.mp hc
    rw [steps_succ, ih hn, Embedding.progress_andThen]
    intro _
    exact step_before h hchains hsep hstep

/-! ## At the separator -/

/-- A transition to the initial state that can be followed drops the captures. -/
theorem follow_home (h : m.table.Consistent) (hcallbacks : m.Unfailing) {state : StateName}
    {token : Token} (hlist : m.table.Lists state token)
    (ht : m.table.target token.transition = m.table.initial) (c : Config σ) :
    (m.follow token.transition c).ending = none ∧ ∃ s, (m.follow token.transition c).config
      = { c with state := m.table.initial, captures := c.captures.clear, environment := s } := by
  have hf := m.followed token.transition c
  have hactions := h.actions state token hlist
  revert ht hf hactions
  generalize m.follow token.transition c = q
  generalize token.transition = transition
  intro ht hf hactions
  cases hf with
  | home => exact ⟨rfl, c.environment, rfl⟩
  | away hne => exact absurd ht hne
  | unknown hn =>
    obtain ⟨name, hname⟩ := hactions _ _ rfl
    rw [hname] at hn
    cases hn
  | @failed action _ name _ hn ha =>
    obtain ⟨r, hr⟩ := hcallbacks.1 action name hn c.captures c.environment
    rw [hr] at ha
    cases ha
  | performed hn ha => exact ⟨rfl, _, by rw [show m.table.nextStateAfter _ = _ from ht]⟩

end Machine

/-- What is recorded at a separator: a comma completes no command. -/
def Trace.atSeparator (sep : Char) (s : Trace) : Trace :=
  if sep = ',' then s else (markBoundary s).1

namespace Trace

theorem atSeparator_eq (sep : Char) (s : Trace) :
    s.atSeparator sep =
      if Lexeme.completesCommand { value := none, consumed := 1, terminator := some sep } then
        (markBoundary s).1
      else s := by
  unfold atSeparator Lexeme.completesCommand
  by_cases h : sep = ',' <;> simp [h]

theorem calls_atSeparator (sep : Char) (s : Trace) : (s.atSeparator sep).calls = s.calls := by
  unfold atSeparator
  split <;> rfl

theorem boundaries_atSeparator (sep : Char) (s : Trace) :
    (s.atSeparator sep).boundaries + (if sep = ',' then 1 else 0) = s.boundaries + 1 := by
  unfold atSeparator
  split <;> rfl

end Trace

namespace Parser

variable {t : Table}

/-- Accepting the end of a command follows its transition and counts a boundary, unless at a comma. -/
theorem accept_commandEnd {c : Config Trace} (hk : token.kind = .commandEnd) (hvalue : lexeme.value = none)
    (hconsumed : lexeme.consumed = 1)
    (hnone : ((tracing t).follow token.transition c).ending = none) :
    (tracing t).accept token lexeme c =
      { config := { ((tracing t).follow token.transition c).config with
          position := c.position + 1
          rest := c.rest.drop 1
          environment := if lexeme.completesCommand then
              (Trace.markBoundary ((tracing t).follow token.transition c).config.environment).1
            else ((tracing t).follow token.transition c).config.environment }
        ending := if c.rest = [] then some .complete else none
        journal := .matched c.position c.state token lexeme
          :: ((tracing t).follow token.transition c).journal
          ++ if lexeme.completesCommand then [.boundary c.position] else []
        actions := ((tracing t).follow token.transition c).actions
        results := ((tracing t).follow token.transition c).results } := by
  have hcapture : token.capture? lexeme = none := by
    unfold Token.capture?
    rw [hvalue]
    cases token.capture <;> rfl
  obtain ⟨hposition, hrest, -⟩ := ((tracing t).followed token.transition c).place
  rw [Machine.accept_eq, Machine.perform_of_capture?_eq_none hcapture, Progress.andThen_note,
    Progress.andThen_of_none hnone, signal_tracing t hk]
  generalize (tracing t).follow token.transition c = q at hnone hposition hrest ⊢
  have hends : ∀ (d : Config Trace) (j : Journal) (as : List String) (rs : List Call),
      d.position = c.position → d.rest = c.rest →
      ({ config := d, journal := j, actions := as, results := rs } : Progress Trace Call TableError).andThen
          (Machine.advance lexeme)
        = { config := { d with position := c.position + 1, rest := c.rest.drop 1 }
            ending := if c.rest = [] then some .complete else none
            journal := j, actions := as, results := rs } := by
    intro d j as rs hp hr
    rw [Progress.andThen_of_none rfl]
    cases hc : c.rest with
    | nil =>
      rw [Machine.advance_of_lt (by simp [hr, hc, hconsumed])]
      simp [Progress.stop, Config.moved, hp, hr, hc, hconsumed]
    | cons e tail =>
      rw [Machine.advance_of_le (by simp [hr, hc, hconsumed])]
      simp [Progress.note, Config.moved, hp, hr, hc, hconsumed]
  cases hcompletes : lexeme.completesCommand with
  | true =>
    simp only [if_true, Progress.note, List.append_nil, hposition]
    exact hends _ _ _ _ rfl hrest
  | false =>
    simp only [Bool.false_eq_true, if_false, Progress.note, List.append_nil]
    exact hends _ _ _ _ hposition hrest

/-- The end of a command drops the captures and leads to the initial state, whatever ends it; only whether
the boundary is counted depends on that. -/
theorem accept_end (h : t.Consistent) (hchains : t.Chains) {state : StateName}
    (hlist : t.Lists state token) (hk : token.kind = .commandEnd) (lexeme : Lexeme)
    (hvalue : lexeme.value = none) (hconsumed : lexeme.consumed = 1) (c : Config Trace) :
    ((tracing t).accept token lexeme c).ending = (if c.rest = [] then some .complete else none)
      ∧ ((tracing t).accept token lexeme c).config =
        { position := c.position + 1
          rest := c.rest.drop 1
          state := t.initial
          captures := c.captures.clear
          environment :=
            if lexeme.completesCommand then
              (Trace.markBoundary ((tracing t).follow token.transition c).config.environment).1
            else ((tracing t).follow token.transition c).config.environment }
      ∧ ((tracing t).accept token lexeme c).actions = ((tracing t).follow token.transition c).actions
      ∧ ((tracing t).accept token lexeme c).results
        = ((tracing t).follow token.transition c).results := by
  obtain ⟨hnone, s, hconfig⟩ := Machine.follow_home (m := (tracing t).toMachine) h
    (unfailing_tracing t) hlist (hchains.ends state token hlist hk) c
  rw [accept_commandEnd hk hvalue hconsumed hnone]
  refine ⟨rfl, ?_, rfl, rfl⟩
  simp only [hconfig]
  rfl

/-- **The step that ends a run alone goes on at a separator**, in the initial state and with the captures
dropped. It does the same but for the boundary, which is not counted at a comma. -/
theorem step_at_separator (h : t.Consistent) (hchains : t.Chains) (hsep : isSeparator sep = true)
    {c : Config Trace} (hc : ((tracing t).step c).ending = some .complete) :
    ∃ s, ((tracing t).step c).config.environment = (Trace.markBoundary s).1
      ∧ ((tracing t).step c).config.position = c.skipBlanks.position + 1
      ∧ ((tracing t).step ((Embedding.before (sep :: b)).config c)).ending = none
      ∧ ((tracing t).step ((Embedding.before (sep :: b)).config c)).config =
        { position := c.skipBlanks.position + 1
          rest := b
          state := t.initial
          captures := c.captures.clear
          environment := s.atSeparator sep }
      ∧ ((tracing t).step ((Embedding.before (sep :: b)).config c)).actions
        = ((tracing t).step c).actions
      ∧ ((tracing t).step ((Embedding.before (sep :: b)).config c)).results
        = ((tracing t).step c).results := by
  obtain ⟨tokens, token, ht, hch, hnil, hk⟩ := Machine.choice_of_complete hc
  have hlist : t.Lists c.state token := ⟨tokens, ht, mem_of_choose? hch⟩
  -- The same token is chosen at the separator.
  have hskip := (Embedding.before (sep :: b)).skipBlanks_config (c := c)
    fun _ => isBlank_of_mem_head? hsep
  have hrest : ((Embedding.before (sep :: b)).config c.skipBlanks).rest = sep :: b := by
    show c.skipBlanks.rest ++ sep :: b = _
    rw [hnil, List.nil_append]
  have hchoose : choose? tokens ((Embedding.before (sep :: b)).config c).skipBlanks.rest
      = some (token, { value := none, consumed := 1, terminator := some sep }) := by
    rw [hskip, hrest, choose?_separator (hchains.literalsAvoid h.literals ht) hsep, ← hnil, hch]
    rfl
  have ht' : (tracing t).table.tokens ((Embedding.before (sep :: b)).config c).state = .ok tokens := ht
  rw [Machine.step_of_choose? _ ht hch, Machine.step_of_choose? _ ht' hchoose, hskip]
  -- And following its transition does the same.
  have hfollow := Machine.follow_embed (m := (tracing t).toMachine)
    (Machine.respects_before (sep :: b)) token.transition c.skipBlanks
  obtain ⟨-, hconfig, hactions, hresults⟩ :=
    accept_end h hchains hlist hk { value := none, consumed := 1 } rfl rfl c.skipBlanks
  obtain ⟨hnone', hconfig', hactions', hresults'⟩ :=
    accept_end h hchains hlist hk { value := none, consumed := 1, terminator := some sep } rfl rfl
      ((Embedding.before (sep :: b)).config c.skipBlanks)
  rw [hrest] at hnone'
  rw [hrest, hfollow] at hconfig'
  rw [hfollow] at hactions' hresults'
  refine ⟨((tracing t).follow token.transition c.skipBlanks).config.environment, ?_, ?_, hnone', ?_,
    hactions'.trans hactions.symm, hresults'.trans hresults.symm⟩
  · simp only [hconfig]
    rfl
  · simp only [hconfig]
  · simp only [hconfig', Trace.atSeparator_eq]
    simp [Embedding.before, Embedding.config, Embedding.progress]

/-! ## Whole texts -/

/-- The parser that records on a table, with room for so many captures. -/
def recording (t : Table) (capacity : Int) : Parser Trace Call TableError :=
  { tracing t with captureCapacity := capacity }

/-- **The run behind a chain's separator starts like a run on its own**, but further on in the text and
with the trace of the first command behind it. -/
theorem steps_chain (h : t.Consistent) (hchains : t.Chains) (hsep : isSeparator sep = true)
    {a : List Char} {captures : Captures} (hempty : captures.toList = []) {n : Nat}
    {c : Config Trace} (hw : c.Within a)
    (hcaptures : c.captures = captures)
    (hc : ((tracing t).steps n c).ending = some .complete) :
    ∃ k s, ((tracing t).steps n c).config.environment = (Trace.markBoundary s).1
      ∧ ((tracing t).steps k ((Embedding.before (sep :: b)).config c)).ending = none
      ∧ ((tracing t).steps k ((Embedding.before (sep :: b)).config c)).config =
        { position := a.length + 1
          rest := b
          state := t.initial
          captures
          environment := s.atSeparator sep }
      ∧ ((tracing t).steps k ((Embedding.before (sep :: b)).config c)).actions
        = ((tracing t).steps n c).actions
      ∧ ((tracing t).steps k ((Embedding.before (sep :: b)).config c)).results
        = ((tracing t).steps n c).results := by
  obtain ⟨k, hk, hlast, hsame⟩ := (tracing t).exists_last_step hc
  obtain ⟨s, henv, hpos, hnone, hconfig, hactions, hresults⟩ :=
    step_at_separator (b := b) h hchains hsep hlast
  have hfront := Machine.steps_before (b := b) h hchains hsep hk
  have hfront' : ((Embedding.before (sep :: b)).progress ((tracing t).steps k c)).ending = none := hk
  -- The whole of the first text is read, so its end is where the separator stands.
  have hend := ((Machine.paced_steps h.literals hw n).complete hc).1
  rw [hsame, Machine.steps_succ, Progress.config_andThen_of_none hk, hpos] at hend
  have hclear : ((tracing t).steps k c).config.captures.clear = captures := by
    refine Captures.clear_eq ?_ hempty
    rw [Machine.steps_capacity, hcaptures]
  refine ⟨k + 1, s, ?_⟩
  rw [hsame, Machine.steps_succ, Machine.steps_succ, hfront, Progress.andThen_of_none hk,
    Progress.andThen_of_none hfront']
  refine ⟨henv, hnone, hconfig.trans ?_, ?_, ?_⟩
  · rw [hend, hclear]
  · exact congrArg (((tracing t).steps k c).actions ++ ·) hactions
  · exact congrArg (((tracing t).steps k c).results ++ ·) hresults

end Parser

/-- What comes of a chain: what its first command left behind, and then what comes of the rest, where
positions count from the separator. -/
def Outcome.chained {ρ : Type} (first : Outcome ρ) (text : String) (offset : Nat)
    (second : Outcome ρ) : Outcome ρ :=
  { actions := first.actions ++ second.actions
    results := first.results ++ second.results
    diagnostic := second.diagnostic.map fun d =>
      { d with input := text, position := offset + d.position } }

namespace Parser

variable {t : Table}

/-- The conclusion of a run inside a longer one, behind the outcome of what stands in front of it. -/
theorem conclude_chained {σ ρ ε : Type} {φ : Embedding σ} {q r : Progress σ ρ ε} {first : Outcome ρ}
    (hconfig : r.config = φ.config q.config) (hending : r.ending = q.ending)
    (hactions : r.actions = first.actions ++ q.actions)
    (hresults : r.results = first.results ++ q.results) (text whole : String) :
    (conclude whole r).verdict
      = (conclude text q).verdict.map (first.chained whole φ.offset) := by
  unfold conclude
  rw [hending, hconfig, hactions, hresults]
  cases q.ending with
  | none => rfl
  | some e =>
    cases e with
    | complete | abandoned => rfl
    | unmatched expected => simp [Except.map, Outcome.chained, Embedding.config]

/-- The run on a chain: where the run on `a` is complete, it is that run and then the one on `b`. -/
theorem behind_chain (h : t.Consistent) (hchains : t.Chains) {capacity : Int} {captures : Captures}
    (hempty : captures.toList = []) (hsep : isSeparator sep = true) {a b : String}
    (ha : ((recording t capacity).behind (a.length + 1) a captures {}).ending = some .complete) :
    ∃ s, ((recording t capacity).behind (a.length + 1) a captures {}).config.environment
        = (Trace.markBoundary s).1
      ∧ ∀ m n, ((recording t capacity).behind n b captures {}).ending ≠ none →
        ((recording t capacity).behind m (a ++ String.singleton sep ++ b) captures {}).ending ≠ none →
        ∃ j, (recording t capacity).behind m (a ++ String.singleton sep ++ b) captures {} =
          { config := (Embedding.after (a.length + 1) (s.atSeparator sep)).config
              ((recording t capacity).behind n b captures {}).config
            ending := ((recording t capacity).behind n b captures {}).ending
            journal := j
            actions := ((recording t capacity).behind (a.length + 1) a captures {}).actions
              ++ ((recording t capacity).behind n b captures {}).actions
            results := ((recording t capacity).behind (a.length + 1) a captures {}).results
              ++ ((recording t capacity).behind n b captures {}).results } := by
  obtain ⟨k, s, henv, hnone, hconfig, hactions, hresults⟩ :=
    steps_chain (b := b.toList) h hchains hsep hempty
      ((recording t capacity).start_within a captures {}) rfl ha
  refine ⟨s, henv, fun m n hb hwhole => ?_⟩
  obtain ⟨e, he⟩ := Option.ne_none_iff_exists'.mp hb
  obtain ⟨e', he'⟩ := Option.ne_none_iff_exists'.mp hwhole
  have hstart : (Embedding.before (sep :: b.toList)).config ((recording t capacity).start a captures {})
      = (recording t capacity).start (a ++ String.singleton sep ++ b) captures {} := by
    simp [Embedding.before, Embedding.config, start]
  rw [hstart] at hnone hconfig hactions hresults
  -- What follows the separator is run as if it stood alone.
  have hjoin : ((tracing t).steps k
        ((recording t capacity).start (a ++ String.singleton sep ++ b) captures {})).config
      = (Embedding.after (a.length + 1) (s.atSeparator sep)).config
          ((recording t capacity).start b captures {}) := by
    rw [hconfig, String.length_toList]
    simp [Embedding.after, Embedding.config, start, recording]
  have hbehind := Machine.steps_embed (respects_after t (a.length + 1) (s.atSeparator sep)) rfl n
    ((recording t capacity).start b captures {})
  have hsteps := (tracing t).steps_add k n
    ((recording t capacity).start (a ++ String.singleton sep ++ b) captures {})
  rw [Progress.andThen_of_none hnone, hjoin, hbehind] at hsteps
  have hsame : (recording t capacity).behind m (a ++ String.singleton sep ++ b) captures {}
      = (tracing t).steps (k + n)
          ((recording t capacity).start (a ++ String.singleton sep ++ b) captures {}) :=
    (tracing t).steps_eq_of_ended he' (by rw [hsteps]; exact he)
  rw [hsame, hsteps, hactions, hresults]
  exact ⟨_, rfl⟩

/-- **Chaining**: where `a` is accepted alone, `a`, a separator and `b` do what `a` does and then what `b`
does, and end as `b` ends; only a comma takes away the boundary of `a`. -/
theorem parse_chain (t : Table) (hvalid : t.validate = .ok t) (hchains : t.Chains) (capacity : Int)
    (sep : Char) (hsep : isSeparator sep = true) (a b : String) {first : Outcome Call}
    (ha : ((recording t capacity).parse a {}).verdict = .ok first) (hok : first.ok = true) :
    ((recording t capacity).parse (a ++ String.singleton sep ++ b) {}).environment.calls
        = ((recording t capacity).parse a {}).environment.calls
          ++ ((recording t capacity).parse b {}).environment.calls
      ∧ ((recording t capacity).parse (a ++ String.singleton sep ++ b) {}).environment.boundaries
          + (if sep = ',' then 1 else 0)
        = ((recording t capacity).parse a {}).environment.boundaries
          + ((recording t capacity).parse b {}).environment.boundaries
      ∧ ((recording t capacity).parse (a ++ String.singleton sep ++ b) {}).verdict
        = ((recording t capacity).parse b {}).verdict.map
            (first.chained (a ++ String.singleton sep ++ b) (a.length + 1)) := by
  have hcons := Table.consistent_of_validate hvalid
  cases hempty : Captures.empty? capacity with
  | error e =>
    have herror : ((recording t capacity).parse a {}).verdict = .error (.capture e) := by
      simp only [parse, exceeds, recording, tracing, hempty]
      rfl
    rw [herror] at ha
    cases ha
  | ok captures =>
    have hparse : ∀ x : String, (recording t capacity).parse x {}
        = conclude x ((recording t capacity).behind (x.length + 1) x captures {}) := by
      intro x
      rw [← progress_eq_behind hcons.literals]
      exact parse_eq_conclude (p := recording t capacity) rfl hempty {}
    have hends : ∀ x : String,
        ((recording t capacity).behind (x.length + 1) x captures {}).ending ≠ none :=
      fun x => (run_eq_behind (p := recording t capacity) hcons.literals x captures {}).1
    rw [hparse] at ha
    have hcomplete := conclude_ok_iff.mp ⟨first, ha, hok⟩
    obtain rfl := Except.ok.inj (ha.symm.trans (conclude_of_complete hcomplete))
    obtain ⟨s, henv, hwhole⟩ := behind_chain hcons hchains (toList_of_empty? hempty) hsep hcomplete
    obtain ⟨j, hj⟩ := hwhole _ _ (hends b) (hends _)
    rw [hparse a, hparse b, hparse (a ++ String.singleton sep ++ b), conclude_environment,
      conclude_environment, conclude_environment, hj, henv]
    refine ⟨?_, ?_, ?_⟩
    · show (s.atSeparator sep).calls ++ _ = _
      rw [Trace.calls_atSeparator]
      rfl
    · show (s.atSeparator sep).boundaries + _ + _ = s.boundaries + 1 + _
      rw [Nat.add_right_comm, Trace.boundaries_atSeparator]
    · refine conclude_chained (φ := .after (a.length + 1) (s.atSeparator sep)) ?_ ?_ ?_ ?_ b _
      · rfl
      · rfl
      · rfl
      · rfl

/-- A command with criteria in front of one that goes wrong. -/
theorem parse_chain_window :
    Window.grammar.validate = .ok Window.grammar ∧ Window.grammar.Chains ∧ isSeparator ',' = true
      ∧ ∃ first, ((recording Window.grammar 2).parse "[id=7] kill" {}).verdict = .ok first
        ∧ first.ok = true
        ∧ ((recording Window.grammar 2).parse
              ("[id=7] kill" ++ String.singleton ',' ++ "move left, jump") {}).verdict
          = ((recording Window.grammar 2).parse "move left, jump" {}).verdict.map
              (first.chained ("[id=7] kill" ++ String.singleton ',' ++ "move left, jump") 12) := by
  have ha : ((recording Window.grammar 2).parse "[id=7] kill" {}).verdict
      = .ok ⟨["cmd_criteria_add", "cmd_criteria_match_windows", "cmd_kill"],
          [⟨"cmd_criteria_add", [("ctype", "id"), ("cvalue", "7")]⟩,
            ⟨"cmd_criteria_match_windows", []⟩, ⟨"cmd_kill", []⟩], none⟩ := by
    rfl
  obtain ⟨-, -, hverdict⟩ := parse_chain Window.grammar Window.validate_grammar Window.chains_grammar 2
    ',' rfl "[id=7] kill" "move left, jump" ha rfl
  exact ⟨Window.validate_grammar, Window.chains_grammar, rfl, _, ha, rfl, hverdict⟩

end Parser

end CommandGrammar
