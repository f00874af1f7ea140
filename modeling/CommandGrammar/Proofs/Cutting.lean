import CommandGrammar.Proofs.Prefixes
import CommandGrammar.Proofs.Searches

/-!
# Cutting a text at a separator

Where a run accepts the end of a command at a separator, the text in front of the separator is a whole
command line: the run on it comes to the same configuration, has only blanks left to read, and accepts the
end of the command with the same token. If that leads to the initial state, nothing of what came before
matters behind the separator.

* `AtCut` — the end of a text from which a longer one goes on with a separator; `AtCut.divides` says what
  both runs do there.
* `Separates` — where a run on a whole text meets a separator (`exists_separates`).
* `Parser.parse_cut` — the statement about whole texts.
-/

namespace CommandGrammar

variable {tokens : List Token} {token : Token} {lexeme : Lexeme} {sep : Char}

/-- The text in front of a position. -/
def textUpTo (text : String) (position : Nat) : String := String.ofList (text.toList.take position)

/-- The text from a position on. -/
def textFrom (text : String) (position : Nat) : String := String.ofList (text.toList.drop position)

theorem length_textUpTo_le (text : String) (position : Nat) :
    (textUpTo text position).length ≤ text.length := by
  rw [textUpTo, String.length_ofList, List.length_take, String.length_toList]
  exact Nat.min_le_right _ _

theorem length_textFrom_le (text : String) (position : Nat) :
    (textFrom text position).length ≤ text.length := by
  rw [textFrom, String.length_ofList, List.length_drop, String.length_toList]
  exact Nat.sub_le _ _

/-! ## The end of a command -/

namespace Parser

variable {t : Table} {c : Config Trace}

/-- The end of a command is accepted at a separator alone if its lexeme has one. -/
theorem separator_of_choose? {cs : List Char} (hk : token.kind = .commandEnd)
    (hsep : lexeme.terminator = some sep) (h : choose? tokens cs = some (token, lexeme)) :
    isSeparator sep = true ∧ lexeme = { value := none, consumed := 1, terminator := some sep }
      ∧ ∃ b, cs = sep :: b := by
  have hl := lexeme?_of_choose? h
  simp only [Token.lexeme?, hk] at hl
  rcases Lexeme.commandEnd?_eq_some_iff.mp hl with ⟨-, rfl⟩ | ⟨d, b, rfl, hd, rfl⟩
  · cases hsep
  · obtain rfl : d = sep := Option.some.inj hsep
    exact ⟨hd, rfl, b, rfl⟩

/-- A step that accepts the end of a command. -/
theorem step_of_commandEnd (ht : t.tokens c.state = .ok tokens)
    (hch : choose? tokens c.skipBlanks.rest = some (token, lexeme)) (hk : token.kind = .commandEnd)
    (hvalue : lexeme.value = none) (hconsumed : lexeme.consumed = 1)
    (hnone : ((tracing t).follow token.transition c.skipBlanks).ending = none) :
    (tracing t).step c =
      { config := { ((tracing t).follow token.transition c.skipBlanks).config with
          position := c.skipBlanks.position + 1
          rest := c.skipBlanks.rest.drop 1
          environment := if lexeme.completesCommand then
              (Trace.markBoundary
                ((tracing t).follow token.transition c.skipBlanks).config.environment).1
            else ((tracing t).follow token.transition c.skipBlanks).config.environment }
        ending := if c.skipBlanks.rest = [] then some .complete else none
        journal := Machine.tries tokens c.skipBlanks
          ++ .matched c.skipBlanks.position c.state token lexeme
          :: (((tracing t).follow token.transition c.skipBlanks).journal
            ++ if lexeme.completesCommand then [.boundary c.skipBlanks.position] else [])
        actions := ((tracing t).follow token.transition c.skipBlanks).actions
        results := ((tracing t).follow token.transition c.skipBlanks).results } := by
  have ht' : (tracing t).table.tokens c.state = .ok tokens := ht
  rw [Machine.step_of_choose? _ ht' hch, accept_commandEnd hk hvalue hconsumed hnone]
  rfl

/-- The end of a text from which a longer one goes on with a separator, where the token chosen at the
separator ends a command. -/
structure AtCut (t : Table) (c : Config Trace) (token : Token) (sep : Char) (rest : List Char) : Prop where
  separator : isSeparator sep = true
  kind : token.kind = .commandEnd
  nothing_left : c.skipBlanks.rest = []
  choice : ∃ tokens, t.tokens c.state = .ok tokens ∧ choose? tokens (sep :: rest)
    = some (token, { value := none, consumed := 1, terminator := some sep })

namespace AtCut

variable {rest : List Char}

theorem follow_ending (hc : AtCut t c token sep rest) (h : t.Consistent) (d : Config Trace) :
    ((tracing t).follow token.transition d).ending = none := by
  obtain ⟨tokens, ht, hch⟩ := hc.choice
  exact Machine.follow_ending_eq_none (unfailing_tracing t)
    (h.actions c.state token ⟨tokens, ht, mem_of_choose? hch⟩) d

/-- **The text ends with the token of the separator**, and its transition is followed. -/
theorem step_front (hc : AtCut t c token sep rest) (h : t.Consistent) :
    ∃ d tokens, (tracing t).step c =
      { config := d
        ending := some .complete
        journal := Machine.tries tokens c.skipBlanks
          ++ .matched c.skipBlanks.position c.state token { value := none, consumed := 1 }
          :: (((tracing t).follow token.transition c.skipBlanks).journal
            ++ [.boundary c.skipBlanks.position])
        actions := ((tracing t).follow token.transition c.skipBlanks).actions
        results := ((tracing t).follow token.transition c.skipBlanks).results } := by
  obtain ⟨tokens, ht, hch⟩ := hc.choice
  have hlit : ∀ u ∈ tokens, u.kind = .literal → u.keyword ≠ [] := fun u hu hku hnil =>
    h.literals c.state u ⟨tokens, ht, hu⟩ hku (String.toList_eq_nil_iff.mp hnil)
  have hnil := choose?_nil_of_separator hlit hc.separator hc.kind hch
  rw [← hc.nothing_left] at hnil
  have hstep := step_of_commandEnd ht hnil hc.kind rfl rfl (hc.follow_ending h _)
  rw [if_pos hc.nothing_left] at hstep
  exact ⟨_, tokens, hstep⟩

/-- **At the separator the same transition is followed**, and the run goes on behind it. -/
theorem step_whole (hc : AtCut t c token sep rest) (h : t.Consistent) :
    ∃ tokens, t.tokens c.state = .ok tokens
      ∧ (tracing t).step ((Embedding.before (sep :: rest)).config c) =
        { config := { ((tracing t).follow token.transition c.skipBlanks).config with
            position := c.skipBlanks.position + 1
            rest
            environment :=
              ((tracing t).follow token.transition c.skipBlanks).config.environment.atSeparator sep }
          journal := Machine.tries tokens ((Embedding.before (sep :: rest)).config c).skipBlanks
            ++ .matched c.skipBlanks.position c.state token
                { value := none, consumed := 1, terminator := some sep }
              :: (((tracing t).follow token.transition c.skipBlanks).journal.map
                  (Embedding.before (σ := Trace) (sep :: rest)).event
                ++ if sep = ',' then [] else [.boundary c.skipBlanks.position])
          actions := ((tracing t).follow token.transition c.skipBlanks).actions
          results := ((tracing t).follow token.transition c.skipBlanks).results } := by
  obtain ⟨tokens, ht, hch⟩ := hc.choice
  have hskip := (Embedding.before (σ := Trace) (sep :: rest)).skipBlanks_config (c := c)
    fun _ => isBlank_of_mem_head? hc.separator
  have hrest : ((Embedding.before (sep :: rest)).config c).skipBlanks.rest = sep :: rest := by
    rw [hskip]
    show c.skipBlanks.rest ++ sep :: rest = _
    rw [hc.nothing_left, List.nil_append]
  have hfollow := Machine.follow_embed (m := (tracing t).toMachine)
    (Machine.respects_before (sep :: rest)) token.transition c.skipBlanks
  have hstep := step_of_commandEnd (c := (Embedding.before (sep :: rest)).config c) ht
    (by rw [hrest]; exact hch) hc.kind rfl rfl (hc.follow_ending h _)
  have hcompletes : Lexeme.completesCommand { value := none, consumed := 1, terminator := some sep }
      = !decide (sep = ',') := by
    unfold Lexeme.completesCommand
    by_cases hcomma : sep = ',' <;> simp [hcomma]
  refine ⟨tokens, ht, hstep.trans ?_⟩
  rw [hrest]
  simp only [hskip, hfollow, hcompletes]
  by_cases hcomma : sep = ',' <;>
    simp [hcomma, Trace.atSeparator, Embedding.progress, Embedding.config, Embedding.before]

end AtCut

/-! ## The two runs at a cut -/

/-- How the run on the text in front of a separator ends, how the one across it goes on, and what that one
writes down of the end of the command. -/
structure Divides (t : Table) (q front whole : Progress Trace Call TableError) (token : Token)
    (sep : Char) (rest : List Char) (own : Journal) : Prop where
  complete : front.ending = some .complete
  going : whole.ending = none
  actions : whole.actions = front.actions
  results : whole.results = front.results
  journal : ∃ tokens, t.tokens q.config.state = .ok tokens
    ∧ whole.journal = q.journal.map (Embedding.before (σ := Trace) (sep :: rest)).event
      ++ Machine.tries tokens ((Embedding.before (sep :: rest)).config q.config).skipBlanks
      ++ .matched q.config.skipBlanks.position q.config.state token
          { value := none, consumed := 1, terminator := some sep } :: own
  searches : ∀ e ∈ own, e.isSearch = false
  invocations : front.journal.invocations = q.journal.invocations ++ own.invocations
  calls : front.journal.trace.calls = q.journal.trace.calls ++ own.trace.calls
  position : whole.config.position = q.config.skipBlanks.position + 1
  rest : whole.config.rest = rest
  home : t.target token.transition = t.initial →
    whole.config.state = t.initial ∧ whole.config.captures = q.config.captures.clear

/-- **At a cut the run on the text in front of it ends, and the one across it goes on.** -/
theorem AtCut.divides {q : Progress Trace Call TableError} {rest : List Char}
    (hc : AtCut t q.config token sep rest) (h : t.Consistent) (hq : q.ending = none) :
    ∃ own, Divides t q (q.andThen (tracing t).step)
      (((Embedding.before (sep :: rest)).progress q).andThen (tracing t).step) token sep rest own := by
  obtain ⟨d, tokens', hfront⟩ := hc.step_front h
  obtain ⟨tokens, ht, hwhole⟩ := hc.step_whole h
  have hq' : ((Embedding.before (sep :: rest)).progress q).ending = none := hq
  have hhome : t.target token.transition = t.initial →
      ∃ s, ((tracing t).follow token.transition q.config.skipBlanks).config
        = { q.config.skipBlanks with
            state := t.initial, captures := q.config.skipBlanks.captures.clear, environment := s } := by
    intro htarget
    obtain ⟨tokens, ht, hch⟩ := hc.choice
    exact (Machine.follow_home (m := (tracing t).toMachine) h (unfailing_tracing t)
      ⟨tokens, ht, mem_of_choose? hch⟩ htarget _).2
  have hsearches := Machine.not_isSearch_of_mem_follow (tracing t).toMachine token.transition
    q.config.skipBlanks
  rw [Progress.andThen_of_none hq, Progress.andThen_of_none hq', hfront]
  rw [show (tracing t).step ((Embedding.before (sep :: rest)).progress q).config = _ from hwhole]
  generalize (tracing t).follow token.transition q.config.skipBlanks = f at hhome hsearches ⊢
  refine ⟨_,
    { complete := rfl
      going := rfl
      actions := rfl
      results := rfl
      journal := ⟨tokens, ht, by rw [List.append_assoc]; rfl⟩
      searches := ?_
      invocations := ?_
      calls := ?_
      position := rfl
      rest := rfl
      home := ?_ }⟩
  · intro e he
    rcases List.mem_append.mp he with he | he
    · obtain ⟨x, hx, rfl⟩ := List.mem_map.mp he
      rw [Embedding.isSearch_event]
      exact hsearches x hx
    · split at he
      · cases he
      · rw [List.mem_singleton.mp he]
        rfl
  · have hboundary : Journal.invocations
        (if sep = ',' then [] else [.boundary q.config.skipBlanks.position]) = [] := by
      split <;> rfl
    show Journal.invocations (q.journal ++ (_ ++ .matched _ _ _ _ :: (f.journal ++ [.boundary _]))) = _
    rw [Journal.invocations_append, Journal.invocations_append, (Journal.quiet_tries _ _).invocations,
      Journal.invocations_append, Embedding.invocations_map, hboundary]
    show _ ++ Journal.invocations (f.journal ++ [.boundary _]) = _
    rw [Journal.invocations_append]
    rfl
  · have hboundary : (Journal.trace
        (if sep = ',' then [] else [.boundary q.config.skipBlanks.position])).calls = [] := by
      split <;> rfl
    show (Journal.trace (q.journal ++ (_ ++ .matched _ _ _ _ :: (f.journal ++ [.boundary _])))).calls = _
    rw [Journal.trace_append, Journal.trace_append, (Journal.quiet_tries _ _).trace, Journal.trace_append,
      Embedding.trace_map, Trace.calls_append, Trace.empty_append, Trace.calls_append, hboundary]
    show _ ++ (Journal.trace (f.journal ++ [.boundary _])).calls = _
    rw [Journal.trace_append, Trace.calls_append]
    rfl
  · intro htarget
    obtain ⟨s, hs⟩ := hhome htarget
    simp only [hs]
    exact ⟨trivial, rfl⟩

/-! ## Where a run meets a separator -/

/-- Where a run on a text accepts the end of a command at a separator: the run on the text in front of it
has then nothing left to read. -/
structure Separates (t : Table) (text : String) (captures : Captures) (n position : Nat) (token : Token)
    (sep : Char) (q : Progress Trace Call TableError) : Prop where
  front : (tracing t).behind n (textUpTo text position) captures {} = q
  whole : (tracing t).behind n text captures {}
    = (Embedding.before (sep :: text.toList.drop (position + 1))).progress q
  going : q.ending = none
  place : q.config.skipBlanks.position = position
  cut : AtCut t q.config token sep (text.toList.drop (position + 1))

/-- A run that has come to a separator is the one on the text in front of it, where nothing is left to
read. -/
theorem behind_cut (h : t.Consistent) (hsep : isSeparator sep = true) {text : String}
    {front rest : List Char} (htext : text.toList = front ++ sep :: rest) {captures : Captures} {n : Nat}
    (hgoing : ((tracing t).behind n text captures {}).ending = none)
    (hplace : ((tracing t).behind n text captures {}).config.skipBlanks.position = front.length) :
    ∃ q, (tracing t).behind n (String.ofList front) captures {} = q
      ∧ (tracing t).behind n text captures {} = (Embedding.before (sep :: rest)).progress q
      ∧ q.ending = none ∧ q.config.skipBlanks.position = front.length
      ∧ q.config.skipBlanks.rest = [] := by
  have hsuffix := isBlank_of_mem_head? (b := rest) hsep
  have hstart : (tracing t).start text captures {}
      = (Embedding.before (sep :: rest)).config
          ((tracing t).start (String.ofList front) captures {}) := by
    simp [start, Embedding.config, Embedding.before, htext]
  have hw : ((tracing t).start (String.ofList front) captures {}).Within front := by
    have := (tracing t).start_within (String.ofList front) captures {}
    rwa [String.toList_ofList] at this
  have hposition : ((tracing t).behind n text captures {}).config.position ≤ front.length := by
    rw [← hplace]
    exact Nat.le_add_right _ _
  unfold behind at hgoing hposition hplace ⊢
  rw [hstart] at hgoing hposition hplace ⊢
  have hcut := Machine.steps_cut h.literals hw hgoing hposition
  rw [hcut] at hgoing hplace ⊢
  have hwithin := ((Machine.paced_steps h.literals hw n).going hgoing).1.skipBlanks
  generalize (tracing t).steps n ((tracing t).start (String.ofList front) captures {}) = q
    at hgoing hplace hwithin ⊢
  -- The place of the separator is the end of the text in front of it.
  have hskip := (Embedding.before (σ := Trace) (sep :: rest)).skipBlanks_config (c := q.config)
    fun _ => hsuffix
  have hend : ((Embedding.before (sep :: rest)).config q.config).skipBlanks.position = front.length :=
    hplace
  rw [hskip] at hend
  have hend' : q.config.skipBlanks.position = front.length := (Nat.zero_add _).symm.trans hend
  have hsum := hwithin.position_add
  exact ⟨q, rfl, rfl, hgoing, hend', List.length_eq_zero_iff.mp (by omega)⟩

/-- **A separator that is written down in a journal is met in one of the steps of the run**, and up to there
the run is the one on the text in front of it. -/
theorem exists_separates (h : t.Consistent) {text : String} {captures : Captures} {n : Nat}
    {pre post : Journal} {position : Nat} {state : StateName}
    (hj : ((tracing t).behind n text captures {}).journal
      = pre ++ .matched position state token lexeme :: post)
    (hk : token.kind = .commandEnd) (hsep : lexeme.terminator = some sep) :
    ∃ i k q tokens, n = i + (k + 1) ∧ Separates t text captures i position token sep q
      ∧ t.tokens q.config.state = .ok tokens
      ∧ pre = ((tracing t).behind i text captures {}).journal
        ++ Machine.tries tokens ((tracing t).behind i text captures {}).config.skipBlanks := by
  obtain ⟨i, k, pre', post', rfl, hnone, hpre, hstep⟩ := Machine.exists_step_of_matched hj
  obtain ⟨tokens, ht, hch, rfl, hposition⟩ := Machine.choice_of_matched hstep
  obtain ⟨hsep', rfl, b, hb⟩ := separator_of_choose? hk hsep hch
  obtain ⟨hle, hdrop⟩ := ((Machine.paced_steps h.literals ((tracing t).start_within text captures {})
    i).going hnone).1.skipBlanks
  rw [← hposition] at hle hdrop
  rw [hb] at hdrop
  -- The separator is the character behind what the cut leaves in front.
  have hrest : b = text.toList.drop (position + 1) := by
    rw [← List.drop_drop, ← hdrop]
    rfl
  have htext : text.toList = text.toList.take position ++ sep :: text.toList.drop (position + 1) := by
    rw [← hrest, hdrop, List.take_append_drop]
  have hlength : (text.toList.take position).length = position := by
    rw [List.length_take, Nat.min_eq_left hle]
  obtain ⟨q, hfront, hwhole, hgoing, hplace, hnil⟩ := behind_cut h hsep' htext hnone
    (hposition.symm.trans hlength.symm)
  have hlisted : t.tokens q.config.state = .ok tokens := by
    have : t.tokens ((tracing t).behind i text captures {}).config.state = .ok tokens := ht
    rwa [hwhole] at this
  refine ⟨i, k, q, tokens, rfl, ?_, hlisted, hpre⟩
  exact
    { front := hfront
      whole := hwhole
      going := hgoing
      place := hplace.trans hlength
      cut :=
        { separator := hsep'
          kind := hk
          nothing_left := hnil
          choice := ⟨tokens, hlisted, hrest ▸ hb ▸ hch⟩ } }

/-! ## Whole texts -/

/-- A match that a parser writes down is one of the run, and behind the run nothing more happens. -/
theorem exists_behind_of_matched (h : t.Consistent) {capacity : Int} {limit : Option Int} {text : String}
    {pre post : Journal} {position : Nat} {state : StateName}
    (hj : ((limited t capacity limit).parse text {}).journal
      = pre ++ .matched position state token lexeme :: post) :
    ∃ captures pre' post' last, Captures.empty? capacity = .ok captures
      ∧ (limited t capacity limit).exceeds text = none
      ∧ ((tracing t).behind (text.length + 1) text captures {}).journal
        = pre' ++ .matched position state token lexeme :: post'
      ∧ pre = .started text :: pre' ∧ post = post' ++ last ∧ Journal.Quiet last := by
  cases hlimit : (limited t capacity limit).exceeds text with
  | some n => simp [parse, hlimit] at hj
  | none =>
    cases hempty : Captures.empty? capacity with
    | error e =>
      have hcapacity : (limited t capacity limit).captureCapacity = capacity := rfl
      simp only [parse, hlimit, hcapacity, hempty] at hj
      rcases pre with - | ⟨e, pre⟩ <;> simp at hj
    | ok captures =>
      rw [(parse_limited h hempty hlimit).1] at hj
      obtain ⟨last, hj', hquiet, hlast⟩ := conclude_quiet text
        ((tracing t).behind (text.length + 1) text captures {})
      rw [hj'] at hj
      rcases Machine.exists_split_of_append hj with ⟨post', hrun⟩ | ⟨pre', -, hend⟩
      · rw [hrun, List.append_assoc] at hj
        obtain ⟨-, hpost⟩ := List.cons.inj (List.append_cancel_left hj)
        rcases pre with - | ⟨e, pre⟩
        · cases (List.cons.inj hrun).1
        · obtain ⟨rfl, hrun'⟩ := List.cons.inj hrun
          exact ⟨captures, pre, post', last, rfl, rfl, hrun', rfl, hpost.symm, hquiet⟩
      · exact absurd rfl (hlast _ (by rw [hend]; simp) position state token lexeme)

namespace Separates

variable {text : String} {captures : Captures} {n position : Nat}
  {q : Progress Trace Call TableError} {own : Journal}

theorem divides (hs : Separates t text captures n position token sep q) (h : t.Consistent) :
    ∃ own, Divides t q
      ((tracing t).behind (n + 1) (textUpTo text position) captures {})
      ((tracing t).behind (n + 1) text captures {}) token sep (text.toList.drop (position + 1)) own := by
  rw [behind_succ, behind_succ, hs.front, hs.whole]
  exact hs.cut.divides h hs.going

/-- The text in front of a separator is run on to its end. -/
theorem parse_front (hs : Separates t text captures n position token sep q) (h : t.Consistent)
    {capacity : Int} {limit : Option Int} (hempty : Captures.empty? capacity = .ok captures)
    (hlimit : (limited t capacity limit).exceeds text = none) :
    (limited t capacity limit).parse (textUpTo text position) {}
      = conclude (textUpTo text position)
          ((tracing t).behind (n + 1) (textUpTo text position) captures {}) := by
  obtain ⟨own, hd⟩ := hs.divides h
  obtain ⟨hparse, hends⟩ := parse_limited h hempty (exceeds_of_le (length_textUpTo_le text position) hlimit)
  obtain ⟨e, he⟩ := Option.ne_none_iff_exists'.mp hends
  rw [hparse]
  exact congrArg _ ((tracing t).steps_eq_of_ended he hd.complete)

/-- **Behind a separator from which the run goes on in the initial state, it is the one on what is left**,
but further on in the text and with what has been recorded behind it. -/
theorem steps_back (hs : Separates t text captures n position token sep q) (h : t.Consistent)
    (hempty : captures.toList = []) (hhome : t.target token.transition = t.initial) {k m : Nat}
    (hk : ((tracing t).behind (n + 1 + k) text captures {}).ending ≠ none)
    (hm : ((tracing t).behind m (textFrom text (position + 1)) captures {}).ending
      ≠ none) :
    (tracing t).steps k ((tracing t).behind (n + 1) text captures {}).config
      = (Embedding.after (position + 1)
          ((tracing t).behind (n + 1) text captures {}).config.environment).progress
          ((tracing t).behind m (textFrom text (position + 1)) captures {}) := by
  obtain ⟨own, hd⟩ := hs.divides h
  obtain ⟨hstate, hcleared⟩ := hd.home hhome
  have hcaptures : q.config.captures.clear = captures := by
    refine Captures.clear_eq ?_ hempty
    rw [← hs.front]
    exact (tracing t).steps_capacity n _
  have hposition := hd.position
  rw [hs.place] at hposition
  have hrest := hd.rest
  rw [hcaptures] at hcleared
  have hsplit : (tracing t).behind (n + 1 + k) text captures {}
      = ((tracing t).behind (n + 1) text captures {}).andThen ((tracing t).steps k) :=
    (tracing t).steps_add (n + 1) k _
  rw [hsplit, Progress.ending_andThen_of_none hd.going] at hk
  generalize (tracing t).behind (n + 1) text captures {} = r at hk hstate hcleared hposition hrest ⊢
  have hstart : r.config = (Embedding.after (position + 1) r.config.environment).config
      ((tracing t).start (textFrom text (position + 1)) captures {}) := by
    obtain ⟨⟨p, cs, s, cap, env⟩, _, _, _, _⟩ := r
    simp only at hstate hcleared hposition hrest
    simp [Embedding.after, Embedding.config, start, textFrom, hstate, hcleared, hposition, hrest]
  have hembed : ∀ l, (tracing t).steps l r.config
      = (Embedding.after (position + 1) r.config.environment).progress
          ((tracing t).behind l (textFrom text (position + 1)) captures {}) := by
    intro l
    conv_lhs => rw [hstart]
    exact Machine.steps_embed (respects_after t _ _) rfl l _
  rw [hembed] at hk ⊢
  obtain ⟨e, he⟩ := Option.ne_none_iff_exists'.mp hk
  obtain ⟨e', he'⟩ := Option.ne_none_iff_exists'.mp hm
  exact congrArg _ ((tracing t).steps_eq_of_ended he he')

/-- What the whole run has done in front of the separator is what the run on the text in front of it has
done. -/
theorem front_eq (hs : Separates t text captures n position token sep q) {pre : Journal}
    (hpre : pre = ((tracing t).behind n text captures {}).journal
      ++ Machine.tries tokens ((tracing t).behind n text captures {}).config.skipBlanks) :
    pre.invocations = q.journal.invocations ∧ pre.trace = q.journal.trace := by
  have hquiet := Journal.quiet_tries tokens ((tracing t).behind n text captures {}).config.skipBlanks
  rw [hpre, Journal.invocations_append, Journal.trace_append, hquiet.invocations, hquiet.trace, hs.whole]
  refine ⟨?_, ?_⟩
  · rw [List.append_nil]
    exact Embedding.invocations_map _ _
  · rw [Trace.append_empty]
    exact Embedding.trace_map _ _

/-- What the whole run writes down: what stands in front of the acceptance at the separator, what belongs
to it, and what follows. -/
theorem journal_eq (hs : Separates t text captures n position token sep q)
    (hd : Divides t q ((tracing t).behind (n + 1) (textUpTo text position) captures {})
      ((tracing t).behind (n + 1) text captures {}) token sep (text.toList.drop (position + 1)) own)
    {pre post : Journal} {state : StateName} {k : Nat}
    (hj : ((tracing t).behind (n + 1 + k) text captures {}).journal
      = pre ++ .matched position state token lexeme :: post)
    (hlisted : t.tokens q.config.state = .ok tokens)
    (hpre : pre = ((tracing t).behind n text captures {}).journal
        ++ Machine.tries tokens ((tracing t).behind n text captures {}).config.skipBlanks) :
    ((tracing t).behind (n + 1) text captures {}).journal
        = pre ++ .matched position state token lexeme :: own
      ∧ post = own
        ++ ((tracing t).steps k ((tracing t).behind (n + 1) text captures {}).config).journal := by
  obtain ⟨tokens', hlisted', hwhole⟩ := hd.journal
  obtain rfl := Except.ok.inj (hlisted.symm.trans hlisted')
  rw [hs.whole] at hpre
  have hsplit : (tracing t).behind (n + 1 + k) text captures {}
      = ((tracing t).behind (n + 1) text captures {}).andThen ((tracing t).steps k) :=
    (tracing t).steps_add (n + 1) k _
  rw [hs.place] at hwhole
  replace hwhole : ((tracing t).behind (n + 1) text captures {}).journal = pre ++ _ := hpre ▸ hwhole
  rw [hsplit, Progress.journal_andThen_of_none hd.going, hwhole, List.append_assoc] at hj
  obtain ⟨hmatched, hpost⟩ := List.cons.inj (List.append_cancel_left hj)
  exact ⟨hmatched ▸ hwhole, hpost.symm⟩

/-- Where the run goes on in the initial state, it leaves behind what the run on the text behind the
separator does, and comes to the same end. -/
theorem conclude_back (hs : Separates t text captures n position token sep q)
    (hd : Divides t q ((tracing t).behind (n + 1) (textUpTo text position) captures {})
      ((tracing t).behind (n + 1) text captures {}) token sep (text.toList.drop (position + 1)) own)
    (h : t.Consistent) (hempty : captures.toList = [])
    (hhome : t.target token.transition = t.initial) {k m : Nat}
    (hk : ((tracing t).behind (n + 1 + k) text captures {}).ending ≠ none)
    (hm : ((tracing t).behind m (textFrom text (position + 1)) captures {}).ending ≠ none) :
    (conclude text ((tracing t).behind (n + 1 + k) text captures {})).environment
        = ((tracing t).behind (n + 1) text captures {}).journal.trace
          ++ (conclude (textFrom text (position + 1))
            ((tracing t).behind m (textFrom text (position + 1)) captures {})).environment
      ∧ (conclude text ((tracing t).behind (n + 1 + k) text captures {})).verdict
        = (conclude (textFrom text (position + 1))
            ((tracing t).behind m (textFrom text (position + 1)) captures {})).verdict.map
            (Outcome.chained
              ⟨((tracing t).behind (n + 1) (textUpTo text position) captures {}).actions,
                ((tracing t).behind (n + 1) (textUpTo text position) captures {}).results, none⟩
              text (position + 1)) := by
  have hsteps := hs.steps_back h hempty hhome hk hm
  have hrecords : ((tracing t).behind (n + 1) text captures {}).config.environment = {} ++ _ :=
    records_steps t (n + 1) ((tracing t).start text captures {})
  have hsplit : (tracing t).behind (n + 1 + k) text captures {}
      = ((tracing t).behind (n + 1) text captures {}).andThen ((tracing t).steps k) :=
    (tracing t).steps_add (n + 1) k _
  rw [Progress.andThen_of_none hd.going, hsteps] at hsplit
  rw [Trace.empty_append] at hrecords
  rw [hsplit, conclude_environment, conclude_environment, ← hd.actions, ← hd.results]
  refine ⟨congrArg (· ++ _) hrecords, ?_⟩
  refine conclude_chained (φ := .after (position + 1)
    ((tracing t).behind (n + 1) text captures {}).config.environment) ?_ ?_ ?_ ?_ _ _
  · rfl
  · rfl
  · rfl
  · rfl

end Separates

/-- **Cutting**: where a run accepts the end of a command at a separator, the text in front of it is
accepted and does what the run has done up to the next search. If the end of the command leads to the
initial state, the rest of the run does what a run on the text behind the separator does, and ends as that
one ends. -/
theorem parse_cut (t : Table) (hvalid : t.validate = .ok t) (capacity : Int) (limit : Option Int)
    (text : String) {pre post : Journal} {position : Nat} {state : StateName}
    (hrun : ((limited t capacity limit).parse text {}).journal
      = pre ++ .matched position state token lexeme :: post)
    (hkind : token.kind = .commandEnd) (hsep : lexeme.terminator = some sep) :
    ∃ first, ((limited t capacity limit).parse (textUpTo text position) {}).verdict = .ok first
      ∧ first.ok = true
      ∧ ((limited t capacity limit).parse (textUpTo text position) {}).journal.invocations
        = (pre ++ post.untilSearch).invocations
      ∧ ((limited t capacity limit).parse (textUpTo text position) {}).environment.calls
        = (pre ++ post.untilSearch).trace.calls
      ∧ (t.target token.transition = t.initial →
        post.fromSearch.invocations
            = ((limited t capacity limit).parse (textFrom text (position + 1)) {}).journal.invocations
          ∧ post.fromSearch.boundaries
            = ((limited t capacity limit).parse (textFrom text (position + 1)) {}).journal.boundaries
          ∧ ((limited t capacity limit).parse text {}).environment
            = (pre ++ post.untilSearch).trace
              ++ ((limited t capacity limit).parse (textFrom text (position + 1)) {}).environment
          ∧ ((limited t capacity limit).parse text {}).verdict
            = ((limited t capacity limit).parse (textFrom text (position + 1)) {}).verdict.map
                (first.chained text (position + 1))) := by
  have h := Table.consistent_of_validate hvalid
  obtain ⟨captures, pre, post, last, hempty, hlimit, hj, rfl, rfl, hlast⟩ :=
    exists_behind_of_matched h hrun
  obtain ⟨n, k, q, tokens, hn, hs, hlisted, hpre⟩ := exists_separates h hj hkind hsep
  obtain ⟨own, hd⟩ := hs.divides h
  obtain ⟨hwhole, hends⟩ := parse_limited h hempty hlimit
  have hstate : t.HasTokens ((tracing t).behind (n + 1) text captures {}).config.state :=
    (Machine.contained_steps h (h.hasTokens h.initial) (n + 1)).state
  rw [show text.length + 1 = n + 1 + k by omega] at hj hwhole hends
  obtain ⟨hjournal, rfl⟩ := hs.journal_eq hd hj hlisted hpre
  -- The run ends behind the separator, so it goes on there with a search.
  obtain ⟨k, rfl⟩ : ∃ l, k = l + 1 := by
    refine Nat.exists_eq_add_one_of_ne_zero ?_
    rintro rfl
    exact hends hd.going
  have hnext := Machine.isSearch_of_mem_head? (m := (tracing t).toMachine) hstate k last
  rw [List.append_assoc, Journal.untilSearch_append hd.searches hnext,
    Journal.fromSearch_append hd.searches hnext]
  obtain ⟨hinvocations, htrace⟩ := hs.front_eq hpre
  refine ⟨⟨((tracing t).behind (n + 1) (textUpTo text position) captures {}).actions,
    ((tracing t).behind (n + 1) (textUpTo text position) captures {}).results, none⟩, ?_, rfl, ?_, ?_, ?_⟩
  · rw [hs.parse_front h hempty hlimit]
    exact conclude_of_complete hd.complete
  · rw [hs.parse_front h hempty hlimit, invocations_conclude, hd.invocations,
      Journal.invocations_append, ← hinvocations]
    rfl
  · rw [environment_eq_trace, hs.parse_front h hempty hlimit, trace_conclude, hd.calls,
      Journal.trace_append, ← htrace]
    rfl
  · intro hhome
    obtain ⟨hback, hbackEnds⟩ :=
      parse_limited h hempty (exceeds_of_le (length_textFrom_le text (position + 1)) hlimit)
    have hsteps := hs.steps_back h (toList_of_empty? hempty) hhome hends hbackEnds
    obtain ⟨henv, hverdict⟩ := hs.conclude_back hd h (toList_of_empty? hempty) hhome hends hbackEnds
    rw [hwhole, hback, invocations_conclude, boundaries_conclude, Journal.invocations_append,
      hlast.invocations, List.append_nil, hsteps]
    refine ⟨Embedding.invocations_map _ _, ?_, ?_, hverdict⟩
    · exact (hlast.boundariesFrom_append 0).trans (Embedding.boundariesFrom_map _ 0 _)
    · rw [henv, hjournal]
      congr 1
      rw [Journal.trace_append, Journal.trace_append]
      rfl

/-- A command with criteria in front of one that goes wrong. It is cut at the second semicolon: the first one
stands in quotes. -/
theorem parse_cut_window :
    Window.grammar.validate = .ok Window.grammar
      ∧ ∃ pre post, ((limited Window.grammar 2 none).parse "[id=\"a;b\"] kill; jump" {}).journal
          = pre ++ .matched 15 "KILL" (.commandEnd (Window.call "cmd_kill"))
              { value := none, consumed := 1, terminator := some ';' } :: post
        ∧ ∃ first, ((limited Window.grammar 2 none).parse
              (textUpTo "[id=\"a;b\"] kill; jump" 15) {}).verdict = .ok first
          ∧ first.ok = true
          ∧ ((limited Window.grammar 2 none).parse "[id=\"a;b\"] kill; jump" {}).verdict
            = ((limited Window.grammar 2 none).parse (textFrom "[id=\"a;b\"] kill; jump" 16) {}).verdict.map
                (first.chained "[id=\"a;b\"] kill; jump" 16) := by
  obtain ⟨pre, post, hrun⟩ : ∃ pre post, ((limited Window.grammar 2 none).parse "[id=\"a;b\"] kill; jump" {}).journal
      = pre ++ .matched 15 "KILL" (.commandEnd (Window.call "cmd_kill"))
          { value := none, consumed := 1, terminator := some ';' } :: post :=
    ⟨((limited Window.grammar 2 none).parse "[id=\"a;b\"] kill; jump" {}).journal.take 41,
      ((limited Window.grammar 2 none).parse "[id=\"a;b\"] kill; jump" {}).journal.drop 42, by decide +kernel⟩
  obtain ⟨first, hfirst, hok, -, -, hhome⟩ :=
    parse_cut Window.grammar Window.validate_grammar 2 none "[id=\"a;b\"] kill; jump" hrun rfl rfl
  exact ⟨Window.validate_grammar, pre, post, hrun, first, hfirst, hok, (hhome rfl).2.2.2⟩

end Parser

end CommandGrammar
