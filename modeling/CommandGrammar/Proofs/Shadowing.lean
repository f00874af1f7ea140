import CommandGrammar.Proofs.Folding
import CommandGrammar.Proofs.LetterCase
import CommandGrammar.Proofs.Searches

/-!
# Shadowed tokens

The tokens of a state are tried in order, so a token that matches only where one in front of it does is never
accepted. Taking it out of the table changes nothing but what is tried and what a diagnostic expects.

* `Token.Shadows` — the pairs of tokens of which the second never matches alone (`Shadows.lexeme?_ne_none`).
* `choose?_eraseIdx` — the choice of a token does not depend on a shadowed one.
* `Table.without` — a table without one of the tokens of a state, which stays valid (`Consistent.without`).
* `Progress.Pruned` — two stretches of runs, the second of them without the token (`pruned_step`, `pruned_run`).
* `Parser.shadowed_is_dead` — the statement about whole texts.
-/

namespace CommandGrammar

open Text

/-! ## Tokens that shadow others -/

namespace Token

variable {first later : Token}

/-- Wherever the second token matches, the first one does as well. -/
inductive Shadows : (first later : Token) → Prop where
  /-- A literal shadows those that it begins, the case of letters aside. -/
  | literal {first later : Token} (hfirst : first.kind = .literal) (hlater : later.kind = .literal)
    (hascii : ∀ c ∈ first.keyword, c.toNat < 0x80) (hascii' : ∀ c ∈ later.keyword, c.toNat < 0x80)
    (hbegins : foldCase first.keyword <+: foldCase later.keyword) : Shadows first later
  /-- A string shadows strings and words. -/
  | string {first later : Token} (hfirst : first.kind = .string)
    (hlater : later.kind = .string ∨ later.kind = .word) : Shadows first later
  /-- A word shadows words. -/
  | word {first later : Token} (hfirst : first.kind = .word) (hlater : later.kind = .word) :
    Shadows first later
  /-- The end of a command shadows any other one. -/
  | commandEnd {first later : Token} (hfirst : first.kind = .commandEnd)
    (hlater : later.kind = .commandEnd) : Shadows first later
  /-- A word or a string shadows the literals that begin neither with a quote nor with one of its delimiters. -/
  | freeText {first later : Token} {delimiter : Char → Bool} (hfirst : first.kind.delimiter? = some delimiter)
    (hlater : later.kind = .literal)
    (hhead : ∀ c ∈ (lower later.keyword).head?, c ≠ '"' ∧ delimiter c = false) : Shadows first later

/-- A token matches where it takes something. -/
theorem lexeme?_ne_none_of_takes {token : Token} {taken rest cs : List Char} (hcs : cs = taken ++ rest)
    (h : token.Takes taken rest) : token.lexeme? cs ≠ none := by
  rw [lexeme?_eq_some_iff.mpr ⟨taken, rest, hcs, h, rfl⟩]
  exact Option.some_ne_none _

/-- Free text with fewer delimiters matches wherever one with more of them does. -/
theorem lexeme?_ne_none_of_delimiter {delimiter delimiter' : Char → Bool}
    (hfirst : first.kind.delimiter? = some delimiter) (hlater : later.kind.delimiter? = some delimiter')
    (hle : ∀ c, delimiter' c = false → delimiter c = false) {taken rest : List Char}
    (h : later.Takes taken rest) : first.lexeme? (taken ++ rest) ≠ none := by
  cases h with
  | keyword hk | separator hk | endOfText hk =>
    rw [hk] at hlater
    cases hlater
  | bare hk hne hq hx =>
    obtain rfl : delimiter' = _ := Option.some.inj (hlater.symm.trans hk)
    obtain ⟨c, taken, rfl⟩ := List.exists_cons_of_ne_nil hne
    have hc : c ≠ '"' := fun hc => hq (congrArg some hc)
    obtain ⟨x, rest', hcs, htakes⟩ :=
      exists_takes_of_head hfirst (hle c (hx c List.mem_cons_self)) hc (taken ++ rest)
    exact lexeme?_ne_none_of_takes hcs htakes
  | quoted _ hv => exact lexeme?_ne_none_of_takes rfl (.quoted hfirst hv)

/-- No delimiter has letter case. -/
theorem isPlain_of_delimiter {delimiter : Char → Bool} {c : Char}
    (hk : first.kind.delimiter? = some delimiter) (hc : delimiter c = true) : IsPlain c := by
  have hword : isWordDelimiter c = true := by
    rcases kind_of_delimiter? hk with h | h <;> rw [h] at hk <;> cases hk
    · exact hc
    · simp [isWordDelimiter, hc]
  simp only [isWordDelimiter, isBlank, isSeparator, Bool.or_eq_true, beq_iff_eq] at hword
  rcases hword with ((rfl | rfl) | rfl | rfl) | rfl <;> decide

/-- Free text matches where a literal does that begins with none of its delimiters and no quote. -/
theorem lexeme?_ne_none_of_head {delimiter : Char → Bool} (hfirst : first.kind.delimiter? = some delimiter)
    {keyword x rest : List Char} (hx : lower x = lower keyword) (hne : x ≠ [])
    (hhead : ∀ c ∈ (lower keyword).head?, c ≠ '"' ∧ delimiter c = false) :
    first.lexeme? (x ++ rest) ≠ none := by
  obtain ⟨c, x, rfl⟩ := List.exists_cons_of_ne_nil hne
  -- Punctuation in front would be in front of the literal as well.
  have hplain : IsPlain c → c ≠ '"' ∧ delimiter c = false := by
    intro hc
    refine hhead c ?_
    rw [← hx]
    exact (head?_lower_iff hc _).mpr rfl
  have hquote : c ≠ '"' := by
    rintro rfl
    exact (hplain (by decide)).1 rfl
  have hdelimiter : delimiter c = false := by
    cases hc : delimiter c with
    | false => rfl
    | true => exact hc.symm.trans (hplain (isPlain_of_delimiter hfirst hc)).2
  obtain ⟨taken, rest', hcs, htakes⟩ := exists_takes_of_head hfirst hdelimiter hquote (x ++ rest)
  exact lexeme?_ne_none_of_takes hcs htakes

/-- A literal matches where a longer one does that it begins. -/
theorem lexeme?_ne_none_of_prefix (hfirst : first.kind = .literal)
    (hascii : ∀ c ∈ first.keyword, c.toNat < 0x80) {keyword : List Char}
    (hascii' : ∀ c ∈ keyword, c.toNat < 0x80) (hbegins : foldCase first.keyword <+: foldCase keyword)
    {x rest : List Char} (hlength : x.length = keyword.length) (hx : lower x = lower keyword) :
    first.lexeme? (x ++ rest) ≠ none := by
  have hle : first.keyword.length ≤ x.length := by
    have h := hbegins.length_le
    rw [length_foldCase, length_foldCase] at h
    omega
  have hsmall : lower x = foldCase keyword := hx.trans (lowerAfter_of_ascii hascii' false)
  have hsmallAscii : ∀ d ∈ lower x, d.toNat < 0x80 := by
    rw [hsmall]
    intro d hd
    obtain ⟨c, hc, rfl⟩ := List.mem_map.mp hd
    exact toLower_lt_ascii (hascii' c hc)
  have htake : lower (x.take first.keyword.length) = lower first.keyword := by
    calc lower (x.take first.keyword.length)
        = (lower x).take first.keyword.length := lower_take hsmallAscii _
      _ = (foldCase keyword).take (foldCase first.keyword).length := by rw [hsmall, length_foldCase]
      _ = foldCase first.keyword := (List.prefix_iff_eq_take.mp hbegins).symm
      _ = lower first.keyword := (lowerAfter_of_ascii hascii false).symm
  have hcs : x ++ rest = x.take first.keyword.length ++ (x.drop first.keyword.length ++ rest) := by
    rw [← List.append_assoc, List.take_append_drop]
  exact lexeme?_ne_none_of_takes hcs
    (.keyword hfirst (by rw [List.length_take, Nat.min_eq_left hle]) htake)

/-- **A token that shadows another one matches wherever that one does.** -/
theorem Shadows.lexeme?_ne_none (h : first.Shadows later)
    (hlit : later.kind = .literal → later.text.getD "" ≠ "") {cs : List Char}
    (hmatch : later.lexeme? cs ≠ none) : first.lexeme? cs ≠ none := by
  obtain ⟨l, hl⟩ := Option.ne_none_iff_exists'.mp hmatch
  obtain ⟨taken, rest, rfl, htakes, -⟩ := lexeme?_eq_some_iff.mp hl
  have hkeyword : later.kind = .literal →
      taken.length = later.keyword.length ∧ lower taken = lower later.keyword := by
    intro hk
    cases htakes with
    | keyword _ hlength hlower => exact ⟨hlength, hlower⟩
    | bare hd | quoted hd => rw [hk] at hd; cases hd
    | separator hk' | endOfText hk' => rw [hk] at hk'; cases hk'
  cases h with
  | literal hfirst hlater hascii hascii' hbegins =>
    obtain ⟨hlength, hlower⟩ := hkeyword hlater
    exact lexeme?_ne_none_of_prefix hfirst hascii hascii' hbegins hlength hlower
  | string hfirst hlater =>
    have hstring : first.kind.delimiter? = some isSeparator := by rw [hfirst]; rfl
    rcases hlater with hlater | hlater
    · have hstring' : later.kind.delimiter? = some isSeparator := by rw [hlater]; rfl
      exact lexeme?_ne_none_of_delimiter hstring hstring' (fun _ => id) htakes
    · have hword : later.kind.delimiter? = some isWordDelimiter := by rw [hlater]; rfl
      refine lexeme?_ne_none_of_delimiter hstring hword (fun c hc => ?_) htakes
      simp only [isWordDelimiter, Bool.or_eq_false_iff] at hc
      exact hc.1.2
  | word hfirst hlater =>
    have hword : first.kind.delimiter? = some isWordDelimiter := by rw [hfirst]; rfl
    have hword' : later.kind.delimiter? = some isWordDelimiter := by rw [hlater]; rfl
    exact lexeme?_ne_none_of_delimiter hword hword' (fun _ => id) htakes
  | commandEnd hfirst hlater =>
    have hsame : ∀ cs, first.lexeme? cs = later.lexeme? cs := by
      intro cs
      simp only [lexeme?, hfirst, hlater]
    rwa [hsame]
  | freeText hfirst hlater hhead =>
    obtain ⟨hlength, hlower⟩ := hkeyword hlater
    refine lexeme?_ne_none_of_head hfirst hlower ?_ hhead
    -- A literal of a valid table is not empty, and takes as many characters as it has.
    rintro rfl
    exact hlit hlater (String.toList_eq_nil_iff.mp (List.eq_nil_of_length_eq_zero hlength.symm))

end Token

/-! ## Choosing without a shadowed token -/

variable {tokens : List Token} {i k : Nat} {first later : Token}

/-- A token stands among those in front of a later place. -/
theorem mem_take_of_getElem? (hi : tokens[i]? = some first) (hik : i < k) : first ∈ tokens.take k :=
  List.mem_iff_getElem?.mpr ⟨i, by rw [List.getElem?_take_of_lt hik, hi]⟩

/-- **The choice of a token does not depend on one behind another that matches wherever it does.** -/
theorem choose?_eraseIdx {cs : List Char} (hi : tokens[i]? = some first) (hk : tokens[k]? = some later)
    (hik : i < k) (hmatches : later.lexeme? cs ≠ none → first.lexeme? cs ≠ none) :
    choose? (tokens.eraseIdx k) cs = choose? tokens cs := by
  obtain ⟨hlt, rfl⟩ := List.getElem?_eq_some_iff.mp hk
  have hsplit : tokens = tokens.take k ++ tokens[k] :: tokens.drop (k + 1) := by
    rw [← List.drop_eq_getElem_cons hlt, List.take_append_drop]
  rw [List.eraseIdx_eq_take_drop_succ]
  conv_rhs => rw [hsplit]
  unfold choose?
  rw [List.findSome?_append, List.findSome?_append]
  cases hfront : (tokens.take k).findSome? fun token => (token.lexeme? cs).map (token, ·) with
  | some chosen => rfl
  | none =>
    -- No token in front matches, so the shadowed one does not.
    have hnone := Option.map_eq_none_iff.mp
      (List.findSome?_eq_none_iff.mp hfront first (mem_take_of_getElem? hi hik))
    have hlater : tokens[k].lexeme? cs = none := Classical.not_not.mp fun h => hmatches h hnone
    rw [List.findSome?_cons, hlater]
    rfl

/-! ## Tables without a token -/

/-- A table without the token at a place among those of a state. -/
def Table.without (t : Table) (state : StateName) (k : Nat) : Table where
  states :=
    { entries := t.states.entries.map fun e => (e.1, if e.1 = state then e.2.eraseIdx k else e.2)
      nodup := by
        rw [List.map_map]
        exact t.states.nodup }
  actions := t.actions
  initial := t.initial

namespace Table

variable {t : Table} {state source : StateName} {token : Token} {k : Nat}

/-- The look-up in entries of which one has been changed. -/
theorem lookup_without (entries : List (StateName × List Token)) :
    (entries.map fun e => (e.1, if e.1 = state then e.2.eraseIdx k else e.2)).lookup source
      = (entries.lookup source).map fun tokens => if source = state then tokens.eraseIdx k else tokens := by
  induction entries with
  | nil => rfl
  | cons e entries ih =>
    rw [List.map_cons, List.lookup_cons, List.lookup_cons, ih]
    cases h : source == e.1 with
    | true => rw [eq_of_beq h]; rfl
    | false => rfl

theorem tokens_without (t : Table) (state source : StateName) (k : Nat) :
    (t.without state k).tokens source
      = (t.tokens source).map fun tokens => if source = state then tokens.eraseIdx k else tokens := by
  unfold tokens OrderedMap.get? without
  rw [lookup_without]
  cases t.states.entries.lookup source <;> rfl

/-- A table without a token lists no other tokens than before. -/
theorem lists_of_without (h : (t.without state k).Lists source token) : t.Lists source token := by
  obtain ⟨tokens, ht, hm⟩ := h
  rw [tokens_without] at ht
  cases hs : t.tokens source with
  | error e => rw [hs] at ht; cases ht
  | ok all =>
    rw [hs] at ht
    obtain rfl := Except.ok.inj ht
    refine ⟨all, hs, ?_⟩
    split at hm
    · exact List.mem_of_mem_eraseIdx hm
    · exact hm

/-- The states are the same as before. -/
theorem knows_without (h : ∃ tokens, t.tokens source = .ok tokens) :
    ∃ tokens, (t.without state k).tokens source = .ok tokens := by
  obtain ⟨tokens, ht⟩ := h
  rw [tokens_without, ht]
  exact ⟨_, rfl⟩

/-- **A consistent table stays consistent** without a token that is not the first one of its state. -/
theorem Consistent.without (h : t.Consistent) (state : StateName) (hk : 0 < k) :
    (t.without state k).Consistent where
  initial := knows_without h.initial
  nonempty source ht := by
    rw [tokens_without] at ht
    cases hs : t.tokens source with
    | error e => rw [hs] at ht; cases ht
    | ok tokens =>
      rw [hs] at ht
      have hnil := Except.ok.inj ht
      have htokens : tokens ≠ [] := fun hn => h.nonempty source (hn ▸ hs)
      split at hnil
      · rcases List.eraseIdx_eq_nil_iff.mp hnil with hn | ⟨-, rfl⟩
        · exact htokens hn
        · exact Nat.lt_irrefl 0 hk
      · exact htokens hnil
  literals source token hlist := h.literals source token (lists_of_without hlist)
  ends source token hlist := h.ends source token (lists_of_without hlist)
  loops source token hlist := h.loops source token (lists_of_without hlist)
  actions source token hlist := h.actions source token (lists_of_without hlist)
  targets source token hlist := knows_without (h.targets source token (lists_of_without hlist))

/-- The token at a place among those of a state is never chosen. -/
def Needless (t : Table) (state : StateName) (k : Nat) : Prop :=
  ∀ tokens, t.tokens state = .ok tokens → ∀ cs, choose? (tokens.eraseIdx k) cs = choose? tokens cs

end Table

/-! ## Two runs side by side -/

section

variable {σ ρ ε : Type}

/-- A machine on the table without a token. -/
def Machine.without (m : Machine σ ρ ε) (state : StateName) (k : Nat) : Machine σ ρ ε :=
  { m with table := m.table.without state k }

/-- A parser on the table without a token. -/
def Parser.without (p : Parser σ ρ ε) (state : StateName) (k : Nat) : Parser σ ρ ε :=
  { p with toMachine := p.toMachine.without state k }

/-- What is expected in a state, without the token at a place among those of one of the states. -/
def expectedWithout (state : StateName) (k : Nat) (current : StateName) (expected : List String) : List String :=
  if current = state then expected.eraseIdx k else expected

theorem map_displayName_without {state : StateName} (tokens : List Token) (current : StateName) :
    (if current = state then tokens.eraseIdx k else tokens).map Token.displayName
      = expectedWithout state k current (tokens.map Token.displayName) := by
  unfold expectedWithout
  split
  · rw [List.eraseIdx_map]
  · rfl

/-- The end of a run, without what is expected of a token. -/
def Ending.without (state : StateName) (k : Nat) (current : StateName) : Ending ε → Ending ε
  | .unmatched expected => .unmatched (expectedWithout state k current expected)
  | e => e

/-- A diagnostic without what is expected of a token. -/
def Diagnostic.without (state : StateName) (k : Nat) (d : Diagnostic) : Diagnostic :=
  { d with expected := expectedWithout state k d.state d.expected }

/-- An outcome without what is expected of a token. -/
def Outcome.without (state : StateName) (k : Nat) (o : Outcome ρ) : Outcome ρ :=
  { o with diagnostic := o.diagnostic.map (·.without state k) }

/-- A journal without the searches in it. -/
def Journal.untried (j : Journal) : Journal := j.filter (!·.isSearch)

namespace Journal

@[simp] theorem untried_append (a b : Journal) : untried (a ++ b) = untried a ++ untried b :=
  List.filter_append ..

@[simp] theorem invocations_untried (j : Journal) : j.untried.invocations = j.invocations := by
  induction j with
  | nil => rfl
  | cons e j ih => cases e <;> simp_all [untried, invocations, Event.isSearch]

@[simp] theorem boundariesFrom_untried (count : Nat) (j : Journal) :
    j.untried.boundariesFrom count = j.boundariesFrom count := by
  induction j generalizing count with
  | nil => rfl
  | cons e j ih => cases e <;> simp_all [untried, boundariesFrom, Event.isSearch]

theorem untried_tries (tokens : List Token) (c : Config σ) : untried (Machine.tries tokens c) = [] := by
  refine List.filter_eq_nil_iff.mpr fun e he => ?_
  obtain ⟨token, -, rfl⟩ := List.mem_map.mp he
  simp [Event.isSearch]

end Journal

/-- Two stretches of runs, the second of them without a token: but for what is tried and what is expected in the
end they are the same. -/
structure Progress.Pruned (state : StateName) (k : Nat) (q r : Progress σ ρ ε) : Prop where
  config : r.config = q.config
  ending : r.ending = q.ending.map (·.without state k q.config.state)
  journal : r.journal.untried = q.journal.untried
  actions : r.actions = q.actions
  results : r.results = q.results

namespace Progress

variable {state : StateName} {q r : Progress σ ρ ε}

/-- What does not end for want of a token is the same without one. -/
theorem Pruned.of_eq (h : ∀ expected, q.ending ≠ some (.unmatched expected)) : q.Pruned state k q where
  config := rfl
  ending := by
    cases he : q.ending with
    | none => rfl
    | some e =>
      cases e with
      | unmatched expected => exact absurd he (h expected)
      | complete | abandoned => rfl
  journal := rfl
  actions := rfl
  results := rfl

/-- **Stretches may be put one behind the other.** -/
theorem Pruned.andThen (h : q.Pruned state k r) {f g : Config σ → Progress σ ρ ε}
    (hnext : ∀ c, (f c).Pruned state k (g c)) : (q.andThen f).Pruned state k (r.andThen g) := by
  have hending := h.ending
  cases he : q.ending with
  | some e =>
    rw [he] at hending
    rw [andThen_of_some he, andThen_of_some hending]
    exact h
  | none =>
    rw [he] at hending
    have hfg := hnext q.config
    rw [andThen_of_none he, andThen_of_none hending, h.config]
    exact
      { config := hfg.config
        ending := hfg.ending
        journal := by rw [Journal.untried_append, Journal.untried_append, h.journal, hfg.journal]
        actions := by rw [h.actions, hfg.actions]
        results := by rw [h.results, hfg.results] }

end Progress

namespace Machine

variable {m : Machine σ ρ ε} {state : StateName}

/-- An accepted token does not end the run for want of one. -/
theorem accept_ending_ne_unmatched (token : Token) (lexeme : Lexeme) (c : Config σ) (expected : List String) :
    (m.accept token lexeme c).ending ≠ some (.unmatched expected) := by
  intro h
  rw [accept_eq] at h
  rcases Progress.ending_andThen_eq_some.mp h with hp | ⟨-, hadvance⟩
  · rcases perform_ending hp with ⟨_, _, _, -, -, he⟩ | ⟨_, _, _, -, -, he⟩ | ⟨_, he⟩ <;> cases he
  · unfold advance at hadvance
    split at hadvance <;> cases hadvance

theorem accept_without (token : Token) (lexeme : Lexeme) (c : Config σ) :
    (m.without state k).accept token lexeme c = m.accept token lexeme c := rfl

/-- **A step without a needless token** is the same, but for what is tried and expected. -/
theorem pruned_step (h : m.table.Needless state k) (c : Config σ) :
    (m.step c).Pruned state k ((m.without state k).step c) := by
  have hwithout : (m.without state k).table.tokens c.state = _ := m.table.tokens_without state c.state k
  cases ht : m.table.tokens c.state with
  | error e =>
    rw [ht] at hwithout
    rw [m.step_of_unknown ht, (m.without state k).step_of_unknown hwithout]
    exact .of_eq (by simp [Progress.stop])
  | ok tokens =>
    rw [ht] at hwithout
    have hchoose : choose? (if c.state = state then tokens.eraseIdx k else tokens) c.skipBlanks.rest
        = choose? tokens c.skipBlanks.rest := by
      split
      · next hs => exact h tokens (hs ▸ ht) _
      · rfl
    cases hc : choose? tokens c.skipBlanks.rest with
    | none =>
      rw [m.step_of_unmatched ht hc, (m.without state k).step_of_unmatched hwithout (hchoose.trans hc)]
      exact
        { config := rfl
          ending := congrArg (some ∘ Ending.unmatched) (map_displayName_without tokens c.state)
          journal := by rw [Journal.untried_tries, Journal.untried_tries]
          actions := rfl
          results := rfl }
    | some chosen =>
      have haccept : (m.accept chosen.1 chosen.2 c.skipBlanks).Pruned state k _ :=
        .of_eq (m.accept_ending_ne_unmatched chosen.1 chosen.2 c.skipBlanks)
      rw [m.step_of_choose? ht hc, (m.without state k).step_of_choose? hwithout (hchoose.trans hc),
        accept_without]
      exact
        { haccept with
          journal := by
            rw [Journal.untried_append, Journal.untried_append, Journal.untried_tries, Journal.untried_tries] }

/-- So is a run. -/
theorem pruned_run (h : m.table.Needless state k) (budget : Nat) (c : Config σ) :
    (m.run budget c).Pruned state k ((m.without state k).run budget c) := by
  induction budget generalizing c with
  | zero => exact .of_eq (by simp [run, Progress.stop])
  | succ n ih => exact (pruned_step h c).andThen ih

end Machine

/-! ## Whole texts -/

namespace Table

variable {t : Table} {state : StateName} {text : List Char} {a : Acceptance} {n : Nat}

/-- Among the tokens of its state, the one accepted is that at a place: the first one that matches. -/
def Picks (t : Table) (text : List Char) (a : Acceptance) (n : Nat) : Prop :=
  ∃ tokens, t.tokens a.2.1 = .ok tokens ∧ tokens[n]? = some a.2.2.1
    ∧ a.2.2.1.lexeme? (text.drop a.1) = some a.2.2.2
    ∧ ∀ token ∈ tokens.take n, token.lexeme? (text.drop a.1) = none

/-- A token that is chosen stands at some place. -/
theorem exists_picks (ht : t.tokens a.2.1 = .ok tokens)
    (hc : choose? tokens (text.drop a.1) = some (a.2.2.1, a.2.2.2)) : ∃ n, t.Picks text a n := by
  obtain ⟨before, after, rfl, hbefore, hl⟩ := choose?_eq_some_iff.mp hc
  refine ⟨before.length, _, ht, ?_, hl, ?_⟩
  · simp
  · rw [List.take_left]
    exact hbefore

/-- A token is not picked where one in front of it matches as well. -/
theorem not_picks (ht : t.tokens a.2.1 = .ok tokens) (hi : tokens[i]? = some first)
    (hk : tokens[k]? = some later) (hik : i < k)
    (hmatches : ∀ cs, later.lexeme? cs ≠ none → first.lexeme? cs ≠ none) : ¬t.Picks text a k := by
  rintro ⟨tokens', ht', htoken, hl, hbefore⟩
  obtain rfl := Except.ok.inj (ht.symm.trans ht')
  obtain rfl := Option.some.inj (hk.symm.trans htoken)
  exact hmatches _ (by rw [hl]; exact Option.some_ne_none _) (hbefore first (mem_take_of_getElem? hi hik))

end Table

namespace Parser

variable {p : Parser σ ρ ε} {state : StateName} {text : String} {environment : σ}

/-- A run on a text is the same without the token at a place among those of a state, which is never accepted. -/
structure ManagesWithout (p : Parser σ ρ ε) (state : StateName) (k : Nat) (text : String) (environment : σ) :
    Prop where
  /-- Each token accepted stands at a place among those of its state, and none in front of it matches. -/
  picked : ∀ a ∈ (p.parse text environment).journal.accepted, ∃ n, p.table.Picks text.toList a n
  /-- That place is never the one of the token. -/
  never : ∀ a ∈ (p.parse text environment).journal.accepted, a.2.1 = state → ¬p.table.Picks text.toList a k
  /-- Without the token the same happens, but for what is tried. -/
  journal : ((p.without state k).parse text environment).journal.untried
    = (p.parse text environment).journal.untried
  /-- The same actions are invoked with the same captures. -/
  invocations : ((p.without state k).parse text environment).journal.invocations
    = (p.parse text environment).journal.invocations
  /-- The boundaries are the same. -/
  boundaries : ((p.without state k).parse text environment).journal.boundaries
    = (p.parse text environment).journal.boundaries
  /-- The same is left behind, and the same is held. -/
  leaves : ((p.without state k).parse text environment).environment
    = (p.parse text environment).environment
  held : ((p.without state k).parse text environment).held = (p.parse text environment).held
  /-- The same fault is raised, or the same actions and results are reported, with a diagnostic that does not
  expect the token. -/
  verdict : ((p.without state k).parse text environment).verdict
    = (p.parse text environment).verdict.map (Outcome.without state k)

/-- What two runs come to, the second of them without a token. -/
theorem conclude_pruned (text : String) {q r : Progress σ ρ ε} (h : q.Pruned state k r) :
    (conclude text r).journal.untried = (conclude text q).journal.untried
      ∧ (conclude text r).verdict = (conclude text q).verdict.map (Outcome.without state k) := by
  have hjournal : ∀ last : Journal, Journal.untried (.started text :: r.journal ++ last)
      = Journal.untried (.started text :: q.journal ++ last) := by
    intro last
    rw [Journal.untried_append, Journal.untried_append]
    exact congrArg (Event.started text :: · ++ Journal.untried last) h.journal
  have hending := h.ending
  unfold conclude
  rw [hending, h.config, h.actions, h.results]
  cases q.ending with
  | none => exact ⟨hjournal [], rfl⟩
  | some e =>
    cases e with
    | complete => exact ⟨hjournal _, rfl⟩
    | unmatched expected => exact ⟨hjournal _, rfl⟩
    | abandoned fault => exact ⟨hjournal [], rfl⟩

/-- A run without a needless token comes to the same report, but for what is tried and expected. -/
theorem parse_without (p : Parser σ ρ ε) (h : p.table.Needless state k) (text : String) (environment : σ) :
    ((p.without state k).parse text environment).journal.untried = (p.parse text environment).journal.untried
      ∧ ((p.without state k).parse text environment).environment = (p.parse text environment).environment
      ∧ ((p.without state k).parse text environment).held = (p.parse text environment).held
      ∧ ((p.without state k).parse text environment).verdict
        = (p.parse text environment).verdict.map (Outcome.without state k) := by
  cases hexceeds : p.exceeds text with
  | some limit =>
    have hexceeds' : (p.without state k).exceeds text = some limit := hexceeds
    simp only [parse, hexceeds, hexceeds']
    exact ⟨trivial, trivial, trivial, rfl⟩
  | none =>
    cases hcaptures : Captures.empty? p.captureCapacity with
    | error e =>
      have hexceeds' : (p.without state k).exceeds text = none := hexceeds
      have hcaptures' : Captures.empty? (p.without state k).captureCapacity = .error e := hcaptures
      simp only [parse, hexceeds, hexceeds', hcaptures, hcaptures']
      exact ⟨trivial, trivial, trivial, rfl⟩
    | ok captures =>
      have hrun : (p.progress text captures environment).Pruned state k
          ((p.without state k).progress text captures environment) := Machine.pruned_run h (budget text) _
      rw [parse_eq_conclude hexceeds hcaptures, parse_eq_conclude (p := p.without state k) hexceeds hcaptures,
        conclude_environment, conclude_environment, conclude_held, conclude_held, hrun.config]
      obtain ⟨hjournal, hverdict⟩ := conclude_pruned text hrun
      exact ⟨hjournal, rfl, rfl, hverdict⟩

/-- **A shadowed token is dead**: on a valid table, a token behind another one of its state that matches wherever it
does is never accepted, and without it the table is valid and every run is the same. -/
theorem shadowed_is_dead (p : Parser σ ρ ε) (hvalid : p.table.validate = .ok p.table)
    (htokens : p.table.tokens state = .ok tokens) (hik : i < k) (hi : tokens[i]? = some first)
    (hk : tokens[k]? = some later) (hshadows : first.Shadows later) :
    (p.without state k).table.validate = .ok (p.without state k).table
      ∧ ∀ text environment, p.ManagesWithout state k text environment := by
  have hcons := Table.consistent_of_validate hvalid
  have hlater : later.kind = .literal → later.text.getD "" ≠ "" :=
    hcons.literals state later ⟨tokens, htokens, List.mem_of_getElem? hk⟩
  have hmatches : ∀ cs, later.lexeme? cs ≠ none → first.lexeme? cs ≠ none :=
    fun cs => hshadows.lexeme?_ne_none hlater
  have hneedless : p.table.Needless state k := by
    intro tokens' htokens' cs
    obtain rfl := Except.ok.inj (htokens.symm.trans htokens')
    exact choose?_eraseIdx hi hk hik (hmatches cs)
  refine ⟨Table.validate_eq_ok_iff_consistent.mpr ⟨hcons.without state (Nat.zero_lt_of_lt hik), rfl⟩, ?_⟩
  intro text environment
  obtain ⟨hjournal, hleaves, hheld, hverdict⟩ := p.parse_without hneedless text environment
  exact
    { picked := by
        intro a ha
        obtain ⟨_, ht, hc⟩ := choice_of_mem_accepted hcons.literals ha
        exact Table.exists_picks ht hc
      never := by
        rintro a - rfl
        exact Table.not_picks htokens hi hk hik hmatches
      journal := hjournal
      invocations := by
        rw [← Journal.invocations_untried, hjournal, Journal.invocations_untried]
      boundaries := by
        unfold Journal.boundaries
        rw [← Journal.boundariesFrom_untried, hjournal, Journal.boundariesFrom_untried]
      leaves := hleaves
      held := hheld
      verdict := hverdict }

/-- A table in which one keyword begins another one behind it. -/
def crowded : Table where
  states := OrderedMap.ofList [
    ("INITIAL", [.literal "next" (.goto "TARGET"), .literal "NEXT_on_output" (.goto "TARGET")]),
    ("TARGET", [.string (.invoke 0 none) (some "name"), .commandEnd (.goto "INITIAL")])]
  actions := OrderedMap.ofList [(0, "cmd_name")]

/-- The longer keyword is never read, and the shorter one ends in front of its rest. -/
theorem shadowed_is_dead_crowded :
    crowded.validate = .ok crowded
      ∧ crowded.tokens "INITIAL"
        = .ok [.literal "next" (.goto "TARGET"), .literal "NEXT_on_output" (.goto "TARGET")]
      ∧ (Token.literal "next" (.goto "TARGET")).Shadows (.literal "NEXT_on_output" (.goto "TARGET"))
      ∧ ((tracing crowded).without "INITIAL" 1).table.validate
        = .ok ((tracing crowded).without "INITIAL" 1).table
      ∧ (tracing crowded).ManagesWithout "INITIAL" 1 "Next_On_Output, next" {} := by
  have htokens : crowded.tokens "INITIAL"
      = .ok [.literal "next" (.goto "TARGET"), .literal "NEXT_on_output" (.goto "TARGET")] := rfl
  have hascii : ∀ l : List Char, l.all (·.toNat < 0x80) = true → ∀ c ∈ l, c.toNat < 0x80 :=
    fun l h => by simpa using h
  have hshadows : (Token.literal "next" (.goto "TARGET")).Shadows (.literal "NEXT_on_output" (.goto "TARGET")) :=
    .literal rfl rfl (hascii _ rfl) (hascii _ rfl) (by decide)
  obtain ⟨hvalid, hruns⟩ :=
    shadowed_is_dead (tracing crowded) rfl htokens Nat.zero_lt_one rfl rfl hshadows
  exact ⟨rfl, htokens, hshadows, hvalid, hruns _ _⟩

end Parser

end

end CommandGrammar
