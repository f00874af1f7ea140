import CommandGrammar.Proofs.Cutting

/-!
# Blanks between tokens

A run skips the blanks in front of every token, so it does not matter how many there are. More of them may
be put wherever a step starts, unless the token accepted last is a bare string, which would take them up.
In front of the place nothing changes, since no literal has a blank in it and a blank ends every word; from
there on the run is the same, only further on in the text.

* `Machine.steps_padded` — a run that goes on in front of blanks is the one without them.
* `Machine.steps_of_skipBlanks` — behind the blanks only the position differs.
* `Parser.insert_blanks` — the statement about whole texts.
-/

namespace CommandGrammar

open Text

/-- In small letters no literal of the table has a blank in it, and none starts with a double quote. -/
def Table.LiteralsAvoidBlanks (t : Table) : Prop :=
  ∀ state token, t.Lists state token → token.kind = .literal →
    (∀ c ∈ lower token.keyword, isBlank c = false) ∧ (lower token.keyword).head? ≠ some '"'

/-- The keywords of the window language have no blanks and no quotes. -/
theorem Window.literalsAvoidBlanks_grammar : Window.grammar.LiteralsAvoidBlanks := by
  have hkeywords : ∀ entry ∈ Window.grammar.states.entries, ∀ token ∈ entry.2, token.kind = .literal →
      (lower token.keyword).any isBlank = false ∧ (lower token.keyword).head? ≠ some '"' := by
    decide +kernel
  intro state token hlist hk
  obtain ⟨entry, he, -, hm⟩ := Table.lists_iff.mp hlist
  obtain ⟨hany, hquote⟩ := hkeywords entry he token hm hk
  exact ⟨fun c hc => by simpa using List.any_eq_false.mp hany c hc, hquote⟩

/-- A token accepted as a string without quotes, which goes on up to a separator. -/
def IsBareString (text : List Char) (a : Nat × StateName × Token × Lexeme) : Prop :=
  a.2.2.1.kind = .string ∧ text[a.1]? ≠ some '"'

instance (text : List Char) (a : Nat × StateName × Token × Lexeme) : Decidable (IsBareString text a) :=
  inferInstanceAs (Decidable (_ ∧ _))

theorem isPlain_of_isBlank {b : Char} (h : isBlank b = true) : IsPlain b := by
  simp only [isBlank, Bool.or_eq_true, beq_iff_eq] at h
  rcases h with rfl | rfl
  · decide
  · decide

theorem Table.LiteralsAvoidBlanks.literalsAvoid {t : Table} (h : t.LiteralsAvoidBlanks)
    (hlit : t.LiteralsHaveText) {state : StateName} {tokens : List Token}
    (ht : t.tokens state = .ok tokens) : LiteralsAvoid isBlank tokens := by
  intro token hm hk
  have hlist : t.Lists state token := ⟨tokens, ht, hm⟩
  obtain ⟨hblank, hquote⟩ := h state token hlist hk
  refine ⟨fun hnil => hlit state token hlist hk (String.toList_eq_nil_iff.mp hnil), hblank, fun hq => ?_⟩
  exact hquote ((head?_lower_iff (by decide : IsPlain '"') token.keyword).mpr hq)

/-! ## In front of the blanks -/

namespace Machine

variable {σ ρ ε : Type} {m : Machine σ ρ ε} {c : Config σ} {front s : List Char} {b : Char}

/-- A step that goes on in front of a blank is the one without it, unless a bare string reaches up to the
blank. -/
theorem step_padded (hlit : m.table.LiteralsHaveText) (havoid : m.table.LiteralsAvoidBlanks)
    (hb : isBlank b = true) (hc : c.Within front) (hgoing : (m.step c).ending = none)
    (hbare : (m.step c).config.rest = [] → ∀ a ∈ (m.step c).journal.accepted, ¬ IsBareString front a) :
    m.step ((Embedding.before (b :: s)).config c) = (Embedding.before (b :: s)).progress (m.step c) := by
  have hs := m.stepped c
  generalize hq : m.step c = q at hs hgoing hbare
  cases hs with
  | lost | unmatched | completed => cases hgoing
  | cut _ _ he => cases he.symm.trans hgoing
  | @moved tokens token lexeme ht hch he hle =>
    have hpos := consumed_pos_of_choose? hch (hlit c.state token ⟨tokens, ht, mem_of_choose? hch⟩)
    have hne : c.skipBlanks.rest ≠ [] := by
      intro hnil
      rw [hnil, List.length_nil] at hle
      omega
    rw [← hq]
    refine step_embed (respects_before _) hne ht hch ?_ hle
    refine choose?_append (havoid.literalsAvoid hlit ht) hb (isPlain_of_isBlank hb) hne hch ?_
    intro hall hquote delimiter hk
    -- The token reaches up to the blank, so it is a word: it is no bare string.
    have hrest : ((m.perform token lexeme c.skipBlanks).config.moved lexeme).rest = [] := by
      show (m.perform token lexeme c.skipBlanks).config.rest.drop lexeme.consumed = []
      rw [(perform_place m token lexeme c.skipBlanks).2.1, hall, List.drop_length]
    have hmem : (c.skipBlanks.position, c.skipBlanks.state, token, lexeme)
        ∈ Journal.accepted (tries tokens c.skipBlanks ++ (m.perform token lexeme c.skipBlanks).journal) := by
      rw [Journal.accepted_append, tries_accepted, perform_accepted]
      exact List.mem_singleton_self _
    have hstring : token.kind ≠ .string := by
      intro hstring
      refine hbare hrest _ hmem ⟨hstring, ?_⟩
      rwa [← List.head?_drop, ← hc.skipBlanks.2]
    cases hkind : token.kind with
    | word =>
      rw [hkind] at hk
      obtain rfl := Option.some.inj hk
      simp [isWordDelimiter, hb]
    | string => exact absurd hkind hstring
    | literal | commandEnd => rw [hkind] at hk; cases hk

/-- **As long as a run goes on, it does the same in front of a blank**, unless a bare string reaches up to
the blank. -/
theorem steps_padded (hlit : m.table.LiteralsHaveText) (havoid : m.table.LiteralsAvoidBlanks)
    (hb : isBlank b = true) (hc : c.Within front) {n : Nat} (hgoing : (m.steps n c).ending = none)
    (hbare : (m.steps n c).config.rest = [] →
      ∀ a ∈ (m.steps n c).journal.accepted.getLast?, ¬ IsBareString front a) :
    m.steps n ((Embedding.before (b :: s)).config c)
      = (Embedding.before (b :: s)).progress (m.steps n c) := by
  induction n with
  | zero => rfl
  | succ n ih =>
    rw [steps_succ] at hgoing hbare ⊢
    obtain ⟨hn, hstep⟩ := Progress.ending_andThen_eq_none.mp hgoing
    have hin := ((paced_steps hlit hc n).going hn).1
    obtain ⟨hin', a, ha, hfrom, hto⟩ := step_of_going hlit hin hstep
    rw [Progress.config_andThen_of_none hn, Progress.journal_andThen_of_none hn, Journal.accepted_append,
      ha] at hbare
    -- Only the last of the steps can have left nothing to read.
    have hfirst := ih hn fun hnil => by
      have hsum := hin.position_add
      rw [hnil, List.length_nil] at hsum
      have := hin'.1
      omega
    rw [steps_succ, hfirst, Embedding.progress_andThen]
    intro _
    refine step_padded hlit havoid hb hin hstep fun hnil => ?_
    rw [ha]
    simpa using hbare hnil

end Machine

/-! ## Behind the blanks -/

/-- A configuration further on in the text. -/
def Embedding.shift {σ : Type} (k : Nat) : Embedding σ := ⟨k, [], id⟩

namespace Machine

variable {σ ρ ε : Type} {m : Machine σ ρ ε} {c d : Config σ}

/-- Blanks are skipped once. -/
theorem step_skipBlanks (c : Config σ) : m.step c.skipBlanks = m.step c := by
  have hskip : c.skipBlanks.skipBlanks = c.skipBlanks := by
    have hstop := head?_dropWhile_eq_false (p := isBlank) c.rest
    have hnone : ([] ++ c.rest.dropWhile isBlank).takeWhile isBlank = [] :=
      takeWhile_append_of_stop (by simp) hstop
    have hall : ([] ++ c.rest.dropWhile isBlank).dropWhile isBlank = c.rest.dropWhile isBlank :=
      dropWhile_append_of_stop (by simp) hstop
    rw [List.nil_append] at hnone hall
    unfold Config.skipBlanks
    simp only [hnone, hall, List.length_nil, Nat.add_zero]
  unfold step
  rw [hskip]

theorem respects_shift (k : Nat) : m.Respects (.shift k) where
  dispatch _ _ _ := rfl
  hook _ _ _ := rfl

/-- **Runs that stand at the same place behind their blanks do the same**, up to that place. -/
theorem steps_of_skipBlanks {k : Nat} (h : d.skipBlanks = (Embedding.shift k).config c.skipBlanks) (n : Nat) :
    m.steps (n + 1) d = (Embedding.shift k).progress (m.steps (n + 1) c) := by
  have hstep : m.step d = (Embedding.shift k).progress (m.step c) := by
    rw [← step_skipBlanks, h, step_embed_of_nil (respects_shift k) rfl, step_skipBlanks]
  rw [steps_one_add, steps_one_add, hstep, Embedding.progress_andThen]
  intro _
  exact steps_embed (respects_shift k) rfl n _

/-- **A run that has come to blanks goes on as without them**, only further on in the text. -/
theorem steps_behind_blanks {w y : List Char} (hrest : c.rest = []) (hw : ∀ b ∈ w, isBlank b = true)
    (n : Nat) :
    m.steps (n + 1) ((Embedding.before (w ++ y)).config c)
      = (Embedding.shift w.length).progress (m.steps (n + 1) ((Embedding.before y).config c)) := by
  refine steps_of_skipBlanks ?_ n
  obtain ⟨position, rest, state, captures, environment⟩ := c
  obtain rfl : rest = [] := hrest
  simp only [Embedding.before, Embedding.shift, Embedding.config, Config.skipBlanks, List.nil_append,
    List.append_nil, List.takeWhile_append_of_pos hw, List.dropWhile_append_of_pos hw, List.length_append]
  congr 1
  omega

/-- A run that has ended has taken more steps than one that goes on. -/
theorem lt_of_ended {n k : Nat} {e : Ending ε} (hn : (m.steps n c).ending = none)
    (hk : (m.steps k c).ending = some e) : n < k := by
  by_contra hle
  obtain ⟨l, rfl⟩ := Nat.le.dest (Nat.le_of_not_lt hle)
  rw [steps_add, Progress.andThen_of_some hk, hk] at hn
  cases hn

/-- Tokens are accepted no earlier in the text than where the run starts. -/
theorem position_le_of_mem_accepted (hlit : m.table.LiteralsHaveText) {text : List Char} (hc : c.Within text)
    (n : Nat) : ∀ a ∈ (m.steps n c).journal.accepted, c.position ≤ a.1 := by
  induction n with
  | zero => simp [steps_zero, Progress.note]
  | succ n ih =>
    rw [steps_succ]
    cases hn : (m.steps n c).ending with
    | some e =>
      rw [Progress.andThen_of_some hn]
      exact ih
    | none =>
      have hle := add_le_position_of_going hlit hc n hn
      intro a ha
      rw [Progress.journal_andThen_of_none hn, Journal.accepted_append, List.mem_append] at ha
      rcases ha with ha | ha
      · exact ih a ha
      · rcases step_accepted ((paced_steps hlit hc n).going hn).1 with hnil | ⟨b, hb, hfrom, -⟩
        · rw [hnil] at ha
          cases ha
        · rw [hb] at ha
          obtain rfl := List.mem_singleton.mp ha
          omega

end Machine

/-! ## Whole texts -/

/-- A text with blanks put in at a position. -/
def padded (text : String) (position : Nat) (blanks : String) : String :=
  textUpTo text position ++ blanks ++ textFrom text position

theorem length_padded (text : String) (position : Nat) (blanks : String) :
    (padded text position blanks).length = text.length + blanks.length := by
  have hsum : (text.toList.take position).length + (text.toList.drop position).length
      = text.length := by
    rw [← List.length_append, List.take_append_drop, String.length_toList]
  simp only [padded, textUpTo, textFrom, String.length_append, String.length_ofList]
  omega

/-- What becomes of a report when `k` characters that change nothing are put into the text at a position: from
there on everything stands further on in the text. -/
structure Report.Moved {σ ρ ε : Type} (position k : Nat) (text : String) (r r' : Report σ ρ ε) : Prop where
  /-- The same tokens are accepted. -/
  accepted : r'.journal.accepted
    = r.journal.accepted.map fun a => (if a.1 < position then a.1 else k + a.1, a.2)
  /-- The same actions are invoked, with the same captures. -/
  invocations : r'.journal.invocations = r.journal.invocations
  /-- The hook is called behind the same actions. -/
  boundaries : r'.journal.boundaries = r.journal.boundaries
  environment : r'.environment = r.environment
  held : r'.held = r.held
  /-- The run comes to the same end: it is given up for the same fault, or it has the same outcome, where a
  diagnostic stands further on. -/
  verdict : r'.verdict = r.verdict.map fun o =>
    { o with diagnostic := o.diagnostic.map fun d => { d with input := text, position := k + d.position } }

namespace Parser

variable {σ ρ ε : Type} {p : Parser σ ρ ε} {text blanks : String} {environment : σ} {position n : Nat}
  {captures : Captures}

/-- A step of the run on a text starts at the position, and the token accepted last is no bare string. -/
def Breaks (p : Parser σ ρ ε) (text : String) (environment : σ) (position : Nat) : Prop :=
  ∃ captures n, Captures.empty? p.captureCapacity = .ok captures
    ∧ (p.behind n text captures environment).ending = none
    ∧ (p.behind n text captures environment).config.position = position
    ∧ ∀ a ∈ (p.behind n text captures environment).journal.accepted.getLast?, ¬ IsBareString text.toList a

/-- A run on a longer text starts as the run on the front of it does. -/
theorem start_append (p : Parser σ ρ ε) (front : String) (s : List Char) (captures : Captures) (environment : σ) :
    (Embedding.before s).config (p.start front captures environment)
      = p.start (front ++ String.ofList s) captures environment := by
  simp [Embedding.before, Embedding.config, start]

/-- A run that comes to a position does so without what stands behind it. -/
theorem behind_front (hlit : p.table.LiteralsHaveText)
    (hgoing : (p.behind n text captures environment).ending = none)
    (hposition : (p.behind n text captures environment).config.position = position) :
    p.behind n text captures environment
      = (Embedding.before (text.toList.drop position)).progress
        (p.behind n (textUpTo text position) captures environment) := by
  have hle : position ≤ text.toList.length :=
    hposition ▸ ((paced_behind hlit text captures environment n).going hgoing).1.1
  have hstart : (Embedding.before (text.toList.drop position)).config
      (p.start (textUpTo text position) captures environment) = p.start text captures environment := by
    rw [start_append, textUpTo, ← String.ofList_append, List.take_append_drop, String.ofList_toList]
  unfold behind at hgoing hposition ⊢
  rw [← hstart] at hgoing hposition ⊢
  refine Machine.steps_cut hlit (p.start_within _ captures environment) hgoing ?_
  rw [hposition]
  simp [textUpTo, hle]

/-- A run that has read a text and comes to more blanks has come there with the blanks as well, unless the token
accepted last is a bare string. -/
theorem behind_blanks (hlit : p.table.LiteralsHaveText) (havoid : p.table.LiteralsAvoidBlanks) {front : String}
    (hgoing : (p.behind n front captures environment).ending = none)
    (hbare : ∀ a ∈ (p.behind n front captures environment).journal.accepted.getLast?,
      ¬ IsBareString front.toList a)
    {b : Char} (hb : isBlank b = true) (s : List Char) :
    p.behind n (front ++ String.ofList (b :: s)) captures environment
      = (Embedding.before (b :: s)).progress (p.behind n front captures environment) := by
  unfold behind
  rw [← start_append]
  exact Machine.steps_padded (m := p.toMachine) hlit havoid hb (p.start_within front captures environment) hgoing
    fun _ => hbare

/-- A run that comes to a place where more blanks may stand has read what stands in front of it, and does so
with the blanks as well. -/
theorem exists_front (hlit : p.table.LiteralsHaveText) (havoid : p.table.LiteralsAvoidBlanks)
    (hgoing : (p.behind n text captures environment).ending = none)
    (hposition : (p.behind n text captures environment).config.position = position)
    (hbare : ∀ a ∈ (p.behind n text captures environment).journal.accepted.getLast?,
      ¬ IsBareString text.toList a)
    (hblanks : ∀ b ∈ blanks.toList, isBlank b = true) :
    ∃ q : Progress σ ρ ε, q.ending = none ∧ q.config.rest = []
      ∧ (∀ a ∈ q.journal.accepted, a.1 < position)
      ∧ p.behind n text captures environment
        = (Embedding.before (text.toList.drop position)).progress q
      ∧ p.behind n (padded text position blanks) captures environment
        = (Embedding.before (blanks.toList ++ text.toList.drop position)).progress q := by
  have hfront := behind_front hlit hgoing hposition
  have hle : position ≤ text.toList.length :=
    hposition ▸ ((paced_behind hlit text captures environment n).going hgoing).1.1
  rw [hfront] at hgoing hposition hbare
  have hpos : (p.behind n (textUpTo text position) captures environment).config.position = position :=
    (Nat.zero_add _).symm.trans hposition
  obtain ⟨hwithin, hbefore⟩ :=
    (paced_behind hlit (textUpTo text position) captures environment n).going hgoing
  rw [hpos] at hbefore
  refine ⟨p.behind n (textUpTo text position) captures environment, hgoing, ?_, hbefore, hfront, ?_⟩
  · have hsum := hwithin.position_add
    have hlength : (textUpTo text position).toList.length = position := by simp [textUpTo, hle]
    rw [hpos, hlength] at hsum
    exact List.length_eq_zero_iff.mp (by omega)
  · have hpadded : padded text position blanks
        = textUpTo text position ++ String.ofList (blanks.toList ++ text.toList.drop position) := by
      simp [padded, textFrom, String.append_assoc]
    rw [hpadded]
    cases hw : blanks.toList with
    | nil =>
      have hwhole : textUpTo text position ++ String.ofList ([] ++ text.toList.drop position) = text := by
        simp [textUpTo, ← String.ofList_append]
      rw [hwhole]
      exact hfront
    | cons b s =>
      refine behind_blanks hlit havoid hgoing (fun a ha => ?_) (hblanks b (by rw [hw]; simp)) _
      have hlast : (0 + a.1, a.2) ∈ ((Embedding.before (text.toList.drop position)).progress
          (p.behind n (textUpTo text position) captures environment)).journal.accepted.getLast? := by
        show _ ∈ (Journal.accepted (List.map _ _)).getLast?
        rw [Embedding.accepted_map, List.getLast?_map]
        exact Option.mem_map_of_mem _ ha
      have hlt := hbefore a (List.mem_of_getLast? ha)
      have hno := hbare _ hlast
      rw [Nat.zero_add] at hno
      unfold IsBareString at hno ⊢
      rwa [textUpTo, String.toList_ofList, List.getElem?_take_of_lt hlt]

/-- What comes of two runs that do the same in front of a position, and from there on the same as well, but
`k` characters further on. -/
theorem conclude_moved {q r : Progress σ ρ ε} (hq : q.ending = none)
    (hfront : ∀ a ∈ q.journal.accepted, a.1 < position) (hback : ∀ a ∈ r.journal.accepted, position ≤ a.1)
    (k : Nat) (s s' : List Char) (text longer : String) :
    Report.Moved position k longer
      (conclude text (((Embedding.before s).progress q).andThen fun _ => r))
      (conclude longer (((Embedding.before s').progress q).andThen fun _ =>
        (Embedding.shift k).progress r)) := by
  have hnone : ∀ s, ((Embedding.before s).progress q).ending = none := fun _ => hq
  refine ⟨?_, ?_, ?_, ?_, ?_, ?_⟩
  · rw [conclude_accepted, conclude_accepted, Progress.journal_andThen_of_none (hnone s),
      Progress.journal_andThen_of_none (hnone s'), Journal.accepted_append, Journal.accepted_append,
      List.map_append]
    congr 1
    · show Journal.accepted (q.journal.map _) = (Journal.accepted (q.journal.map _)).map _
      rw [Embedding.accepted_map, Embedding.accepted_map, List.map_map]
      refine List.map_congr_left fun a ha => ?_
      have hlt : 0 + a.1 < position := by
        rw [Nat.zero_add]
        exact hfront a ha
      simp only [Function.comp_apply, Embedding.before, if_pos hlt]
    · show Journal.accepted (r.journal.map _) = _
      rw [Embedding.accepted_map]
      refine List.map_congr_left fun a ha => ?_
      rw [if_neg (Nat.not_lt_of_le (hback a ha))]
      rfl
  · rw [invocations_conclude, invocations_conclude, Progress.journal_andThen_of_none (hnone s),
      Progress.journal_andThen_of_none (hnone s')]
    simp [Embedding.progress]
  · rw [boundaries_conclude, boundaries_conclude, Progress.journal_andThen_of_none (hnone s),
      Progress.journal_andThen_of_none (hnone s')]
    show Journal.boundariesFrom 0 (q.journal.map _ ++ r.journal.map _)
      = Journal.boundariesFrom 0 (q.journal.map _ ++ r.journal)
    rw [Journal.boundariesFrom_append, Journal.boundariesFrom_append, Embedding.boundariesFrom_map,
      Embedding.boundariesFrom_map, Embedding.boundariesFrom_map, Embedding.invocations_map,
      Embedding.invocations_map]
  · rw [conclude_environment, conclude_environment, Progress.config_andThen_of_none (hnone s),
      Progress.config_andThen_of_none (hnone s')]
    rfl
  · rw [conclude_held, conclude_held, Progress.config_andThen_of_none (hnone s),
      Progress.config_andThen_of_none (hnone s')]
    rfl
  · show _ = (conclude text _).verdict.map (Outcome.chained ⟨[], [], none⟩ longer k)
    refine conclude_chained (φ := Embedding.shift k) ?_ ?_ ?_ ?_ text longer <;>
      rw [Progress.andThen_of_none (hnone s), Progress.andThen_of_none (hnone s')] <;> rfl

/-- **Blanks between tokens are irrelevant**: wherever a step of a run starts, and not behind a bare string,
blanks may be put into the text, and nothing changes but the places behind them. -/
theorem insert_blanks (p : Parser σ ρ ε) (hvalid : p.table.validate = .ok p.table)
    (havoid : p.table.LiteralsAvoidBlanks) (text : String) (environment : σ)
    (hbreaks : p.Breaks text environment position) (blanks : String)
    (hblanks : ∀ b ∈ blanks.toList, isBlank b = true)
    (hlimit : p.exceeds (padded text position blanks) = none) :
    Report.Moved position blanks.length (padded text position blanks) (p.parse text environment)
      (p.parse (padded text position blanks) environment) := by
  have hlit := (Table.consistent_of_validate hvalid).literals
  obtain ⟨captures, n, hempty, hgoing, hposition, hbare⟩ := hbreaks
  obtain ⟨q, hq, hrest, hfront, hn, hn'⟩ := exists_front hlit havoid hgoing hposition hbare hblanks
  obtain ⟨e, he⟩ := Option.ne_none_iff_exists'.mp (run_eq_behind hlit text captures environment).1
  obtain ⟨e', he'⟩ := Option.ne_none_iff_exists'.mp
    (run_eq_behind hlit (padded text position blanks) captures environment).1
  have hin := ((paced_behind hlit text captures environment n).going hgoing).1
  -- From the place on both runs take the same steps.
  obtain ⟨k, hk⟩ := Nat.exists_eq_add_of_lt (p.lt_of_ended hgoing he)
  rw [hk] at he
  have hsplit : ∀ x, p.behind (n + k + 1) x captures environment
      = (p.behind n x captures environment).andThen
        fun _ => p.steps (k + 1) (p.behind n x captures environment).config :=
    fun x => (p.steps_add n (k + 1) _).trans Progress.andThen_const.symm
  obtain ⟨r, hr⟩ : ∃ r, p.steps (k + 1) (p.behind n text captures environment).config = r := ⟨_, rfl⟩
  have hback : p.steps (k + 1) (p.behind n (padded text position blanks) captures environment).config
      = (Embedding.shift blanks.length).progress r := by
    rw [hn', ← hr, hn, ← String.length_toList]
    exact Machine.steps_behind_blanks hrest hblanks k
  have hwhole := hsplit text
  have hlonger := hsplit (padded text position blanks)
  rw [hr, hn] at hwhole
  rw [hback, hn'] at hlonger
  have hnone : ∀ s, ((Embedding.before s).progress q).ending = none := fun _ => hq
  have hended : (p.behind (n + k + 1) (padded text position blanks) captures environment).ending = some e := by
    rw [hwhole, Progress.ending_andThen_of_none (hnone _)] at he
    rw [hlonger, Progress.ending_andThen_of_none (hnone _)]
    exact he
  have hlater : ∀ a ∈ r.journal.accepted, position ≤ a.1 := by
    rw [← hposition, ← hr]
    exact p.position_le_of_mem_accepted hlit hin (k + 1)
  have hlimit' : p.exceeds text = none :=
    exceeds_of_le (by rw [length_padded]; exact Nat.le_add_right _ _) hlimit
  have hsame : p.behind _ (padded text position blanks) captures environment = _ :=
    p.steps_eq_of_ended he' hended
  rw [parse_eq_conclude hlimit' hempty, parse_eq_conclude hlimit hempty, progress_eq_behind hlit,
    progress_eq_behind hlit, hsame, hk, hwhole, show p.steps _ _ = _ from hlonger]
  exact conclude_moved hq hfront hlater _ _ _ _ _

/-- Blanks behind a word of a command that goes wrong later on. -/
theorem insert_blanks_window :
    Window.grammar.validate = .ok Window.grammar ∧ Window.grammar.LiteralsAvoidBlanks
      ∧ (limited Window.grammar 2 none).Breaks "[id=7] move left 10px, jump" {} 21
      ∧ (∀ b ∈ " \t ".toList, isBlank b = true)
      ∧ (limited Window.grammar 2 none).exceeds (padded "[id=7] move left 10px, jump" 21 " \t ") = none
      ∧ Report.Moved 21 3 "[id=7] move left 10px \t , jump"
        ((limited Window.grammar 2 none).parse "[id=7] move left 10px, jump" {})
        ((limited Window.grammar 2 none).parse "[id=7] move left 10px \t , jump" {}) := by
  have hbreaks : (limited Window.grammar 2 none).Breaks "[id=7] move left 10px, jump" {} 21 := by
    refine ⟨_, 8, rfl, ?_, ?_, ?_⟩
    · rfl
    · rfl
    · decide +kernel
  have hblanks : ∀ b ∈ " \t ".toList, isBlank b = true := List.all_eq_true.mp (by decide)
  have hmoved := insert_blanks (limited Window.grammar 2 none) Window.validate_grammar
    Window.literalsAvoidBlanks_grammar "[id=7] move left 10px, jump" {} hbreaks " \t " hblanks rfl
  exact ⟨Window.validate_grammar, Window.literalsAvoidBlanks_grammar, hbreaks, hblanks, rfl, hmoved⟩

end Parser

end CommandGrammar
