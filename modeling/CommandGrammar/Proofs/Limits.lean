import CommandGrammar.Proofs.Requests
import CommandGrammar.Registry
import CommandGrammar.Window.Grammar

/-!
# Limits

Two limits may be set for a parser: the length of the texts that it takes and the room for captures. Both only
cut off. A text over the limit is not read at all, and any other is read as without a limit. More room for
captures changes nothing in a run that has enough, and a run that wants for it has done what the one with more
room does, up to the token whose capture is refused.

* `Progress.enlarge` — what a stretch comes to if there is more room from the beginning.
* `Callbacks.SeesHeld` — dispatchers that cannot tell how much room there is; `Trace.seesHeld_callbacks` and
  `Registry.seesHeld_parser` say so of recording and of registries.
* `Machine.step_enlarge`, `Machine.steps_enlarge` — a step, and any number of them, unless room is wanting.
* `Machine.run_of_overflow` — where a run stops that wants for room.
* `Parser.limits_only_cut` — the statement about whole texts.
-/

namespace CommandGrammar

/-! ## More room -/

namespace Captures

variable {c : Captures} {identifier value : String}

/-- The captures with room for `k` more. -/
def enlarge (c : Captures) (k : Nat) : Captures :=
  { c with
    capacity := c.capacity + k
    capacity_pos := Nat.add_pos_left c.capacity_pos k
    size_le := Nat.le_add_right_of_le c.size_le }

@[simp] theorem toList_enlarge (c : Captures) (k : Nat) : (c.enlarge k).toList = c.toList := rfl

/-- A capture that is not refused for want of room is put in or refused as before. -/
theorem push_enlarge (h : ∀ i n, c.push identifier value ≠ .error (.overflow i n)) (k : Nat) :
    (c.enlarge k).push identifier value = (c.push identifier value).map (enlarge · k) := by
  unfold push at h ⊢
  by_cases hd : c.contains identifier = true
  · have hd' : (c.enlarge k).contains identifier = true := hd
    rw [dif_pos hd, dif_pos hd']
    rfl
  · have hd' : ¬(c.enlarge k).contains identifier = true := hd
    rw [dif_neg hd] at h
    rw [dif_neg hd, dif_neg hd']
    by_cases hs : c.capacity ≤ c.size
    · rw [dif_pos hs] at h
      exact absurd rfl (h identifier c.capacity)
    · have hs' : ¬(c.enlarge k).capacity ≤ (c.enlarge k).size := by
        show ¬c.capacity + k ≤ c.size
        omega
      rw [dif_neg hs, dif_neg hs']
      rfl

/-- A capture whose identifier is not held finds room among the captures that have more room. -/
theorem exists_push_enlarge (hnot : identifier ∉ c.toList.map Prod.fst) {k : Nat} (hk : 0 < k) (value : String) :
    ∃ more, (c.enlarge k).push identifier value = .ok more := by
  cases hp : (c.enlarge k).push identifier value with
  | ok more => exact ⟨more, rfl⟩
  | error e =>
    rcases push_eq_error_iff.mp hp with ⟨hmem, -⟩ | ⟨-, hfull, -⟩
    · exact absurd hmem hnot
    · have hroom : c.toList.length ≤ c.capacity := c.size_le
      have hall : c.toList.length = c.capacity + k := hfull
      omega

end Captures

/-- A configuration with room for `k` more captures. -/
def Config.enlarge {σ : Type} (c : Config σ) (k : Nat) : Config σ :=
  { c with captures := c.captures.enlarge k }

namespace Progress

variable {σ ρ ε : Type}

/-- A stretch with room for `k` more captures. -/
def enlarge (q : Progress σ ρ ε) (k : Nat) : Progress σ ρ ε := { q with config := q.config.enlarge k }

/-- The run did not end for want of room. -/
def Fits (q : Progress σ ρ ε) : Prop :=
  ∀ identifier n, q.ending ≠ some (.abandoned (.capture (.overflow identifier n)))

variable {q : Progress σ ρ ε} {next : Config σ → Progress σ ρ ε}

/-- A chain that has room enough has it in both parts. -/
theorem Fits.of_andThen (h : (q.andThen next).Fits) :
    q.Fits ∧ (q.ending = none → (next q.config).Fits) :=
  ⟨fun i n he => h i n (ending_andThen_eq_some.mpr (.inl he)),
    fun hq i n he => h i n (ending_andThen_eq_some.mpr (.inr ⟨hq, he⟩))⟩

/-- A chain writes down first what its first part does. -/
theorem isPrefix_journal_andThen (q : Progress σ ρ ε) (next : Config σ → Progress σ ρ ε) :
    q.journal <+: (q.andThen next).journal := by
  cases he : q.ending with
  | none => rw [journal_andThen_of_none he]; exact List.prefix_append _ _
  | some e => exact ⟨[], by rw [andThen_of_some he, List.append_nil]⟩

/-- **Chains are enlarged part by part**, as long as there was room enough. -/
theorem andThen_enlarge {q' : Progress σ ρ ε} {k : Nat} (h : (q.andThen next).Fits)
    (hq : q.Fits → q' = q.enlarge k)
    (hnext : (next q.config).Fits → next (q.config.enlarge k) = (next q.config).enlarge k) :
    q'.andThen next = (q.andThen next).enlarge k := by
  obtain ⟨hfirst, hsecond⟩ := h.of_andThen
  rw [hq hfirst]
  cases he : q.ending with
  | none =>
    have he' : (q.enlarge k).ending = none := he
    have hmap : next (q.enlarge k).config = (next q.config).enlarge k := hnext (hsecond he)
    rw [andThen_of_none he, andThen_of_none he', hmap]
    rfl
  | some e =>
    have he' : (q.enlarge k).ending = some e := he
    rw [andThen_of_some he, andThen_of_some he']

end Progress

/-! ## Runs with more room -/

/-- A dispatcher sees what is held, which is all that there is to look up, and not for how much more there is
room. -/
def Callbacks.SeesHeld {σ ρ ε : Type} (b : Callbacks σ ρ ε) : Prop :=
  ∀ action (c d : Captures) environment, c.toList = d.toList →
    b.dispatch action c environment = b.dispatch action d environment

/-- Recording looks at the captures held alone. -/
theorem Trace.seesHeld_callbacks (table : Table) : (Trace.callbacks table).SeesHeld := by
  intro action c d trace h
  show Trace.record table action c trace = Trace.record table action d trace
  unfold Trace.record
  rw [h]

/-- So does looking up the arguments of a handler. -/
theorem Registry.seesHeld_parser {σ ρ ε : Type} (r : Registry σ ρ ε) : r.parser.callbacks.SeesHeld := by
  intro action c d environment h
  have hget : c.get? = d.get? := funext fun identifier => congrArg (List.lookup identifier) h
  show r.invoke action c environment = r.invoke action d environment
  unfold Registry.invoke Registry.call Descriptor.arguments
  rw [hget]

namespace Machine

variable {σ ρ ε : Type} {m : Machine σ ρ ε} {token : Token} {lexeme : Lexeme} {c : Config σ}

theorem hold_enlarge (h : (hold token lexeme c : Progress σ ρ ε).Fits) (k : Nat) :
    (hold token lexeme (c.enlarge k) : Progress σ ρ ε) = (hold token lexeme c).enlarge k := by
  have hcaptures : (c.enlarge k).captures = c.captures.enlarge k := rfl
  rw [hold_eq] at h ⊢
  rw [hold_eq, hcaptures]
  cases hc : token.capture? lexeme with
  | none => rfl
  | some capture =>
    obtain ⟨identifier, value⟩ := capture
    simp only [hc] at h ⊢
    have hroom : ∀ i n, c.captures.push identifier value ≠ .error (.overflow i n) := by
      intro i n he
      simp only [he] at h
      exact h i n rfl
    rw [Captures.push_enlarge hroom]
    cases c.captures.push identifier value <;> rfl

theorem follow_enlarge (h : m.callbacks.SeesHeld) (transition : Transition) (c : Config σ) (k : Nat) :
    m.follow transition (c.enlarge k) = (m.follow transition c).enlarge k := by
  cases transition with
  | goto state =>
    simp only [follow]
    split <;> rfl
  | invoke action next =>
    have hreply : m.callbacks.dispatch action (c.enlarge k).captures (c.enlarge k).environment
        = m.callbacks.dispatch action c.captures c.environment := h _ _ _ _ rfl
    simp only [follow, invoke, hreply]
    cases m.table.actionName action with
    | error e => rfl
    | ok name => cases (m.callbacks.dispatch action c.captures c.environment).answer <;> rfl

theorem signal_enlarge (token : Token) (lexeme : Lexeme) (c : Config σ) (k : Nat) :
    m.signal token lexeme (c.enlarge k) = (m.signal token lexeme c).enlarge k := by
  unfold signal
  cases m.callbacks.onBoundary with
  | none => rfl
  | some hook =>
    have hsame : hook (c.enlarge k).environment = hook c.environment := rfl
    simp only [hsame]
    split
    · simp only [Progress.andThen_note]
      cases (hook c.environment).2 <;> rfl
    · rfl

theorem advance_enlarge (lexeme : Lexeme) (c : Config σ) (k : Nat) :
    (advance lexeme (c.enlarge k) : Progress σ ρ ε) = (advance lexeme c).enlarge k := by
  by_cases hle : lexeme.consumed ≤ c.rest.length
  · rw [advance_of_le hle, advance_of_le (c := c.enlarge k) hle]
    rfl
  · rw [advance_of_lt (Nat.lt_of_not_le hle), advance_of_lt (c := c.enlarge k) (Nat.lt_of_not_le hle)]
    rfl

/-- **Accepting a token is the same with more room**, if there was enough. -/
theorem accept_enlarge (hdispatch : m.callbacks.SeesHeld) (h : (m.accept token lexeme c).Fits) (k : Nat) :
    m.accept token lexeme (c.enlarge k) = (m.accept token lexeme c).enlarge k := by
  unfold accept at h ⊢
  refine Progress.andThen_enlarge h (fun h => ?_) fun _ => advance_enlarge lexeme _ k
  refine Progress.andThen_enlarge h (fun h => ?_) fun _ => signal_enlarge token lexeme _ k
  refine Progress.andThen_enlarge h (fun h => ?_) fun _ => follow_enlarge hdispatch token.transition _ k
  exact Progress.andThen_enlarge h (fun _ => rfl) fun h => hold_enlarge h k

/-- **A step is the same with more room**, if there was enough. -/
theorem step_enlarge (hdispatch : m.callbacks.SeesHeld) (h : (m.step c).Fits) (k : Nat) :
    m.step (c.enlarge k) = (m.step c).enlarge k := by
  cases ht : m.table.tokens c.state with
  | error e => rw [m.step_of_unknown ht, m.step_of_unknown (c := c.enlarge k) ht]; rfl
  | ok tokens =>
    cases hc : choose? tokens c.skipBlanks.rest with
    | none => rw [m.step_of_unmatched ht hc, m.step_of_unmatched (c := c.enlarge k) ht hc]; rfl
    | some chosen =>
      obtain ⟨token, lexeme⟩ := chosen
      rw [m.step_of_choose? ht hc] at h
      have haccept : m.accept token lexeme (c.enlarge k).skipBlanks = _ :=
        accept_enlarge hdispatch (c := c.skipBlanks) h k
      rw [m.step_of_choose? ht hc, m.step_of_choose? (c := c.enlarge k) ht hc, haccept]
      rfl

/-- **So is any number of steps.** -/
theorem steps_enlarge (hdispatch : m.callbacks.SeesHeld) {n : Nat} (h : (m.steps n c).Fits) (k : Nat) :
    m.steps n (c.enlarge k) = (m.steps n c).enlarge k := by
  induction n with
  | zero => rfl
  | succ n ih =>
    rw [steps_succ] at h ⊢
    rw [steps_succ]
    exact Progress.andThen_enlarge h ih fun h => step_enlarge hdispatch h k

/-- So is a run within its budget. -/
theorem run_enlarge (hdispatch : m.callbacks.SeesHeld) {n : Nat} (h : (m.run n c).Fits) (k : Nat) :
    m.run n (c.enlarge k) = (m.run n c).enlarge k := by
  rw [run_eq_steps] at h ⊢
  rw [run_eq_steps]
  exact Progress.andThen_enlarge h (fun h => steps_enlarge hdispatch h k) fun _ => rfl

/-! ## The capture without room -/

/-- The token chosen at a configuration captures one more: its identifier is not held. -/
structure CapturesNext (m : Machine σ ρ ε) (c : Config σ) (identifier : String) (tokens : List Token)
    (token : Token) (lexeme : Lexeme) : Prop where
  known : m.table.tokens c.state = .ok tokens
  chosen : choose? tokens c.skipBlanks.rest = some (token, lexeme)
  captures : ∃ value, token.capture? lexeme = some (identifier, value)
  fresh : identifier ∉ c.captures.toList.map Prod.fst

/-- What is written down at a configuration up to the token chosen there. -/
def choosing (tokens : List Token) (token : Token) (lexeme : Lexeme) (c : Config σ) : Journal :=
  tries tokens c.skipBlanks ++ [.matched c.skipBlanks.position c.state token lexeme]

/-- A step that wants for room has done nothing but try the tokens and choose the one whose capture is refused,
and as much is held as there is room for. -/
theorem step_of_overflow {identifier : String} {n : Nat}
    (h : (m.step c).ending = some (.abandoned (.capture (.overflow identifier n)))) :
    ∃ tokens token lexeme, m.CapturesNext c identifier tokens token lexeme
      ∧ c.captures.toList.length = n ∧ c.captures.capacity = n
      ∧ (m.step c).config = c.skipBlanks ∧ (m.step c).journal = choosing tokens token lexeme c := by
  revert h
  have hs := m.stepped c
  generalize m.step c = q at hs ⊢
  intro h
  cases hs with
  | lost | unmatched | moved | completed => cases h
  | @cut tokens token lexeme f ht hch he =>
    rcases perform_ending h with ⟨i, value, x, hc, hp, hx⟩ | ⟨_, _, _, _, _, hx⟩ | ⟨_, hx⟩
    · obtain rfl : CaptureError.overflow identifier n = x := by simpa using hx
      rcases Captures.push_eq_error_iff.mp hp with ⟨-, hd⟩ | ⟨hnot, hfull, ho⟩
      · cases hd
      · obtain ⟨rfl, rfl⟩ := CaptureError.overflow.inj ho
        refine ⟨tokens, token, lexeme, ⟨ht, hch, ⟨value, hc⟩, hnot⟩, hfull, rfl, ?_⟩
        rw [perform_of_refused hc hp]
        exact ⟨rfl, rfl⟩
    · cases hx
    · cases hx

/-- **A run that wants for room** goes on, within its budget, up to the token whose capture is refused. -/
theorem run_of_overflow {n k : Nat} {identifier : String}
    (h : (m.run n c).ending = some (.abandoned (.capture (.overflow identifier k)))) :
    ∃ i < n, (m.steps i c).ending = none ∧ ∃ tokens token lexeme,
      m.CapturesNext (m.steps i c).config identifier tokens token lexeme
      ∧ (m.steps i c).config.captures.toList.length = k ∧ c.captures.capacity = k
      ∧ (m.run n c).config = (m.steps i c).config.skipBlanks
      ∧ (m.run n c).journal = (m.steps i c).journal ++ choosing tokens token lexeme (m.steps i c).config := by
  have hsteps : (m.steps n c).ending = some (.abandoned (.capture (.overflow identifier k))) := by
    rw [run_eq_steps] at h
    rcases Progress.ending_andThen_eq_some.mp h with he | ⟨-, he⟩
    · exact he
    · cases he
  obtain ⟨i, hgoing, hlast, hsame⟩ := m.exists_last_step hsteps
  obtain ⟨tokens, token, lexeme, hnext, hfull, hcapacity, hconfig, hjournal⟩ := step_of_overflow hlast
  have hi : i < n := by
    by_contra hle
    rw [← Nat.add_sub_of_le (Nat.le_of_not_lt hle), steps_add, Progress.andThen_of_some hsteps, hsteps] at hgoing
    cases hgoing
  refine ⟨i, hi, hgoing, tokens, token, lexeme, hnext, hfull, ?_, ?_, ?_⟩
  · rw [← m.steps_capacity i c, hcapacity]
  · rw [run_of_ended m hsteps, hsame, steps_succ, Progress.config_andThen_of_none hgoing, hconfig]
  · rw [run_of_ended m hsteps, hsame, steps_succ, Progress.journal_andThen_of_none hgoing, hjournal]

/-- The first things that a step writes down are its searches and the token chosen. -/
theorem isPrefix_journal_step {tokens : List Token} (ht : m.table.tokens c.state = .ok tokens)
    (hc : choose? tokens c.skipBlanks.rest = some (token, lexeme)) :
    choosing tokens token lexeme c <+: (m.step c).journal := by
  have hfirst : [.matched c.skipBlanks.position c.state token lexeme]
      <+: (m.accept token lexeme c.skipBlanks).journal := by
    obtain ⟨tail, htail, -, -⟩ := perform_journal m token lexeme c.skipBlanks
    rw [accept_eq]
    refine List.IsPrefix.trans ?_ (Progress.isPrefix_journal_andThen _ _)
    rw [htail]
    exact List.prefix_append [_] tail
  rw [m.step_of_choose? ht hc]
  exact (List.prefix_append_right_inj _).mpr hfirst

/-- What was written down behind some steps stands in front of what is written down behind more. -/
theorem isPrefix_journal_steps (m : Machine σ ρ ε) {n k : Nat} (hle : n ≤ k) (c : Config σ) :
    (m.steps n c).journal <+: (m.steps k c).journal := by
  obtain ⟨d, rfl⟩ := Nat.le.dest hle
  rw [steps_add]
  exact Progress.isPrefix_journal_andThen _ _

/-- So a run that goes on behind some steps begins with them, and then with the token chosen. -/
theorem isPrefix_journal_run {i n : Nat} (hi : i < n) {q : Progress σ ρ ε} (hq : m.steps i c = q)
    (hgoing : q.ending = none) {tokens : List Token} (ht : m.table.tokens q.config.state = .ok tokens)
    (hc : choose? tokens q.config.skipBlanks.rest = some (token, lexeme)) :
    q.journal ++ choosing tokens token lexeme q.config <+: (m.run n c).journal := by
  have hstep : q.journal ++ choosing tokens token lexeme q.config <+: (m.steps (i + 1) c).journal := by
    rw [steps_succ, hq, Progress.journal_andThen_of_none hgoing]
    exact (List.prefix_append_right_inj _).mpr (isPrefix_journal_step ht hc)
  rw [run_eq_steps]
  exact (hstep.trans (isPrefix_journal_steps m hi c)).trans (Progress.isPrefix_journal_andThen _ _)

/-- No step gives a run up for the length of its text. -/
theorem step_fault {f : Fault ε} (h : (m.step c).ending = some (.abandoned f)) (n : Nat) (limit : Int) :
    f ≠ .inputTooLong n limit := by
  revert h
  have hs := m.stepped c
  generalize m.step c = q at hs ⊢
  rintro h rfl
  cases hs with
  | lost | unmatched | moved | completed => cases h
  | cut =>
    rcases perform_ending h with ⟨_, _, _, _, _, hx⟩ | ⟨_, _, _, _, _, hx⟩ | ⟨_, hx⟩ <;> cases hx

theorem run_fault {n : Nat} {f : Fault ε} (h : (m.run n c).ending = some (.abandoned f)) (k : Nat) (limit : Int) :
    f ≠ .inputTooLong k limit := by
  rw [run_eq_steps] at h
  rcases Progress.ending_andThen_eq_some.mp h with he | ⟨-, he⟩
  · obtain ⟨i, -, hlast, -⟩ := m.exists_last_step he
    exact step_fault hlast k limit
  · rintro rfl
    cases he

end Machine

/-! ## Whole texts -/

namespace Parser

variable {σ ρ ε : Type} (p : Parser σ ρ ε)

/-- The parser with room for another number of captures. -/
def withCapacity (capacity : Int) : Parser σ ρ ε := { p with captureCapacity := capacity }

/--
A run that is given up for want of room, beside one with room for `capacity` captures. The latter has come to
`q` when the former is given up.
-/
structure CutShort (capacity : Int) (identifier : String) (text : String) (environment : σ)
    (q : Progress σ ρ ε) : Prop where
  reached : ∃ captures n, Captures.empty? capacity = .ok captures
    ∧ q = (p.withCapacity capacity).behind n text captures environment
  going : q.ending = none
  /-- As many captures are held as there is room for in the run that is given up. -/
  full : q.config.captures.toList.length = p.captureCapacity
  /-- The token chosen next captures one more, and with this token the other run stops. -/
  next : ∃ tokens token lexeme, p.CapturesNext q.config identifier tokens token lexeme
    ∧ (p.parse text environment).journal
      = .started text :: q.journal ++ Machine.choosing tokens token lexeme q.config
  /-- More room is room enough for it. -/
  adds : p.captureCapacity < capacity → ∀ value, ∃ more, q.config.captures.push identifier value = .ok more
  /-- The other run leaves behind what this one has come to. -/
  left : (p.parse text environment).environment = q.config.environment
    ∧ (p.parse text environment).held = q.config.captures.toList
  /-- All that happens in the other run happens first in this one. -/
  journal : (p.parse text environment).journal
    <+: ((p.withCapacity capacity).parse text environment).journal
  /-- So do its invocations and boundaries. -/
  signals : (p.parse text environment).journal.signals
    <+: ((p.withCapacity capacity).parse text environment).journal.signals

/-- Limits have no part in a run but to cut it off. -/
structure LimitsOnlyCut (text : String) (environment : σ) : Prop where
  /-- A text is refused for its length exactly if it is longer than the limit. -/
  tooLong_iff : ∀ limit : Int, (∃ length x, ((p.withLimit (some limit)).parse text environment).verdict
      = .error (.inputTooLong length x)) ↔ limit < text.length
  /-- It is then refused in front of everything else: nothing is written down and no callback is called. -/
  tooLong : ∀ limit : Int, limit < text.length → (p.withLimit (some limit)).parse text environment
    = ⟨.error (.inputTooLong text.length limit), environment, [], []⟩
  /-- Any other text is read as without a limit. -/
  taken : ∀ limit : Int, text.length ≤ limit → (p.withLimit (some limit)).parse text environment
    = (p.withLimit none).parse text environment
  /-- A run that is not given up for want of room is the same with more room. -/
  fits : ∀ capacity, 1 ≤ p.captureCapacity → p.captureCapacity ≤ capacity →
    (∀ identifier n, (p.parse text environment).verdict ≠ .error (.capture (.overflow identifier n))) →
    (p.withCapacity capacity).parse text environment = p.parse text environment
  /-- A run that is given up for want of room is the beginning of one with more room. -/
  overflows : ∀ capacity, 1 ≤ p.captureCapacity → p.captureCapacity ≤ capacity → ∀ identifier n,
    (p.parse text environment).verdict = .error (.capture (.overflow identifier n)) →
    n = p.captureCapacity ∧ ∃ q, p.CutShort capacity identifier text environment q

variable {p} {text : String} {environment : σ}

/-- No run gives a text up for its length. -/
theorem verdict_ne_inputTooLong (hexceeds : p.exceeds text = none) (length : Nat) (limit : Int) :
    (p.parse text environment).verdict ≠ .error (.inputTooLong length limit) := by
  intro h
  cases hcaptures : Captures.empty? p.captureCapacity with
  | error e =>
    simp only [parse, hexceeds, hcaptures] at h
    cases h
  | ok captures =>
    rw [parse_eq_conclude hexceeds hcaptures] at h
    unfold conclude at h
    split at h
    · cases h
    · cases h
    · next he => exact Machine.run_fault he length limit (Except.error.inj h)
    · cases h

/-- The captures that a run with more room starts with are those of the other run, with more room. -/
theorem empty?_enlarge {capacity capacity' : Int} {captures : Captures} (hpos : 1 ≤ capacity)
    (hle : capacity ≤ capacity') (h : Captures.empty? capacity = .ok captures) :
    captures.capacity = capacity
      ∧ Captures.empty? capacity' = .ok (captures.enlarge (capacity' - capacity).toNat) := by
  obtain ⟨narrow, hnarrow, hnil, hcount⟩ := empty?_of_pos hpos
  obtain ⟨wide, hwide, hnil', hcount'⟩ := empty?_of_pos (Int.le_trans hpos hle)
  obtain rfl := Except.ok.inj (h.symm.trans hnarrow)
  refine ⟨by omega, hwide.trans (congrArg Except.ok (Captures.ext ?_ (OrderedMap.ext ?_)))⟩
  · show wide.capacity = captures.capacity + _
    omega
  · exact hnil'.trans hnil.symm

theorem conclude_of_abandoned {q : Progress σ ρ ε} {f : Fault ε} (h : q.ending = some (.abandoned f)) :
    conclude text q
      = ⟨.error f, q.config.environment, q.config.captures.toList, .started text :: q.journal⟩ := by
  unfold conclude
  simp only [h, List.append_nil]

theorem conclude_enlarge (q : Progress σ ρ ε) (k : Nat) : conclude text (q.enlarge k) = conclude text q := by
  unfold conclude
  have hending : (q.enlarge k).ending = q.ending := rfl
  rw [hending]
  cases q.ending with
  | none => rfl
  | some e => cases e <;> rfl

/-- A run that has room enough is concluded alike with more. -/
theorem conclude_progress_enlarge (hdispatch : p.callbacks.SeesHeld) {captures : Captures}
    (h : (p.progress text captures environment).Fits) (k : Nat) (capacity : Int) :
    conclude text ((p.withCapacity capacity).progress text (captures.enlarge k) environment)
      = conclude text (p.progress text captures environment) := by
  rw [← conclude_enlarge (p.progress text captures environment) k]
  exact congrArg (conclude text) (Machine.run_enlarge hdispatch h k)

/-- **A run that wants for room is cut short** in front of the capture that it has no room for. -/
theorem cutShort (hdispatch : p.callbacks.SeesHeld) {capacity : Int} {captures : Captures} {identifier : String}
    {n : Nat} (hpos : 1 ≤ p.captureCapacity) (hle : p.captureCapacity ≤ capacity)
    (hexceeds : p.exceeds text = none) (hcaptures : Captures.empty? p.captureCapacity = .ok captures)
    (h : (p.progress text captures environment).ending
      = some (.abandoned (.capture (.overflow identifier n)))) :
    n = p.captureCapacity ∧ ∃ q, p.CutShort capacity identifier text environment q := by
  obtain ⟨hcapacity, hwide⟩ := empty?_enlarge hpos hle hcaptures
  obtain ⟨k, hk⟩ : ∃ k, (capacity - p.captureCapacity).toNat = k := ⟨_, rfl⟩
  rw [hk] at hwide
  obtain ⟨i, hi, hgoing, tokens, token, lexeme, hnext, hfull, hroom, hconfig, hrun⟩ := Machine.run_of_overflow h
  have hn : n = p.captureCapacity := by
    rw [← hcapacity]
    exact congrArg Nat.cast hroom.symm
  -- Up to the token whose capture is refused both runs are the same.
  have hsteps : p.steps i ((p.start text captures environment).enlarge k)
      = (p.behind i text captures environment).enlarge k :=
    Machine.steps_enlarge hdispatch (fun _ _ he => by cases hgoing.symm.trans he) k
  have hreport := (parse_eq_conclude hexceeds hcaptures environment).trans (conclude_of_abandoned h)
  have hjournal : (p.parse text environment).journal = .started text
      :: ((p.behind i text captures environment).journal
        ++ Machine.choosing tokens token lexeme (p.behind i text captures environment).config) := by
    rw [hreport]
    exact congrArg (.started text :: ·) hrun
  have hfront : (p.parse text environment).journal
      <+: ((p.withCapacity capacity).parse text environment).journal := by
    obtain ⟨last, hlast, -⟩ :=
      conclude_last text ((p.withCapacity capacity).progress text (captures.enlarge k) environment)
    rw [hjournal, parse_eq_conclude (p := p.withCapacity capacity) hexceeds hwide, hlast]
    have hfirst := Machine.isPrefix_journal_run hi hsteps hgoing hnext.known hnext.chosen
    exact (List.cons_prefix_cons.mpr ⟨rfl, hfirst⟩).trans (List.prefix_append _ _)
  exact ⟨hn, (p.behind i text captures environment).enlarge k,
    { reached := ⟨_, i, hwide, hsteps.symm⟩
      going := hgoing
      full := by
        rw [← hn]
        exact congrArg Nat.cast hfull
      next := ⟨tokens, token, lexeme, ⟨hnext.known, hnext.chosen, hnext.captures, hnext.fresh⟩, hjournal⟩
      adds := fun hlt value => Captures.exists_push_enlarge hnext.fresh (by omega) value
      left := by
        have hleft : (p.progress text captures environment).config = _ := hconfig
        rw [hreport, hleft]
        exact ⟨rfl, rfl⟩
      journal := hfront
      signals := hfront.filterMap _ }⟩

/-- **Limits only cut off**, whatever the callbacks are, if the dispatcher sees no more of the captures than what
is held. -/
theorem limits_only_cut (p : Parser σ ρ ε) (hdispatch : p.callbacks.SeesHeld) (text : String)
    (environment : σ) : p.LimitsOnlyCut text environment := by
  have htaken : ∀ limit : Int, text.length ≤ limit →
      (p.withLimit (some limit)).exceeds text = none := by
    intro limit hle
    rw [exceeds_eq rfl, if_neg (Int.not_lt.mpr hle)]
  have htooLong : ∀ limit : Int, limit < text.length → (p.withLimit (some limit)).parse text environment
      = ⟨.error (.inputTooLong text.length limit), environment, [], []⟩ := by
    intro limit hlt
    refine parse_of_exceeds ?_ environment
    rw [exceeds_eq rfl, if_pos hlt]
  refine
    { tooLong_iff := fun limit => ⟨?_, fun hlt => ⟨_, _, by rw [htooLong limit hlt]⟩⟩
      tooLong := htooLong
      taken := fun limit hle => ?_
      fits := fun capacity hpos hle hroom => ?_
      overflows := fun capacity hpos hle identifier n h => ?_ }
  · rintro ⟨length, x, h⟩
    by_contra hle
    exact verdict_ne_inputTooLong (htaken limit (Int.not_lt.mp hle)) length x h
  · exact (parse_withLimit_none (htaken limit hle) environment).symm
  · cases hexceeds : p.exceeds text with
    | some limit =>
      rw [parse_of_exceeds hexceeds, parse_of_exceeds (p := p.withCapacity capacity) hexceeds]
    | none =>
      obtain ⟨captures, hcaptures, -⟩ := empty?_of_pos hpos
      obtain ⟨-, hwide⟩ := empty?_enlarge hpos hle hcaptures
      rw [parse_eq_conclude hexceeds hcaptures] at hroom ⊢
      rw [parse_eq_conclude (p := p.withCapacity capacity) hexceeds hwide]
      exact conclude_progress_enlarge hdispatch
        (fun i n he => hroom i n (conclude_eq_capture_iff.mpr he)) _ capacity
  · cases hexceeds : p.exceeds text with
    | some limit =>
      rw [parse_of_exceeds hexceeds] at h
      cases h
    | none =>
      obtain ⟨captures, hcaptures, -⟩ := empty?_of_pos hpos
      rw [parse_eq_conclude hexceeds hcaptures] at h
      exact cutShort hdispatch hpos hle hexceeds hcaptures (conclude_eq_capture_iff.mp h)

/-- With room for one capture a focus is performed, and the number of pixels of the move behind it is refused. -/
theorem limits_only_cut_window :
    { tracing Window.grammar with captureCapacity := 1 }.callbacks.SeesHeld
      ∧ { tracing Window.grammar with captureCapacity := 1 }.LimitsOnlyCut "focus left; move right 10" {}
      ∧ ({ tracing Window.grammar with captureCapacity := 1 }.parse "focus left; move right 10" {}).verdict
        = .error (.capture (.overflow "pixels" 1)) :=
  ⟨Trace.seesHeld_callbacks _,
    limits_only_cut { tracing Window.grammar with captureCapacity := 1 } (Trace.seesHeld_callbacks _) _ _,
    by decide +kernel⟩

end Parser

end CommandGrammar
