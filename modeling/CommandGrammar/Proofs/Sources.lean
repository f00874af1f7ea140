import CommandGrammar.Proofs.Recording

/-!
# Where captures come from

A journal tells which token has made each of the captures held: a match puts the capture of its token
behind the others, and dropping the captures is written down as well.

* `Journal.sourcesFrom` — the captures held behind a journal, each with its token.
* `Journal.sourced` — the invocations in a journal, each capture with its token.
* `Parser.unsourced_sourced` — these are the invocations of the run, on every text.
-/

namespace CommandGrammar

/-- A capture with the token that made it. -/
abbrev Source := Token × String × String

/-- The capture of a token with that token, if it makes one. -/
def Token.source? (token : Token) (lexeme : Lexeme) : Option Source :=
  (token.capture? lexeme).map fun x => (token, x)

namespace Journal

/-- The captures held behind a journal in front of which those of `held` are held, each with its token. -/
def sourcesFrom (held : List Source) : Journal → List Source
  | [] => held
  | .matched _ _ token lexeme :: rest => sourcesFrom (held ++ (token.source? lexeme).toList) rest
  | .cleared _ :: rest => sourcesFrom [] rest
  | _ :: rest => sourcesFrom held rest

/-- The invocations in a journal, with the captures held there and the tokens that made them. -/
def sourcedFrom (held : List Source) : Journal → List (ActionId × List Source)
  | [] => []
  | .matched _ _ token lexeme :: rest => sourcedFrom (held ++ (token.source? lexeme).toList) rest
  | .cleared _ :: rest => sourcedFrom [] rest
  | .invoked action _ _ :: rest => (action, held) :: sourcedFrom held rest
  | _ :: rest => sourcedFrom held rest

/-- The invocations in the journal of a whole run, each capture with the token that made it. -/
def sourced (j : Journal) : List (ActionId × List Source) := sourcedFrom [] j

theorem sourcesFrom_append (held : List Source) (i j : Journal) :
    sourcesFrom held (i ++ j) = sourcesFrom (sourcesFrom held i) j := by
  induction i generalizing held with
  | nil => rfl
  | cons e i ih => cases e <;> exact ih _

theorem sourcedFrom_append (held : List Source) (i j : Journal) :
    sourcedFrom held (i ++ j) = sourcedFrom held i ++ sourcedFrom (sourcesFrom held i) j := by
  induction i generalizing held with
  | nil => rfl
  | cons e i ih =>
    cases e with
    | invoked a n h => exact congrArg ((a, held) :: ·) (ih held)
    | _ => exact ih _

end Journal

namespace Journal

/-- No capture is made, seen or dropped in the journal. -/
def Idle (j : Journal) : Prop :=
  ∀ e ∈ j, Machine.NoMatch e ∧ (∀ n, e ≠ .cleared n) ∧ ∀ action name held, e ≠ .invoked action name held

/-- An idle journal changes nothing about the captures held. -/
theorem Idle.sources {j : Journal} (h : j.Idle) (held : List Source) :
    j.sourcesFrom held = held ∧ j.sourcedFrom held = [] ∧ j.invocations = [] := by
  induction j with
  | nil => exact ⟨rfl, rfl, rfl⟩
  | cons e j ih =>
    have hrest := ih fun e' he' => h e' (List.mem_cons_of_mem e he')
    obtain ⟨hmatch, hcleared, hinvoked⟩ := h e List.mem_cons_self
    cases e with
    | matched p s t l => exact absurd rfl (hmatch p s t l)
    | cleared n => exact absurd rfl (hcleared n)
    | invoked a n held => exact absurd rfl (hinvoked a n held)
    | _ => exact hrest

theorem idle_tries {σ : Type} (tokens : List Token) (c : Config σ) :
    (Machine.tries tokens c).Idle := by
  intro e he
  obtain ⟨u, -, rfl⟩ := List.mem_map.mp he
  exact ⟨fun _ _ _ _ => by simp, by simp, by simp⟩

end Journal

/-! ## The parts of a step -/

/-- An invocation without the tokens. -/
def unsourced (x : ActionId × List Source) : ActionId × List (String × String) :=
  (x.1, x.2.map Prod.snd)

/-- What a stretch writes down accounts for the captures that its invocations see, and for those held behind
it unless the run was given up. -/
structure Progress.Accounts {σ ρ ε : Type} (sources : List Source) (q : Progress σ ρ ε) : Prop where
  captures : q.ending = none → (q.journal.sourcesFrom sources).map Prod.snd = q.config.captures.toList
  invocations : (q.journal.sourcedFrom sources).map unsourced = q.journal.invocations

namespace Progress.Accounts

variable {σ ρ ε : Type} {sources : List Source} {q : Progress σ ρ ε} {c : Config σ}

theorem andThen {next : Config σ → Progress σ ρ ε} (h : q.Accounts sources)
    (hnext : (q.journal.sourcesFrom sources).map Prod.snd = q.config.captures.toList →
      (next q.config).Accounts (q.journal.sourcesFrom sources)) :
    (q.andThen next).Accounts sources := by
  cases he : q.ending with
  | some e => rw [Progress.andThen_of_some he]; exact h
  | none =>
    obtain ⟨hcaptures, hinvocations⟩ := hnext (h.captures he)
    rw [Progress.andThen_of_none he]
    refine ⟨fun hend => ?_, ?_⟩
    · rw [Journal.sourcesFrom_append]
      exact hcaptures hend
    · rw [Journal.sourcedFrom_append, List.map_append, h.invocations, hinvocations,
        Journal.invocations_append]

/-- A stretch that writes nothing down about captures and leaves them as they were. -/
theorem of_idle (hj : q.journal.Idle) (hsources : sources.map Prod.snd = c.captures.toList)
    (hcaptures : q.config.captures = c.captures) : q.Accounts sources := by
  obtain ⟨hheld, hsourced, hinvocations⟩ := hj.sources sources
  refine ⟨fun _ => ?_, ?_⟩
  · rw [hheld, hcaptures, hsources]
  · rw [hsourced, hinvocations]
    rfl

end Progress.Accounts

namespace Machine

variable {σ ρ ε : Type} {m : Machine σ ρ ε} {sources : List Source} {c : Config σ}

/-- Where captures are dropped, none are left; where nothing is written down, there were none. -/
theorem sourcesFrom_dropCaptures (h : sources.map Prod.snd = c.captures.toList) :
    (dropCaptures c : Progress σ ρ ε).journal.sourcesFrom sources = []
      ∧ (dropCaptures c : Progress σ ρ ε).journal.sourcedFrom sources = [] := by
  unfold dropCaptures
  by_cases hsize : c.captures.size = 0
  · have hnil : sources = [] := by
      rw [← List.length_eq_zero_iff, ← List.length_map (f := Prod.snd), h]
      exact hsize
    simp [Progress.note, hsize, hnil, Journal.sourcesFrom, Journal.sourcedFrom]
  · simp [Progress.note, hsize, Journal.sourcesFrom, Journal.sourcedFrom]

/-- An invocation sees the captures held, which are dropped behind it. -/
theorem sourcesFrom_invocation (h : sources.map Prod.snd = c.captures.toList) (action : ActionId)
    (name : String) :
    (m.invocation action name c).sourcesFrom sources = []
      ∧ (m.invocation action name c).sourcedFrom sources = [(action, sources)]
      ∧ (m.invocation action name c).invocations = [(action, c.captures.toList)] := by
  -- What the dispatcher says has nothing to do with captures.
  have hcalls : Journal.Idle ((m.callbacks.dispatch action c.captures c.environment).journal) := by
    intro e he
    obtain ⟨x, -, rfl⟩ := List.mem_map.mp he
    exact ⟨fun _ _ _ _ => by simp, by simp, by simp⟩
  obtain ⟨hsources, hsourced, hinvocations⟩ := hcalls.sources sources
  obtain ⟨hdropped, hdropped'⟩ := sourcesFrom_dropCaptures (ρ := ρ) (ε := ε) h
  have hseen : Journal.sourcesFrom sources (.invoked action name c.captures.toList
      :: ((m.callbacks.dispatch action c.captures c.environment).journal : Journal)) = sources := hsources
  unfold invocation
  refine ⟨?_, ?_, ?_⟩
  · rw [Journal.sourcesFrom_append, hseen, hdropped]
  · rw [Journal.sourcedFrom_append, hseen, hdropped', List.append_nil]
    exact congrArg ((action, sources) :: ·) hsourced
  · rw [Journal.invocations_append, (Journal.quiet_dropCaptures c).invocations, List.append_nil]
    exact congrArg ((action, c.captures.toList) :: ·) hinvocations

theorem accounts_follow (h : sources.map Prod.snd = c.captures.toList) (transition : Transition) :
    (m.follow transition c).Accounts sources := by
  have hf := m.followed transition c
  generalize m.follow transition c = q at hf ⊢
  cases hf with
  | home =>
    obtain ⟨hsources, hsourced⟩ := sourcesFrom_dropCaptures (ρ := ρ) (ε := ε)
      (c := { c with state := m.table.initial }) h
    refine ⟨fun _ => by rw [hsources]; rfl, ?_⟩
    rw [hsourced, (Journal.quiet_dropCaptures _).invocations]
    rfl
  | away => exact .of_idle (by simp [Journal.Idle, Progress.note]) h rfl
  | unknown => exact .of_idle (by simp [Journal.Idle, Progress.stop]) h rfl
  | @failed action _ name | @performed action _ name =>
    obtain ⟨hsources, hsourced, hinvocations⟩ := sourcesFrom_invocation (m := m) h action name
    refine ⟨fun _ => by rw [hsources]; rfl, ?_⟩
    rw [hsourced, hinvocations]
    simp [unsourced, h]

theorem accounts_perform (h : sources.map Prod.snd = c.captures.toList) (token : Token)
    (lexeme : Lexeme) : (m.perform token lexeme c).Accounts sources := by
  rcases room_or_refused token lexeme c with hroom | ⟨_, _, _, hc, hp⟩
  · obtain ⟨captures, hheld, -, hq⟩ := perform_of_room (m := m) hroom
    rw [hq]
    refine Progress.Accounts.andThen ⟨fun _ => ?_, rfl⟩ fun h' => ?_
    · show (sources ++ (token.source? lexeme).toList).map Prod.snd = captures.toList
      rw [hheld, List.map_append, h, Token.source?]
      cases token.capture? lexeme <;> rfl
    · refine (accounts_follow h' token.transition).andThen fun h'' => ?_
      obtain ⟨s, hs⟩ := signal_config m token lexeme _
      refine .of_idle (fun e he => ?_) h'' (by rw [hs])
      rw [signal_journal e he]
      exact ⟨fun _ _ _ _ => by simp, by simp, by simp⟩
  · rw [perform_of_refused hc hp]
    exact ⟨fun he => by simp at he, rfl⟩

/-- **A step accounts for the captures**, where those in front of it are accounted for. -/
theorem accounts_step (h : sources.map Prod.snd = c.captures.toList) :
    (m.step c).Accounts sources := by
  -- The search in front of a match changes nothing.
  have htries : ∀ {tokens : List Token} {p q : Progress σ ρ ε}, p.Accounts sources →
      q.journal = tries tokens c.skipBlanks ++ p.journal → q.config.captures = p.config.captures →
      (q.ending = none → p.ending = none) → q.Accounts sources := by
    intro tokens p q hp hj hcaptures hending
    obtain ⟨hsources, hsourced, hinvocations⟩ := (Journal.idle_tries tokens c.skipBlanks).sources sources
    refine ⟨fun he => ?_, ?_⟩
    · rw [hj, Journal.sourcesFrom_append, hsources, hcaptures]
      exact hp.captures (hending he)
    · rw [hj, Journal.sourcedFrom_append, hsourced, hsources, Journal.invocations_append, hinvocations]
      exact hp.invocations
  have hs := m.stepped c
  generalize m.step c = q at hs ⊢
  cases hs with
  | lost => exact .of_idle (by simp [Journal.Idle, Progress.stop]) h rfl
  | unmatched => exact .of_idle (Journal.idle_tries _ _) h rfl
  | @cut _ token lexeme _ _ _ he =>
    exact htries (accounts_perform (c := c.skipBlanks) h token lexeme) rfl rfl (by simp [he])
  | @moved _ token lexeme _ _ he | @completed _ token lexeme _ _ he =>
    exact htries (accounts_perform (c := c.skipBlanks) h token lexeme) rfl rfl fun _ => he

theorem accounts_steps (h : sources.map Prod.snd = c.captures.toList) (n : Nat) :
    (m.steps n c).Accounts sources := by
  refine m.steps_induction (P := Progress.Accounts sources) ⟨fun _ => h, rfl⟩ ?_ n
  intro q hq _
  exact hq.andThen accounts_step

end Machine

/-! ## Whole texts -/

/-- **Every capture that an invocation sees is that of a token accepted since the captures were last
dropped.** -/
theorem Parser.unsourced_sourced {σ ρ ε : Type} (p : Parser σ ρ ε) (text : String) (environment : σ) :
    (p.parse text environment).journal.sourced.map unsourced
      = (p.parse text environment).journal.invocations := by
  unfold parse
  split
  · rfl
  · split
    · rfl
    · next captures hempty =>
      have hrun : (p.progress text captures environment).Accounts [] := by
        rw [progress, p.run_eq_steps]
        refine (Machine.accounts_steps ?_ (budget text)).andThen fun h => ?_
        · exact (toList_of_empty? hempty).symm
        · exact .of_idle (by simp [Journal.Idle, Progress.stop]) h rfl
      obtain ⟨last, hj, hlast⟩ := conclude_last text (p.progress text captures environment)
      have hidle : Journal.Idle last := by
        intro e he
        rcases hlast e he with ⟨_, rfl⟩ | ⟨_, _, rfl⟩ <;> exact ⟨fun _ _ _ _ => by simp, by simp, by simp⟩
      obtain ⟨-, hsourced, -⟩ := hidle.sources
        ((p.progress text captures environment).journal.sourcesFrom [])
      rw [invocations_conclude, ← hrun.invocations, hj]
      show (Journal.sourcedFrom [] ((p.progress text captures environment).journal ++ last)).map
        unsourced = _
      rw [Journal.sourcedFrom_append, hsourced, List.append_nil]

end CommandGrammar
