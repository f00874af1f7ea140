import CommandGrammar.Proofs.Conventions

/-!
# Blocks

A keyword opens a block, an action adds to it, and another action closes it. While a block is open nothing
else is invoked, no further block is opened, and no command is completed. A table keeps its blocks if each
state tells whether one is open, and each token leads from there to what its target tells.

* `BlockMarks.read?` — whether a block is open behind a journal that keeps to this.
* `Table.KeepsBlocks` — the check, token by token.
* `Machine.blocked_step`, `Machine.blocked_steps` — what a step and any number of steps write down.
* `Window.criteria_closed` — the statement about the criteria of the window language.
-/

namespace CommandGrammar

/-! ## Calls in a journal -/

namespace Journal

variable {j : Journal} {pre post : List Call} {call : Call}

/-- A call that a journal leaves behind is an invocation that is written down in it. -/
theorem exists_split_of_calls (h : j.trace.calls = pre ++ call :: post) :
    ∃ (i l : Journal) (action : ActionId),
      j = i ++ .invoked action call.action call.arguments :: l
        ∧ i.trace.calls = pre ∧ l.trace.calls = post := by
  obtain ⟨i, rest, rfl, hi, hrest⟩ := List.filterMap_eq_append_iff.mp h
  obtain ⟨skipped, e, l, rfl, hskipped, he, hl⟩ := List.filterMap_eq_cons_iff.mp hrest
  cases e with
  | invoked action name held =>
    obtain rfl := Option.some.inj he
    refine ⟨i ++ skipped, l, action, by rw [List.append_assoc], ?_, hl⟩
    rw [trace_append, Trace.calls_append]
    exact (congrArg₂ (· ++ ·) hi (List.filterMap_eq_nil_iff.mpr hskipped)).trans (List.append_nil pre)
  | _ => cases he

theorem not_invoked_of_calls_eq_nil (h : j.trace.calls = []) (action : ActionId) (name : String)
    (held : List (String × String)) : .invoked action name held ∉ j :=
  fun hm => nomatch List.filterMap_eq_nil_iff.mp h _ hm

end Journal

/-! ## Journals of blocks -/

/-- How blocks are marked: the keyword that opens one, the action that adds to it, and the action that closes
it. -/
structure BlockMarks where
  opening : String
  adding : String
  closing : String

namespace BlockMarks

variable (k : BlockMarks)

/-- Whether a token opens a block. -/
def opens (token : Token) : Bool := token.kind = .literal ∧ token.text = some k.opening

/-- Whether a block is open behind a token that is accepted. No block is opened in another one. -/
def accepted? (isOpen : Bool) (token : Token) : Option Bool :=
  if k.opens token then
    if isOpen then none else some true
  else some isOpen

/-- Whether a block is open behind an action that is invoked. A block is added to and closed while it is
open, and everything else is done while none is. -/
def invoked? (isOpen : Bool) (name : String) : Option Bool :=
  if name = k.adding then
    if isOpen then some true else none
  else if name = k.closing then
    if isOpen then some false else none
  else if isOpen then none else some false

/-- Whether a block is open behind an event. No command is completed while one is. -/
def event? (isOpen : Bool) : Event → Option Bool
  | .matched _ _ token _ => k.accepted? isOpen token
  | .invoked _ name _ => k.invoked? isOpen name
  | .boundary _ => if isOpen then none else some false
  | _ => some isOpen

/-- Whether a block is open behind the events of a journal, if they keep to their blocks. -/
def read? (isOpen : Bool) (j : Journal) : Option Bool := j.foldlM k.event? isOpen

/-- An event that closes a block. -/
def Closes (e : Event) : Prop := ∃ action held, e = .invoked action k.closing held

variable {k} {b b' : Bool} {e : Event} {i j : Journal}

@[simp] theorem read?_cons : k.read? b (e :: j) = (k.event? b e).bind (k.read? · j) := rfl

@[simp] theorem read?_append : k.read? b (i ++ j) = (k.read? b i).bind (k.read? · j) :=
  List.foldlM_append

/-- Events of other kinds have nothing to do with blocks. -/
theorem read?_of_quiet (hquiet : j.Quiet) (hmatch : ∀ e ∈ j, Machine.NoMatch e) :
    k.read? b j = some b := by
  induction j with
  | nil => rfl
  | cons e j ih =>
    have he : k.event? b e = some b := by
      cases e with
      | matched p s t l => exact absurd rfl (hmatch _ List.mem_cons_self p s t l)
      | invoked a n h => exact absurd rfl ((hquiet _ List.mem_cons_self).1 a n h)
      | boundary p => exact absurd rfl ((hquiet _ List.mem_cons_self).2 p)
      | _ => rfl
    rw [read?_cons, he]
    exact ih (fun x hx => hquiet x (List.mem_cons_of_mem e hx))
      fun x hx => hmatch x (List.mem_cons_of_mem e hx)

/-- **As long as a block is not closed it is added to**, and nothing else is done. -/
theorem open_of_read? (h : k.read? true j = some b) (hno : ∀ e ∈ j, ¬ k.Closes e) :
    b = true ∧ (∀ position, .boundary position ∉ j)
      ∧ ∀ action name held, .invoked action name held ∈ j → name = k.adding := by
  induction j with
  | nil => exact ⟨(Option.some.inj h).symm, by simp, by simp⟩
  | cons e j ih =>
    obtain ⟨d, hd, hj⟩ := Option.bind_eq_some_iff.mp (read?_cons ▸ h)
    have hrest : ∀ x ∈ j, ¬ k.Closes x := fun x hx => hno x (List.mem_cons_of_mem e hx)
    -- The first event neither closes the block nor completes a command.
    obtain ⟨rfl, hboundary, hinvoked⟩ : d = true ∧ (∀ position, e ≠ .boundary position)
        ∧ ∀ action name held, e = .invoked action name held → name = k.adding := by
      cases e with
      | matched p s token l =>
        simp only [event?, accepted?] at hd
        split at hd
        · cases hd
        · exact ⟨(Option.some.inj hd).symm, nofun, nofun⟩
      | invoked action name held =>
        simp only [event?, invoked?, if_true] at hd
        split at hd
        · next hname =>
          refine ⟨(Option.some.inj hd).symm, nofun, ?_⟩
          rintro a n held' ⟨⟩
          exact hname
        · split at hd
          · next hname => exact absurd ⟨action, held, by rw [hname]⟩ (hno _ List.mem_cons_self)
          · cases hd
      | boundary p => cases hd
      | _ => exact ⟨(Option.some.inj hd).symm, nofun, nofun⟩
    obtain ⟨hb, hnoBoundary, hadding⟩ := ih hj hrest
    refine ⟨hb, fun position hm => ?_, fun action name held hm => ?_⟩
    · rcases List.mem_cons.mp hm with hm | hm
      · exact hboundary position hm.symm
      · exact hnoBoundary position hm
    · rcases List.mem_cons.mp hm with hm | hm
      · exact hinvoked action name held hm.symm
      · exact hadding action name held hm

theorem read?_of_append (h : k.read? b (i ++ j) = some b') : ∃ d, k.read? b i = some d := by
  obtain ⟨d, hd, -⟩ := Option.bind_eq_some_iff.mp (read?_append ▸ h)
  exact ⟨d, hd⟩

/-- Behind an action that adds to a block the block is open. -/
theorem open_of_added {action : ActionId} {held : List (String × String)}
    (h : k.read? b' (i ++ .invoked action k.adding held :: j) = some b) : k.read? true j = some b := by
  obtain ⟨d, -, hd⟩ := Option.bind_eq_some_iff.mp (read?_append ▸ h)
  obtain ⟨d', hd', hj⟩ := Option.bind_eq_some_iff.mp (read?_cons ▸ hd)
  simp only [event?, invoked?, if_true] at hd'
  split at hd'
  · rwa [← Option.some.inj hd'] at hj
  · cases hd'

/-- The call behind one that adds to a block adds to it as well, or closes it. -/
theorem next_of_read? {pre post : List Call} {call next : Call} (h : k.read? b' j = some b)
    (hcalls : j.trace.calls = pre ++ call :: next :: post) (hadding : call.action = k.adding) :
    next.action = k.adding ∨ next.action = k.closing := by
  obtain ⟨i, j, action, rfl, -, hpost⟩ := Journal.exists_split_of_calls hcalls
  have hnext : j.trace.calls = [] ++ next :: post := hpost
  obtain ⟨l, j', action', rfl, hl, -⟩ := Journal.exists_split_of_calls hnext
  rw [hadding] at h
  -- Up to the next call the block is open, so that call adds to it if it does not close it.
  obtain ⟨d, hopen⟩ := read?_of_append (j := j')
    (i := l ++ [.invoked action' next.action next.arguments])
    (by rw [List.append_assoc]; exact open_of_added h)
  by_cases hcloses : next.action = k.closing
  · exact Or.inr hcloses
  · obtain ⟨-, -, hname⟩ := open_of_read? hopen fun e he => by
      rintro ⟨a, held, rfl⟩
      rcases List.mem_append.mp he with he | he
      · exact Journal.not_invoked_of_calls_eq_nil hl _ _ _ he
      · obtain ⟨-, hclosing, -⟩ := Event.invoked.inj (List.mem_singleton.mp he)
        exact hcloses hclosing.symm
    exact Or.inl (hname action' next.action next.arguments (by simp))

/-- A command is completed behind an action that adds to a block when the block has been closed. -/
theorem exists_closes_of_boundary {action : ActionId} {held : List (String × String)} {position : Nat}
    {pre mid post : Journal}
    (h : k.read? b' (pre ++ .invoked action k.adding held :: mid ++ .boundary position :: post) = some b) :
    ∃ e ∈ mid, k.Closes e := by
  rw [List.append_assoc] at h
  obtain ⟨d, hmid⟩ := read?_of_append (i := mid ++ [.boundary position]) (j := post)
    (by rw [List.append_assoc]; exact open_of_added h)
  by_contra hno
  obtain ⟨-, hboundary, -⟩ := open_of_read? hmid fun e he hcloses => by
    rcases List.mem_append.mp he with he | he
    · exact hno ⟨e, he, hcloses⟩
    · obtain ⟨a, held, rfl⟩ := hcloses
      cases List.mem_singleton.mp he
  exact hboundary position (by simp)

/-- A block is open when the last call added to it. -/
theorem open_of_last {call : Call} (h : k.read? b' j = some b) (hlast : call ∈ j.trace.calls.getLast?)
    (hadding : call.action = k.adding) : b = true := by
  obtain ⟨pre, hpre⟩ := List.getLast?_eq_some_iff.mp hlast
  obtain ⟨i, j, action, rfl, -, hnil⟩ := Journal.exists_split_of_calls hpre
  rw [hadding] at h
  refine (open_of_read? (open_of_added h) fun e he => ?_).1
  rintro ⟨a, held, rfl⟩
  exact Journal.not_invoked_of_calls_eq_nil hnil _ _ _ he

/-- Each event opens and closes as many blocks as it tells. -/
theorem count_of_event? {d : Bool} (hne : k.adding ≠ k.closing) (h : k.event? b e = some d) :
    (Journal.trace [e]).calls.countP (·.action = k.closing) + d.toNat
      = (Journal.accepted [e]).countP (fun a => k.opens a.2.2.1) + b.toNat := by
  cases e with
  | matched p s token l =>
    show 0 + d.toNat = List.countP _ [(p, s, token, l)] + b.toNat
    rw [List.countP_singleton, Nat.zero_add]
    simp only [event?, accepted?] at h
    split at h
    · next hopens =>
      split at h
      · cases h
      · next hclosed =>
        obtain rfl := Option.some.inj h
        simp [hopens, hclosed]
    · next hopens =>
      obtain rfl := Option.some.inj h
      simp [hopens]
  | invoked action name held =>
    show List.countP _ [(⟨name, held⟩ : Call)] + d.toNat = 0 + b.toNat
    rw [List.countP_singleton, Nat.zero_add]
    simp only [event?, invoked?] at h
    split at h
    · next hname =>
      split at h
      · next hopen =>
        obtain rfl := Option.some.inj h
        simp [hname, hne, hopen]
      · cases h
    · split at h
      · next hname =>
        split at h
        · next hopen =>
          obtain rfl := Option.some.inj h
          simp [hname, hopen]
        · cases h
      · next hname =>
        split at h
        · cases h
        · next hclosed =>
          obtain rfl := Option.some.inj h
          simp [hname, hclosed]
  | boundary p =>
    simp only [event?] at h
    split at h
    · cases h
    · next hclosed =>
      obtain rfl := Option.some.inj h
      rw [Bool.not_eq_true] at hclosed
      rw [hclosed]
      rfl
  | _ =>
    obtain rfl := Option.some.inj h
    rfl

/-- **Every block is closed once**, but for the one that may still be open. -/
theorem count_of_read? (hne : k.adding ≠ k.closing) (h : k.read? b j = some b') :
    j.trace.calls.countP (·.action = k.closing) + b'.toNat
      = j.accepted.countP (fun a => k.opens a.2.2.1) + b.toNat := by
  induction j generalizing b with
  | nil =>
    obtain rfl := Option.some.inj h
    rfl
  | cons e j ih =>
    obtain ⟨d, hd, hj⟩ := Option.bind_eq_some_iff.mp (read?_cons ▸ h)
    have hevent := count_of_event? hne hd
    have hrest := ih hj
    have hcalls : (Journal.trace ([e] ++ j)).calls = (Journal.trace [e]).calls ++ (Journal.trace j).calls := by
      rw [Journal.trace_append, Trace.calls_append]
    have haccepted : Journal.accepted ([e] ++ j) = Journal.accepted [e] ++ Journal.accepted j :=
      Journal.accepted_append [e] j
    rw [← List.singleton_append, hcalls, haccepted, List.countP_append, List.countP_append]
    omega

end BlockMarks

/-! ## Tables -/

namespace Table

/-- Whether a block is open behind a transition that is followed. -/
def blockAfter? (t : Table) (k : BlockMarks) (isOpen : Bool) : Transition → Option Bool
  | .goto _ => some isOpen
  | .invoke action _ => (t.actions.get? action).bind (k.invoked? isOpen)

/-- Whether a block is open behind a token, if the token keeps to its block. -/
def blockBehind? (t : Table) (k : BlockMarks) (isOpen : Bool) (token : Token) : Option Bool :=
  (k.accepted? isOpen token).bind (t.blockAfter? k · token.transition)

/-- The table keeps its blocks: each state tells whether one is open. None is in the initial state or behind
the end of a command. -/
structure KeepsBlocks (t : Table) (k : BlockMarks) (isOpen : StateName → Bool) : Prop where
  initial : isOpen t.initial = false
  tokens : ∀ state token, t.Lists state token →
    t.blockBehind? k (isOpen state) token = some (isOpen (t.target token.transition))
  ends : ∀ state token, t.Lists state token → token.kind = .commandEnd →
    isOpen (t.target token.transition) = false

end Table

/-! ## One step -/

namespace Machine

variable {σ ρ ε : Type} {m : Machine σ ρ ε} {c : Config σ} {k : BlockMarks} {isOpen : StateName → Bool}
  {token : Token} {lexeme : Lexeme}

/-- What a stretch of a run that starts in a state leaves behind on a table that keeps its blocks. -/
structure Blocked (m : Machine σ ρ ε) (k : BlockMarks) (isOpen : StateName → Bool) (start : StateName)
    (q : Progress σ ρ ε) : Prop where
  /-- What is written down keeps to its blocks, and the state tells whether one is open. -/
  reads : ∃ b, k.read? (isOpen start) q.journal = some b
    ∧ ((∀ f, q.ending ≠ some (.abandoned f)) → b = isOpen q.config.state)
  /-- None is open when the run is complete. -/
  complete : q.ending = some .complete → isOpen q.config.state = false

theorem read?_dropCaptures (c : Config σ) (b : Bool) :
    k.read? b (dropCaptures c : Progress σ ρ ε).journal = some b := by
  refine BlockMarks.read?_of_quiet (Journal.quiet_dropCaptures c) fun e he p s t l => ?_
  obtain ⟨n, rfl⟩ := dropCaptures_journal c e he
  simp

/-- An invocation is read by its name. -/
theorem read?_invocation (m : Machine σ ρ ε) (action : ActionId) (name : String) (c : Config σ) (b : Bool) :
    k.read? b (m.invocation action name c) = k.invoked? b name := by
  have hcalls : ∀ (calls : List CallEvent) (b : Bool), k.read? b (calls : Journal) = some b := by
    intro calls b
    refine BlockMarks.read?_of_quiet (fun e he => ?_) fun e he p s t l => ?_
    · obtain ⟨x, -, rfl⟩ := List.mem_map.mp he
      simp
    · obtain ⟨x, -, rfl⟩ := List.mem_map.mp he
      simp
  unfold invocation
  rw [BlockMarks.read?_append, BlockMarks.read?_cons, BlockMarks.event?]
  cases k.invoked? b name with
  | none => rfl
  | some d => rw [Option.bind_some, hcalls, Option.bind_some, read?_dropCaptures]

/-- Following a transition is read as the table says. -/
theorem read?_follow {transition : Transition} {b d : Bool}
    (hd : m.table.blockAfter? k b transition = some d) (c : Config σ) :
    k.read? b (m.follow transition c).journal = some d := by
  have hf := m.followed transition c
  generalize m.follow transition c = q at hf ⊢
  cases hf with
  | home => exact (read?_dropCaptures _ b).trans hd
  | away => exact hd
  | unknown hname =>
    obtain ⟨name, hget, -⟩ := Option.bind_eq_some_iff.mp hd
    rw [Table.actionName_eq_ok_iff.mpr hget] at hname
    cases hname
  | failed hname | performed hname =>
    rw [Table.blockAfter?, Table.actionName_eq_ok_iff.mp hname] at hd
    exact (read?_invocation m _ _ c b).trans hd

/-- **A token that keeps to its block is accepted as its target tells.** -/
theorem blocked_perform (h : m.table.KeepsBlocks k isOpen) (hlist : m.table.Lists c.state token) :
    ∃ b, k.read? (isOpen c.state) (m.perform token lexeme c).journal = some b
      ∧ ((m.perform token lexeme c).ending = none → b = isOpen (m.table.target token.transition)) := by
  obtain ⟨b, hb, hbehind⟩ := Option.bind_eq_some_iff.mp (h.tokens c.state token hlist)
  rcases room_or_refused token lexeme c with hroom | ⟨_, _, _, hc, hp⟩
  · obtain ⟨captures, -, -, hq⟩ := perform_of_room (m := m) hroom
    have hfollow := read?_follow hbehind { c with captures }
    rw [hq, Progress.andThen_note]
    refine ⟨isOpen (m.table.target token.transition), ?_, fun _ => rfl⟩
    show k.read? _ (_ :: Progress.journal _) = _
    rw [BlockMarks.read?_cons, BlockMarks.event?, hb, Option.bind_some]
    cases he : (m.follow token.transition { c with captures }).ending with
    | some e => rw [Progress.andThen_of_some he]; exact hfollow
    | none =>
      rw [Progress.journal_andThen_of_none he, BlockMarks.read?_append, hfollow, Option.bind_some]
      -- A command is completed behind its transition, where no block is open.
      rcases m.signal_cases token lexeme (m.follow token.transition { c with captures }).config with
        hs | ⟨hook, -, hkind, -, hs⟩
      · rw [hs]; rfl
      · rw [hs, h.ends c.state token hlist hkind]; rfl
  · rw [perform_of_refused hc hp]
    refine ⟨b, ?_, nofun⟩
    rw [BlockMarks.read?_cons, BlockMarks.event?, hb]
    rfl

/-- **A step keeps to its blocks.** -/
theorem blocked_step (h : m.table.KeepsBlocks k isOpen) (c : Config σ) :
    Blocked m k isOpen c.state (m.step c) := by
  have htries : ∀ tokens b, k.read? b (tries tokens c.skipBlanks) = some b := by
    intro tokens b
    refine BlockMarks.read?_of_quiet (Journal.quiet_tries tokens c.skipBlanks) fun e he p s t l => ?_
    obtain ⟨u, -, rfl⟩ := List.mem_map.mp he
    simp
  have hperform : ∀ {tokens token lexeme}, m.table.tokens c.state = .ok tokens →
      choose? tokens c.skipBlanks.rest = some (token, lexeme) →
      ∃ b, k.read? (isOpen c.state)
          (tries tokens c.skipBlanks ++ (m.perform token lexeme c.skipBlanks).journal) = some b
        ∧ ((m.perform token lexeme c.skipBlanks).ending = none →
          b = isOpen (m.table.target token.transition)) := by
    intro tokens token lexeme ht hch
    rw [BlockMarks.read?_append, htries, Option.bind_some]
    exact blocked_perform (c := c.skipBlanks) h ⟨tokens, ht, mem_of_choose? hch⟩
  have hs := m.stepped c
  generalize m.step c = q at hs ⊢
  cases hs with
  | lost => exact ⟨⟨isOpen c.state, rfl, fun hno => absurd rfl (hno _)⟩, nofun⟩
  | unmatched => exact ⟨⟨isOpen c.state, htries _ _, fun _ => rfl⟩, nofun⟩
  | cut ht hch he =>
    obtain ⟨b, hb, -⟩ := hperform ht hch
    exact ⟨⟨b, hb, fun hno => absurd he (hno _)⟩, fun hcomplete => by rw [he] at hcomplete; cases hcomplete⟩
  | moved ht hch he =>
    obtain ⟨b, hb, hstate⟩ := hperform ht hch
    refine ⟨⟨b, hb, fun _ => ?_⟩, nofun⟩
    rw [hstate he]
    exact congrArg isOpen (perform_state he).symm
  | @completed tokens token lexeme ht hch he hlt =>
    obtain ⟨b, hb, hstate⟩ := hperform ht hch
    have hend : ((m.perform token lexeme c.skipBlanks).config.moved lexeme).state
        = m.table.target token.transition := perform_state he
    obtain ⟨-, hk, -⟩ := (consumed_of_choose? hch).resolve_left (Nat.not_le_of_lt hlt)
    refine ⟨⟨b, hb, fun _ => ?_⟩, fun _ => ?_⟩
    · rw [hstate he, hend]
    · rw [hend]
      exact h.ends c.state token ⟨tokens, ht, mem_of_choose? hch⟩ hk

/-! ## Any number of steps -/

/-- **A run keeps to its blocks**, however many steps it takes and however it ends. -/
theorem blocked_steps (h : m.table.KeepsBlocks k isOpen) (n : Nat) (c : Config σ) :
    Blocked m k isOpen c.state (m.steps n c) := by
  refine m.steps_induction (P := Blocked m k isOpen c.state) ⟨⟨isOpen c.state, rfl, fun _ => rfl⟩, nofun⟩
    ?_ n
  intro q hq he
  obtain ⟨b, hb, hstate⟩ := hq.reads
  obtain rfl : b = isOpen q.config.state := hstate (by simp [he])
  obtain ⟨⟨d, hd, hd'⟩, hcomplete⟩ := blocked_step h q.config
  rw [Progress.andThen_of_none he]
  refine ⟨⟨d, ?_, hd'⟩, hcomplete⟩
  rw [BlockMarks.read?_append, hb]
  exact hd

end Machine

/-! ## Whole texts -/

namespace Parser

variable {σ ρ ε : Type} {p : Parser σ ρ ε} {k : BlockMarks} {isOpen : StateName → Bool}

/-- **What a parser writes down keeps to the blocks of its table**, and no block is open when the text is
accepted. -/
theorem read?_parse (hcons : p.table.Consistent) (h : p.table.KeepsBlocks k isOpen) (text : String)
    (environment : σ) :
    ∃ b, k.read? false (p.parse text environment).journal = some b
      ∧ ∀ o, (p.parse text environment).verdict = .ok o → o.ok = true → b = false := by
  cases hlimit : p.exceeds text with
  | some limit =>
    rw [parse_of_exceeds hlimit]
    refine ⟨false, rfl, fun o ho => ?_⟩
    cases ho
  | none =>
    cases hempty : Captures.empty? p.captureCapacity with
    | error e =>
      have hparse : p.parse text environment = ⟨.error (.capture e), environment, [], [.started text]⟩ := by
        simp only [parse, hlimit, hempty]
      rw [hparse]
      refine ⟨false, rfl, fun o ho => ?_⟩
      cases ho
    | ok captures =>
      rw [parse_eq_conclude hlimit hempty, progress_eq_behind hcons.literals]
      have hrun : Machine.Blocked p.toMachine k isOpen p.table.initial
          (p.behind (text.length + 1) text captures environment) :=
        Machine.blocked_steps h (text.length + 1) (p.start text captures environment)
      generalize p.behind (text.length + 1) text captures environment = q at hrun
      obtain ⟨b, hb, hstate⟩ := hrun.reads
      obtain ⟨last, hj, hquiet, hmatch⟩ := conclude_quiet text q
      refine ⟨b, ?_, fun o ho hok => ?_⟩
      · rw [h.initial] at hb
        rw [hj]
        show k.read? false (q.journal ++ last) = some b
        rw [BlockMarks.read?_append, hb]
        exact BlockMarks.read?_of_quiet hquiet hmatch
      · have hcomplete := conclude_ok_iff.mp ⟨o, ho, hok⟩
        rw [hstate (by simp [hcomplete]), hrun.complete hcomplete]

end Parser

/-! ## The window language -/

namespace Window

/-- Criteria stand in brackets. -/
def criteriaMarks : BlockMarks := ⟨"[", "cmd_criteria_add", "cmd_criteria_match_windows"⟩

/-- The states between the brackets. -/
def inCriteria (state : StateName) : Bool := ["CRITERIA", "CRITERION", "CRITERION_STR"].contains state

/-- The window language keeps its criteria. -/
theorem keepsBlocks_grammar : grammar.KeepsBlocks criteriaMarks inCriteria := by
  have htokens : ∀ entry ∈ states, ∀ token ∈ entry.2,
      grammar.blockBehind? criteriaMarks (inCriteria entry.1) token
        = some (inCriteria (grammar.target token.transition)) := by
    decide +kernel
  have hends : ∀ entry ∈ states, ∀ token ∈ entry.2, token.kind = .commandEnd →
      inCriteria (grammar.target token.transition) = false := by
    decide +kernel
  have hentries : grammar.states.entries = states := by
    decide +kernel
  refine ⟨rfl, fun state token hlist => ?_, fun state token hlist => ?_⟩
  · obtain ⟨entry, he, rfl, hm⟩ := Table.lists_iff.mp hlist
    exact htokens entry (hentries ▸ he) token hm
  · obtain ⟨entry, he, rfl, hm⟩ := Table.lists_iff.mp hlist
    exact hends entry (hentries ▸ he) token hm

/-- What a report says of criteria: they are applied before anything else happens. -/
structure ClosesCriteria (r : Report Trace Call TableError) : Prop where
  /-- Behind a criterion that is added the next call adds another one or applies them. -/
  next : ∀ pre call next post, r.environment.calls = pre ++ call :: next :: post →
    call.action = "cmd_criteria_add" →
      next.action = "cmd_criteria_add" ∨ next.action = "cmd_criteria_match_windows"
  /-- Behind a criterion that is added no command is completed until they are applied. -/
  boundary : ∀ pre action held mid position post,
    r.journal = pre ++ .invoked action "cmd_criteria_add" held :: mid ++ .boundary position :: post →
      ∃ action held, .invoked action "cmd_criteria_match_windows" held ∈ mid
  /-- An accepted text does not end with a criterion. -/
  last : ∀ o, r.verdict = .ok o → o.ok = true →
    ∀ call ∈ r.environment.calls.getLast?, call.action ≠ "cmd_criteria_add"
  /-- In an accepted text criteria are applied as often as a bracket is opened. -/
  count : ∀ o, r.verdict = .ok o → o.ok = true →
    r.environment.calls.countP (·.action = "cmd_criteria_match_windows")
      = r.journal.accepted.countP fun a => a.2.2.1.kind = .literal ∧ a.2.2.1.text = some "["

/-- **Criteria are applied before anything else happens**, whatever the text is. -/
theorem criteria_closed (capacity : Int) (limit : Option Int) (text : String) :
    ClosesCriteria ((Parser.limited grammar capacity limit).parse text {}) := by
  have hcons := Table.consistent_of_validate validate_grammar
  obtain ⟨b, hread, hclosed⟩ := Parser.read?_parse (p := Parser.limited grammar capacity limit) hcons
    keepsBlocks_grammar text {}
  have hcalls := congrArg Trace.calls (Parser.environment_eq_trace grammar capacity limit text)
  generalize (Parser.limited grammar capacity limit).parse text {} = r at hread hclosed hcalls
  refine
    { next := fun pre call next post hsplit hadding => ?_
      boundary := fun pre action held mid position post hsplit => ?_
      last := fun o ho hok call hlast hadding => ?_
      count := fun o ho hok => ?_ }
  · exact BlockMarks.next_of_read? hread (hcalls ▸ hsplit) hadding
  · obtain ⟨e, he, action, held, rfl⟩ :=
      BlockMarks.exists_closes_of_boundary (k := criteriaMarks) (hsplit ▸ hread)
    exact ⟨action, held, he⟩
  · have hopen := BlockMarks.open_of_last hread (hcalls ▸ hlast) hadding
    rw [hclosed o ho hok] at hopen
    cases hopen
  · have hcount := BlockMarks.count_of_read? (by decide) hread
    rw [hclosed o ho hok, Bool.toNat_false, Nat.add_zero, Nat.add_zero] at hcount
    rw [hcalls]
    exact hcount

end Window

end CommandGrammar
