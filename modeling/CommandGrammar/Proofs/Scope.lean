import CommandGrammar.Proofs.Requests
import Mathlib.Data.List.DropRight

/-!
# The scope of captures

The captures held at any time are those of the tokens accepted since the last reset. `Table.scope` reads
them off the text and the list of accepted tokens alone: the value of a capture is found again in the
part of the text that its token took.

* `Refuses` — when a capture is refused, and with which error.
* `CaptureStep` — what one step does to the captures held (`captureStep`).
* `Scoped` — what holds behind any number of steps (`scoped_steps`).
* `Parser.captures_keep_scope` — the statement about whole texts.
-/

namespace CommandGrammar

/-! ## Scopes -/

/-- A token accepted at a position, with its state and lexeme. -/
abbrev Acceptance := Nat × StateName × Token × Lexeme

/-- What an accepted token captures, its value read off the part of the text that it took. -/
def captured? (text : List Char) (a : Acceptance) : Option (String × String) :=
  a.2.2.1.capture?
    { a.2.2.2 with value := a.2.2.1.value? ((text.drop a.1).take a.2.2.2.consumed) }

/-- The captures of the tokens accepted behind the last one that resets. -/
def Table.scope (t : Table) (text : List Char) (accepted : List Acceptance) :
    List (String × String) :=
  (accepted.rtakeWhile fun a => !t.resets a.2.2.1.transition).filterMap (captured? text)

/-- With `held` captures and room for `capacity`, the capture of a token is refused with an error. -/
def Refuses (text : List Char) (capacity : Nat) (held : List (String × String)) (a : Acceptance)
    (e : CaptureError) : Prop :=
  ∃ identifier value, captured? text a = some (identifier, value)
    ∧ (identifier ∈ held.map Prod.fst ∧ e = .duplicate identifier
      ∨ identifier ∉ held.map Prod.fst ∧ held.length = capacity ∧ e = .overflow identifier capacity)

theorem Refuses.unique {text : List Char} {capacity : Nat} {held : List (String × String)}
    {a : Acceptance} {e e' : CaptureError} (h : Refuses text capacity held a e)
    (h' : Refuses text capacity held a e') : e = e' := by
  obtain ⟨identifier, value, hc, h⟩ := h
  obtain ⟨identifier', value', hc', h'⟩ := h'
  obtain ⟨rfl, rfl⟩ := Prod.mk.inj (Option.some.inj (hc.symm.trans hc'))
  rcases h with ⟨hm, rfl⟩ | ⟨hm, -, rfl⟩ <;> rcases h' with ⟨hm', rfl⟩ | ⟨hm', -, rfl⟩
  · rfl
  · exact absurd hm hm'
  · exact absurd hm' hm
  · rfl

namespace Table

variable {t : Table} {text : List Char}

@[simp] theorem scope_nil : t.scope text [] = [] := by
  simp [scope]

/-- Behind a token that resets nothing is left, and behind any other one its capture comes last. -/
theorem scope_concat (accepted : List Acceptance) (a : Acceptance) :
    t.scope text (accepted ++ [a]) =
      if t.resets a.2.2.1.transition then []
      else t.scope text accepted ++ (captured? text a).toList := by
  unfold scope
  rw [List.rtakeWhile_concat]
  cases t.resets a.2.2.1.transition with
  | true => rfl
  | false =>
    simp only [Bool.not_false, if_true, List.filterMap_append, Bool.false_eq_true, if_false]
    cases h : captured? text a <;> simp [h]

end Table

/-- **The value found in the text is the one that the lexeme has.** -/
theorem captured?_of_choose? {σ : Type} {text : List Char} {c : Config σ} (hc : c.Within text)
    {tokens : List Token} {token : Token} {lexeme : Lexeme} {state : StateName}
    (h : choose? tokens c.rest = some (token, lexeme)) :
    captured? text (c.position, state, token, lexeme) = token.capture? lexeme := by
  obtain ⟨taken, rest, hrest, htakes, hl⟩ := Token.lexeme?_eq_some_iff.mp (lexeme?_of_choose? h)
  have hvalue : token.value? ((text.drop c.position).take lexeme.consumed) = lexeme.value := by
    rcases htakes.consumed with hlen | ⟨-, -, hk, hend⟩
    · rw [← hc.2, hrest, hl, hlen, List.take_left]
      rfl
    · rw [hl, hend]
      simp [Token.value?, hk]
  unfold captured?
  rw [hvalue]

/-- Refusal is what `push` answers. -/
theorem refuses_iff {text : List Char} {a : Acceptance} {lexeme : Lexeme} {captures : Captures}
    (ha : captured? text a = a.2.2.1.capture? lexeme) {e : CaptureError} :
    Refuses text captures.capacity captures.toList a e
      ↔ ∃ identifier value, a.2.2.1.capture? lexeme = some (identifier, value)
        ∧ captures.push identifier value = .error e := by
  unfold Refuses
  simp only [ha, Captures.push_eq_error_iff]

/-! ## One step -/

namespace Machine

variable {σ ρ ε : Type} {m : Machine σ ρ ε} {text : List Char} {c : Config σ}

/-- What one step from a configuration does to the captures held. -/
inductive CaptureStep (m : Machine σ ρ ε) (text : List Char) (c : Config σ) (q : Progress σ ρ ε) :
    Prop where
  /-- No token matches. -/
  | idle (accepted : q.journal.accepted = [])
    (invoked : ∀ action name held, .invoked action name held ∉ q.journal)
    (held : q.config.captures.toList = c.captures.toList)
    (ending : ∃ expected, q.ending = some (.unmatched expected))
  /-- A capture is refused. -/
  | refused (a : Acceptance) (e : CaptureError) (accepted : q.journal.accepted = [a])
    (invoked : ∀ action name held, .invoked action name held ∉ q.journal)
    (held : q.config.captures.toList = c.captures.toList)
    (refuses : Refuses text c.captures.capacity c.captures.toList a e)
    (ending : q.ending = some (.abandoned (.capture e)))
  /-- A token is accepted, and its capture, if it has one, is held until the transition drops it. -/
  | accepted (a : Acceptance) (accepted : q.journal.accepted = [a])
    (invoked : ∀ pre action name held post, q.journal = pre ++ .invoked action name held :: post →
      Journal.accepted pre = [a] ∧ held = c.captures.toList ++ (captured? text a).toList
        ∧ ∃ next, a.2.2.1.transition = .invoke action next)
    (held : q.config.captures.toList =
      if m.table.resets a.2.2.1.transition then []
      else c.captures.toList ++ (captured? text a).toList)
    (keeps : ∀ e, ¬Refuses text c.captures.capacity c.captures.toList a e)
    (ending : ∀ e, q.ending ≠ some (.abandoned (.capture e)))

/-- An invocation behind the match of a token is not among the events in front of that match. -/
theorem accepted_of_invoked {tried tail pre post : Journal} {p : Nat} {s : StateName} {t : Token}
    {l : Lexeme} {action : ActionId} {name : String} {held : List (String × String)}
    (htried : ∀ e ∈ tried, ∃ s t, e = .tried s t) (htail : ∀ e ∈ tail, NoMatch e)
    (h : tried ++ .matched p s t l :: tail = pre ++ .invoked action name held :: post) :
    pre.accepted = [(p, s, t, l)] ∧ .invoked action name held ∈ tail := by
  have hnil : tried.accepted = [] := by
    refine Journal.accepted_eq_nil fun e he p s t l => ?_
    obtain ⟨s', t', rfl⟩ := htried e he
    simp
  rcases List.append_eq_append_iff.mp h with ⟨front, rfl, hfront⟩ | ⟨front, hfront, hback⟩
  · -- The invocation stands behind the match, since it is not that match itself.
    cases front with
    | nil => cases (List.cons.inj hfront).1
    | cons e front =>
      obtain ⟨rfl, rfl⟩ := List.cons.inj hfront
      have hno : Journal.accepted front = [] :=
        Journal.accepted_eq_nil fun e he => htail e (List.mem_append_left _ he)
      exact ⟨by rw [Journal.accepted_append, hnil, Journal.accepted_matched, hno]; rfl, by simp⟩
  · cases front with
    | nil => cases (List.cons.inj hback).1
    | cons e front =>
      obtain ⟨rfl, -⟩ := List.cons.inj hback
      obtain ⟨s', t', he⟩ := htried (.invoked action name held) (by rw [hfront]; simp)
      cases he

/-- A step that accepts a token treats the captures as the acceptance of the token does. -/
theorem captureStep_of_perform (h : m.table.Consistent) {token : Token} {lexeme : Lexeme}
    (hlist : m.table.Lists c.state token)
    (ha : captured? text (c.skipBlanks.position, c.skipBlanks.state, token, lexeme)
      = token.capture? lexeme)
    {tokens : List Token} {q : Progress σ ρ ε}
    (hj : q.journal = tries tokens c.skipBlanks ++ (m.perform token lexeme c.skipBlanks).journal)
    (hh : q.config.captures = (m.perform token lexeme c.skipBlanks).config.captures)
    (he : ∀ f, q.ending = some (.abandoned f)
      ↔ (m.perform token lexeme c.skipBlanks).ending = some (.abandoned f)) :
    CaptureStep m text c q := by
  have htried : ∀ e ∈ tries tokens c.skipBlanks, ∃ s t, e = .tried s t := by
    intro e hm
    obtain ⟨u, -, rfl⟩ := List.mem_map.mp hm
    exact ⟨_, u, rfl⟩
  have hacc : q.journal.accepted
      = [(c.skipBlanks.position, c.skipBlanks.state, token, lexeme)] := by
    rw [hj, Journal.accepted_append, tries_accepted, perform_accepted]
    rfl
  have hrefuses : ∀ e, Refuses text c.captures.capacity c.captures.toList
      (c.skipBlanks.position, c.skipBlanks.state, token, lexeme) e
        ↔ ∃ identifier value, token.capture? lexeme = some (identifier, value)
          ∧ c.captures.push identifier value = .error e :=
    fun e => refuses_iff (a := (_, _, token, _)) ha
  rcases room_or_refused token lexeme c.skipBlanks with hroom | ⟨identifier, value, e, hc, hp⟩
  · -- On a consistent table neither the capture nor the action can end the run here.
    have hcapture : ∀ e,
        (m.perform token lexeme c.skipBlanks).ending ≠ some (.abandoned (.capture e)) := by
      intro e hend
      rcases perform_ending hend with ⟨i, v, x, hc, hp, -⟩ | ⟨_, _, _, _, _, hx⟩ | ⟨_, hx⟩
      · exact hroom i v x hc hp
      · cases hx
      · cases hx
    have htable : ∀ e,
        (m.perform token lexeme c.skipBlanks).ending ≠ some (.abandoned (.table e)) := by
      intro e hend
      rcases perform_ending hend with ⟨_, _, _, _, _, hx⟩ | ⟨action, next, x, ht, hx, -⟩ | ⟨_, hx⟩
      · cases hx
      · obtain ⟨name, hname⟩ := h.actions c.state token hlist action next ht
        rw [hname] at hx
        cases hx
      · cases hx
    refine .accepted _ hacc ?_ ?_ ?_ fun e => mt (he _).mp (hcapture e)
    · intro pre action name held post hsplit
      obtain ⟨tail, htail, hno, hinv⟩ := perform_journal m token lexeme c.skipBlanks
      rw [hj, htail] at hsplit
      obtain ⟨hpre, hmem⟩ := accepted_of_invoked htried hno hsplit
      obtain ⟨hheld, -, hnext⟩ := hinv action name held hmem
      exact ⟨hpre, by rw [hheld, ha]; rfl, hnext⟩
    · rw [hh, perform_captures hcapture htable, ha]
      rfl
    · intro e hr
      obtain ⟨i, v, hc, hp⟩ := (hrefuses e).mp hr
      exact hroom i v e hc hp
  · have hperform := perform_of_refused (m := m) hc hp
    refine .refused _ e hacc ?_ ?_ ((hrefuses e).mpr ⟨identifier, value, hc, hp⟩) ?_
    · intro action name held hm
      rw [hj, hperform] at hm
      rcases List.mem_append.mp hm with hm | hm
      · obtain ⟨s, t, hx⟩ := htried _ hm
        cases hx
      · cases List.mem_singleton.mp hm
    · rw [hh, hperform]
      rfl
    · exact (he _).mpr (by rw [hperform])

/-- **One step pushes, drops or refuses**, and does nothing else to the captures. -/
theorem captureStep (h : m.table.Consistent) (hc : c.Within text)
    (hstate : ∃ tokens, m.table.tokens c.state = .ok tokens) :
    CaptureStep m text c (m.step c) := by
  have hs := m.stepped c
  generalize m.step c = q at hs ⊢
  cases hs with
  | lost ht =>
    obtain ⟨tokens, htokens⟩ := hstate
    rw [ht] at htokens
    cases htokens
  | @unmatched tokens ht hch =>
    refine .idle (tries_accepted _ _) ?_ rfl ⟨_, rfl⟩
    intro action name held hm
    obtain ⟨u, -, hx⟩ := List.mem_map.mp hm
    cases hx
  | @cut tokens token lexeme f ht hch he =>
    exact captureStep_of_perform h ⟨tokens, ht, mem_of_choose? hch⟩
      (captured?_of_choose? hc.skipBlanks hch) rfl rfl fun _ => Iff.rfl
  | @moved tokens token lexeme ht hch he hle =>
    exact captureStep_of_perform h ⟨tokens, ht, mem_of_choose? hch⟩
      (captured?_of_choose? hc.skipBlanks hch) rfl rfl fun f => by simp [he]
  | @completed tokens token lexeme ht hch he hlt =>
    exact captureStep_of_perform h ⟨tokens, ht, mem_of_choose? hch⟩
      (captured?_of_choose? hc.skipBlanks hch) rfl rfl fun f => by simp [he]

/-! ## Behind any number of steps -/

/-- What holds of the captures behind any number of steps on a text, with room for `capacity` of them. -/
structure Scoped (m : Machine σ ρ ε) (text : List Char) (capacity : Nat) (q : Progress σ ρ ε) :
    Prop where
  going : q.ending = none → q.config.Within text
    ∧ (∃ tokens, m.table.tokens q.config.state = .ok tokens)
    ∧ q.config.captures.capacity = capacity
  /-- Unless a capture was refused, those of the tokens accepted since the last reset are held. -/
  held : (∀ e, q.ending ≠ some (.abandoned (.capture e))) →
    q.config.captures.toList = m.table.scope text q.journal.accepted
  /-- An action sees them as well, the capture of its own token included. -/
  invoked : ∀ pre action name held post, q.journal = pre ++ .invoked action name held :: post →
    ∃ before a next, Journal.accepted pre = before ++ [a]
      ∧ a.2.2.1.transition = .invoke action next
      ∧ held = m.table.scope text before ++ (captured? text a).toList
  /-- A capture is refused if it has to be, and only then; the token is then the last one accepted. -/
  refuses_iff : ∀ before a e, before ++ [a] <+: q.journal.accepted →
    (Refuses text capacity (m.table.scope text before) a e
      ↔ q.ending = some (.abandoned (.capture e)) ∧ q.journal.accepted = before ++ [a])
  /-- The captures are then left as they were. -/
  refused : ∀ e, q.ending = some (.abandoned (.capture e)) → ∃ before a,
    q.journal.accepted = before ++ [a]
      ∧ q.config.captures.toList = m.table.scope text before

theorem scoped_start (hc : c.Within text) (hstate : ∃ tokens, m.table.tokens c.state = .ok tokens)
    (hempty : c.captures.toList = []) :
    Scoped m text c.captures.capacity (.note c [] : Progress σ ρ ε) where
  going _ := ⟨hc, hstate, rfl⟩
  held _ := by simp [Progress.note, hempty]
  invoked pre action name held post h := by simp [Progress.note] at h
  refuses_iff before a e h := by simp [Progress.note] at h
  refused e h := by simp [Progress.note] at h

theorem step_known (h : m.table.Consistent) (hq : (m.step c).ending = none) :
    ∃ tokens, m.table.tokens (m.step c).config.state = .ok tokens := by
  revert hq
  have hs := m.stepped c
  generalize m.step c = q at hs ⊢
  intro hq
  cases hs with
  | lost | unmatched | completed => simp [Progress.stop] at hq
  | cut _ _ he => rw [he] at hq; simp at hq
  | @moved tokens token lexeme ht hch he hle =>
    show ∃ tokens, m.table.tokens (m.perform token lexeme c.skipBlanks).config.state = .ok tokens
    rw [perform_state he]
    exact h.targets c.state token ⟨tokens, ht, mem_of_choose? hch⟩

/-- An event of two journals put together is one of the first, or one of the second. -/
theorem exists_split_of_append {i j pre post : Journal} {e : Event}
    (h : i ++ j = pre ++ e :: post) :
    (∃ post', i = pre ++ e :: post') ∨ ∃ pre', pre = i ++ pre' ∧ j = pre' ++ e :: post := by
  rcases List.append_eq_append_iff.mp h with ⟨front, hpre, hj⟩ | ⟨front, hi, hj⟩
  · exact Or.inr ⟨front, hpre, hj⟩
  · cases front with
    | nil => exact Or.inr ⟨[], by simpa using hi.symm, hj.symm⟩
    | cons d front =>
      obtain ⟨rfl, -⟩ := List.cons.inj hj
      exact Or.inl ⟨front, hi⟩

theorem Scoped.not_refuses {capacity : Nat} {q : Progress σ ρ ε} (hs : Scoped m text capacity q)
    (hq : q.ending = none) {before : List Acceptance} {a : Acceptance}
    (hpre : before ++ [a] <+: q.journal.accepted) (e : CaptureError) :
    ¬Refuses text capacity (m.table.scope text before) a e := by
  intro hr
  have hend := ((hs.refuses_iff before a e hpre).mp hr).1
  rw [hq] at hend
  cases hend

theorem Scoped.invoked_append {capacity : Nat} {q : Progress σ ρ ε} (hs : Scoped m text capacity q)
    {j : Journal} (hj : ∀ action name held, .invoked action name held ∉ j) {pre post : Journal}
    {action : ActionId} {name : String} {held : List (String × String)}
    (h : q.journal ++ j = pre ++ .invoked action name held :: post) :
    ∃ before a next, Journal.accepted pre = before ++ [a]
      ∧ a.2.2.1.transition = .invoke action next
      ∧ held = m.table.scope text before ++ (captured? text a).toList := by
  rcases exists_split_of_append h with ⟨post', hi⟩ | ⟨pre', -, hi⟩
  · exact hs.invoked pre action name held post' hi
  · exact absurd (by rw [hi]; simp) (hj action name held)

/-- A stretch with the captures of one step keeps the scope, where the run goes on in front of it. -/
theorem Scoped.append {capacity : Nat} {q r : Progress σ ρ ε} (hs : Scoped m text capacity q)
    (hq : q.ending = none) (hr : CaptureStep m text q.config r)
    (hgoing : r.ending = none → r.config.Within text
      ∧ (∃ tokens, m.table.tokens r.config.state = .ok tokens)
      ∧ r.config.captures.capacity = capacity) :
    Scoped m text capacity { r with journal := q.journal ++ r.journal } := by
  have hcap : q.config.captures.capacity = capacity := (hs.going hq).2.2
  have hheld := hs.held (by rw [hq]; simp)
  cases hr with
  | idle hacc hinv hsame hend =>
    have hacc' : (q.journal ++ r.journal).accepted = q.journal.accepted := by
      rw [Journal.accepted_append, hacc, List.append_nil]
    obtain ⟨expected, hend⟩ := hend
    refine ⟨hgoing, fun _ => ?_, ?_, ?_, fun e he => ?_⟩
    · exact (hsame.trans hheld).trans (congrArg _ hacc'.symm)
    · exact fun pre action name held post hj => hs.invoked_append hinv hj
    · intro before a e hpre
      replace hpre : before ++ [a] <+: (q.journal ++ r.journal).accepted := hpre
      rw [hacc'] at hpre
      refine iff_of_false (hs.not_refuses hq hpre e) ?_
      rw [hend]
      simp
    · rw [hend] at he
      cases he
  | refused b x hacc hinv hsame hrefuses hend =>
    have hacc' : (q.journal ++ r.journal).accepted = q.journal.accepted ++ [b] := by
      rw [Journal.accepted_append, hacc]
    rw [hheld, hcap] at hrefuses
    refine ⟨hgoing, fun he => absurd hend (he x), ?_, ?_, fun e he => ?_⟩
    · exact fun pre action name held post hj => hs.invoked_append hinv hj
    · intro before a e hpre
      show _ ↔ r.ending = _ ∧ (q.journal ++ r.journal).accepted = _
      replace hpre : before ++ [a] <+: (q.journal ++ r.journal).accepted := hpre
      rw [hacc'] at hpre ⊢
      rw [hend]
      -- The refused token is the last one accepted; none in front of it had to be refused.
      rcases List.prefix_concat_iff.mp hpre with heq | hlt
      · obtain ⟨rfl, hab⟩ := List.append_inj' heq rfl
        obtain rfl := (List.cons.inj hab).1
        constructor
        · intro hr
          exact ⟨by rw [Refuses.unique hr hrefuses], rfl⟩
        · rintro ⟨he, -⟩
          cases he
          exact hrefuses
      · refine iff_of_false (hs.not_refuses hq hlt e) ?_
        rintro ⟨-, heq⟩
        have hle := hlt.length_le
        rw [← heq, List.length_append, List.length_singleton] at hle
        omega
    · exact ⟨q.journal.accepted, b, hacc', hsame.trans hheld⟩
  | accepted b hacc hinv hnew hkeeps hend =>
    have hacc' : (q.journal ++ r.journal).accepted = q.journal.accepted ++ [b] := by
      rw [Journal.accepted_append, hacc]
    rw [hheld] at hnew
    refine ⟨hgoing, fun _ => ?_, ?_, ?_, fun e he => absurd he (hend e)⟩
    · show r.config.captures.toList = m.table.scope text (q.journal ++ r.journal).accepted
      rw [hacc', Table.scope_concat]
      exact hnew
    · intro pre action name held post hj
      rcases exists_split_of_append hj with ⟨post', hi⟩ | ⟨pre', rfl, hr⟩
      · exact hs.invoked pre action name held post' hi
      · obtain ⟨hpre, hsees, next, hnext⟩ := hinv pre' action name held post hr
        refine ⟨q.journal.accepted, b, next, ?_, hnext, ?_⟩
        · rw [Journal.accepted_append, hpre]
        · rw [hsees, hheld]
    · intro before a e hpre
      replace hpre : before ++ [a] <+: (q.journal ++ r.journal).accepted := hpre
      rw [hacc'] at hpre
      refine iff_of_false ?_ fun he => hend e he.1
      rcases List.prefix_concat_iff.mp hpre with heq | hlt
      · obtain ⟨rfl, hab⟩ := List.append_inj' heq rfl
        obtain rfl := (List.cons.inj hab).1
        rw [← hheld, ← hcap]
        exact hkeeps e
      · exact hs.not_refuses hq hlt e

theorem Scoped.step (h : m.table.Consistent) {capacity : Nat} {q : Progress σ ρ ε}
    (hs : Scoped m text capacity q) (hq : q.ending = none) :
    Scoped m text capacity (q.andThen m.step) := by
  obtain ⟨hw, hstate, hcap⟩ := hs.going hq
  have hgoing : (m.step q.config).ending = none → (m.step q.config).config.Within text
      ∧ (∃ tokens, m.table.tokens (m.step q.config).config.state = .ok tokens)
      ∧ (m.step q.config).config.captures.capacity = capacity := by
    intro he
    exact ⟨(step_of_going h.literals hw he).1, step_known h he, (m.step_capacity q.config).trans hcap⟩
  have happend := hs.append hq (captureStep h hw hstate) hgoing
  rw [Progress.andThen_of_none hq]
  exact { happend with }

/-- **The scope is kept by any number of steps.** -/
theorem scoped_steps (h : m.table.Consistent) (hc : c.Within text)
    (hstate : ∃ tokens, m.table.tokens c.state = .ok tokens) (hempty : c.captures.toList = [])
    (n : Nat) : Scoped m text c.captures.capacity (m.steps n c) :=
  m.steps_induction (scoped_start hc hstate hempty) (fun _ hs hq => hs.step h hq) n

end Machine

/-! ## Whole texts -/

namespace Parser

variable {σ ρ ε : Type}

/-- The captures of a run on a text keep to their scope. -/
structure KeepsScope (p : Parser σ ρ ε) (text : String) (environment : σ) : Prop where
  /-- In front of every step, those of the tokens accepted since the last reset are held. -/
  steps : ∀ captures, Captures.empty? p.captureCapacity = .ok captures → ∀ n,
    (p.behind n text captures environment).ending = none →
    (p.behind n text captures environment).config.captures.toList
      = p.table.scope text.toList (p.behind n text captures environment).journal.accepted
  /-- Every action sees them, with the capture of the token that invokes it. -/
  invoked : ∀ pre action name held post,
    (p.parse text environment).journal = pre ++ .invoked action name held :: post →
    ∃ before a next, Journal.accepted pre = before ++ [a]
      ∧ a.2.2.1.transition = .invoke action next
      ∧ held = p.table.scope text.toList before ++ (captured? text.toList a).toList
  /-- That is what the dispatcher is handed with each request that is made of it. -/
  handed : ∀ action captures, .perform action captures ∈ p.asked text environment →
    ∃ before a next, before ++ [a] <+: (p.parse text environment).journal.accepted
      ∧ a.2.2.1.transition = .invoke action next
      ∧ captures.toList = p.table.scope text.toList before ++ (captured? text.toList a).toList
  /-- The requests to the dispatcher and to the hook are those of the journal, and nothing else happens. -/
  asks : p.Asks text environment
  /-- At the end of the run they are held, however it ends, unless a capture was refused. -/
  held : (∀ e, (p.parse text environment).verdict ≠ .error (.capture e)) →
    (p.parse text environment).held
      = p.table.scope text.toList (p.parse text environment).journal.accepted
  /-- The run is given up at a token whose capture has to be refused, and for no other capture. -/
  refuses_iff : ∀ before a e, before ++ [a] <+: (p.parse text environment).journal.accepted →
    (Refuses text.toList p.captureCapacity.toNat (p.table.scope text.toList before) a e
      ↔ (p.parse text environment).verdict = .error (.capture e)
        ∧ (p.parse text environment).journal.accepted = before ++ [a])
  /-- What was held in front of the refused capture is then held at the end. -/
  refused : ∀ e, (p.parse text environment).verdict = .error (.capture e) → ∃ before a,
    (p.parse text environment).journal.accepted = before ++ [a]
      ∧ (p.parse text environment).held = p.table.scope text.toList before

variable {p : Parser σ ρ ε} {text : String} {environment : σ}

/-- A run on a valid table keeps to the scope at every step. -/
theorem scoped_behind (h : p.table.Consistent) {captures : Captures}
    (hempty : Captures.empty? p.captureCapacity = .ok captures) (text : String) (environment : σ) (n : Nat) :
    Machine.Scoped p.toMachine text.toList captures.capacity (p.behind n text captures environment) :=
  Machine.scoped_steps h (p.start_within text captures environment) h.initial (toList_of_empty? hempty) n

/-- A text is too long to be read, or the report on it is that of a run that keeps to the scope. -/
theorem refused_or_scoped (h : p.table.Consistent) (hcapacity : 1 ≤ p.captureCapacity) (text : String)
    (environment : σ) :
    (∃ limit, p.parse text environment = ⟨.error (.inputTooLong text.length limit), environment, [], []⟩)
      ∨ ∃ q, p.parse text environment = conclude text q
        ∧ Machine.Scoped p.toMachine text.toList p.captureCapacity.toNat q := by
  cases hexceeds : p.exceeds text with
  | some limit => exact .inl ⟨limit, parse_of_exceeds hexceeds environment⟩
  | none =>
    obtain ⟨captures, hempty, -, hroom⟩ := empty?_of_pos hcapacity
    refine .inr ⟨p.behind (text.length + 1) text captures environment, ?_, ?_⟩
    · rw [← progress_eq_behind h.literals, parse_eq_conclude hexceeds hempty]
    · exact hroom ▸ scoped_behind h hempty text environment (text.length + 1)

/-- An action that is invoked sees the captures of the scope, with that of the token that invokes it. -/
theorem exists_acceptance_of_invoked (h : p.table.Consistent) (hcapacity : 1 ≤ p.captureCapacity)
    {pre post : Journal} {action : ActionId} {name : String} {held : List (String × String)}
    (hjournal : (p.parse text environment).journal = pre ++ .invoked action name held :: post) :
    ∃ before a next, Journal.accepted pre = before ++ [a]
      ∧ a.2.2.1.transition = .invoke action next
      ∧ held = p.table.scope text.toList before ++ (captured? text.toList a).toList := by
  rcases refused_or_scoped h hcapacity text environment with ⟨limit, hparse⟩ | ⟨q, hparse, hs⟩
  · rw [hparse] at hjournal
    simp at hjournal
  · obtain ⟨last, hj, -, hlast⟩ := conclude_journal text q
    rw [hparse, hj] at hjournal
    cases pre with
    | nil => cases (List.cons.inj hjournal).1
    | cons d pre =>
      obtain ⟨rfl, hq⟩ := List.cons.inj hjournal
      obtain ⟨before, a, next, hpre, hnext, hheld⟩ := hs.invoked_append hlast hq
      exact ⟨before, a, next, hpre, hnext, hheld⟩

/-- What an action sees is what the dispatcher is handed. -/
theorem exists_acceptance_of_asked (h : p.table.Consistent) (hcapacity : 1 ≤ p.captureCapacity)
    {action : ActionId} {captures : Captures} (hasked : .perform action captures ∈ p.asked text environment) :
    ∃ before a next, before ++ [a] <+: (p.parse text environment).journal.accepted
      ∧ a.2.2.1.transition = .invoke action next
      ∧ captures.toList = p.table.scope text.toList before ++ (captured? text.toList a).toList := by
  obtain ⟨pre, name, post, hjournal⟩ := exists_invoked_of_asked hasked
  obtain ⟨before, a, next, hpre, hnext, hheld⟩ := exists_acceptance_of_invoked h hcapacity hjournal
  refine ⟨before, a, next, ?_, hnext, hheld⟩
  rw [hjournal, Journal.accepted_append, hpre]
  exact List.prefix_append _ _

/-- **Captures keep to their scope** in every run on a valid table. -/
theorem captures_keep_scope (p : Parser σ ρ ε) (hvalid : p.table.validate = .ok p.table)
    (hcapacity : 1 ≤ p.captureCapacity) (text : String) (environment : σ) :
    p.KeepsScope text environment := by
  have hcons := Table.consistent_of_validate hvalid
  have hend := refused_or_scoped hcons hcapacity text environment
  refine
    { steps := fun captures hempty n hn =>
        (scoped_behind hcons hempty text environment n).held (by rw [hn]; simp)
      invoked := fun _ _ _ _ _ hjournal => exists_acceptance_of_invoked hcons hcapacity hjournal
      handed := fun _ _ hasked => exists_acceptance_of_asked hcons hcapacity hasked
      asks := asks p text environment
      held := fun h => ?held
      refuses_iff := fun before a e h => ?refuses
      refused := fun e h => ?refused }
  -- A text that is too long is not read at all, so nothing is held or refused.
  all_goals rcases hend with ⟨limit, hparse⟩ | ⟨q, hparse, hs⟩ <;> rw [hparse] at h ⊢
  case held.inl => exact Table.scope_nil.symm
  case held.inr =>
    rw [conclude_held, conclude_accepted]
    exact hs.held fun e he => h e (conclude_eq_capture_iff.mpr he)
  case refuses.inl => simp at h
  case refuses.inr =>
    rw [conclude_accepted] at h ⊢
    rw [conclude_eq_capture_iff]
    exact hs.refuses_iff before a e h
  case refused.inl => cases h
  case refused.inr =>
    rw [conclude_accepted, conclude_held]
    exact hs.refused e (conclude_eq_capture_iff.mp h)

/-- A chain that captures under the same identifiers again and again, with room for two captures. -/
theorem captures_keep_scope_window :
    Window.grammar.validate = .ok Window.grammar ∧ (1 : Int) ≤ 2
      ∧ { tracing Window.grammar with captureCapacity := 2 }.KeepsScope
          "[class=\"a\" title=b] move left 10 px, move right" {} :=
  ⟨Window.validate_grammar, by decide,
    captures_keep_scope { tracing Window.grammar with captureCapacity := 2 }
      Window.validate_grammar (by decide) _ _⟩

end Parser

end CommandGrammar
