import CommandGrammar.Proofs.Conventions
import CommandGrammar.Proofs.Safety
import CommandGrammar.Proofs.Scope

/-!
# Scope paths

Which captures can ever be held together is seen from the table alone. A scope starts in the initial state
or where an action leads, and goes on as long as the tokens only move to other states; the tokens on such
a path are the only ones whose captures meet.

* `Table.ScopePath` — the sequences of tokens that one scope may see.
* `Table.Conforms.scopePath` — a table that keeps to its shapes has room for what any such path captures.
* `Traced` — behind any number of steps, the tokens accepted since the last reset lie on a scope path
  (`traced_steps`).
* `Parser.captures_checked` — a capture is refused only on a path that repeats an identifier or has too many.
-/

namespace CommandGrammar

/-! ## Paths through a table -/

namespace Table

variable {t : Table}

/-- A scope may start in the state: a run starts there, or an action leads there. -/
def OpensScope (t : Table) (state : StateName) : Prop :=
  state = t.initial ∨ ∃ source token action next, t.Lists source token
    ∧ token.transition = .invoke action next ∧ state = t.nextStateAfter next

/-- From a state, each token but the last one goes to a state other than the initial one, in which the token
behind it is listed. -/
inductive Path (t : Table) : StateName → List Token → Prop where
  | last {state : StateName} {token : Token} (hlist : t.Lists state token) : Path t state [token]
  | next {state target : StateName} {token : Token} {path : List Token}
    (hlist : t.Lists state token) (hgoto : token.transition = .goto target)
    (haway : target ≠ t.initial) (hpath : Path t target path) : Path t state (token :: path)

/-- A sequence of tokens that one scope may see. -/
def ScopePath (t : Table) (path : List Token) : Prop :=
  ∃ start, t.OpensScope start ∧ t.Path start path

/-- Tokens lead from one state to another when every path from there goes on behind them. -/
def Leads (t : Table) (start : StateName) (tokens : List Token) (state : StateName) : Prop :=
  ∀ path, t.Path state path → t.Path start (tokens ++ path)

theorem Leads.nil (state : StateName) : t.Leads state [] state := fun _ h => h

theorem Leads.concat {start state target : StateName} {tokens : List Token} {token : Token}
    (h : t.Leads start tokens state) (hlist : t.Lists state token)
    (hgoto : token.transition = .goto target) (haway : target ≠ t.initial) :
    t.Leads start (tokens ++ [token]) target := by
  intro path hpath
  rw [List.append_assoc]
  exact h _ (.next hlist hgoto haway hpath)

/-- The tokens accepted behind the last one that resets. -/
def sinceReset (t : Table) (accepted : List Acceptance) : List Token :=
  (accepted.rtakeWhile fun a => !t.resets a.2.2.1.transition).map fun a => a.2.2.1

theorem sinceReset_concat (accepted : List Acceptance) (a : Acceptance) :
    t.sinceReset (accepted ++ [a]) =
      if t.resets a.2.2.1.transition then [] else t.sinceReset accepted ++ [a.2.2.1] := by
  unfold sinceReset
  rw [List.rtakeWhile_concat]
  cases t.resets a.2.2.1.transition <;> simp

end Table

/-! ## Identifiers -/

/-- The identifiers under which tokens capture something, in order. -/
def identifiers (path : List Token) : List String := path.filterMap Token.capture

@[simp] theorem identifiers_append (tokens path : List Token) :
    identifiers (tokens ++ path) = identifiers tokens ++ identifiers path := List.filterMap_append

/-- What an accepted token captures stands under its identifier, if the end of a command captures nothing. -/
theorem map_fst_captured? (text : List Char) {a : Acceptance}
    (hend : a.2.2.1.kind = .commandEnd → a.2.2.1.capture = none) :
    (captured? text a).map Prod.fst = a.2.2.1.capture := by
  unfold captured? Token.capture? Token.value?
  cases hc : a.2.2.1.capture with
  | none => rfl
  | some identifier =>
    cases hk : a.2.2.1.kind with
    | commandEnd => rw [hend hk] at hc; cases hc
    | literal | word | string => rfl

/-- **The identifiers held are those of the tokens accepted since the last reset.** -/
theorem Table.map_fst_scope {t : Table} (text : List Char) {accepted : List Acceptance}
    (hend : ∀ a ∈ accepted, a.2.2.1.kind = .commandEnd → a.2.2.1.capture = none) :
    (t.scope text accepted).map Prod.fst = identifiers (t.sinceReset accepted) := by
  have hsub : ∀ a ∈ accepted.rtakeWhile (fun a => !t.resets a.2.2.1.transition),
      (captured? text a).map Prod.fst = a.2.2.1.capture :=
    fun a ha => map_fst_captured? text (hend a ((List.rtakeWhile_suffix _ _).subset ha))
  unfold scope sinceReset identifiers
  rw [List.map_filterMap, List.filterMap_map]
  exact List.filterMap_congr hsub

/-! ## Paths and shapes -/

namespace Table.Conforms

variable {t : Table} {shape : StateName → List Slot} {conventions : List Convention} {capacity : Nat}

/-- The slots of a token have the identifiers under which it captures something. -/
theorem identifiers_slots {token : Token} (hend : token.kind = .commandEnd → token.capture = none) :
    token.slots.map Slot.identifier = identifiers [token] := by
  unfold Token.slots identifiers
  cases hc : token.capture with
  | none => simp [hc]
  | some identifier =>
    cases hk : token.kind with
    | commandEnd => rw [hend hk] at hc; cases hc
    | literal | word | string => simp [hc]

/-- On a table that keeps to its shapes there is room for what a path captures, behind what its state is
entered with. -/
theorem room_on_path (h : t.Conforms shape conventions capacity) (hcons : t.Consistent) {state : StateName}
    {path : List Token} (hpath : t.Path state path) :
    ((shape state).map Slot.identifier ++ identifiers path).Nodup
      ∧ ((shape state).map Slot.identifier ++ identifiers path).length ≤ capacity := by
  induction hpath with
  | @last state token hlist =>
    obtain ⟨hnodup, hlength⟩ := room_of_conforms (h.tokens state token hlist)
    rw [← List.length_map (f := Slot.identifier)] at hlength
    rw [List.map_append, identifiers_slots (hcons.ends state token hlist)] at hnodup hlength
    exact ⟨hnodup, hlength⟩
  | @next state target token path hlist hgoto haway _ ih =>
    -- The target is entered with what the token leaves behind.
    have htoken := h.tokens state token hlist
    simp only [conforms, hgoto, Bool.and_eq_true, Bool.or_eq_true, decide_eq_true_eq] at htoken
    have hsame := Slot.identifiers_of_narrow (htoken.2.resolve_left haway)
    rw [List.map_append, identifiers_slots (hcons.ends state token hlist)] at hsame
    rw [← hsame, List.append_assoc, ← identifiers_append] at ih
    exact ih

/-- **A scope path captures under different identifiers, and no more often than there is room**, on a table that
keeps to its shapes. -/
theorem scopePath (h : t.Conforms shape conventions capacity) (hcons : t.Consistent) {path : List Token}
    (hpath : t.ScopePath path) :
    (identifiers path).Nodup ∧ (identifiers path).length ≤ capacity := by
  obtain ⟨start, hopens, hpath⟩ := hpath
  have hshape : shape start = [] := by
    rcases hopens with rfl | ⟨source, token, action, next, hlist, ht, rfl⟩
    · exact h.initial
    · have htoken := h.tokens source token hlist
      simp only [conforms, ht, Bool.and_eq_true, List.isEmpty_iff] at htoken
      exact htoken.2.1
  have hroom := h.room_on_path hcons hpath
  rwa [hshape] at hroom

end Table.Conforms

/-! ## Runs on paths -/

namespace Machine

variable {σ ρ ε : Type} {m : Machine σ ρ ε} {c : Config σ}

/-- Where a run stands on the paths of its table. -/
structure Traced (m : Machine σ ρ ε) (q : Progress σ ρ ε) : Prop where
  /-- The tokens accepted since the last reset lead from where their scope started to the current state. -/
  going : q.ending = none → ∃ start, m.table.OpensScope start
    ∧ m.table.Leads start (m.table.sinceReset q.journal.accepted) q.config.state
  /-- With the token whose capture is refused they form a path. -/
  refused : ∀ e, q.ending = some (.abandoned (.capture e)) → ∀ before a,
    q.journal.accepted = before ++ [a] → m.table.ScopePath (m.table.sinceReset before ++ [a.2.2.1])

/-- Behind a token that is accepted, its scope goes on or another one has started. -/
theorem traced_concat {start state : StateName} {accepted : List Acceptance} {a : Acceptance}
    (hopens : m.table.OpensScope start)
    (hleads : m.table.Leads start (m.table.sinceReset accepted) state)
    (hlist : m.table.Lists state a.2.2.1) :
    ∃ start, m.table.OpensScope start
      ∧ m.table.Leads start (m.table.sinceReset (accepted ++ [a]))
          (m.table.target a.2.2.1.transition) := by
  rw [Table.sinceReset_concat]
  cases ht : a.2.2.1.transition with
  | goto target =>
    by_cases hhome : target = m.table.initial
    · refine ⟨target, Or.inl hhome, ?_⟩
      simpa [Table.resets, Table.target, hhome] using Table.Leads.nil _
    · refine ⟨start, hopens, ?_⟩
      simpa [Table.resets, Table.target, hhome] using hleads.concat hlist ht hhome
  | invoke action next =>
    refine ⟨m.table.nextStateAfter next, Or.inr ⟨state, a.2.2.1, action, next, hlist, ht, rfl⟩, ?_⟩
    exact Table.Leads.nil _

theorem Traced.step {q : Progress σ ρ ε} (hq : Traced m q) (hnone : q.ending = none) :
    Traced m (q.andThen m.step) := by
  obtain ⟨start, hopens, hleads⟩ := hq.going hnone
  have hs := m.stepped q.config
  generalize hr : m.step q.config = r at hs
  rw [Progress.andThen_of_none hnone, hr]
  -- A step that accepts a token accepts one that is listed in the state.
  have haccepted : ∀ {tokens token lexeme},
      (q.journal ++ (tries tokens q.config.skipBlanks
          ++ (m.perform token lexeme q.config.skipBlanks).journal)).accepted
        = q.journal.accepted ++ [(q.config.skipBlanks.position, q.config.state, token, lexeme)] := by
    intro tokens token lexeme
    rw [Journal.accepted_append, Journal.accepted_append, tries_accepted, perform_accepted]
    rfl
  cases hs with
  | lost | unmatched | completed => exact ⟨nofun, nofun⟩
  | @cut tokens token lexeme f ht hch he =>
    refine ⟨fun hnone => ?_, fun e _ before a ha => ?_⟩
    · cases he.symm.trans hnone
    · obtain ⟨rfl, hlast⟩ := List.append_inj' (haccepted.symm.trans ha) rfl
      obtain rfl := (List.cons.inj hlast).1
      exact ⟨start, hopens, hleads _ (.last ⟨tokens, ht, mem_of_choose? hch⟩)⟩
  | @moved tokens token lexeme ht hch he hle =>
    refine ⟨fun _ => ?_, nofun⟩
    have hstate : (m.perform token lexeme q.config.skipBlanks).config.state
        = m.table.target token.transition := perform_state he
    show ∃ start, _ ∧ m.table.Leads start (m.table.sinceReset (q.journal ++ _).accepted)
      (m.perform token lexeme q.config.skipBlanks).config.state
    rw [haccepted, hstate]
    exact traced_concat (a := (_, _, token, lexeme)) hopens hleads ⟨tokens, ht, mem_of_choose? hch⟩

/-- **Every run stays on the scope paths of its table.** -/
theorem traced_steps (hstate : c.state = m.table.initial) (n : Nat) : Traced m (m.steps n c) := by
  refine m.steps_induction (P := Traced m) ⟨fun _ => ?_, nofun⟩
    (fun q hq hnone => hq.step hnone) n
  exact ⟨c.state, Or.inl hstate, Table.Leads.nil _⟩

end Machine

/-! ## Whole texts -/

namespace Parser

variable {σ ρ ε : Type}

/-- What the scope paths of its table say about the captures of a run. -/
structure CapturesChecked (p : Parser σ ρ ε) (text : String) (environment : σ) : Prop where
  /-- If no path repeats an identifier or has more of them than there is room for, no capture is refused. -/
  sound : (∀ path, p.table.ScopePath path →
      (identifiers path).Nodup ∧ ((identifiers path).length : Int) ≤ p.captureCapacity) →
    (∀ identifier, (p.parse text environment).verdict ≠ .error (.capture (.duplicate identifier)))
      ∧ ∀ identifier capacity,
        (p.parse text environment).verdict ≠ .error (.capture (.overflow identifier capacity))
  /-- Where an identifier is captured a second time, the tokens accepted since the last reset and the one
  that captures it form a path that repeats it. -/
  duplicate : ∀ identifier,
    (p.parse text environment).verdict = .error (.capture (.duplicate identifier)) →
    ∃ before a, (p.parse text environment).journal.accepted = before ++ [a]
      ∧ p.table.ScopePath (p.table.sinceReset before ++ [a.2.2.1])
      ∧ a.2.2.1.capture = some identifier ∧ identifier ∈ identifiers (p.table.sinceReset before)
  /-- Where there is no room for a capture, they form a path with more captures than there is room for. -/
  overflow : ∀ identifier capacity,
    (p.parse text environment).verdict = .error (.capture (.overflow identifier capacity)) →
    ∃ before a, (p.parse text environment).journal.accepted = before ++ [a]
      ∧ p.table.ScopePath (p.table.sinceReset before ++ [a.2.2.1])
      ∧ a.2.2.1.capture = some identifier
      ∧ p.captureCapacity < ((identifiers (p.table.sinceReset before ++ [a.2.2.1])).length : Int)

variable {p : Parser σ ρ ε} {text : String} {environment : σ}

/-- A capture is refused behind a scope path, for an identifier on it or for want of room behind it. -/
theorem exists_path_of_refused (hvalid : p.table.validate = .ok p.table) {e : CaptureError}
    (hnoRoom : e ≠ .noRoom) (h : (p.parse text environment).verdict = .error (.capture e)) :
    ∃ before a identifier, (p.parse text environment).journal.accepted = before ++ [a]
      ∧ p.table.ScopePath (p.table.sinceReset before ++ [a.2.2.1])
      ∧ a.2.2.1.capture = some identifier
      ∧ (identifier ∈ identifiers (p.table.sinceReset before) ∧ e = .duplicate identifier
        ∨ ((identifiers (p.table.sinceReset before)).length : Int) = p.captureCapacity
          ∧ e = .overflow identifier p.captureCapacity.toNat) := by
  have hcons := Table.consistent_of_validate hvalid
  cases hexceeds : p.exceeds text with
  | some limit =>
    rw [parse_of_exceeds hexceeds] at h
    cases h
  | none =>
    by_cases hcapacity : 1 ≤ p.captureCapacity
    · obtain ⟨captures, hempty, hnil, hroom⟩ := empty?_of_pos hcapacity
      have hparse : p.parse text environment
          = conclude text (p.behind (text.length + 1) text captures environment) := by
        rw [← progress_eq_behind hcons.literals]
        exact parse_eq_conclude hexceeds hempty environment
      rw [hparse] at h ⊢
      rw [conclude_accepted]
      have hending := conclude_eq_capture_iff.mp h
      -- The capture is refused for what the scope says, and the tokens of the scope lie on a path.
      have hscoped := Machine.scoped_steps (m := p.toMachine) hcons
        (p.start_within text captures environment) hcons.initial hnil (text.length + 1)
      have htraced := Machine.traced_steps (m := p.toMachine)
        (c := p.start text captures environment) rfl (text.length + 1)
      have hinside := Machine.contained_steps (m := p.toMachine)
        (c := p.start text captures environment) hcons (hcons.hasTokens hcons.initial)
        (text.length + 1)
      obtain ⟨before, a, hacc, -⟩ := hscoped.refused e hending
      obtain ⟨identifier, value, hcaptured, hwhy⟩ :=
        (hscoped.refuses_iff before a e (hacc ▸ List.prefix_rfl)).mpr ⟨hending, hacc⟩
      have hends : ∀ b ∈ before ++ [a], b.2.2.1.kind = .commandEnd → b.2.2.1.capture = none :=
        fun b hb => hcons.ends b.2.1 b.2.2.1 (hinside.accepted b (hacc ▸ hb))
      have hheld := Table.map_fst_scope (t := p.table) text.toList
        fun b hb => hends b (List.mem_append_left _ hb)
      have hidentifier := map_fst_captured? text.toList (hends a (by simp))
      rw [hcaptured] at hidentifier
      rw [hheld, ← List.length_map (f := Prod.fst), hheld] at hwhy
      refine ⟨before, a, identifier, hacc, htraced.refused e hending before a hacc,
        hidentifier.symm, ?_⟩
      have hsize : (p.start text captures environment).captures.capacity = p.captureCapacity.toNat :=
        hroom
      rw [hsize] at hwhy
      rcases hwhy with ⟨hm, he⟩ | ⟨-, hlength, he⟩
      · exact Or.inl ⟨hm, he⟩
      · exact Or.inr ⟨by omega, he⟩
    · have hempty : Captures.empty? p.captureCapacity = .error .noRoom := dif_neg hcapacity
      simp only [parse, hexceeds, hempty] at h
      exact absurd (by simpa using h.symm) hnoRoom

/-- **A capture is refused only where the table has a path for it**: one that repeats the identifier, or one
with more captures than there is room for. So a table without such paths never has a capture refused. -/
theorem captures_checked (p : Parser σ ρ ε) (hvalid : p.table.validate = .ok p.table) (text : String)
    (environment : σ) : p.CapturesChecked text environment := by
  have hduplicate : ∀ identifier,
      (p.parse text environment).verdict = .error (.capture (.duplicate identifier)) →
      ∃ before a, (p.parse text environment).journal.accepted = before ++ [a]
        ∧ p.table.ScopePath (p.table.sinceReset before ++ [a.2.2.1])
        ∧ a.2.2.1.capture = some identifier
        ∧ identifier ∈ identifiers (p.table.sinceReset before) := by
    intro identifier h
    obtain ⟨before, a, other, hacc, hpath, hcapture, ⟨hm, he⟩ | ⟨-, he⟩⟩ :=
      exists_path_of_refused hvalid (by simp) h
    · obtain rfl : identifier = other := by simpa using he
      exact ⟨before, a, hacc, hpath, hcapture, hm⟩
    · cases he
  have hoverflow : ∀ identifier capacity,
      (p.parse text environment).verdict = .error (.capture (.overflow identifier capacity)) →
      ∃ before a, (p.parse text environment).journal.accepted = before ++ [a]
        ∧ p.table.ScopePath (p.table.sinceReset before ++ [a.2.2.1])
        ∧ a.2.2.1.capture = some identifier
        ∧ p.captureCapacity < ((identifiers (p.table.sinceReset before ++ [a.2.2.1])).length : Int) := by
    intro identifier capacity h
    obtain ⟨before, a, other, hacc, hpath, hcapture, ⟨-, he⟩ | ⟨hlength, he⟩⟩ :=
      exists_path_of_refused hvalid (by simp) h
    · cases he
    · obtain ⟨rfl, -⟩ : identifier = other ∧ capacity = _ := by simpa using he
      refine ⟨before, a, hacc, hpath, hcapture, ?_⟩
      have hone : (identifiers [a.2.2.1]).length = 1 := by simp [identifiers, hcapture]
      rw [identifiers_append, List.length_append, hone]
      omega
  refine ⟨fun hpaths => ⟨fun identifier h => ?_, fun identifier capacity h => ?_⟩,
    hduplicate, hoverflow⟩
  · obtain ⟨before, a, -, hpath, hcapture, hm⟩ := hduplicate identifier h
    have hnodup := (hpaths _ hpath).1
    rw [identifiers_append, List.nodup_append] at hnodup
    exact hnodup.2.2 identifier hm identifier (by simp [identifiers, hcapture]) rfl
  · obtain ⟨before, a, -, hpath, -, hlt⟩ := hoverflow identifier capacity h
    have := (hpaths _ hpath).2
    omega

/-- With room for two captures no scope path of the window language has too many of them, with room for one the
value of a criterion is one too many. -/
theorem captures_checked_window :
    Window.grammar.validate = .ok Window.grammar
      ∧ (∀ path, Window.grammar.ScopePath path →
        (identifiers path).Nodup ∧ ((identifiers path).length : Int) ≤ 2)
      ∧ { tracing Window.grammar with captureCapacity := 2 }.CapturesChecked "kill; [class=\"a\"] exit" {}
      ∧ { tracing Window.grammar with captureCapacity := 1 }.CapturesChecked "kill; [class=\"a\"] exit" {}
      ∧ ({ tracing Window.grammar with captureCapacity := 1 }.parse "kill; [class=\"a\"] exit" {}).verdict
        = .error (.capture (.overflow "cvalue" 1)) := by
  have hcons := Table.consistent_of_validate Window.validate_grammar
  refine ⟨Window.validate_grammar, fun path hpath => ?_,
    captures_checked { tracing Window.grammar with captureCapacity := 2 } Window.validate_grammar _ _,
    captures_checked { tracing Window.grammar with captureCapacity := 1 } Window.validate_grammar _ _, rfl⟩
  exact_mod_cast Window.conforms_grammar.scopePath hcons hpath

end Parser

end CommandGrammar
