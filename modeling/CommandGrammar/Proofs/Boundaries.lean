import CommandGrammar.Proofs.Requests
import CommandGrammar.Proofs.Searches
import Mathlib.Data.List.Nodup

/-!
# Boundaries

What happens at an accepted token is fixed by the token: the action that it may invoke, and behind it the call
of the hook, if the token ended its command and not with a comma. A run that is not given up is made of nothing
else, so where the hook is called can be read off the accepted tokens and the text.

* `Acceptance.happenings` — what happens at an accepted token, in order.
* `accounted_step` — a step that does not give the run up is what happens at the token that it accepts.
* `Accounted` — what holds behind any number of steps (`accounted_steps`).
* `Parser.accounts_boundaries` — the statement about whole texts.
-/

namespace CommandGrammar

/-! ## Happenings -/

/-- What goes into the accounts of a run: a token is accepted, an action is invoked, the hook is called. -/
inductive Happening where
  | accepted (a : Acceptance)
  | invoked (action : ActionId)
  | fired (position : Nat)

namespace Happening

/-- The token accepted, if one is. -/
def accepted? : Happening → Option Acceptance
  | .accepted a => some a
  | _ => none

/-- The action invoked, if one is. -/
def action? : Happening → Option ActionId
  | .invoked action => some action
  | _ => none

/-- The position at which the hook is called, if it is. -/
def fired? : Happening → Option Nat
  | .fired position => some position
  | _ => none

end Happening

/-- What an event counts as. -/
def Event.happening? : Event → Option Happening
  | .matched position state token lexeme => some (.accepted (position, state, token, lexeme))
  | .invoked action _ _ => some (.invoked action)
  | .boundary position => some (.fired position)
  | _ => none

namespace Journal

/-- What goes into the accounts, in order. -/
def happenings (j : Journal) : List Happening := j.filterMap Event.happening?

/-- The positions at which the hook is called, in order. -/
def fired (j : Journal) : List Nat :=
  j.filterMap fun
    | .boundary position => some position
    | _ => none

@[simp] theorem happenings_append (i j : Journal) :
    (i ++ j).happenings = i.happenings ++ j.happenings := List.filterMap_append

theorem accepted_eq_happenings (j : Journal) :
    j.accepted = j.happenings.filterMap Happening.accepted? := by
  unfold accepted happenings
  rw [List.filterMap_filterMap]
  congr 1
  funext e
  cases e <;> rfl

theorem actions_eq_happenings (j : Journal) :
    j.invocations.map Prod.fst = j.happenings.filterMap Happening.action? := by
  unfold invocations happenings
  rw [List.filterMap_filterMap, List.map_filterMap]
  congr 1
  funext e
  cases e <;> rfl

theorem fired_eq_happenings (j : Journal) : j.fired = j.happenings.filterMap Happening.fired? := by
  unfold fired happenings
  rw [List.filterMap_filterMap]
  congr 1
  funext e
  cases e <;> rfl

theorem mem_fired {j : Journal} {position : Nat} : position ∈ j.fired ↔ .boundary position ∈ j := by
  unfold fired
  rw [List.mem_filterMap]
  constructor
  · rintro ⟨e, he, hp⟩
    cases e <;> cases hp
    exact he
  · intro h
    exact ⟨_, h, rfl⟩

/-- The boundaries are as many as the calls of the hook. -/
theorem length_boundariesFrom (count : Nat) (j : Journal) :
    (j.boundariesFrom count).length = j.fired.length := by
  induction j generalizing count with
  | nil => rfl
  | cons e j ih =>
    cases e with
    | boundary position => exact congrArg (· + 1) (ih count)
    | invoked action name held => exact ih (count + 1)
    | _ => exact ih count

/-- The calls in a trace are as many as the invocations. -/
theorem length_trace_calls (j : Journal) : j.trace.calls.length = j.invocations.length := by
  induction j with
  | nil => rfl
  | cons e j ih =>
    cases e with
    | invoked action name held => exact congrArg (· + 1) ih
    | _ => exact ih

end Journal

/-! ## What happens at a token -/

namespace Acceptance

/-- The token ends its command, with anything but a comma. -/
def Completes (a : Acceptance) : Prop :=
  a.2.2.1.kind = .commandEnd ∧ a.2.2.2.completesCommand = true

instance : DecidablePred Completes := fun a =>
  inferInstanceAs (Decidable (a.2.2.1.kind = .commandEnd ∧ a.2.2.2.completesCommand = true))

/-- The token ends its command on a character of the text. -/
def EndsOn (text : List Char) (mark : Char) (a : Acceptance) : Prop :=
  a.2.2.1.kind = .commandEnd ∧ text[a.1]? = some mark

instance (text : List Char) (mark : Char) : DecidablePred (EndsOn text mark) := fun a =>
  inferInstanceAs (Decidable (a.2.2.1.kind = .commandEnd ∧ text[a.1]? = some mark))

/-- What happens at an accepted token: its action is invoked, and then the hook is called. -/
def happenings (a : Acceptance) : List Happening :=
  .accepted a :: (a.2.2.1.action?.toList.map .invoked ++ if Completes a then [.fired a.1] else [])

theorem accepted_flatMap (l : List Acceptance) :
    (l.flatMap happenings).filterMap Happening.accepted? = l := by
  induction l with
  | nil => rfl
  | cons a l ih =>
    have hfirst : (happenings a).filterMap Happening.accepted? = [a] := by
      unfold happenings
      cases a.2.2.1.action? <;> split <;> rfl
    rw [List.flatMap_cons, List.filterMap_append, hfirst, ih]
    rfl

theorem actions_flatMap (l : List Acceptance) :
    (l.flatMap happenings).filterMap Happening.action? = l.filterMap (·.2.2.1.action?) := by
  induction l with
  | nil => rfl
  | cons a l ih =>
    have hfirst : (happenings a).filterMap Happening.action? = a.2.2.1.action?.toList := by
      unfold happenings
      cases a.2.2.1.action? <;> split <;> rfl
    rw [List.flatMap_cons, List.filterMap_append, hfirst, ih, List.filterMap_cons]
    cases a.2.2.1.action? <;> rfl

theorem fired_flatMap (l : List Acceptance) :
    (l.flatMap happenings).filterMap Happening.fired? = (l.filter Completes).map Prod.fst := by
  induction l with
  | nil => rfl
  | cons a l ih =>
    have hfirst : (happenings a).filterMap Happening.fired? = if Completes a then [a.1] else [] := by
      unfold happenings
      cases a.2.2.1.action? <;> split <;> rfl
    rw [List.flatMap_cons, List.filterMap_append, hfirst, ih]
    by_cases h : Completes a <;> simp [h]

/-- What happens behind the action of a token is the call of the hook, if the command is completed. -/
theorem of_hook_eq {a : Acceptance} {front back : List Happening} {x : Happening}
    (h : (if Completes a then [.fired a.1] else []) = front ++ x :: back) :
    Completes a ∧ x = .fired a.1 ∧ front = [] ∧ back = [] := by
  split at h
  · next hc => cases front <;> simp_all
  · simp at h

/-- The call of the hook is the last that happens at a token, behind its action. -/
theorem of_happenings_eq_fired {a : Acceptance} {front back : List Happening} {position : Nat}
    (h : happenings a = front ++ .fired position :: back) :
    Completes a ∧ a.1 = position ∧ back = [] := by
  cases front with
  | nil => cases (List.cons.inj h).1
  | cons x front =>
    obtain ⟨rfl, htail⟩ := List.cons.inj h
    cases ha : a.2.2.1.action? with
    | none =>
      rw [ha] at htail
      obtain ⟨hc, hx, rfl, rfl⟩ := of_hook_eq htail
      exact ⟨hc, (Happening.fired.inj hx).symm, rfl⟩
    | some action =>
      rw [ha] at htail
      cases front with
      | nil => cases (List.cons.inj htail).1
      | cons y front =>
        obtain ⟨rfl, hhook⟩ := List.cons.inj htail
        obtain ⟨hc, hx, rfl, rfl⟩ := of_hook_eq hhook
        exact ⟨hc, (Happening.fired.inj hx).symm, rfl⟩

/-- The action is invoked directly behind the acceptance of the token. -/
theorem of_happenings_eq_invoked {a : Acceptance} {front back : List Happening} {action : ActionId}
    (h : happenings a = front ++ .invoked action :: back) :
    a.2.2.1.action? = some action ∧ front = [.accepted a]
      ∧ back = if Completes a then [.fired a.1] else [] := by
  cases front with
  | nil => cases (List.cons.inj h).1
  | cons x front =>
    obtain ⟨rfl, htail⟩ := List.cons.inj h
    cases ha : a.2.2.1.action? with
    | none =>
      rw [ha] at htail
      cases (of_hook_eq htail).2.1
    | some b =>
      rw [ha] at htail
      cases front with
      | nil =>
        obtain ⟨hb, hback⟩ := List.cons.inj htail
        obtain rfl := Happening.invoked.inj hb
        exact ⟨rfl, rfl, hback.symm⟩
      | cons y front =>
        obtain ⟨rfl, hhook⟩ := List.cons.inj htail
        cases (of_hook_eq hhook).2.1

end Acceptance

/-- What stands in a list put together from pieces stands in one of the pieces. -/
theorem exists_split_of_flatMap {α β : Type} {f : α → List β} {l : List α} {pre post : List β} {x : β}
    (h : l.flatMap f = pre ++ x :: post) :
    ∃ before a after front back, l = before ++ a :: after ∧ f a = front ++ x :: back
      ∧ pre = before.flatMap f ++ front ∧ post = back ++ after.flatMap f := by
  induction l generalizing pre with
  | nil => simp at h
  | cons a l ih =>
    rw [List.flatMap_cons] at h
    have hbehind : ∀ {pre'}, pre = f a ++ pre' → l.flatMap f = pre' ++ x :: post →
        ∃ before b after front back, a :: l = before ++ b :: after ∧ f b = front ++ x :: back
          ∧ pre = before.flatMap f ++ front ∧ post = back ++ after.flatMap f := by
      intro pre' hpre hl
      obtain ⟨before, b, after, front, back, rfl, hb, rfl, hpost⟩ := ih hl
      exact ⟨a :: before, b, after, front, back, rfl, hb, by simp [hpre], hpost⟩
    rcases List.append_eq_append_iff.mp h with ⟨pre', hpre, hl⟩ | ⟨back, hfa, hback⟩
    · exact hbehind hpre hl
    · cases back with
      | nil =>
        rw [List.append_nil] at hfa
        exact hbehind ((List.append_nil _).trans hfa).symm hback.symm
      | cons y back =>
        obtain ⟨rfl, hpost⟩ := List.cons.inj hback
        exact ⟨[], a, l, pre, back, rfl, hfa, rfl, hpost⟩

/-! ## Accounts -/

namespace Journal

/-- Nothing happens in a journal but what belongs to the tokens accepted in it. -/
def Accounted (j : Journal) : Prop := j.happenings = j.accepted.flatMap Acceptance.happenings

variable {j pre post : Journal}

/-- In such a journal, whatever happens belongs to a token. -/
theorem Accounted.exists_split (h : j.Accounted) {e : Event} {x : Happening}
    (hj : j = pre ++ e :: post) (he : e.happening? = some x) :
    ∃ before a after front back, j.accepted = before ++ a :: after
      ∧ Acceptance.happenings a = front ++ x :: back
      ∧ pre.happenings = before.flatMap Acceptance.happenings ++ front
      ∧ post.happenings = back ++ after.flatMap Acceptance.happenings := by
  have hsplit : j.accepted.flatMap Acceptance.happenings = pre.happenings ++ x :: post.happenings := by
    rw [← h, hj, happenings_append]
    unfold happenings
    rw [List.filterMap_cons_some he]
  exact exists_split_of_flatMap hsplit

/-- Where the hook is called, a token has just ended its command: all actions up to it have been invoked, and
none of those behind. -/
theorem Accounted.split_boundary (h : j.Accounted) {position : Nat}
    (hj : j = pre ++ .boundary position :: post) :
    ∃ before a after, j.accepted = before ++ a :: after ∧ pre.accepted = before ++ [a]
      ∧ post.accepted = after ∧ Acceptance.Completes a ∧ a.1 = position
      ∧ pre.invocations.map Prod.fst = (before ++ [a]).filterMap (·.2.2.1.action?)
      ∧ post.invocations.map Prod.fst = after.filterMap (·.2.2.1.action?)
      ∧ post.fired = (after.filter Acceptance.Completes).map Prod.fst := by
  obtain ⟨before, a, after, front, back, hacc, ha, hpre, hpost⟩ := h.exists_split hj rfl
  obtain ⟨hc, hposition, rfl⟩ := Acceptance.of_happenings_eq_fired ha
  rw [List.nil_append] at hpost
  -- With the call of the hook, all that belongs to the token is in front.
  have hwhole : pre.happenings ++ [.fired position] = (before ++ [a]).flatMap Acceptance.happenings := by
    rw [hpre, List.flatMap_append, List.flatMap_singleton, ha, List.append_assoc]
  have haccepted := congrArg (List.filterMap Happening.accepted?) hwhole
  have hactions := congrArg (List.filterMap Happening.action?) hwhole
  rw [List.filterMap_append, Acceptance.accepted_flatMap, ← accepted_eq_happenings] at haccepted
  rw [List.filterMap_append, Acceptance.actions_flatMap, ← actions_eq_happenings] at hactions
  refine ⟨before, a, after, hacc, ?_, ?_, hc, hposition, ?_, ?_, ?_⟩
  · rw [← haccepted]
    exact (List.append_nil _).symm
  · rw [accepted_eq_happenings, hpost, Acceptance.accepted_flatMap]
  · rw [← hactions]
    exact (List.append_nil _).symm
  · rw [actions_eq_happenings, hpost, Acceptance.actions_flatMap]
  · rw [fired_eq_happenings, hpost, Acceptance.fired_flatMap]

/-- Where an action is invoked, its token has just been accepted, and the hook is yet to be called for it. -/
theorem Accounted.split_invoked (h : j.Accounted) {action : ActionId} {name : String}
    {held : List (String × String)} (hj : j = pre ++ .invoked action name held :: post) :
    ∃ before a after, j.accepted = before ++ a :: after ∧ pre.accepted = before ++ [a]
      ∧ post.accepted = after ∧ a.2.2.1.action? = some action
      ∧ post.fired = ((a :: after).filter Acceptance.Completes).map Prod.fst := by
  obtain ⟨before, a, after, front, back, hacc, ha, hpre, hpost⟩ := h.exists_split hj rfl
  obtain ⟨haction, rfl, rfl⟩ := Acceptance.of_happenings_eq_invoked ha
  refine ⟨before, a, after, hacc, ?_, ?_, haction, ?_⟩
  · rw [accepted_eq_happenings, hpre, List.filterMap_append, Acceptance.accepted_flatMap]
    rfl
  · rw [accepted_eq_happenings, hpost, List.filterMap_append, Acceptance.accepted_flatMap]
    split <;> rfl
  · rw [fired_eq_happenings, hpost, List.filterMap_append, Acceptance.fired_flatMap]
    by_cases hc : Acceptance.Completes a <;> simp [hc, Happening.fired?]

end Journal

/-! ## Balanced journals -/

namespace Journal

/-- What is known of the journal of a run on a text that was not given up, and that read the whole text or not. -/
structure Balanced (j : Journal) (text : List Char) (whole : Bool) : Prop where
  accounted : j.Accounted
  /-- Tokens are accepted further and further on in the text. -/
  sorted : (j.accepted.map Prod.fst).Pairwise (· < ·)
  inside : ∀ a ∈ j.accepted, a.1 ≤ text.length
  /-- Commands are completed on semicolons and at the end of the text. -/
  completes_iff : ∀ a ∈ j.accepted, Acceptance.Completes a
    ↔ Acceptance.EndsOn text ';' a ∨ a.2.2.1.kind = .commandEnd ∧ a.1 = text.length
  /-- A command ends at the end of the text if the whole text was read. -/
  whole_iff : (∃ a ∈ j.accepted, a.2.2.1.kind = .commandEnd ∧ a.1 = text.length) ↔ whole = true

namespace Balanced

variable {j pre post : Journal} {text : List Char} {whole : Bool}

theorem fired_eq (h : j.Balanced text whole) :
    j.fired = (j.accepted.filter Acceptance.Completes).map Prod.fst := by
  rw [fired_eq_happenings, h.accounted, Acceptance.fired_flatMap]

/-- Behind a token at the end of the text no other one is accepted. -/
theorem eq_nil_of_end (h : j.Balanced text whole) {before after : List Acceptance} {a : Acceptance}
    (hacc : j.accepted = before ++ a :: after) (ha : a.1 = text.length) :
    after = [] ∧ ∀ b ∈ before, b.1 < text.length := by
  have hsorted := h.sorted
  rw [hacc, List.map_append, List.map_cons, List.pairwise_append, List.pairwise_cons] at hsorted
  obtain ⟨-, ⟨hafter, -⟩, hbefore⟩ := hsorted
  constructor
  · refine List.eq_nil_iff_forall_not_mem.mpr fun b hb => ?_
    have hlt := hafter b.1 (List.mem_map_of_mem hb)
    have hle := h.inside b (by rw [hacc]; simp [hb])
    omega
  · intro b hb
    rw [← ha]
    exact hbefore b.1 (List.mem_map_of_mem hb) a.1 List.mem_cons_self

/-- **The hook is called for every semicolon that ended a command, and at the end of a text that was read to its
end.** -/
theorem fired_eq_semicolons (h : j.Balanced text whole) :
    j.fired = (j.accepted.filter (Acceptance.EndsOn text ';')).map Prod.fst
      ++ if whole then [text.length] else [] := by
  rw [h.fired_eq]
  -- In front of the end of the text, commands are completed on semicolons only.
  have hiff : ∀ l : List Acceptance, (∀ a ∈ l, a ∈ j.accepted) →
      (∀ a ∈ l, ¬(a.2.2.1.kind = .commandEnd ∧ a.1 = text.length)) →
      l.filter Acceptance.Completes = l.filter (Acceptance.EndsOn text ';') := fun l hl hend =>
    List.filter_congr fun a ha => decide_eq_decide.mpr <|
      (h.completes_iff a (hl a ha)).trans (or_iff_left (hend a ha))
  cases whole with
  | false =>
    have hend : ∀ a ∈ j.accepted, ¬(a.2.2.1.kind = .commandEnd ∧ a.1 = text.length) :=
      fun a ha hk => Bool.false_ne_true (h.whole_iff.mp ⟨a, ha, hk⟩)
    simp [hiff j.accepted (fun _ => id) hend]
  | true =>
    obtain ⟨a, ha, hk, hposition⟩ := h.whole_iff.mpr rfl
    obtain ⟨before, after, hacc⟩ := List.append_of_mem ha
    obtain ⟨rfl, hbefore⟩ := h.eq_nil_of_end hacc hposition
    have hfront := hiff before (fun b hb => by rw [hacc]; simp [hb])
      fun b hb hb' => Nat.ne_of_lt (hbefore b hb) hb'.2
    have hcompletes : Acceptance.Completes a := (h.completes_iff a ha).mpr (Or.inr ⟨hk, hposition⟩)
    have hno : ¬Acceptance.EndsOn text ';' a := by
      rintro ⟨-, hmark⟩
      rw [hposition, List.getElem?_eq_none (Nat.le_refl _)] at hmark
      cases hmark
    rw [hacc, List.filter_append, List.filter_append, hfront]
    simp [hcompletes, hno, hposition]

theorem sorted_fired (h : j.Balanced text whole) : j.fired.Pairwise (· < ·) := by
  rw [h.fired_eq]
  exact h.sorted.sublist (List.filter_sublist.map Prod.fst)

/-- The hook is not called for a comma. -/
theorem not_boundary_of_comma (h : j.Balanced text whole) {a : Acceptance} (ha : a ∈ j.accepted)
    (hcomma : Acceptance.EndsOn text ',' a) : .boundary a.1 ∉ j := by
  rw [← mem_fired, h.fired_eq]
  intro hm
  obtain ⟨b, hb, hposition⟩ := List.mem_map.mp hm
  obtain ⟨hb, hcompletes⟩ := List.mem_filter.mp hb
  -- The token at the position is the one that ended its command on the comma.
  obtain rfl : b = a := List.inj_on_of_nodup_map (h.sorted.imp fun hlt => Nat.ne_of_lt hlt) hb ha hposition
  rcases (h.completes_iff b hb).mp (of_decide_eq_true hcompletes) with ⟨-, hmark⟩ | ⟨-, hend⟩
  · rw [hcomma.2] at hmark
    cases hmark
  · have hmark := hcomma.2
    rw [hend, List.getElem?_eq_none (Nat.le_refl _)] at hmark
    cases hmark

/-- If the whole text was read, the hook is called behind all actions. -/
theorem getLast?_boundaries (h : j.Balanced text true) :
    j.boundaries.getLast? = some j.invocations.length := by
  have hm : text.length ∈ j.fired := by
    rw [h.fired_eq_semicolons]
    simp
  obtain ⟨pre, post, hj⟩ := List.append_of_mem (mem_fired.mp hm)
  obtain ⟨before, a, after, hacc, -, -, -, hposition, -, hinvoked, hfired⟩ := h.accounted.split_boundary hj
  obtain ⟨rfl, -⟩ := h.eq_nil_of_end hacc hposition
  have hinvoked' : invocations post = [] := List.map_eq_nil_iff.mp hinvoked
  have hnone : ∀ count, boundariesFrom count post = [] := fun count =>
    List.eq_nil_of_length_eq_zero (by rw [length_boundariesFrom, hfired]; rfl)
  rw [boundaries, hj, boundariesFrom_append]
  show (_ ++ (0 + (invocations pre).length) :: boundariesFrom _ post).getLast? = _
  rw [hnone, List.getLast?_concat, invocations_append]
  show some (0 + _) = some (_ ++ invocations post).length
  rw [hinvoked', List.append_nil, Nat.zero_add]

/-- If it was not, no call of the hook follows an action exactly if its token and all later ones ended no command
on a semicolon. -/
theorem followed_iff (h : j.Balanced text false) {action : ActionId} {name : String}
    {held : List (String × String)} (hj : j = pre ++ .invoked action name held :: post) :
    ∃ before a, pre.accepted = before ++ [a] ∧ a.2.2.1.action? = some action
      ∧ ((∀ position, .boundary position ∉ post)
        ↔ ∀ b ∈ a :: post.accepted, ¬Acceptance.EndsOn text ';' b) := by
  obtain ⟨before, a, after, hacc, hpre, rfl, haction, hfired⟩ := h.accounted.split_invoked hj
  refine ⟨before, a, hpre, haction, ?_⟩
  have hiff : ∀ b ∈ a :: post.accepted, (Acceptance.EndsOn text ';' b ↔ Acceptance.Completes b) := by
    intro b hb
    have hb' : b ∈ j.accepted := by rw [hacc]; exact List.mem_append_right _ hb
    rw [h.completes_iff b hb']
    exact (or_iff_left fun hend => Bool.false_ne_true (h.whole_iff.mp ⟨b, hb', hend⟩)).symm
  calc (∀ position, .boundary position ∉ post)
      ↔ post.fired = [] := by
        rw [List.eq_nil_iff_forall_not_mem]
        exact forall_congr' fun position => not_congr mem_fired.symm
    _ ↔ ∀ b ∈ a :: post.accepted, ¬Acceptance.Completes b := by
        rw [hfired, List.map_eq_nil_iff, List.filter_eq_nil_iff]
        simp only [decide_eq_true_eq]
    _ ↔ ∀ b ∈ a :: post.accepted, ¬Acceptance.EndsOn text ';' b :=
        forall₂_congr fun b hb => not_congr (hiff b hb).symm

end Balanced

end Journal

/-! ## The parts of a step -/

namespace Machine

variable {σ ρ ε : Type} {m : Machine σ ρ ε} {c : Config σ} {token : Token} {lexeme : Lexeme}

theorem happenings_dropCaptures (c : Config σ) :
    (dropCaptures c : Progress σ ρ ε).journal.happenings = [] := by
  unfold Journal.happenings
  rw [List.filterMap_eq_nil_iff]
  intro e he
  obtain ⟨k, rfl⟩ := dropCaptures_journal c e he
  rfl

/-- A transition that is followed invokes its action, if it has one, and nothing else happens. -/
theorem Followed.happenings {t : Transition} {q : Progress σ ρ ε} (h : m.Followed c t q)
    (hq : q.ending = none) : q.journal.happenings = t.action?.toList.map .invoked := by
  cases h with
  | home => exact happenings_dropCaptures _
  | away => rfl
  | unknown | failed => cases hq
  | @performed action next name result =>
    have hcalls : ∀ calls : List CallEvent, Journal.happenings (calls.map Event.call) = [] := by
      intro calls
      unfold Journal.happenings
      rw [List.filterMap_map, List.filterMap_eq_nil_iff]
      intro e _
      rfl
    show (m.invocation action name c).happenings = [.invoked action]
    unfold invocation
    rw [Journal.happenings_append, happenings_dropCaptures, List.append_nil]
    exact congrArg (.invoked action :: ·) (hcalls _)

theorem Followed.actions {t : Transition} {q : Progress σ ρ ε} (h : m.Followed c t q)
    (hq : q.ending = none) : q.actions = q.journal.trace.calls.map Call.action := by
  cases h with
  | home => rw [(Journal.quiet_dropCaptures _).trace]; rfl
  | away => rfl
  | unknown | failed => cases hq
  | @performed action next name result =>
    have hcalls : ∀ calls : List CallEvent, Journal.trace (calls.map Event.call) = {} := by
      intro calls
      refine Journal.Quiet.trace fun e he => ?_
      obtain ⟨x, -, rfl⟩ := List.mem_map.mp he
      simp
    show [name] = (m.invocation action name c).trace.calls.map Call.action
    unfold invocation
    rw [Journal.trace_append, (Journal.quiet_dropCaptures c).trace, Trace.append_empty]
    show _ = (⟨name, _⟩ :: (Journal.trace _).calls).map Call.action
    rw [hcalls]
    rfl

/-- A hook that there is is called where a command is completed. -/
theorem signal_journal_of_hook (hhook : m.callbacks.onBoundary.isSome = true) (token : Token)
    (lexeme : Lexeme) (c : Config σ) :
    (m.signal token lexeme c).journal =
      if token.kind = .commandEnd ∧ lexeme.completesCommand = true then [.boundary c.position]
      else [] := by
  obtain ⟨hook, hh⟩ := Option.isSome_iff_exists.mp hhook
  unfold signal
  simp only [hh]
  split
  · simp only [Progress.andThen_note]
    cases (hook c.environment).2 <;> rfl
  · rfl

theorem signal_actions (m : Machine σ ρ ε) (token : Token) (lexeme : Lexeme) (c : Config σ) :
    (m.signal token lexeme c).actions = [] := by
  rcases m.signal_cases token lexeme c with h | ⟨hook, -, -, -, h⟩
  · rw [h]
    rfl
  · rw [h]

/-- A token that is accepted without a fault makes happen what belongs to it. -/
theorem happenings_perform (hhook : m.callbacks.onBoundary.isSome = true)
    (he : (m.perform token lexeme c).ending = none) :
    (m.perform token lexeme c).journal.happenings
        = Acceptance.happenings (c.position, c.state, token, lexeme)
      ∧ (m.perform token lexeme c).actions
        = (m.perform token lexeme c).journal.trace.calls.map Call.action := by
  rcases room_or_refused token lexeme c with h | ⟨_, _, _, h, hp⟩
  · obtain ⟨captures, -, -, hq⟩ := perform_of_room (m := m) h
    have hf := m.followed token.transition { c with captures }
    rw [hq, Progress.andThen_note] at he ⊢
    generalize m.follow token.transition { c with captures } = f at hf he ⊢
    obtain ⟨hnone, -⟩ := Progress.ending_andThen_eq_none.mp he
    have hsignal := signal_journal_of_hook hhook token lexeme f.config
    rw [hf.place.1] at hsignal
    rw [Progress.andThen_of_none hnone]
    constructor
    · show .accepted (c.position, c.state, token, lexeme)
          :: Journal.happenings (f.journal ++ (m.signal token lexeme f.config).journal) = _
      rw [Journal.happenings_append, hf.happenings hnone, hsignal]
      unfold Acceptance.happenings
      by_cases hc : Acceptance.Completes (c.position, c.state, token, lexeme)
      · rw [if_pos hc, if_pos (show token.kind = .commandEnd ∧ lexeme.completesCommand = true from hc)]
        rfl
      · rw [if_neg hc, if_neg (show ¬(token.kind = .commandEnd ∧ lexeme.completesCommand = true) from hc)]
        rfl
    · have htrace : (m.signal token lexeme f.config).journal.trace.calls = [] := by
        rw [hsignal]
        split <;> rfl
      show f.actions ++ (m.signal token lexeme f.config).actions
        = (Journal.trace (f.journal ++ _)).calls.map Call.action
      rw [signal_actions, List.append_nil, Journal.trace_append, Trace.calls_append, htrace,
        List.append_nil, hf.actions hnone]
  · rw [perform_of_refused h hp] at he
    cases he

/-! ## Steps and runs -/

/-- The accounts of a stretch of a run that was not given up. -/
structure Accounted (q : Progress σ ρ ε) : Prop where
  /-- Nothing happens but what belongs to the accepted tokens, and that in order. -/
  happenings : (∀ f, q.ending ≠ some (.abandoned f)) → q.journal.Accounted
  /-- The actions are those invoked. -/
  actions : (∀ f, q.ending ≠ some (.abandoned f)) →
    q.actions = q.journal.trace.calls.map Call.action

theorem Accounted.andThen {q : Progress σ ρ ε} {next : Config σ → Progress σ ρ ε} (hq : Accounted q)
    (hnone : q.ending = none) (hnext : Accounted (next q.config)) : Accounted (q.andThen next) := by
  have hgoing : ∀ f, q.ending ≠ some (.abandoned f) := by simp [hnone]
  rw [Progress.andThen_of_none hnone]
  refine ⟨fun h => ?_, fun h => ?_⟩
  · show Journal.happenings (q.journal ++ (next q.config).journal)
      = (Journal.accepted (q.journal ++ (next q.config).journal)).flatMap _
    rw [Journal.happenings_append, Journal.accepted_append, List.flatMap_append,
      hq.happenings hgoing, hnext.happenings h]
  · show q.actions ++ (next q.config).actions
      = (Journal.trace (q.journal ++ (next q.config).journal)).calls.map Call.action
    rw [Journal.trace_append, Trace.calls_append, List.map_append, hq.actions hgoing, hnext.actions h]

/-- **What happens in a step belongs to the token that it accepts.** -/
theorem accounted_step (hhook : m.callbacks.onBoundary.isSome = true) (c : Config σ) :
    Accounted (m.step c) := by
  have htries : ∀ tokens, (tries tokens c.skipBlanks).happenings = [] := by
    intro tokens
    unfold Journal.happenings
    rw [List.filterMap_eq_nil_iff]
    intro e he
    obtain ⟨u, -, rfl⟩ := List.mem_map.mp he
    rfl
  have hperform : ∀ {tokens token lexeme}, (m.perform token lexeme c.skipBlanks).ending = none →
      (tries tokens c.skipBlanks ++ (m.perform token lexeme c.skipBlanks).journal).happenings
          = (tries tokens c.skipBlanks
              ++ (m.perform token lexeme c.skipBlanks).journal).accepted.flatMap Acceptance.happenings
        ∧ (m.perform token lexeme c.skipBlanks).actions
          = (Journal.trace (tries tokens c.skipBlanks
              ++ (m.perform token lexeme c.skipBlanks).journal)).calls.map Call.action := by
    intro tokens token lexeme he
    obtain ⟨hhappenings, hactions⟩ := happenings_perform hhook he
    constructor
    · rw [Journal.happenings_append, htries, Journal.accepted_append, tries_accepted, perform_accepted,
        hhappenings]
      simp
    · rw [Journal.trace_append, (Journal.quiet_tries _ _).trace, Trace.empty_append]
      exact hactions
  have hs := m.stepped c
  generalize m.step c = q at hs ⊢
  cases hs with
  | lost => exact ⟨fun h => absurd rfl (h _), fun h => absurd rfl (h _)⟩
  | @unmatched tokens =>
    refine ⟨fun _ => ?_, fun _ => ?_⟩
    · show (tries tokens c.skipBlanks).happenings = (tries tokens c.skipBlanks).accepted.flatMap _
      rw [htries, tries_accepted]
      rfl
    · show [] = (Journal.trace (tries tokens c.skipBlanks)).calls.map Call.action
      rw [(Journal.quiet_tries _ _).trace]
      rfl
  | cut _ _ he => exact ⟨fun h => absurd he (h _), fun h => absurd he (h _)⟩
  | moved _ _ he | completed _ _ he => exact ⟨fun _ => (hperform he).1, fun _ => (hperform he).2⟩

/-- **The accounts of any number of steps** are made of what belongs to the accepted tokens. -/
theorem accounted_steps (hhook : m.callbacks.onBoundary.isSome = true) (n : Nat) (c : Config σ) :
    Accounted (m.steps n c) :=
  m.steps_induction (P := Accounted) ⟨fun _ => rfl, fun _ => rfl⟩
    (fun q hq hnone => hq.andThen hnone (accounted_step hhook q.config)) n

/-- A step in which no token matches accepts nothing. -/
theorem accepted_of_unmatched {expected : List String} (h : (m.step c).ending = some (.unmatched expected)) :
    (m.step c).journal.accepted = [] := by
  revert h
  have hs := m.stepped c
  generalize m.step c = q at hs ⊢
  intro h
  cases hs with
  | lost | moved | completed => cases h
  | unmatched => exact tries_accepted _ _
  | cut _ _ he => cases he.symm.trans h

/-! ## Where commands end -/

variable {text : List Char} {n : Nat} {a : Acceptance}

/-- The end of a command is met on a separator of the text, or behind the text. -/
theorem terminator_of_accepted (hlit : m.table.LiteralsHaveText) (hc : c.Within text)
    (ha : a ∈ (m.steps n c).journal.accepted) (hk : a.2.2.1.kind = .commandEnd) :
    a.2.2.2.terminator = text[a.1]? ∧ ∀ mark ∈ a.2.2.2.terminator, isSeparator mark = true := by
  obtain ⟨position, state, token, lexeme⟩ := a
  obtain ⟨tokens, -, hch⟩ := choice_of_accepted hlit hc n _ ha
  have hl := lexeme?_of_choose? hch
  -- The rest of the text at the token begins with the character at its position.
  have hhead := List.head?_drop (l := text) (i := position)
  simp only [Token.lexeme?, show token.kind = .commandEnd from hk] at hl
  rcases Lexeme.commandEnd?_eq_some_iff.mp hl with ⟨hnil, rfl⟩ | ⟨mark, rest, hcons, hsep, rfl⟩
  · rw [hnil] at hhead
    exact ⟨hhead, by simp⟩
  · rw [hcons] at hhead
    exact ⟨hhead, by simpa using hsep⟩

/-- A command is completed on a semicolon or at the end of the text. -/
theorem completes_iff (hlit : m.table.LiteralsHaveText) (hc : c.Within text)
    (ha : a ∈ (m.steps n c).journal.accepted) :
    Acceptance.Completes a
      ↔ Acceptance.EndsOn text ';' a ∨ a.2.2.1.kind = .commandEnd ∧ a.1 = text.length := by
  have hin := (paced_steps hlit hc n).inside a ha
  unfold Acceptance.Completes Acceptance.EndsOn
  rw [← and_or_left]
  refine and_congr_right fun hk => ?_
  obtain ⟨hterminator, hsep⟩ := terminator_of_accepted hlit hc ha hk
  unfold Lexeme.completesCommand
  rw [hterminator] at hsep ⊢
  by_cases hend : a.1 = text.length
  · have hnone : text[a.1]? = none := List.getElem?_eq_none (Nat.le_of_eq hend.symm)
    simp only [hnone]
    simp [hend]
  · have hlt : a.1 < text.length := by omega
    obtain ⟨mark, hmark⟩ : ∃ mark, text[a.1]? = some mark := ⟨_, List.getElem?_eq_getElem hlt⟩
    have hcases := hsep mark hmark
    simp only [isSeparator, Bool.or_eq_true, beq_iff_eq] at hcases
    rcases hcases with rfl | rfl <;> simp [hmark, hend]

/-- If no token matches in the end, all tokens accepted lie in front of the end of the text. -/
theorem lt_length_of_unmatched (hlit : m.table.LiteralsHaveText) (hc : c.Within text)
    {expected : List String} (h : (m.steps n c).ending = some (.unmatched expected)) :
    ∀ a ∈ (m.steps n c).journal.accepted, a.1 < text.length := by
  obtain ⟨k, hnone, hlast, hsame⟩ := m.exists_last_step h
  obtain ⟨hw, hbehind⟩ := (paced_steps hlit hc k).going hnone
  rw [hsame, steps_succ, Progress.journal_andThen_of_none hnone, Journal.accepted_append,
    accepted_of_unmatched hlast, List.append_nil]
  intro a ha
  have hlt := hbehind a ha
  have hle := hw.1
  omega

end Machine

/-! ## Whole texts -/

namespace Parser

variable {σ ρ ε : Type} {p : Parser σ ρ ε} {text : String} {captures : Captures} {environment : σ} {n : Nat}

/-- What is to be said of the hook in a run on a text that came to an outcome. -/
structure AccountsBoundaries (p : Parser σ ρ ε) (text : String) (environment : σ) (o : Outcome ρ) :
    Prop where
  /-- The hook is called once for every token that ended a command on a semicolon, in order, and once more at
  the end of the text exactly if the outcome is in order. -/
  fired : (p.parse text environment).journal.fired
    = ((p.parse text environment).journal.accepted.filter (Acceptance.EndsOn text.toList ';')).map Prod.fst
      ++ if o.ok then [text.length] else []
  /-- These calls of the hook, and the invocations, are the requests of the text in their order. Nothing else is
  asked of the callbacks, and all of it is answered. -/
  asks : p.Asks text environment
  answered : p.Answered text environment
  /-- It is never called twice at one position. -/
  sorted : (p.parse text environment).journal.fired.Pairwise (· < ·)
  /-- It is not called for a token that ended its command on a comma. -/
  comma : ∀ a ∈ (p.parse text environment).journal.accepted, Acceptance.EndsOn text.toList ',' a →
    .boundary a.1 ∉ (p.parse text environment).journal
  /-- It is called while the token that ended the command is the last one accepted, behind the actions of all
  tokens up to that one and in front of those of all later ones. -/
  placed : ∀ pre position post,
    (p.parse text environment).journal = pre ++ .boundary position :: post →
    (∃ before a, Journal.accepted pre = before ++ [a] ∧ a.1 = position
        ∧ a.2.2.1.kind = .commandEnd)
      ∧ (Journal.invocations pre).map Prod.fst
        = (Journal.accepted pre).filterMap (·.2.2.1.action?)
      ∧ (Journal.invocations post).map Prod.fst
        = (Journal.accepted post).filterMap (·.2.2.1.action?)
  /-- If the outcome is in order, the last call of the hook sees all actions. -/
  last : o.ok = true → (p.parse text environment).journal.boundaries.getLast? = some o.actions.length
  /-- Otherwise no call follows an action exactly if neither the token that invoked it nor any token behind
  that one ended a command on a semicolon. -/
  followed_iff : o.ok = false → ∀ pre action name held post,
    (p.parse text environment).journal = pre ++ .invoked action name held :: post →
    ∃ before a, Journal.accepted pre = before ++ [a] ∧ a.2.2.1.action? = some action
      ∧ ((∀ position, .boundary position ∉ post)
        ↔ ∀ b ∈ a :: Journal.accepted post, ¬Acceptance.EndsOn text.toList ';' b)

theorem accounted_conclude (text : String) {q : Progress σ ρ ε} (h : q.journal.Accounted) :
    (conclude text q).journal.Accounted := by
  obtain ⟨last, hj, hlast⟩ := conclude_last text q
  have hnone : Journal.happenings last = [] := by
    unfold Journal.happenings
    rw [List.filterMap_eq_nil_iff]
    intro e he
    rcases hlast e he with ⟨_, rfl⟩ | ⟨_, _, rfl⟩ <;> rfl
  unfold Journal.Accounted
  rw [conclude_accepted, hj, Journal.happenings_append, hnone, List.append_nil]
  exact h

/-- A run with an outcome was not given up. -/
theorem not_abandoned_of_conclude {q : Progress σ ρ ε} {o : Outcome ρ}
    (h : (conclude text q).verdict = .ok o) (f : Fault ε) : q.ending ≠ some (.abandoned f) := by
  intro hf
  rcases conclude_eq_ok h with ⟨he, -⟩ | ⟨_, he, -⟩ <;> cases he.symm.trans hf

theorem actions_length_conclude (hhook : p.callbacks.onBoundary.isSome = true) {o : Outcome ρ}
    (h : (conclude text (p.behind n text captures environment)).verdict = .ok o) :
    o.actions.length
      = (conclude text (p.behind n text captures environment)).journal.invocations.length := by
  have haccounts := Machine.accounted_steps hhook n (p.start text captures environment)
  have hactions : (p.behind n text captures environment).actions = _ :=
    haccounts.actions (not_abandoned_of_conclude h)
  rw [(outcome_of_conclude h).1, hactions, List.length_map, Journal.length_trace_calls,
    invocations_conclude]
  rfl

/-- The journal of a run that came to an outcome is balanced. -/
theorem balanced_conclude (hlit : p.table.LiteralsHaveText) (hhook : p.callbacks.onBoundary.isSome = true)
    {o : Outcome ρ}
    (h : (conclude text (p.behind n text captures environment)).verdict = .ok o) :
    (conclude text (p.behind n text captures environment)).journal.Balanced text.toList o.ok := by
  have hw := p.start_within text captures environment
  have hpaced := paced_behind hlit text captures environment n
  have hcompletes := fun a => Machine.completes_iff (n := n) (a := a) hlit hw
  refine
    { accounted := accounted_conclude text
        ((Machine.accounted_steps hhook n (p.start text captures environment)).happenings
          (not_abandoned_of_conclude h))
      sorted := ?_
      inside := ?_
      completes_iff := ?_
      whole_iff := ?_ }
  all_goals rw [conclude_accepted]
  · exact hpaced.sorted
  · exact hpaced.inside
  · exact hcompletes
  · rcases conclude_eq_ok h with ⟨he, hok⟩ | ⟨_, he, hok⟩
    · obtain ⟨-, before, state, token, hacc, hk⟩ := hpaced.complete he
      rw [hok]
      exact iff_of_true ⟨_, by rw [hacc]; exact List.mem_append_right _ (List.mem_singleton_self _), hk, rfl⟩ rfl
    · rw [hok]
      refine iff_of_false ?_ Bool.false_ne_true
      rintro ⟨a, ha, -, hend⟩
      exact Nat.ne_of_lt (Machine.lt_length_of_unmatched hlit hw he a ha) hend

/-- **The hook is called for every command that is completed, behind its actions**, in every run on a valid table
that comes to an outcome. -/
theorem accounts_boundaries (p : Parser σ ρ ε) (hvalid : p.table.validate = .ok p.table)
    (hhook : p.callbacks.onBoundary.isSome = true) (text : String) (environment : σ) {o : Outcome ρ}
    (h : (p.parse text environment).verdict = .ok o) : p.AccountsBoundaries text environment o := by
  have hlit := (Table.consistent_of_validate hvalid).literals
  have houtcome := h
  obtain ⟨captures, -, hparse⟩ := exists_parse_eq_conclude h
  rw [progress_eq_behind hlit] at hparse
  rw [hparse] at h
  have hbalanced := balanced_conclude hlit hhook h
  have hactions := actions_length_conclude hhook h
  rw [← hparse] at hbalanced hactions
  refine
    { fired := ?_
      asks := asks p text environment
      answered := answered_of_outcome houtcome
      sorted := hbalanced.sorted_fired
      comma := fun a ha => hbalanced.not_boundary_of_comma ha
      placed := fun pre position post hj => ?_
      last := fun hok => ?_
      followed_iff := fun hok pre action name held post hj => ?_ }
  · rw [hbalanced.fired_eq_semicolons, String.length_toList]
  · obtain ⟨before, a, after, -, hpre, hpost, hcompletes, hposition, hfront, hback, -⟩ :=
      hbalanced.accounted.split_boundary hj
    exact ⟨⟨before, a, hpre, hposition, hcompletes.1⟩, by rw [hpre]; exact hfront, by rw [hpost]; exact hback⟩
  · rw [hok] at hbalanced
    rw [hbalanced.getLast?_boundaries, hactions]
  · rw [hok] at hbalanced
    exact hbalanced.followed_iff hj

/-- A chain with two commas and two semicolons: the hook is called on the semicolons and at the end. -/
theorem accounts_boundaries_window :
    Window.grammar.validate = .ok Window.grammar
      ∧ (tracing Window.grammar).callbacks.onBoundary.isSome = true
      ∧ ∃ o, ((tracing Window.grammar).parse "kill, nop; [id=7] focus; nop , kill" {}).verdict = .ok o
        ∧ (tracing Window.grammar).AccountsBoundaries "kill, nop; [id=7] focus; nop , kill" {} o
        ∧ ((tracing Window.grammar).parse "kill, nop; [id=7] focus; nop , kill" {}).journal.boundaries
          = [2, 5, 7] := by
  refine ⟨Window.validate_grammar, rfl, _, rfl, ?_, rfl⟩
  exact accounts_boundaries (tracing Window.grammar) Window.validate_grammar rfl _ _ rfl

end Parser

end CommandGrammar
