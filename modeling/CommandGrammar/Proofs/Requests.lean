import CommandGrammar.Proofs.Recording

/-!
# What a run asks of its callbacks

A run only ever asks its callbacks to perform an action or to take note of a completed command, one request
after another. Which requests it makes does not depend on the answers, as long as none fails: they are those
that callbacks without an effect of their own are asked (`Machine.noted`). What a run leaves behind is what the
callbacks make of these requests, made in order up to the first that fails.

* `Callbacks.serve` — the requests made one after another.
* `Served` — a stretch of a run beside the same stretch with callbacks that only take note.
* `Machine.served_step`, `Machine.served_run` — steps and runs serve the requests that are noted.
* `Parser.serves` — a whole text makes the same requests whoever answers them.
* `Parser.asks` — the journal of a text shows what is asked of the callbacks.
-/

namespace CommandGrammar

/-! ## Requests -/

/-- What a run asks of its callbacks: to perform an action on the captures held, or to take note of a
completed command. -/
inductive Request where
  | perform (action : ActionId) (captures : Captures)
  | boundary

/-- A request as a journal shows it. -/
inductive Signal where
  | perform (action : ActionId) (held : List (String × String))
  | boundary
  deriving DecidableEq, Repr

/-- What is written down of a request. -/
def Request.signal : Request → Signal
  | .perform action captures => .perform action captures.toList
  | .boundary => .boundary

namespace Journal

/-- The invocations and boundaries of a journal, in the order in which they happened. -/
def signals (j : Journal) : List Signal :=
  j.filterMap fun
    | .invoked action _ held => some (.perform action held)
    | .boundary _ => some .boundary
    | _ => none

/-- What the dispatcher wrote down. -/
def calls (j : Journal) : List CallEvent :=
  j.filterMap fun
    | .call event => some event
    | _ => none

@[simp] theorem signals_append (i j : Journal) : (i ++ j).signals = i.signals ++ j.signals :=
  List.filterMap_append

@[simp] theorem calls_append (i j : Journal) : (i ++ j).calls = i.calls ++ j.calls :=
  List.filterMap_append

@[simp] theorem signals_map_call (events : List CallEvent) : signals (events : Journal) = [] := by
  simp [signals]

@[simp] theorem calls_map_call (events : List CallEvent) : calls (events : Journal) = events := by
  simp [calls, List.filterMap_map]

/-- What the dispatcher says is no token accepted. -/
@[simp] theorem accepted_map_call (events : List CallEvent) : accepted (events : Journal) = [] := by
  simp [accepted]

/-- Nothing is asked of the callbacks in the journal. -/
def Silent (j : Journal) : Prop := j.signals = [] ∧ j.calls = []

theorem silent_nil : Silent [] := ⟨rfl, rfl⟩

theorem silent_tries {σ : Type} (tokens : List Token) (c : Config σ) : (Machine.tries tokens c).Silent := by
  simp [Silent, Machine.tries, signals, calls]

theorem silent_dropCaptures {σ ρ ε : Type} (c : Config σ) :
    (Machine.dropCaptures c : Progress σ ρ ε).journal.Silent := by
  unfold Machine.dropCaptures
  split <;> exact ⟨rfl, rfl⟩

end Journal

/-! ## Serving requests -/

/-- What comes of requests made one after another: what they leave behind, what is written down on the way,
the results, and the place and the error of the one that failed. -/
structure Service (σ ρ ε : Type) where
  environment : σ
  journal : List CallEvent := []
  results : List ρ := []
  failure : Option (Nat × ε) := none

namespace Callbacks

variable {σ ρ ε : Type} (b : Callbacks σ ρ ε)

/-- The reply to one request. Without a hook a boundary passes unnoticed. -/
def reply (request : Request) (environment : σ) : Reply σ ρ ε :=
  match request with
  | .perform action captures => b.dispatch action captures environment
  | .boundary =>
    match b.onBoundary with
    | some hook => ⟨(hook environment).1, [], (hook environment).2.map fun _ => none⟩
    | none => ⟨environment, [], .ok none⟩

/-- Whether anyone hears of a request. -/
def hears : Request → Bool
  | .perform .. => true
  | .boundary => b.onBoundary.isSome

/-- Requests are made one after another until one fails. -/
def serve : List Request → σ → Service σ ρ ε
  | [], environment => { environment }
  | request :: requests, environment =>
    let reply := b.reply request environment
    match reply.answer with
    | .error e =>
      { environment := reply.environment, journal := reply.journal, failure := some (0, e) }
    | .ok result =>
      let rest := serve requests reply.environment
      { environment := rest.environment
        journal := reply.journal ++ rest.journal
        results := result.toList ++ rest.results
        failure := rest.failure.map fun x => (x.1 + 1, x.2) }

variable {b} {environment : σ} {requests : List Request}

/-- Behind a request that failed no other one is made. -/
theorem serve_append_of_failed {x : Nat × ε} (h : (b.serve requests environment).failure = some x)
    (more : List Request) :
    b.serve (requests ++ more) environment = b.serve requests environment := by
  induction requests generalizing environment x with
  | nil => cases h
  | cons request requests ih =>
    simp only [List.cons_append, serve] at h ⊢
    cases ha : (b.reply request environment).answer with
    | error e => rfl
    | ok result =>
      simp only [ha, Option.map_eq_some_iff] at h ⊢
      obtain ⟨y, hy, -⟩ := h
      rw [ih hy]

/-- Behind requests that were all answered the others are made. -/
theorem serve_append_of_answered (h : (b.serve requests environment).failure = none)
    (more : List Request) :
    b.serve (requests ++ more) environment =
      { environment := (b.serve more (b.serve requests environment).environment).environment
        journal := (b.serve requests environment).journal
          ++ (b.serve more (b.serve requests environment).environment).journal
        results := (b.serve requests environment).results
          ++ (b.serve more (b.serve requests environment).environment).results
        failure := (b.serve more (b.serve requests environment).environment).failure.map
          fun x => (requests.length + x.1, x.2) } := by
  induction requests generalizing environment with
  | nil => simp [serve]
  | cons request requests ih =>
    simp only [List.cons_append, serve] at h ⊢
    cases ha : (b.reply request environment).answer with
    | error e => simp [ha] at h
    | ok result =>
      simp only [ha, Option.map_eq_none_iff] at h ⊢
      simp [ih h, Option.map_map, Function.comp_def, Nat.add_right_comm]

theorem serve_singleton_of_ok {request : Request} {result : Option ρ}
    (h : (b.reply request environment).answer = .ok result) :
    b.serve [request] environment =
      { environment := (b.reply request environment).environment
        journal := (b.reply request environment).journal
        results := result.toList } := by
  simp [serve, h]

theorem serve_singleton_of_error {request : Request} {e : ε}
    (h : (b.reply request environment).answer = .error e) :
    b.serve [request] environment =
      { environment := (b.reply request environment).environment
        journal := (b.reply request environment).journal
        failure := some (0, e) } := by
  simp [serve, h]

/-- Requests are all answered where each of them is, whatever the environment. -/
theorem serve_failure_eq_none
    (h : ∀ request ∈ requests, ∀ s, ∃ result, (b.reply request s).answer = .ok result) :
    (b.serve requests environment).failure = none := by
  induction requests generalizing environment with
  | nil => rfl
  | cons request requests ih =>
    obtain ⟨result, ha⟩ := h request List.mem_cons_self environment
    simp only [serve, ha, Option.map_eq_none_iff]
    exact ih fun request' hm => h request' (List.mem_cons_of_mem _ hm)

/-- The first request to fail is the one whose reply is an error behind requests that are answered. -/
theorem serve_failure_eq_some {n : Nat} {request : Request} {e : ε} (hn : requests[n]? = some request)
    (hanswered : (b.serve (requests.take n) environment).failure = none)
    (he : (b.reply request (b.serve (requests.take n) environment).environment).answer = .error e) :
    (b.serve requests environment).failure = some (n, e) := by
  obtain ⟨hlt, rfl⟩ := List.getElem?_eq_some_iff.mp hn
  have hsplit : requests = requests.take n ++ requests[n] :: requests.drop (n + 1) := by
    rw [List.getElem_cons_drop, List.take_append_drop]
  have hlength : (requests.take n).length = n := List.length_take_of_le (Nat.le_of_lt hlt)
  rw [hsplit, serve_append_of_answered hanswered, hlength]
  simp [serve, he]

/-- The request that failed is one of those that were made. -/
theorem lt_length_of_failed {n : Nat} {e : ε}
    (h : (b.serve requests environment).failure = some (n, e)) : n < requests.length := by
  induction requests generalizing environment n with
  | nil => cases h
  | cons request requests ih =>
    simp only [serve] at h
    cases ha : (b.reply request environment).answer with
    | error e' =>
      simp only [ha, Option.some.injEq, Prod.mk.injEq] at h
      simp [← h.1]
    | ok result =>
      simp only [ha, Option.map_eq_some_iff] at h
      obtain ⟨⟨k, e'⟩, hk, hn⟩ := h
      obtain ⟨rfl, rfl⟩ := Prod.mk.inj hn
      exact Nat.succ_lt_succ (ih hk)

/-- Up to the request that failed they are served alike, whether or not others follow. -/
theorem serve_take_of_failed {n : Nat} {e : ε} (h : (b.serve requests environment).failure = some (n, e)) :
    b.serve (requests.take (n + 1)) environment = b.serve requests environment := by
  induction requests generalizing environment n with
  | nil => rfl
  | cons request requests ih =>
    simp only [List.take_succ_cons, serve] at h ⊢
    cases ha : (b.reply request environment).answer with
    | error e' => rfl
    | ok result =>
      simp only [ha, Option.map_eq_some_iff] at h
      obtain ⟨⟨k, e'⟩, hk, hn⟩ := h
      obtain ⟨rfl, rfl⟩ := Prod.mk.inj hn
      simp only [ih hk]

end Callbacks

/-! ## Runs that only take note -/

/-- Callbacks that take note of what they are asked and do nothing else. They cannot fail. -/
def Request.noting : Callbacks (List Request) Empty Empty where
  dispatch action captures noted := ⟨noted ++ [.perform action captures], [], .ok none⟩
  onBoundary := some fun noted => (noted ++ [.boundary], .ok ())

/-- The same table with callbacks that only take note. -/
def Machine.noted {σ ρ ε : Type} (m : Machine σ ρ ε) : Machine (List Request) Empty Empty :=
  { table := m.table, callbacks := Request.noting }

/-- A fault with another error of the callbacks. -/
def Fault.map {ε δ : Type} (f : ε → δ) : Fault ε → Fault δ
  | .inputTooLong length limit => .inputTooLong length limit
  | .table error => .table error
  | .capture error => .capture error
  | .callback error => .callback (f error)
  | .noProgress => .noProgress

/-- An ending with another error of the callbacks. -/
def Ending.map {ε δ : Type} (f : ε → δ) : Ending ε → Ending δ
  | .complete => .complete
  | .unmatched expected => .unmatched expected
  | .abandoned fault => .abandoned (fault.map f)

/-- The configuration with another environment. -/
def Config.within {σ τ : Type} (c : Config σ) (environment : τ) : Config τ := { c with environment }

/-- A stretch takes note of requests behind those noted before, each to perform an action that the table
names or to take note of a boundary. -/
structure Noted (t : Table) (before requests : List Request) (r : Progress (List Request) Empty Empty) :
    Prop where
  environment : r.config.environment = before ++ requests
  named : ∀ action captures, .perform action captures ∈ requests → ∃ name, t.actionName action = .ok name

/-- What a stretch comes to beside the same stretch that only takes note of the requests. -/
inductive Relays {σ ρ ε : Type} (b : Callbacks σ ρ ε) (environment : σ) (requests : List Request)
    (q : Progress σ ρ ε) (r : Progress (List Request) Empty Empty) : Prop where
  /-- All requests are answered, and the stretch comes to the same. -/
  | answered (served : (b.serve requests environment).failure = none)
    (config : q.config = r.config.within (b.serve requests environment).environment)
    (ending : q.ending = r.ending.map (Ending.map Empty.elim))
    (actions : q.actions = r.actions)
    (results : q.results = (b.serve requests environment).results)
    (accepted : q.journal.accepted = r.journal.accepted)
    (signals : q.journal.signals = requests.map Request.signal)
    (calls : q.journal.calls = (b.serve requests environment).journal)
  /-- A request fails. The stretch ends with it, and where it was to perform an action the captures are
  dropped. -/
  | failed (place : Nat) (e : ε) (served : (b.serve requests environment).failure = some (place, e))
    (leaves : q.config.environment = (b.serve requests environment).environment)
    (ending : q.ending = some (.abandoned (.callback e)))
    (signals : q.journal.signals = (requests.take (place + 1)).map Request.signal)
    (calls : q.journal.calls = (b.serve requests environment).journal)
    (held : ∀ action captures, requests[place]? = some (.perform action captures) →
      q.config.captures.toList = [])

/-- A stretch serves those of the requests noted by the same stretch of which anyone hears. -/
def Served {σ ρ ε : Type} (m : Machine σ ρ ε) (environment : σ) (before : List Request)
    (q : Progress σ ρ ε) (r : Progress (List Request) Empty Empty) : Prop :=
  ∃ requests, Noted m.table before requests r
    ∧ Relays m.callbacks environment (requests.filter m.callbacks.hears) q r

section Stretches

variable {σ ρ ε : Type} {b : Callbacks σ ρ ε} {t : Table} {environment : σ}
  {before requests more : List Request} {q : Progress σ ρ ε} {r : Progress (List Request) Empty Empty}
  {next : Config σ → Progress σ ρ ε} {next' : Config (List Request) → Progress (List Request) Empty Empty}

theorem Noted.andThen (h : Noted t before requests r) (hr : r.ending = none)
    (hmore : Noted t r.config.environment more (next' r.config)) :
    Noted t before (requests ++ more) (r.andThen next') := by
  rw [Progress.andThen_of_none hr]
  refine ⟨?_, fun action captures hm => ?_⟩
  · rw [← List.append_assoc, ← h.environment]
    exact hmore.environment
  · rcases List.mem_append.mp hm with hm | hm
    · exact h.named action captures hm
    · exact hmore.named action captures hm

/-- A stretch in which a request failed has ended with it, whatever is asked behind it. -/
theorem Relays.andThen_of_failed (h : Relays b environment requests q r)
    (hfailed : (b.serve requests environment).failure ≠ none)
    (r' : Progress (List Request) Empty Empty) :
    Relays b environment (requests ++ more) (q.andThen next) r' := by
  cases h with
  | answered served => exact absurd served hfailed
  | failed place e served leaves ending signals calls held =>
    have hlt := Callbacks.lt_length_of_failed served
    have hsame := Callbacks.serve_append_of_failed served more
    rw [Progress.andThen_of_some ending]
    refine .failed place e (by rw [hsame, served]) (by rw [hsame, leaves]) ending ?_
      (by rw [hsame, calls]) fun action captures hplace => ?_
    · rw [List.take_append_of_le_length hlt, signals]
    · rw [List.getElem?_append_left hlt] at hplace
      exact held action captures hplace

/-- Behind a stretch whose requests are all answered the next one asks its own. -/
theorem Relays.andThen_of_answered (h : Relays b environment requests q r)
    (hanswered : (b.serve requests environment).failure = none) (hr : r.ending = none)
    (hrest : Relays b (b.serve requests environment).environment more
      (next (r.config.within (b.serve requests environment).environment)) (next' r.config)) :
    Relays b environment (requests ++ more) (q.andThen next) (r.andThen next') := by
  have hall := Callbacks.serve_append_of_answered hanswered more
  cases h with
  | failed place e served => rw [hanswered] at served; cases served
  | answered _ config ending actions results accepted signals calls =>
    have hq : q.ending = none := by rw [ending, hr]; rfl
    rw [Progress.andThen_of_none hq, Progress.andThen_of_none hr, config]
    cases hrest with
    | answered served' config' ending' actions' results' accepted' signals' calls' =>
      refine .answered ?_ ?_ ending' ?_ ?_ ?_ ?_ ?_
      · rw [hall, served']; rfl
      · rw [hall]; exact config'
      · rw [actions, actions']
      · rw [hall, results, results']
      · rw [Journal.accepted_append, Journal.accepted_append, accepted, accepted']
      · rw [Journal.signals_append, signals, signals', List.map_append]
      · rw [Journal.calls_append, hall, calls, calls']
    | failed place e served' leaves' ending' signals' calls' held' =>
      refine .failed (requests.length + place) e ?_ ?_ ending' ?_ ?_ fun action captures hplace => ?_
      · rw [hall, served']; rfl
      · rw [hall]; exact leaves'
      · rw [Journal.signals_append, signals, signals', Nat.add_assoc, List.take_length_add_append,
          List.map_append]
      · rw [Journal.calls_append, hall, calls, calls']
      · rw [List.getElem?_append_right (Nat.le_add_right _ _), Nat.add_sub_cancel_left] at hplace
        exact held' action captures hplace

end Stretches

namespace Served

variable {σ ρ ε : Type} {m : Machine σ ρ ε} {environment : σ} {before : List Request}

/-- A stretch that asks nothing of the callbacks. -/
theorem of_silent (d : Config (List Request)) (ending : Option (Ending Empty)) {j : Journal}
    (hj : j.Silent) :
    Served m environment d.environment
      { config := d.within environment, ending := ending.map (Ending.map Empty.elim), journal := j }
      { config := d, ending, journal := j } :=
  ⟨[], ⟨(List.append_nil _).symm, by simp⟩, .answered rfl rfl rfl rfl rfl rfl hj.1 hj.2⟩

theorem note (d : Config (List Request)) {j : Journal} (hj : j.Silent) :
    Served m environment d.environment (.note (d.within environment) j) (.note d j) :=
  of_silent d none hj

theorem stop (d : Config (List Request)) (ending : Ending Empty) :
    Served m environment d.environment (.stop (d.within environment) (ending.map Empty.elim))
      (.stop d ending) :=
  of_silent d (some ending) Journal.silent_nil

/-- **Stretches that serve their requests do so one behind the other.** -/
theorem andThen {q : Progress σ ρ ε} {r : Progress (List Request) Empty Empty}
    {next : Config σ → Progress σ ρ ε}
    {next' : Config (List Request) → Progress (List Request) Empty Empty}
    (h : Served m environment before q r)
    (hnext : ∀ (d : Config (List Request)) s, Served m s d.environment (next (d.within s)) (next' d)) :
    Served m environment before (q.andThen next) (r.andThen next') := by
  obtain ⟨requests, hnoted, hrelays⟩ := h
  cases hr : r.ending with
  | some ending =>
    -- Where the noting stretch has ended, so has the other one, with a request that failed or alike.
    have hq : ∃ e, q.ending = some e := by
      cases hrelays with
      | answered _ _ he => exact ⟨_, by rw [he, hr]; rfl⟩
      | failed _ _ _ _ he => exact ⟨_, he⟩
    obtain ⟨e, he⟩ := hq
    rw [Progress.andThen_of_some hr, Progress.andThen_of_some he]
    exact ⟨requests, hnoted, hrelays⟩
  | none =>
    obtain ⟨more, hmore, hrest⟩ := hnext r.config
      (m.callbacks.serve (requests.filter m.callbacks.hears) environment).environment
    refine ⟨requests ++ more, hnoted.andThen hr hmore, ?_⟩
    rw [List.filter_append]
    by_cases hanswered : (m.callbacks.serve (requests.filter m.callbacks.hears) environment).failure = none
    · exact hrelays.andThen_of_answered hanswered hr hrest
    · exact hrelays.andThen_of_failed hanswered _

end Served

/-! ## The parts of a step -/

namespace Machine

variable {σ ρ ε : Type} (m : Machine σ ρ ε)

theorem served_dropCaptures (d : Config (List Request)) (s : σ) :
    Served m s d.environment (dropCaptures (d.within s)) (dropCaptures d) :=
  Served.note { d with captures := d.captures.clear } (Journal.silent_dropCaptures (ρ := ρ) (ε := ε) d)

theorem served_hold (token : Token) (lexeme : Lexeme) (d : Config (List Request)) (s : σ) :
    Served m s d.environment (hold token lexeme (d.within s)) (hold token lexeme d) := by
  rw [hold_eq, hold_eq]
  show Served m s d.environment _ _
  cases token.capture? lexeme with
  | none => exact Served.note d Journal.silent_nil
  | some x =>
    obtain ⟨identifier, value⟩ := x
    have hsame : (d.within s).captures.push identifier value = d.captures.push identifier value := rfl
    simp only [hsame]
    cases d.captures.push identifier value with
    | ok captures => exact Served.note { d with captures } Journal.silent_nil
    | error e => exact Served.stop d (.abandoned (.capture e))

/-- What is written down of an invocation: the request, and what the dispatcher says. -/
theorem read_invocation (action : ActionId) (name : String) (c : Config σ) :
    (m.invocation action name c).signals = [.perform action c.captures.toList]
      ∧ (m.invocation action name c).calls
        = (m.callbacks.dispatch action c.captures c.environment).journal
      ∧ (m.invocation action name c).accepted = [] := by
  obtain ⟨hsignals, hcalls⟩ := Journal.silent_dropCaptures (ρ := ρ) (ε := ε) c
  have haccepted : (dropCaptures c : Progress σ ρ ε).journal.accepted = [] := by
    refine Journal.accepted_eq_nil fun e he p s t l => ?_
    obtain ⟨n, rfl⟩ := dropCaptures_journal c e he
    simp
  unfold invocation
  refine ⟨?_, ?_, ?_⟩
  · rw [Journal.signals_append, hsignals, List.append_nil]
    exact congrArg (_ :: ·) (Journal.signals_map_call _)
  · rw [Journal.calls_append, hcalls, List.append_nil]
    exact Journal.calls_map_call _
  · rw [Journal.accepted_append, haccepted, List.append_nil]
    exact Journal.accepted_map_call _

/-- An action that is invoked is the one request of its transition. -/
theorem served_invoke (action : ActionId) (next : Option StateName) (d : Config (List Request)) (s : σ) :
    Served m s d.environment (m.follow (.invoke action next) (d.within s))
      (m.noted.follow (.invoke action next) d) := by
  have hf := m.followed (.invoke action next) (d.within s)
  have hn := m.noted.followed (.invoke action next) d
  generalize m.follow (.invoke action next) (d.within s) = q at hf ⊢
  generalize m.noted.follow (.invoke action next) d = r at hn ⊢
  cases hn with
  | @unknown _ _ e h =>
    have h' : m.table.actionName action = .error e := h
    cases hf with
    | unknown h'' =>
      obtain rfl := Except.error.inj (h'.symm.trans h'')
      exact Served.stop d (.abandoned (.table e))
    | failed h'' | performed h'' => rw [h'] at h''; cases h''
  | failed _ h => cases h
  | @performed _ _ name result h hanswer =>
    have h' : m.table.actionName action = .ok name := h
    obtain rfl : none = result := Except.ok.inj hanswer
    obtain ⟨-, -, haccepted⟩ := m.noted.read_invocation action name d
    obtain ⟨hsignals, hcalls, haccepted'⟩ := m.read_invocation action name (d.within s)
    refine ⟨[.perform action d.captures], ⟨rfl, fun a captures hm => ?_⟩, ?_⟩
    · obtain ⟨rfl, -⟩ : a = action ∧ _ := by simpa using hm
      exact ⟨name, h'⟩
    rw [List.filter_cons_of_pos rfl, List.filter_nil]
    cases hf with
    | unknown h'' => rw [h'] at h''; cases h''
    | @performed _ _ _ result h'' ha =>
      obtain rfl := Except.ok.inj (h'.symm.trans h'')
      have hserve : m.callbacks.serve [.perform action d.captures] s = _ :=
        Callbacks.serve_singleton_of_ok ha
      refine .answered (by rw [hserve]) (by rw [hserve]; rfl) rfl rfl (by rw [hserve]) ?_ ?_ ?_
      · exact haccepted'.trans haccepted.symm
      · exact hsignals
      · rw [hserve]
        exact hcalls
    | @failed _ _ _ e h'' ha =>
      obtain rfl := Except.ok.inj (h'.symm.trans h'')
      have hserve : m.callbacks.serve [.perform action d.captures] s = _ :=
        Callbacks.serve_singleton_of_error ha
      refine .failed 0 e (by rw [hserve]) (by rw [hserve]; rfl) rfl ?_ ?_ fun _ _ _ => rfl
      · exact hsignals
      · rw [hserve]
        exact hcalls

/-- **A transition asks for the action it invokes, if it invokes one.** -/
theorem served_follow (transition : Transition) (d : Config (List Request)) (s : σ) :
    Served m s d.environment (m.follow transition (d.within s)) (m.noted.follow transition d) := by
  cases transition with
  | goto state =>
    show Served m s d.environment
      (if state = m.table.initial then dropCaptures { d.within s with state }
        else .note { d.within s with state } [])
      (if state = m.table.initial then dropCaptures { d with state } else .note { d with state } [])
    split
    · exact served_dropCaptures m { d with state } s
    · exact Served.note { d with state } Journal.silent_nil
  | invoke action next => exact served_invoke m action next d s

/-- A completed command is a request, whether there is a hook or not. -/
theorem served_signal (token : Token) (lexeme : Lexeme) (d : Config (List Request)) (s : σ) :
    Served m s d.environment (m.signal token lexeme (d.within s)) (m.noted.signal token lexeme d) := by
  by_cases hend : token.kind = .commandEnd ∧ lexeme.completesCommand = true
  · have hr : m.noted.signal token lexeme d
        = { config := { d with environment := d.environment ++ [.boundary] }
            journal := [.boundary d.position] } := if_pos hend
    rw [hr]
    refine ⟨[.boundary], ⟨rfl, by simp⟩, ?_⟩
    unfold signal
    cases hh : m.callbacks.onBoundary with
    | none =>
      have hunheard : ¬m.callbacks.hears .boundary = true := by simp [Callbacks.hears, hh]
      rw [List.filter_cons_of_neg hunheard]
      exact .answered rfl rfl rfl rfl rfl rfl rfl rfl
    | some hook =>
      have hs : hook (d.within s).environment = hook s := rfl
      have hheard : m.callbacks.hears .boundary = true := by simp [Callbacks.hears, hh]
      rw [List.filter_cons_of_pos hheard, List.filter_nil]
      cases hx : (hook s).2 with
      | ok =>
        simp only [if_pos hend, hs, hx]
        have hserve : m.callbacks.serve [.boundary] s = { environment := (hook s).1 } := by
          simp [Callbacks.serve, Callbacks.reply, hh, hx, Except.map]
        exact .answered (by rw [hserve]) (by rw [hserve]; rfl) rfl rfl (by rw [hserve]; rfl) rfl rfl
          (by rw [hserve]; rfl)
      | error e =>
        simp only [if_pos hend, hs, hx]
        have hserve : m.callbacks.serve [.boundary] s
            = { environment := (hook s).1, failure := some (0, e) } := by
          simp [Callbacks.serve, Callbacks.reply, hh, hx, Except.map]
        refine .failed 0 e (by rw [hserve]) (by rw [hserve]; rfl) rfl rfl
          (by rw [hserve]; rfl) fun _ _ hm => ?_
        cases hm
  · have hr : m.noted.signal token lexeme d = .note d [] := if_neg hend
    have hq : m.signal token lexeme (d.within s) = .note (d.within s) [] := by
      unfold signal
      split
      · exact if_neg hend
      · rfl
    rw [hr, hq]
    exact Served.note d Journal.silent_nil

theorem served_advance (lexeme : Lexeme) (d : Config (List Request)) (s : σ) :
    Served m s d.environment (advance lexeme (d.within s)) (advance lexeme d) := by
  by_cases hle : lexeme.consumed ≤ d.rest.length
  · have hle' : lexeme.consumed ≤ (d.within s).rest.length := hle
    rw [advance_of_le hle, advance_of_le hle']
    exact Served.note (d.moved lexeme) Journal.silent_nil
  · have hlt := Nat.lt_of_not_le hle
    have hlt' : (d.within s).rest.length < lexeme.consumed := hlt
    rw [advance_of_lt hlt, advance_of_lt hlt']
    exact Served.stop (d.moved lexeme) .complete

/-! ## Steps and runs -/

theorem served_accept (token : Token) (lexeme : Lexeme) (d : Config (List Request)) (s : σ) :
    Served m s d.environment (m.accept token lexeme (d.within s)) (m.noted.accept token lexeme d) :=
  Served.note (j := [.matched d.position d.state token lexeme]) d ⟨rfl, rfl⟩
    |>.andThen (served_hold m token lexeme)
    |>.andThen (served_follow m token.transition)
    |>.andThen (served_signal m token lexeme)
    |>.andThen (served_advance m lexeme)

/-- **A step serves the requests that it notes.** -/
theorem served_step (d : Config (List Request)) (s : σ) :
    Served m s d.environment (m.step (d.within s)) (m.noted.step d) := by
  have hskip : (d.within s).skipBlanks = d.skipBlanks.within s := rfl
  have htable : m.noted.table = m.table := rfl
  have hstate : (d.skipBlanks.within s).state = d.skipBlanks.state := rfl
  unfold step
  simp only [hskip, htable, hstate]
  cases m.table.tokens d.skipBlanks.state with
  | error e => exact Served.stop d.skipBlanks (.abandoned (.table e))
  | ok tokens =>
    refine Served.andThen (Served.note d.skipBlanks (Journal.silent_tries tokens d.skipBlanks)) ?_
    intro d' s'
    have hrest : (d'.within s').rest = d'.rest := rfl
    simp only [hrest]
    cases choose? tokens d'.rest with
    | none => exact Served.stop d' (.unmatched _)
    | some x => exact served_accept m x.1 x.2 d' s'

/-- **So does any number of steps.** -/
theorem served_run (budget : Nat) (d : Config (List Request)) (s : σ) :
    Served m s d.environment (m.run budget (d.within s)) (m.noted.run budget d) := by
  induction budget generalizing d s with
  | zero => exact Served.stop d (.abandoned .noProgress)
  | succ n ih => exact (served_step m d s).andThen ih

end Machine

/-! ## Whole texts -/

/-- The verdict on a run that only took note, with results. -/
def Outcome.judged {ρ ε : Type} (results : List ρ) :
    Except (Fault Empty) (Outcome Empty) → Except (Fault ε) (Outcome ρ)
  | .ok o => .ok ⟨o.actions, results, o.diagnostic⟩
  | .error fault => .error (fault.map Empty.elim)

theorem Outcome.results_of_judged {ρ ε : Type} {results : List ρ} {o : Outcome ρ}
    {v : Except (Fault Empty) (Outcome Empty)}
    (h : (judged results v : Except (Fault ε) (Outcome ρ)) = .ok o) : o.results = results := by
  cases v with
  | ok o' => rw [← Except.ok.inj h]
  | error fault => cases h

namespace Parser

variable {σ ρ ε τ κ δ : Type}

/-- The same parser with other callbacks. -/
def withCallbacks (p : Parser σ ρ ε) (b : Callbacks τ κ δ) : Parser τ κ δ :=
  { table := p.table
    callbacks := b
    captureCapacity := p.captureCapacity
    maxInputLength := p.maxInputLength }

/-- The same parser with callbacks that only take note. -/
def noted (p : Parser σ ρ ε) : Parser (List Request) Empty Empty := p.withCallbacks Request.noting

/-- The requests that a text makes as long as none fails, those of which nobody hears left out. They do not
depend on the callbacks. -/
def requests (p : Parser σ ρ ε) (text : String) : List Request :=
  (p.noted.parse text []).environment.filter p.callbacks.hears

/-- What the callbacks make of the requests of a text. -/
def service (p : Parser σ ρ ε) (text : String) (environment : σ) : Service σ ρ ε :=
  p.callbacks.serve (p.requests text) environment

/-- None of the requests of a text fails. -/
def Answered (p : Parser σ ρ ε) (text : String) (environment : σ) : Prop :=
  (p.service text environment).failure = none

/-- The requests that are in fact made of the callbacks: all of them, or those up to the first that fails. -/
def asked (p : Parser σ ρ ε) (text : String) (environment : σ) : List Request :=
  match (p.service text environment).failure with
  | none => p.requests text
  | some (place, _) => (p.requests text).take (place + 1)

/-- What the report on a text owes to the requests of the text. -/
structure Serves (p : Parser σ ρ ε) (text : String) (s : σ) : Prop where
  /-- The actions that are asked for have a name. -/
  named : ∀ action captures, .perform action captures ∈ p.requests text →
    ∃ name, p.table.actionName action = .ok name
  environment : (p.parse text s).environment = (p.service text s).environment
  calls : (p.parse text s).journal.calls = (p.service text s).journal
  /-- Where all requests are answered, the report is that of a run which only takes note, with the results. -/
  answered : p.Answered text s →
    (p.parse text s).verdict = Outcome.judged (p.service text s).results (p.noted.parse text []).verdict
      ∧ (p.parse text s).journal.accepted = (p.noted.parse text []).journal.accepted
      ∧ (p.parse text s).journal.signals = (p.requests text).map Request.signal
  /-- Where one fails, the run is given up with it. -/
  failed : ∀ place e, (p.service text s).failure = some (place, e) →
    (p.parse text s).verdict = .error (.callback e)
      ∧ (p.parse text s).journal.signals = ((p.requests text).take (place + 1)).map Request.signal
      ∧ ∀ action captures, (p.requests text)[place]? = some (.perform action captures) →
        (p.parse text s).held = []

variable {p : Parser σ ρ ε} {text : String} {s : σ}

/-- Around a run nothing is asked of the callbacks. -/
theorem conclude_silent (text : String) (q : Progress σ ρ ε) :
    (conclude text q).journal.signals = q.journal.signals
      ∧ (conclude text q).journal.calls = q.journal.calls := by
  obtain ⟨last, hj, hlast⟩ := conclude_last text q
  have hsilent : Journal.Silent last := by
    refine ⟨List.filterMap_eq_nil_iff.mpr fun e he => ?_, List.filterMap_eq_nil_iff.mpr fun e he => ?_⟩
    · rcases hlast e he with ⟨_, rfl⟩ | ⟨_, _, rfl⟩ <;> rfl
    · rcases hlast e he with ⟨_, rfl⟩ | ⟨_, _, rfl⟩ <;> rfl
  rw [hj, Journal.signals_append, Journal.calls_append, hsilent.1, hsilent.2, List.append_nil,
    List.append_nil]
  exact ⟨rfl, rfl⟩

/-- Runs that come to the same come to the same verdict. -/
theorem verdict_conclude {q : Progress σ ρ ε} {r : Progress (List Request) Empty Empty} {environment : σ}
    (hconfig : q.config = r.config.within environment)
    (hending : q.ending = r.ending.map (Ending.map Empty.elim)) (hactions : q.actions = r.actions) :
    (conclude text q).verdict = Outcome.judged q.results (conclude text r).verdict := by
  unfold conclude
  rw [hending, hactions, hconfig]
  cases r.ending with
  | none => rfl
  | some ending => cases ending <;> rfl

/-- A report on a text that asks nothing. -/
theorem serves_of_silent (h : (p.noted.parse text []).environment = [])
    (henvironment : (p.parse text s).environment = s) (hsilent : (p.parse text s).journal.Silent)
    (hverdict : (p.parse text s).verdict = Outcome.judged [] (p.noted.parse text []).verdict)
    (haccepted : (p.parse text s).journal.accepted = (p.noted.parse text []).journal.accepted) :
    p.Serves text s := by
  have hrequests : p.requests text = [] := by rw [requests, h]; rfl
  have hservice : p.service text s = { environment := s } := by rw [service, hrequests]; rfl
  refine ⟨by simp [hrequests], ?_, ?_, fun _ => ?_, fun place e he => ?_⟩
  · rw [hservice, henvironment]
  · rw [hservice, hsilent.2]
  · rw [hservice, hrequests]
    exact ⟨hverdict, haccepted, hsilent.1⟩
  · rw [hservice] at he
    cases he

/-- The report on a run owes to the requests of the text what the run owes to them. -/
theorem serves_of_served {q : Progress σ ρ ε} {r : Progress (List Request) Empty Empty}
    (hparse : p.parse text s = conclude text q) (hnoted : p.noted.parse text [] = conclude text r)
    (hserved : Served p.toMachine s [] q r) : p.Serves text s := by
  obtain ⟨requests, hasked, hrelays⟩ := hserved
  have hrequests : p.requests text = requests.filter p.callbacks.hears := by
    rw [Parser.requests, hnoted, conclude_environment, hasked.environment, List.nil_append]
  have hservice : p.service text s = p.callbacks.serve (requests.filter p.callbacks.hears) s := by
    rw [service, hrequests]
  have hnamed : ∀ action captures, .perform action captures ∈ p.requests text →
      ∃ name, p.table.actionName action = .ok name := by
    intro action captures hm
    rw [hrequests] at hm
    exact hasked.named action captures (List.mem_filter.mp hm).1
  obtain ⟨hsignals, hcalls⟩ := conclude_silent text q
  cases hrelays with
  | answered served config ending actions results accepted signals calls =>
    refine ⟨hnamed, ?_, ?_, fun _ => ⟨?_, ?_, ?_⟩, fun place e he => ?_⟩
    · rw [hparse, conclude_environment, config, hservice]; rfl
    · rw [hparse, hcalls, calls, hservice]
    · rw [hparse, hnoted, hservice, ← results]
      exact verdict_conclude config ending actions
    · rw [hparse, hnoted, conclude_accepted, conclude_accepted, accepted]
    · rw [hparse, hsignals, signals, hrequests]
    · rw [hservice, served] at he
      cases he
  | failed place e served leaves ending signals calls held =>
    refine ⟨hnamed, ?_, ?_, fun he => ?_, fun place' e' he => ?_⟩
    · rw [hparse, conclude_environment, leaves, hservice]
    · rw [hparse, hcalls, calls, hservice]
    · rw [Answered, hservice, served] at he
      cases he
    · rw [hservice, served] at he
      obtain ⟨rfl, rfl⟩ := Prod.mk.inj (Option.some.inj he)
      rw [hparse, hrequests, hsignals, conclude_held]
      refine ⟨?_, signals, held⟩
      unfold conclude
      rw [ending]

/-- **A text makes its requests whoever answers them**, in order up to the first that fails. -/
theorem serves (p : Parser σ ρ ε) (text : String) (s : σ) : p.Serves text s := by
  cases hexceeds : p.exceeds text with
  | some limit =>
    have hparse := parse_of_exceeds hexceeds s
    have hnoted := parse_of_exceeds (p := p.noted) hexceeds []
    exact serves_of_silent (by rw [hnoted]) (by rw [hparse]) (by rw [hparse]; exact ⟨rfl, rfl⟩)
      (by rw [hparse, hnoted]; rfl) (by rw [hparse, hnoted])
  | none =>
    have hexceeds' : p.noted.exceeds text = none := hexceeds
    cases hempty : Captures.empty? p.captureCapacity with
    | error e =>
      have hempty' : Captures.empty? p.noted.captureCapacity = .error e := hempty
      have hparse : p.parse text s = ⟨.error (.capture e), s, [], [.started text]⟩ := by
        simp only [parse, hexceeds, hempty]
      have hnoted : p.noted.parse text [] = ⟨.error (.capture e), [], [], [.started text]⟩ := by
        simp only [parse, hexceeds', hempty']
      exact serves_of_silent (by rw [hnoted]) (by rw [hparse]) (by rw [hparse]; exact ⟨rfl, rfl⟩)
        (by rw [hparse, hnoted]; rfl) (by rw [hparse, hnoted])
    | ok captures =>
      have hserved : Served p.toMachine s [] (p.progress text captures s)
          (p.noted.progress text captures []) :=
        Machine.served_run p.toMachine (budget text) (p.noted.start text captures []) s
      exact serves_of_served (parse_eq_conclude hexceeds hempty s)
        (parse_eq_conclude (p := p.noted) hexceeds' hempty []) hserved

/-- The report on a text shows what the dispatcher and the hook are asked for, and what they make of it. -/
structure Asks (p : Parser σ ρ ε) (text : String) (s : σ) : Prop where
  /-- An invocation in the journal is a request to the dispatcher, with the captures that it is handed, and a
  boundary is a call of the hook. They stand in the order of the requests. -/
  signals : (p.parse text s).journal.signals = (p.asked text s).map Request.signal
  /-- The environment is what the dispatcher and the hook leave behind. -/
  environment : (p.parse text s).environment = (p.callbacks.serve (p.asked text s) s).environment
  /-- So is what is written down of the calls. -/
  calls : (p.parse text s).journal.calls = (p.callbacks.serve (p.asked text s) s).journal

/-- **The journal shows what is asked of the callbacks**, and nothing else happens to the environment. -/
theorem asks (p : Parser σ ρ ε) (text : String) (s : σ) : p.Asks text s := by
  have hserves := serves p text s
  have hserved : p.callbacks.serve (p.asked text s) s = p.service text s := by
    unfold asked
    split
    · rfl
    · next hfailure => exact Callbacks.serve_take_of_failed hfailure
  refine ⟨?_, hserved ▸ hserves.environment, hserved ▸ hserves.calls⟩
  unfold asked
  split
  · next hfailure => exact (hserves.answered hfailure).2.2
  · next hfailure => exact (hserves.failed _ _ hfailure).2.1

/-- A request to the dispatcher is an invocation in the journal. -/
theorem exists_invoked_of_asked {action : ActionId} {captures : Captures}
    (h : .perform action captures ∈ p.asked text s) :
    ∃ pre name post, (p.parse text s).journal = pre ++ .invoked action name captures.toList :: post := by
  have hsignal : Signal.perform action captures.toList ∈ (p.parse text s).journal.signals := by
    rw [(asks p text s).signals]
    exact List.mem_map_of_mem h
  obtain ⟨event, hevent, hshown⟩ := List.mem_filterMap.mp hsignal
  cases event with
  | invoked action' name held =>
    obtain ⟨rfl, rfl⟩ := Signal.perform.inj (Option.some.inj hshown)
    obtain ⟨pre, post, hjournal⟩ := List.append_of_mem hevent
    exact ⟨pre, name, post, hjournal⟩
  | boundary => cases Option.some.inj hshown
  | _ => cases hshown

/-- A text with an outcome has all its requests answered. -/
theorem answered_of_outcome {o : Outcome ρ} (h : (p.parse text s).verdict = .ok o) : p.Answered text s := by
  unfold Answered
  cases hfailure : (p.service text s).failure with
  | none => rfl
  | some failure =>
    obtain ⟨hverdict, -⟩ := (serves p text s).failed failure.1 failure.2 hfailure
    rw [hverdict] at h
    cases h

/-- Callbacks that never fail answer all requests. -/
theorem answered_of_unfailing (h : p.Unfailing) (text : String) (s : σ) : p.Answered text s := by
  refine Callbacks.serve_failure_eq_none fun request hm environment => ?_
  cases request with
  | perform action captures =>
    obtain ⟨name, hname⟩ := (serves p text s).named action captures hm
    exact h.1 action name hname captures environment
  | boundary =>
    cases hh : p.callbacks.onBoundary with
    | none => exact ⟨none, by simp [Callbacks.reply, hh]⟩
    | some hook => exact ⟨none, by simp [Callbacks.reply, hh, h.2 hook hh environment, Except.map]⟩

end Parser

end CommandGrammar
