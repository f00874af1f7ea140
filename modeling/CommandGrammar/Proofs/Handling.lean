import CommandGrammar.Proofs.Independence
import CommandGrammar.Registry

/-!
# Handlers follow the trace

What a registry does with a text can be read off the trace of the text: its handlers are called for the calls
recorded there, one after another, up to the first call whose action has no handler.

* `Registry.behind` — the registry behind a history of attempts to register handlers; `get?_behind` says that
  the last attempt for an action counts.
* `Registry.Performs` — handlers called for recorded calls.
* `Registry.serve_invoke` — the requests of a run, served by the handlers of a registry.
* `Registry.follows_trace` — the statement about whole texts.
-/

namespace CommandGrammar

/-! ## Registering handlers -/

namespace Table

variable {t : Table} {name : String}

theorem actionId_of_mem (h : name ∈ t.actions.values) : ∃ action, t.actionId name = .ok action := by
  unfold actionId
  cases hf : t.actions.entries.reverse.find? (·.2 == name) with
  | some entry => exact ⟨entry.1, rfl⟩
  | none =>
    obtain ⟨entry, hm, rfl⟩ := List.mem_map.mp h
    simpa using List.find?_eq_none.mp hf entry (List.mem_reverse.mpr hm)

theorem actionId_of_not_mem (h : name ∉ t.actions.values) :
    t.actionId name = .error (.unknownAction name) := by
  have hf : t.actions.entries.reverse.find? (·.2 == name) = none := by
    refine List.find?_eq_none.mpr fun entry hm heq => h ?_
    exact List.mem_map.mpr ⟨entry, List.mem_reverse.mp hm, by simpa using heq⟩
  unfold actionId
  rw [hf]

theorem mem_values_of_actionName {action : ActionId} (h : t.actionName action = .ok name) :
    name ∈ t.actions.values :=
  List.mem_map.mpr
    ⟨(action, name), OrderedMap.get?_eq_some_iff.mp (actionName_eq_ok_iff.mp h), rfl⟩

end Table

namespace Registry

variable {σ ρ ε : Type}

theorem register_of_mem {r : Registry σ ρ ε} {d : Descriptor σ ρ ε}
    (h : d.name ∈ r.table.actions.values) :
    r.register d = .ok { r with registered := r.registered.insert d.name d } := by
  obtain ⟨action, ha⟩ := Table.actionId_of_mem h
  unfold register
  rw [ha]
  rfl

theorem register_of_not_mem {r : Registry σ ρ ε} {d : Descriptor σ ρ ε}
    (h : d.name ∉ r.table.actions.values) : r.register d = .error (.unknownAction d.name) := by
  unfold register
  rw [Table.actionId_of_not_mem h]
  rfl

/-- The registry behind an attempt to register a handler. An attempt that is refused changes nothing. -/
def attempt (r : Registry σ ρ ε) (d : Descriptor σ ρ ε) : Registry σ ρ ε :=
  match r.register d with
  | .ok r' => r'
  | .error _ => r

/-- The registry of a table behind a history of attempts. -/
def behind (t : Table) (history : List (Descriptor σ ρ ε)) : Registry σ ρ ε :=
  history.foldl attempt { table := t }

/-- The last attempt of a history to register a handler for an action. -/
def lastFor (history : List (Descriptor σ ρ ε)) (name : String) : Option (Descriptor σ ρ ε) :=
  history.reverse.find? fun d => d.name == name

variable (t : Table) (history : List (Descriptor σ ρ ε))

theorem behind_concat (d : Descriptor σ ρ ε) : behind t (history ++ [d]) = (behind t history).attempt d := by
  unfold behind
  rw [List.foldl_append]
  rfl

theorem lastFor_concat (d : Descriptor σ ρ ε) (name : String) :
    lastFor (history ++ [d]) name = if d.name = name then some d else lastFor history name := by
  unfold lastFor
  rw [List.reverse_append, List.reverse_singleton, List.singleton_append, List.find?_cons]
  by_cases h : d.name = name
  · simp [h]
  · rw [if_neg h, beq_eq_false_iff_ne.mpr h]

theorem mem_of_lastFor {name : String} {d : Descriptor σ ρ ε} (h : lastFor history name = some d) :
    d ∈ history :=
  List.mem_reverse.mp (List.mem_of_find?_eq_some h)

@[simp] theorem table_behind : (behind t history).table = t := by
  induction history using List.reverseRecOn with
  | nil => rfl
  | append_singleton history d ih =>
    rw [behind_concat, attempt]
    by_cases h : d.name ∈ (behind t history).table.actions.values
    · rw [register_of_mem h]
      exact ih
    · rw [register_of_not_mem h]
      exact ih

/-- **The last registration of an action counts.** -/
theorem get?_behind {name : String} (h : name ∈ t.actions.values) :
    (behind t history).get? name = lastFor history name := by
  induction history using List.reverseRecOn with
  | nil => rfl
  | append_singleton history d ih =>
    rw [behind_concat, lastFor_concat, attempt]
    by_cases hd : d.name ∈ (behind t history).table.actions.values
    · rw [register_of_mem hd]
      by_cases hname : d.name = name
      · rw [if_pos hname, ← hname]
        exact OrderedMap.get?_insert_self _ _ _
      · rw [if_neg hname, ← ih]
        exact OrderedMap.get?_insert_of_ne (Ne.symm hname) _ _
    · -- A refused attempt was not for this action.
      have hname : d.name ≠ name := by
        rintro rfl
        exact hd (by rwa [table_behind])
      rw [register_of_not_mem hd, if_neg hname]
      exact ih

/-! ## Missing handlers -/

variable {r : Registry σ ρ ε}

theorem has_eq (r : Registry σ ρ ε) (name : String) : r.has name = (r.get? name).isSome := by
  rw [Bool.eq_iff_iff, has, OrderedMap.contains_iff, Option.isSome_iff_exists]
  rfl

theorem mem_missing_iff {name : String} :
    name ∈ r.missing ↔ name ∈ r.table.actions.values ∧ r.get? name = none := by
  unfold missing
  rw [List.mem_mergeSort, List.mem_filter, has_eq]
  simp

theorem missing_sorted (r : Registry σ ρ ε) : r.missing.Pairwise (· ≤ ·) := by
  refine (List.pairwise_mergeSort ?_ ?_ _).imp fun h => by simpa using h
  · intro a b c hab hbc
    simp only [decide_eq_true_eq] at hab hbc ⊢
    exact String.le_trans hab hbc
  · intro a b
    simpa using String.le_total a b

/-- Whether an invocation fails for want of a handler. -/
def lacksHandler (r : Registry σ ρ ε) (action : ActionId) (captures : Captures) (s : σ) : Bool :=
  match (r.invoke action captures s).answer with
  | .error (.unhandled _) => true
  | _ => false

theorem call_of_ok {name : String} {d : Descriptor σ ρ ε} {captures : Captures} {s s' : σ}
    {result : Option ρ} (h : d.handler (d.arguments captures) s = (s', .ok result)) :
    call name d captures s =
      ⟨s', d.lookups ++ [.started name (d.arguments captures), .ended name], .ok result⟩ := by
  simp [call, h]

theorem call_of_error {name : String} {d : Descriptor σ ρ ε} {captures : Captures} {s s' : σ} {e : ε}
    (h : d.handler (d.arguments captures) s = (s', .error e)) :
    (call name d captures s).answer = .error (.handler e) := by
  simp [call, h]

/-- What an invocation of a known action comes to. -/
theorem invoke_of_actionName {action : ActionId} {name : String} (h : r.table.actionName action = .ok name)
    (captures : Captures) (s : σ) :
    r.invoke action captures s = match r.get? name with
      | none => ⟨s, [], .error (.unhandled name)⟩
      | some d => call name d captures s := by
  cases hget : r.get? name <;> simp only [invoke, h, hget]

theorem lacksHandler_iff {action : ActionId} {name : String} (h : r.table.actionName action = .ok name)
    (captures : Captures) (s : σ) : r.lacksHandler action captures s = !r.has name := by
  rw [has_eq, lacksHandler, invoke_of_actionName h]
  cases r.get? name with
  | none => rfl
  | some d =>
    cases hd : d.handler (d.arguments captures) s with
    | mk s' answer =>
      cases answer with
      | ok result => simp only [call_of_ok hd]; rfl
      | error e => simp only [call_of_error hd]; rfl

/-- **What is missing are the names of the actions that fail for want of a handler.** -/
theorem missing_perm (r : Registry σ ρ ε) (captures : Captures) (s : σ) :
    r.missing.Perm
      ((r.table.actions.entries.filter fun entry => r.lacksHandler entry.1 captures s).map Prod.snd) := by
  refine (List.mergeSort_perm _ _).trans (.of_eq ?_)
  unfold OrderedMap.values
  rw [List.filter_map]
  congr 1
  refine List.filter_congr fun entry hm => ?_
  have hname : r.table.actionName entry.1 = .ok entry.2 :=
    Table.actionName_eq_ok_iff.mpr (OrderedMap.get?_eq_some_iff.mpr hm)
  rw [lacksHandler_iff hname]
  rfl

end Registry

/-! ## Recorded calls -/

/-- The arguments of a handler for a recorded call: the parameters that it declares, each at its first place,
with what the call records for them. -/
def Descriptor.argumentsFor {σ ρ ε : Type} (d : Descriptor σ ρ ε) (call : Call) : Arguments :=
  d.parameters.eraseDups.map fun parameter => (parameter, call.arguments.lookup parameter)

/-- Requests to perform actions as a trace records them. -/
def Request.calls (t : Table) (requests : List Request) : List Call :=
  requests.filterMap fun
    | .perform action captures => (t.actionName action).toOption.map (⟨·, captures.toList⟩)
    | .boundary => none

/-- Whether a request is to perform an action. -/
def Request.performs : Request → Bool
  | .perform .. => true
  | .boundary => false

namespace Request

variable {t : Table} {requests : List Request}

theorem calls_perform {action : ActionId} {name : String} (h : t.actionName action = .ok name)
    (captures : Captures) (requests : List Request) :
    calls t (.perform action captures :: requests) = ⟨name, captures.toList⟩ :: calls t requests := by
  simp [calls, h, Except.toOption]

theorem calls_boundary : calls t (.boundary :: requests) = calls t requests := rfl

/-- The actions of calls have a name in the table. -/
theorem mem_values_of_mem_calls {call : Call} (h : call ∈ calls t requests) :
    call.action ∈ t.actions.values := by
  obtain ⟨request, -, hcall⟩ := List.mem_filterMap.mp h
  cases request with
  | boundary => cases hcall
  | perform action captures =>
    cases hname : t.actionName action with
    | error e => simp [hname, Except.toOption] at hcall
    | ok name =>
      obtain rfl : (⟨name, captures.toList⟩ : Call) = call := by
        simpa [hname, Except.toOption] using hcall
      exact Table.mem_values_of_actionName hname

/-- Boundaries are no calls. -/
theorem calls_filter_performs : calls t (requests.filter performs) = calls t requests := by
  induction requests with
  | nil => rfl
  | cons request requests ih =>
    cases request with
    | perform action captures =>
      rw [List.filter_cons_of_pos rfl]
      unfold calls at ih ⊢
      rw [List.filterMap_cons, List.filterMap_cons, ih]
    | boundary => rw [List.filter_cons_of_neg (by simp [performs]), ih, calls_boundary]

end Request

namespace Parser

variable {t : Table}

/-- Recording writes down the calls of the requests. -/
theorem calls_serve_tracing {requests : List Request}
    (hnamed : ∀ action captures, .perform action captures ∈ requests →
      ∃ name, t.actionName action = .ok name) (trace : Trace) :
    ((Trace.callbacks t).serve requests trace).environment.calls
      = trace.calls ++ Request.calls t requests := by
  induction requests generalizing trace with
  | nil => exact (List.append_nil _).symm
  | cons request requests ih =>
    have hrest := ih fun action captures hm => hnamed action captures (List.mem_cons_of_mem _ hm)
    cases request with
    | perform action captures =>
      obtain ⟨name, hname⟩ := hnamed action captures List.mem_cons_self
      have hreply : (Trace.callbacks t).reply (.perform action captures) trace
          = ⟨{ trace with calls := trace.calls ++ [⟨name, captures.toList⟩] }, [],
              .ok (some ⟨name, captures.toList⟩)⟩ := by
        simp [Callbacks.reply, Trace.callbacks, Trace.record, hname]
      simp only [Callbacks.serve, hreply, hrest, Request.calls_perform hname, List.append_assoc,
        List.singleton_append]
    | boundary =>
      have hreply : (Trace.callbacks t).reply .boundary trace
          = ⟨{ trace with boundaries := trace.boundaries + 1 }, [], .ok none⟩ := rfl
      simp only [Callbacks.serve, hreply, hrest, Request.calls_boundary]

/-- The calls that a trace of a text records. -/
def recorded (t : Table) (capacity : Int) (limit : Option Int) (text : String) : List Call :=
  ((limited t capacity limit).parse text {}).environment.calls

theorem recorded_eq (t : Table) (capacity : Int) (limit : Option Int) (text : String) :
    recorded t capacity limit text = Request.calls t ((limited t capacity limit).requests text) := by
  have hserves := serves (limited t capacity limit) text {}
  rw [recorded, hserves.environment]
  exact calls_serve_tracing hserves.named {}

end Parser

/-! ## Handlers called for recorded calls -/

namespace Registry

variable {σ ρ ε : Type} {r : Registry σ ρ ε}

/-- Handlers are called for recorded calls, one after another: each with the arguments for its call, on the
environment that the one before leaves behind. What they write down and their results are put together. -/
inductive Performs (handlers : String → Option (Descriptor σ ρ ε)) :
    List Call → σ → List CallEvent → List ρ → σ → Prop where
  | done (s : σ) : Performs handlers [] s [] [] s
  | call {d : Descriptor σ ρ ε} {call : Call} {calls : List Call} {s s' s'' : σ} {result : Option ρ}
    {journal : List CallEvent} {results : List ρ} (registered : handlers call.action = some d)
    (called : d.handler (d.argumentsFor call) s = (s', .ok result))
    (rest : Performs handlers calls s' journal results s'') :
    Performs handlers (call :: calls) s
      (d.lookups ++ [.started call.action (d.argumentsFor call), .ended call.action] ++ journal)
      (result.toList ++ results) s''

/-- The calls in front of the first one whose action has no handler. -/
def handledBy (handlers : String → Option (Descriptor σ ρ ε)) (calls : List Call) : List Call :=
  calls.takeWhile fun call => (handlers call.action).isSome

/-- **A registry serves requests with its handlers**, up to the first action that has none. -/
theorem serve_invoke (handlers : String → Option (Descriptor σ ρ ε))
    (hunfailing : ∀ name d, handlers name = some d → ∀ arguments s,
      ∃ result, (d.handler arguments s).2 = .ok result)
    {requests : List Request} (hperforms : ∀ request ∈ requests, request.performs = true)
    (hnamed : ∀ action captures, .perform action captures ∈ requests →
      ∃ name, r.table.actionName action = .ok name ∧ r.get? name = handlers name) (s : σ) :
    Performs handlers (handledBy handlers (Request.calls r.table requests)) s
        (r.parser.callbacks.serve requests s).journal (r.parser.callbacks.serve requests s).results
        (r.parser.callbacks.serve requests s).environment
      ∧ (r.parser.callbacks.serve requests s).failure
        = (Request.calls r.table requests)[(handledBy handlers (Request.calls r.table requests)).length]?.map
          fun call => ((handledBy handlers (Request.calls r.table requests)).length,
            .unhandled call.action) := by
  unfold handledBy
  induction requests generalizing s with
  | nil => exact ⟨.done s, rfl⟩
  | cons request requests ih =>
    cases request with
    | boundary => exact absurd (hperforms _ List.mem_cons_self) (by simp [Request.performs])
    | perform action captures =>
      obtain ⟨name, hname, hget⟩ := hnamed action captures List.mem_cons_self
      have hinvoke := invoke_of_actionName (r := r) hname captures s
      rw [hget] at hinvoke
      rw [Request.calls_perform hname]
      cases hhandler : handlers name with
      | none =>
        -- The run is given up with this request.
        have hreply : r.parser.callbacks.reply (.perform action captures) s
            = ⟨s, [], .error (.unhandled name)⟩ := by
          rw [hhandler] at hinvoke
          exact hinvoke
        simp only [Callbacks.serve, hreply, List.takeWhile_cons, hhandler, Option.isSome_none]
        exact ⟨.done s, rfl⟩
      | some d =>
        obtain ⟨result, hresult⟩ := hunfailing name d hhandler (d.argumentsFor ⟨name, captures.toList⟩) s
        have hcalled : d.handler (d.argumentsFor ⟨name, captures.toList⟩) s
            = ((d.handler (d.argumentsFor ⟨name, captures.toList⟩) s).1, .ok result) :=
          Prod.ext rfl hresult
        have hreply : r.parser.callbacks.reply (.perform action captures) s
            = ⟨(d.handler (d.argumentsFor ⟨name, captures.toList⟩) s).1,
                d.lookups ++ [.started name (d.argumentsFor ⟨name, captures.toList⟩), .ended name],
                .ok result⟩ := by
          rw [hhandler] at hinvoke
          exact hinvoke.trans (call_of_ok hcalled)
        obtain ⟨hrest, hfailure⟩ := ih (fun request hm => hperforms request (List.mem_cons_of_mem _ hm))
          (fun action captures hm => hnamed action captures (List.mem_cons_of_mem _ hm))
          (d.handler (d.argumentsFor ⟨name, captures.toList⟩) s).1
        simp only [Callbacks.serve, hreply, List.takeWhile_cons, hhandler, Option.isSome_some, if_true,
          List.length_cons, List.getElem?_cons_succ]
        have hregistered : handlers (⟨name, captures.toList⟩ : Call).action = some d := hhandler
        refine ⟨.call hregistered hcalled hrest, ?_⟩
        rw [hfailure, Option.map_map]
        rfl

/-! ## Whole texts -/

/-- The parser that performs the actions of a text, with room for so many captures and for texts up to a
length. -/
def limited (r : Registry σ ρ ε) (capacity : Int) (limit : Option Int) : Parser σ ρ (InvokeError ε) :=
  { r.parser with captureCapacity := capacity, maxInputLength := limit }

/-- The calls in front of the first one whose action is missing. -/
def handled (r : Registry σ ρ ε) (calls : List Call) : List Call :=
  calls.takeWhile fun call => call.action ∉ r.missing

/-- What a registry does with a text, beside the trace of the text. -/
structure FollowsTrace (t : Table) (history : List (Descriptor σ ρ ε)) (capacity : Int)
    (limit : Option Int) (text : String) (s : σ) : Prop where
  /-- A handler can be registered for the actions of the table and for no others. -/
  register : ∀ d : Descriptor σ ρ ε,
    (d.name ∈ t.actions.values → ∃ r, (behind t history).register d = .ok r)
      ∧ (d.name ∉ t.actions.values → (behind t history).register d = .error (.unknownAction d.name))
  /-- The handlers last registered are called for the recorded calls in order, up to the first one that is
  missing, and for nothing else. -/
  performed : ∃ journal results,
    Performs (lastFor history) ((behind t history).handled (Parser.recorded t capacity limit text)) s
        journal results (((behind t history).limited capacity limit).parse text s).environment
      ∧ (((behind t history).limited capacity limit).parse text s).journal.calls = journal
      ∧ ∀ o, (((behind t history).limited capacity limit).parse text s).verdict = .ok o →
        o.results = results
  /-- The run is given up with the first action that is missing. -/
  stops : ∀ call, (Parser.recorded t capacity limit text)[((behind t history).handled
      (Parser.recorded t capacity limit text)).length]? = some call →
    call.action ∈ (behind t history).missing
      ∧ (((behind t history).limited capacity limit).parse text s).verdict
        = .error (.callback (.unhandled call.action))
  /-- If no recorded action is missing, the same is said of the text as by the trace. -/
  finishes : (behind t history).handled (Parser.recorded t capacity limit text)
      = Parser.recorded t capacity limit text →
    Verdict.Alike (((behind t history).limited capacity limit).parse text s).verdict
      ((Parser.limited t capacity limit).parse text {}).verdict
  /-- If nothing is missing at all, every recorded call is handled. -/
  complete : (behind t history).missing = [] →
    (behind t history).handled (Parser.recorded t capacity limit text)
        = Parser.recorded t capacity limit text
      ∧ ∀ name, (((behind t history).limited capacity limit).parse text s).verdict
        ≠ .error (.callback (.unhandled name))
  /-- What is missing are the names of the actions that fail for want of a handler, sorted, each as often as the
  table has it. -/
  missing : (behind t history).missing.Pairwise (· ≤ ·) ∧ ∀ captures u,
    (behind t history).missing.Perm ((t.actions.entries.filter fun entry =>
      (behind t history).lacksHandler entry.1 captures u).map Prod.snd)

/-- The call behind those that are handled is missing. -/
theorem missing_of_getElem? {calls : List Call} {call : Call}
    (h : calls[(r.handled calls).length]? = some call) : call.action ∈ r.missing := by
  unfold handled at h
  induction calls with
  | nil => cases h
  | cons first calls ih =>
    rw [List.takeWhile_cons] at h
    by_cases hfirst : first.action ∈ r.missing
    · obtain rfl : first = call := by simpa [hfirst] using h
      exact hfirst
    · exact ih (by simpa [hfirst] using h)

variable {t : Table} {history : List (Descriptor σ ρ ε)}

theorem noted_limited (capacity : Int) (limit : Option Int) :
    ((behind t history).limited capacity limit).noted = (Parser.limited t capacity limit).noted := by
  show ({ table := (behind t history).table, callbacks := _, captureCapacity := _, maxInputLength := _ } :
    Parser _ _ _) = _
  rw [table_behind]
  rfl

/-- The parser of a registry asks for the actions that the trace is asked to record. -/
theorem requests_limited (t : Table) (history : List (Descriptor σ ρ ε)) (capacity : Int) (limit : Option Int)
    (text : String) :
    ((behind t history).limited capacity limit).requests text
      = ((Parser.limited t capacity limit).requests text).filter Request.performs := by
  unfold Parser.requests
  rw [noted_limited, List.filter_filter]
  refine List.filter_congr fun request _ => ?_
  cases request <;> rfl

/-- For calls of actions of the table it is the history that decides which of them are handled. -/
theorem handled_eq {calls : List Call} (h : ∀ call ∈ calls, call.action ∈ t.actions.values) :
    (behind t history).handled calls = handledBy (lastFor history) calls := by
  unfold handled handledBy
  induction calls with
  | nil => rfl
  | cons call calls ih =>
    have hmem := h call List.mem_cons_self
    have hiff : call.action ∈ (behind t history).missing ↔ lastFor history call.action = none := by
      rw [mem_missing_iff, table_behind, get?_behind t history hmem]
      exact and_iff_right hmem
    rw [List.takeWhile_cons, List.takeWhile_cons, ih fun c hc => h c (List.mem_cons_of_mem _ hc)]
    cases hlast : lastFor history call.action <;> simp [hiff, hlast]

theorem recorded_eq_calls (t : Table) (history : List (Descriptor σ ρ ε)) (capacity : Int) (limit : Option Int)
    (text : String) :
    Parser.recorded t capacity limit text
      = Request.calls t (((behind t history).limited capacity limit).requests text) := by
  rw [Parser.recorded_eq, requests_limited, Request.calls_filter_performs]

/-- The handlers last registered serve the requests of a text as its trace records them. -/
theorem service_limited (t : Table) (history : List (Descriptor σ ρ ε))
    (hunfailing : ∀ d ∈ history, ∀ arguments s, ∃ result, (d.handler arguments s).2 = .ok result)
    (capacity : Int) (limit : Option Int) (text : String) (s : σ) :
    Performs (lastFor history) ((behind t history).handled (Parser.recorded t capacity limit text)) s
        (((behind t history).limited capacity limit).service text s).journal
        (((behind t history).limited capacity limit).service text s).results
        (((behind t history).limited capacity limit).service text s).environment
      ∧ (((behind t history).limited capacity limit).service text s).failure
        = (Parser.recorded t capacity limit text)[((behind t history).handled
            (Parser.recorded t capacity limit text)).length]?.map
          fun call => (((behind t history).handled (Parser.recorded t capacity limit text)).length,
            .unhandled call.action) := by
  have htable := table_behind t history
  have hserves := Parser.serves ((behind t history).limited capacity limit) text s
  have hmem : ∀ call ∈ Parser.recorded t capacity limit text, call.action ∈ t.actions.values := by
    rw [recorded_eq_calls t history]
    exact fun call hm => Request.mem_values_of_mem_calls hm
  have hactions : ∀ request ∈ ((behind t history).limited capacity limit).requests text,
      request.performs = true := by
    rw [requests_limited]
    exact fun request hm => (List.mem_filter.mp hm).2
  have hserve := serve_invoke (r := behind t history) (lastFor history)
    (fun name d hd => hunfailing d (mem_of_lastFor history hd)) hactions
    (fun action captures hm => by
      obtain ⟨name, hname⟩ := hserves.named action captures hm
      exact ⟨name, hname, get?_behind t history (htable ▸ Table.mem_values_of_actionName hname)⟩) s
  rwa [htable, ← recorded_eq_calls t history, ← handled_eq hmem] at hserve

/-- Where all recorded calls are handled, the run comes to the same as the recording one. -/
theorem alike_of_handled
    (hunfailing : ∀ d ∈ history, ∀ arguments s, ∃ result, (d.handler arguments s).2 = .ok result)
    {capacity : Int} {limit : Option Int} {text : String} (s : σ)
    (h : (behind t history).handled (Parser.recorded t capacity limit text)
      = Parser.recorded t capacity limit text) :
    Verdict.Alike (((behind t history).limited capacity limit).parse text s).verdict
      ((Parser.limited t capacity limit).parse text {}).verdict := by
  have hserves := Parser.serves ((behind t history).limited capacity limit) text s
  have htrace := Parser.serves (Parser.limited t capacity limit) text {}
  have hrecords := Parser.answered_of_unfailing (p := Parser.limited t capacity limit)
    (Parser.unfailing_tracing t) text {}
  have hanswered : ((behind t history).limited capacity limit).Answered text s := by
    refine (service_limited t history hunfailing capacity limit text s).2.trans ?_
    rw [h, List.getElem?_length]
    rfl
  rw [(hserves.answered hanswered).1, (htrace.answered hrecords).1, noted_limited]
  exact Verdict.alike_judged _ _ _

/-- **The registry refines the trace**: with handlers that never fail it performs the recorded calls, up to the
first one whose action is missing. -/
theorem follows_trace (t : Table) (history : List (Descriptor σ ρ ε))
    (hunfailing : ∀ d ∈ history, ∀ arguments s, ∃ result, (d.handler arguments s).2 = .ok result)
    (capacity : Int) (limit : Option Int) (text : String) (s : σ) :
    FollowsTrace t history capacity limit text s := by
  have htable := table_behind t history
  have hserves := Parser.serves ((behind t history).limited capacity limit) text s
  obtain ⟨hperforms, hfailure⟩ := service_limited t history hunfailing capacity limit text s
  refine
    { register := fun d => ⟨fun hd => ⟨_, register_of_mem (htable.symm ▸ hd)⟩,
        fun hd => register_of_not_mem (htable.symm ▸ hd)⟩
      performed := ⟨_, _, hserves.environment ▸ hperforms, hserves.calls, fun o ho => ?_⟩
      stops := fun call hcall => ⟨missing_of_getElem? hcall, ?_⟩
      finishes := alike_of_handled hunfailing s
      complete := fun h => ?_
      missing := ⟨missing_sorted _, fun captures u => ?_⟩ }
  · -- A verdict that is no fault is one on a run whose requests are all answered.
    cases hf : (((behind t history).limited capacity limit).service text s).failure with
    | some x =>
      rw [(hserves.failed x.1 x.2 hf).1] at ho
      cases ho
    | none =>
      rw [(hserves.answered hf).1] at ho
      exact Outcome.results_of_judged ho
  · rw [hcall] at hfailure
    exact (hserves.failed _ _ hfailure).1
  · have hall : (behind t history).handled (Parser.recorded t capacity limit text)
        = Parser.recorded t capacity limit text := by
      simp [handled, h]
    exact ⟨hall, fun name => (alike_of_handled hunfailing s hall).ne_callback _⟩
  · have hperm := missing_perm (behind t history) captures u
    rwa [htable] at hperm

/-- A handler that writes down the values of its arguments. -/
def noting (name : String) (parameters : List String) : Descriptor (List (Option String)) String String where
  name
  handler arguments notes := (notes ++ arguments.map Prod.snd, .ok (some name))
  parameters

/-- Attempts to register handlers: one anew, one with a parameter declared twice and one that is never captured,
and one for an action that no table of windows has. -/
def attempts : List (Descriptor (List (Option String)) String String) :=
  [noting "cmd_kill" [], noting "cmd_close" [], noting "cmd_criteria_match_windows" [],
    noting "cmd_criteria_add" ["ctype", "colour", "cvalue", "ctype"], noting "cmd_kill" ["kill_mode"]]

/-- A chain with an action that has no handler. -/
theorem follows_trace_window :
    (∀ d ∈ attempts, ∀ arguments notes, ∃ result, (d.handler arguments notes).2 = .ok result)
      ∧ FollowsTrace Window.grammar attempts 2 none "[class=a] kill client; exit; kill" []
      ∧ (((behind Window.grammar attempts).limited 2 none).parse "[class=a] kill client; exit; kill" []).verdict
        = .error (.callback (.unhandled "cmd_exit"))
      ∧ (((behind Window.grammar attempts).limited 2 none).parse "[class=a] kill client; exit; kill" []).environment
        = [some "class", none, some "a", some "client"] := by
  have hunfailing : ∀ d ∈ attempts, ∀ arguments notes,
      ∃ result, (d.handler arguments notes).2 = .ok result := by
    simp [attempts, noting]
  exact ⟨hunfailing, follows_trace Window.grammar attempts hunfailing 2 none _ [], rfl, rfl⟩

end Registry

end CommandGrammar
