import CommandGrammar.Settings
import Mathlib.Data.List.Induction

/-!
# Sinks behind a history of requests

A request that asks for the same as the last one served is taken to be in effect already, and touches nothing. But
a request for a level that does not exist removes all sinks before it fails, and what was served last stays
remembered. Asked for again, it is skipped, and there is no sink until a request for something else is served.

* `Sinks.Lost` — a request, behind a history, for what was served last and has been removed since.
* `Sinks.Reflects` — what sinks tell of the requests before; every request keeps it (`Reflects.configure`).
* `Sinks.in_effect_unless_lost` — the statement about requests.
* `Settings.inEffect_configure_iff` — the same about settings.
-/

namespace CommandGrammar

namespace Sinks

/-! ## Requests -/

/-- What a sink is asked for: a level, in any letter case, and a profile. -/
structure Request where
  level : String := defaultLevel
  profile : String := defaultProfile
  deriving DecidableEq, Repr

namespace Request

variable {s : Sinks} {r q : Request}

/-- What is remembered of a request that has been served. Requests with one key ask for the same. -/
def key (r : Request) : String × String := (r.profile, Text.upper r.level)

/-- The level of a request exists. -/
def Known (r : Request) : Prop := ∃ l : Level, l.name = Text.upper r.level

theorem known_iff : r.Known ↔ (Level.ofName? (Text.upper r.level)).isSome := by
  rw [Option.isSome_iff_exists]
  exact exists_congr fun l => Level.ofName?_eq_some_iff.symm

instance : DecidablePred Known := fun _ => decidable_of_iff _ known_iff.symm

theorem Known.of_key (hq : q.Known) (h : q.key = r.key) : r.Known := by
  obtain ⟨l, hl⟩ := hq
  exact ⟨l, hl.trans (congrArg Prod.snd h)⟩

/-- Exactly one sink is in place, of the profile and at the level of a request. -/
def InEffect (r : Request) (s : Sinks) : Prop :=
  ∃ sink, s.installed = [sink] ∧ sink.style = .ofProfile r.profile ∧ sink.level.name = Text.upper r.level

theorem InEffect.installed_ne_nil (h : r.InEffect s) : s.installed ≠ [] := by
  obtain ⟨sink, hs, -⟩ := h
  rw [hs]
  exact List.cons_ne_nil _ _

end Request

/-- What a request makes of the sinks, and what it answers. -/
inductive Handled (s : Sinks) (r : Request) : Sinks × Except String Unit → Prop where
  /-- The same was served last. -/
  | skipped (h : s.configured = some r.key) : Handled s r (s, .ok ())
  /-- There is no such level, and no sink any more. -/
  | failed (h : s.configured ≠ some r.key) (hunknown : ¬r.Known) :
    Handled s r ({ s with installed := [] }, .error (Text.upper r.level))
  /-- A sink takes the place of all others. -/
  | served (h : s.configured ≠ some r.key) {l : Level} (hlevel : l.name = Text.upper r.level) :
    Handled s r
      ({ configured := some r.key
         installed := [⟨s.made, .ofProfile r.profile, l⟩]
         made := s.made + 1 }, .ok ())

theorem handled (s : Sinks) (r : Request) : Handled s r (s.configure r.level r.profile) := by
  simp only [configure]
  split
  · next h => exact .skipped h
  next h =>
  split
  · next hlevel =>
    refine .failed h fun hknown => ?_
    rw [Request.known_iff, hlevel] at hknown
    cases hknown
  · next hlevel => exact .served h (Level.ofName?_eq_some_iff.mp hlevel)

/-! ## Histories -/

/-- The sinks behind a history of requests. -/
def behind (s : Sinks) (history : List Request) : Sinks :=
  history.foldl (fun s r => (s.configure r.level r.profile).1) s

theorem behind_concat (s : Sinks) (history : List Request) (r : Request) :
    s.behind (history ++ [r]) = ((s.behind history).configure r.level r.profile).1 := by
  unfold behind
  rw [List.foldl_append]
  rfl

variable {s : Sinks} {history back : List Request} {r b : Request}

/-- A history ends in a request for the same as a given one and some requests behind it, and of these only requests for
the same have been served. -/
def Since (history : List Request) (r : Request) (back : List Request) : Prop :=
  (∃ front q, history = front ++ q :: back ∧ q.key = r.key) ∧ ∀ b ∈ back, b.Known → b.key = r.key

/-- A request for the same as a given one has been made, and nothing else has been served since. -/
def ServedLast (history : List Request) (r : Request) : Prop := ∃ back, Since history r back

/-- Behind a request for the same as a given one, a request has failed, and nothing else has been served. -/
def Lost (history : List Request) (r : Request) : Prop :=
  ∃ back, Since history r back ∧ ∃ b ∈ back, ¬b.Known

theorem Lost.servedLast (h : Lost history r) : ServedLast history r := by
  obtain ⟨back, hsince, -⟩ := h
  exact ⟨back, hsince⟩

/-- Where every level exists, nothing is lost. -/
theorem not_lost_of_known (h : ∀ q ∈ history, q.Known) : ¬Lost history r := by
  rintro ⟨back, ⟨⟨front, q, rfl, -⟩, -⟩, b, hb, hunknown⟩
  exact hunknown (h b (List.mem_append_right front (List.mem_cons_of_mem q hb)))

theorem since_nil_iff : Since (history ++ [b]) r [] ↔ b.key = r.key := by
  constructor
  · rintro ⟨⟨front, q, heq, hkey⟩, -⟩
    obtain ⟨-, hb⟩ := List.append_inj' heq rfl
    rwa [List.head_eq_of_cons_eq hb]
  · intro hkey
    exact ⟨⟨history, b, rfl, hkey⟩, fun _ hb => absurd hb List.not_mem_nil⟩

theorem since_concat_iff {c : Request} :
    Since (history ++ [b]) r (back ++ [c]) ↔ c = b ∧ Since history r back ∧ (b.Known → b.key = r.key) := by
  constructor
  · rintro ⟨⟨front, q, heq, hkey⟩, hback⟩
    rw [← List.cons_append, ← List.append_assoc] at heq
    obtain ⟨rfl, hb⟩ := List.append_inj' heq rfl
    obtain rfl := List.head_eq_of_cons_eq hb
    refine ⟨rfl, ⟨⟨front, q, rfl, hkey⟩, fun a ha => hback a (List.mem_append_left _ ha)⟩, ?_⟩
    exact hback b (List.mem_append_right _ (List.mem_singleton_self b))
  · rintro ⟨rfl, ⟨⟨front, q, rfl, hkey⟩, hback⟩, hb⟩
    refine ⟨⟨front, q, by rw [List.append_assoc, List.cons_append], hkey⟩, fun a ha => ?_⟩
    rcases List.mem_append.mp ha with ha | ha
    · exact hback a ha
    · rwa [List.mem_singleton.mp ha]

theorem servedLast_concat :
    ServedLast (history ++ [b]) r ↔ b.key = r.key ∨ ¬b.Known ∧ ServedLast history r := by
  constructor
  · rintro ⟨back, hsince⟩
    rcases List.eq_nil_or_concat back with rfl | ⟨back, c, rfl⟩
    · exact Or.inl (since_nil_iff.mp hsince)
    · rw [List.concat_eq_append] at hsince
      obtain ⟨-, hback, hb⟩ := since_concat_iff.mp hsince
      by_cases hknown : b.Known
      · exact Or.inl (hb hknown)
      · exact Or.inr ⟨hknown, back, hback⟩
  · rintro (hkey | ⟨hunknown, back, hback⟩)
    · exact ⟨[], since_nil_iff.mpr hkey⟩
    · exact ⟨back ++ [b], since_concat_iff.mpr ⟨rfl, hback, fun hb => absurd hb hunknown⟩⟩

theorem lost_concat :
    Lost (history ++ [b]) r
      ↔ (b.Known → b.key = r.key) ∧ (Lost history r ∨ ¬b.Known ∧ ServedLast history r) := by
  constructor
  · rintro ⟨back, hsince, a, ha, hunknown⟩
    rcases List.eq_nil_or_concat back with rfl | ⟨back, c, rfl⟩
    · cases ha
    · rw [List.concat_eq_append] at hsince ha
      obtain ⟨rfl, hback, hb⟩ := since_concat_iff.mp hsince
      refine ⟨hb, ?_⟩
      rcases List.mem_append.mp ha with ha | ha
      · exact Or.inl ⟨back, hback, a, ha, hunknown⟩
      · exact Or.inr ⟨List.mem_singleton.mp ha ▸ hunknown, back, hback⟩
  · rintro ⟨hb, ⟨back, hback, a, ha, hunknown⟩ | ⟨hunknown, back, hback⟩⟩
    · exact ⟨back ++ [b], since_concat_iff.mpr ⟨rfl, hback, hb⟩, a, List.mem_append_left _ ha, hunknown⟩
    · exact ⟨back ++ [b], since_concat_iff.mpr ⟨rfl, hback, hb⟩, b,
        List.mem_append_right _ (List.mem_singleton_self b), hunknown⟩

/-! What a request changes, by whether its level exists. -/

theorem servedLast_concat_of_known (hb : b.Known) : ServedLast (history ++ [b]) r ↔ b.key = r.key := by
  rw [servedLast_concat, or_iff_left fun h => h.1 hb]

theorem servedLast_concat_of_unknown (hb : ¬b.Known) (hr : r.Known) :
    ServedLast (history ++ [b]) r ↔ ServedLast history r := by
  rw [servedLast_concat, or_iff_right fun hkey => hb (hr.of_key hkey.symm), and_iff_right hb]

theorem lost_concat_of_known (hb : b.Known) :
    Lost (history ++ [b]) r ↔ b.key = r.key ∧ Lost history r := by
  rw [lost_concat, imp_iff_right hb, or_iff_left fun h => h.1 hb]

theorem lost_concat_of_unknown (hb : ¬b.Known) : Lost (history ++ [b]) r ↔ ServedLast history r := by
  rw [lost_concat, and_iff_right fun h => absurd h hb, and_iff_right hb, or_iff_right_of_imp Lost.servedLast]

/-! ## What sinks tell of a history -/

/-- What sinks tell of the requests before. -/
structure Reflects (s : Sinks) (history : List Request) : Prop where
  /-- The last request served is remembered. -/
  configured_iff : ∀ r : Request, s.configured = some r.key ↔ r.Known ∧ ServedLast history r
  /-- It is in effect, unless it has been lost. -/
  inEffect : ∀ r : Request, s.configured = some r.key → ¬Lost history r → r.InEffect s
  /-- Then there is no sink. -/
  installed : ∀ r : Request, s.configured = some r.key → Lost history r → s.installed = []

namespace Reflects

/-- Sinks from before the first request tell that there was none. -/
theorem nil (h : s.configured = none) : s.Reflects [] := by
  have hnone : ∀ r : Request, s.configured ≠ some r.key := by
    intro r hr
    cases h.symm.trans hr
  refine ⟨fun r => ⟨fun hr => absurd hr (hnone r), ?_⟩, fun r hr => absurd hr (hnone r),
    fun r hr => absurd hr (hnone r)⟩
  rintro ⟨-, back, ⟨front, q, heq, -⟩, -⟩
  exact absurd heq.symm (List.append_ne_nil_of_right_ne_nil front (List.cons_ne_nil q back))

/-- **Every request keeps what the sinks tell**, whether it is skipped, fails or is served. -/
theorem configure (h : s.Reflects history) (b : Request) :
    (s.configure b.level b.profile).1.Reflects (history ++ [b]) := by
  have hcall := s.handled b
  generalize s.configure b.level b.profile = call at hcall ⊢
  cases hcall with
  | skipped hb =>
    have hknown : b.Known := ((h.configured_iff b).mp hb).1
    have hkey : ∀ r : Request, s.configured = some r.key → b.key = r.key := fun r hr =>
      Option.some.inj (hb.symm.trans hr)
    refine ⟨fun r => ?_, fun r hr hnot => ?_, fun r hr hlost => ?_⟩
    · rw [servedLast_concat_of_known hknown]
      exact ⟨fun hr => ⟨hknown.of_key (hkey r hr), hkey r hr⟩, fun hr => hr.2 ▸ hb⟩
    · exact h.inEffect r hr fun hlost => hnot ((lost_concat_of_known hknown).mpr ⟨hkey r hr, hlost⟩)
    · exact h.installed r hr ((lost_concat_of_known hknown).mp hlost).2
  | failed _ hunknown =>
    refine ⟨fun r => ?_, fun r hr hnot => ?_, fun r _ _ => rfl⟩
    · rw [and_congr_right fun hr => servedLast_concat_of_unknown hunknown hr]
      exact h.configured_iff r
    · -- Whatever is remembered has just lost its sink.
      exact absurd ((lost_concat_of_unknown hunknown).mpr ((h.configured_iff r).mp hr).2) hnot
  | served hb hlevel =>
    have hknown : b.Known := ⟨_, hlevel⟩
    refine ⟨fun r => ?_, fun r hr _ => ?_, fun r hr hlost => ?_⟩
    · rw [servedLast_concat_of_known hknown, Option.some_inj]
      exact ⟨fun hkey => ⟨hknown.of_key hkey, hkey⟩, And.right⟩
    · obtain ⟨hprofile, hname⟩ := Prod.mk.inj (Option.some.inj hr)
      exact ⟨_, rfl, congrArg SinkStyle.ofProfile hprofile, hlevel.trans hname⟩
    · -- What is lost is still remembered, so this request would have been skipped.
      obtain ⟨hkey, hlost⟩ := (lost_concat_of_known hknown).mp hlost
      exact absurd (hkey ▸ (h.configured_iff r).mpr ⟨hknown.of_key hkey, hlost.servedLast⟩) hb

theorem behind (h : s.configured = none) (history : List Request) : (s.behind history).Reflects history := by
  induction history using List.reverseRecOn with
  | nil => exact nil h
  | append_singleton history r ih =>
    rw [behind_concat]
    exact ih.configure r

/-! ### The next request -/

/-- A request returns normally exactly if its level exists. -/
theorem answer (h : s.Reflects history) (r : Request) :
    (s.configure r.level r.profile).2 = if r.Known then .ok () else .error (Text.upper r.level) := by
  have hcall := s.handled r
  generalize s.configure r.level r.profile = call at hcall ⊢
  cases hcall with
  | skipped hr => rw [if_pos ((h.configured_iff r).mp hr).1]
  | failed _ hunknown => rw [if_neg hunknown]
  | served _ hlevel => rw [if_pos ⟨_, hlevel⟩]

theorem answer_eq_ok_iff (h : s.Reflects history) :
    (s.configure r.level r.profile).2 = .ok () ↔ r.Known := by
  rw [h.answer r]
  by_cases hr : r.Known <;> simp [hr]

/-- A request for a level that exists is remembered. -/
theorem configured_of_known (h : s.Reflects history) (hr : r.Known) :
    (s.configure r.level r.profile).1.configured = some r.key :=
  ((h.configure r).configured_iff r).mpr ⟨hr, (servedLast_concat_of_known hr).mpr rfl⟩

/-- It is in effect, unless it has been lost. -/
theorem inEffect_of_known (h : s.Reflects history) (hr : r.Known) (hnot : ¬Lost history r) :
    r.InEffect (s.configure r.level r.profile).1 :=
  (h.configure r).inEffect r (h.configured_of_known hr) fun hlost => hnot ((lost_concat_of_known hr).mp hlost).2

/-- A request that is lost, or fails, leaves no sink. -/
theorem installed_of_lost (h : s.Reflects history) (hlost : r.Known → Lost history r) :
    (s.configure r.level r.profile).1.installed = [] := by
  by_cases hr : r.Known
  · exact (h.configure r).installed r (h.configured_of_known hr) ((lost_concat_of_known hr).mpr ⟨rfl, hlost hr⟩)
  · have hcall := s.handled r
    generalize s.configure r.level r.profile = call at hcall ⊢
    cases hcall with
    | skipped hsame => exact absurd ((h.configured_iff r).mp hsame).1 hr
    | failed => rfl
    | served _ hlevel => exact absurd ⟨_, hlevel⟩ hr

theorem inEffect_configure_iff (h : s.Reflects history) :
    r.InEffect (s.configure r.level r.profile).1 ↔ r.Known ∧ ¬Lost history r := by
  constructor
  · intro heffect
    by_contra hnot
    exact heffect.installed_ne_nil (h.installed_of_lost fun hr => not_not.mp fun hlost => hnot ⟨hr, hlost⟩)
  · rintro ⟨hr, hnot⟩
    exact h.inEffect_of_known hr hnot

end Reflects

/-- **A request is in effect behind its call exactly if the call returns normally and the request has not been
lost**; otherwise no sink is left. A call returns normally exactly if there is such a level, and where all requests
before did so, the request is in effect. -/
theorem in_effect_unless_lost (start : Sinks) (hstart : start.configured = none) (history : List Request)
    (r : Request) :
    let call := (start.behind history).configure r.level r.profile
    call.2 = (if r.Known then .ok () else .error (Text.upper r.level))
      ∧ (r.InEffect call.1 ↔ call.2 = .ok () ∧ ¬Lost history r)
      ∧ (¬r.InEffect call.1 → call.1.installed = [])
      ∧ ((∀ q ∈ history, q.Known) → r.Known → r.InEffect call.1) := by
  intro call
  have hreflects : (start.behind history).Reflects history := .behind hstart history
  refine ⟨hreflects.answer r, ?_, fun hnot => ?_, fun hknown hr => ?_⟩
  · exact hreflects.inEffect_configure_iff.trans (and_congr_left fun _ => hreflects.answer_eq_ok_iff.symm)
  · refine hreflects.installed_of_lost fun hr => ?_
    by_contra hlost
    exact hnot (hreflects.inEffect_of_known hr hlost)
  · exact hreflects.inEffect_of_known hr (not_lost_of_known hknown)

/-- The sink of a program that has just started, which nothing has asked for. -/
def initial : Sinks where
  installed := [⟨0, .plain, .debug⟩]
  made := 1

/-- A request, and one with a level that is misspelt. -/
def misspelt : List Request := [{ level := "info" }, { level := "inof" }]

theorem lost_misspelt : Lost misspelt { level := "INFO" } := by
  refine ⟨[{ level := "inof" }], ⟨⟨[], { level := "info" }, rfl, by decide⟩, by decide⟩, { level := "inof" }, ?_⟩
  exact ⟨List.mem_singleton_self _, by decide⟩

/-- Behind the level that is misspelt, what was asked for before is lost, and something else is not. -/
theorem in_effect_unless_lost_misspelt :
    initial.configured = none
      ∧ Lost misspelt { level := "INFO" }
      ∧ ((initial.behind misspelt).configure "INFO" "default").1.installed = []
      ∧ ¬Lost misspelt { level := "Debug", profile := "rich" }
      ∧ Request.InEffect { level := "info" } ((initial.behind [{}]).configure "info" "default").1 := by
  obtain ⟨-, hinfo, hgone, -⟩ := in_effect_unless_lost initial rfl misspelt { level := "INFO" }
  obtain ⟨-, hdebug, -⟩ :=
    in_effect_unless_lost initial rfl misspelt { level := "Debug", profile := "rich" }
  obtain ⟨-, -, -, hagain⟩ := in_effect_unless_lost initial rfl [{}] { level := "info" }
  refine ⟨rfl, lost_misspelt, hgone fun heffect => ?_, ?_, hagain (by decide) (by decide)⟩
  · exact (hinfo.mp heffect).2 lost_misspelt
  · exact (hdebug.mp ⟨_, rfl, rfl, rfl⟩).2

/-- **A call can return normally and leave no sink**: what it asks for is remembered, but has been lost. -/
theorem not_always_in_effect :
    (¬∀ (history : List Request) (r : Request),
        ((({} : Sinks).behind history).configure r.level r.profile).2 = .ok () →
          r.InEffect ((({} : Sinks).behind history).configure r.level r.profile).1)
      ∧ (({} : Sinks).behind misspelt).configure "INFO" "default"
        = ({ configured := some ("default", "INFO"), installed := [], made := 1 }, .ok ()) := by
  have hcall : (({} : Sinks).behind misspelt).configure "INFO" "default"
      = ({ configured := some ("default", "INFO"), installed := [], made := 1 }, .ok ()) := by decide
  refine ⟨fun h => ?_, hcall⟩
  have heffect := h misspelt { level := "INFO" } (congrArg Prod.snd hcall)
  exact heffect.installed_ne_nil (congrArg (·.1.installed) hcall)

end Sinks

/-! ## Settings -/

namespace Settings

variable {sources : Sources} {settings : Settings} {sinks : Sinks} {history : List Sinks.Request}

/-- The request for a sink that settings make. -/
def request (s : Settings) : Sinks.Request := ⟨s.logLevel, s.logProfile⟩

/-- The requests for sinks that come from some sources: that of their settings, unless these are rejected. -/
def Sources.requests (s : Sources) : List Sinks.Request := ((resolve s).value?.map request).toList

/-- Settings that are not rejected are put into effect by their request. -/
theorem configure_of_resolve (hs : resolve sources = .ok settings) (sinks : Sinks) :
    configure sources sinks
      = ((sinks.configure settings.logLevel settings.logProfile).1,
        ((sinks.configure settings.logLevel settings.logProfile).2.mapError .unknownLevel).map fun _ => settings) := by
  simp only [configure, hs]
  rcases sinks.configure settings.logLevel settings.logProfile with ⟨sinks', level | _⟩ <;> rfl

/-- **Sinks tell of the requests before, also of those that settings have made.** -/
theorem reflects_configure (h : sinks.Reflects history) (sources : Sources) :
    (configure sources sinks).1.Reflects (history ++ sources.requests) := by
  cases hs : resolve sources with
  | rejected defects =>
    have hrequests : sources.requests = [] := by
      unfold Sources.requests
      rw [hs]
      rfl
    have hsinks : (configure sources sinks).1 = sinks := by
      simp only [configure, hs]
    rwa [hsinks, hrequests, List.append_nil]
  | ok settings =>
    have hrequests : sources.requests = [settings.request] := by
      unfold Sources.requests
      rw [hs]
      rfl
    rw [configure_of_resolve hs, hrequests]
    exact h.configure settings.request

/-- **Settings are in effect exactly if they are returned and what they ask for has not been lost.** -/
theorem inEffect_configure_iff (h : sinks.Reflects history) (hs : resolve sources = .ok settings) :
    settings.request.InEffect (configure sources sinks).1
      ↔ (configure sources sinks).2 = .ok settings ∧ ¬Sinks.Lost history settings.request := by
  have hanswer : (configure sources sinks).2 = .ok settings ↔ settings.request.Known := by
    rw [← h.answer_eq_ok_iff, configure_of_resolve hs]
    show _ ↔ (sinks.configure settings.logLevel settings.logProfile).2 = .ok ()
    cases (sinks.configure settings.logLevel settings.logProfile).2 with
    | error level => exact iff_of_false nofun nofun
    | ok => exact iff_of_true rfl rfl
  rw [hanswer, configure_of_resolve hs]
  exact h.inEffect_configure_iff

end Settings

end CommandGrammar
