import CommandGrammar.Level
import CommandGrammar.Text.LetterCase

/-!
# Where log entries go

Log entries go to sinks. Configuring replaces all sinks by one of the requested profile and level,
unless the same request was the last one to succeed, in which case nothing is touched. A level that
does not exist is noticed only after the old sinks are gone: no sink is left then, and the last
successful request stays remembered.
-/

namespace CommandGrammar

/-- How a sink lays its lines out: decorated for a terminal, or plain. -/
inductive SinkStyle where
  | rich
  | plain
  deriving DecidableEq, Repr

/-- The style that a profile asks for. -/
def SinkStyle.ofProfile (profile : String) : SinkStyle := if profile = "rich" then .rich else .plain

/-- An installed sink. Its number only tells it apart from the other ones; it is not the one under which a logging
library may know it, since that may count attempts that failed as well. -/
structure Sink where
  number : Nat
  style : SinkStyle
  level : Level
  deriving DecidableEq, Repr

/-- The last successful request, a profile and a level in capitals, the sinks in place, and how many sinks were
installed so far. -/
structure Sinks where
  configured : Option (String × String) := none
  installed : List Sink := []
  made : Nat := 0
  deriving DecidableEq, Repr

namespace Sinks

/-- The wording for a level that does not exist. -/
def unknownLevelMessage (level : String) : String := s!"Level '{level}' does not exist"

/-- Replaces all sinks by one of a profile and a level; the error is the level that does not exist. -/
def configure (s : Sinks) (level profile : String) : Sinks × Except String Unit :=
  let level := Text.upper level
  if s.configured = some (profile, level) then (s, .ok ())
  else match Level.ofName? level with
    | none => ({ s with installed := [] }, .error level)
    | some threshold =>
      ({ configured := some (profile, level)
         installed := [⟨s.made, .ofProfile profile, threshold⟩]
         made := s.made + 1 }, .ok ())

/-- The level and the profile where a request names none. -/
def defaultLevel : String := "INFO"

/-- The profile where a request names none. -/
def defaultProfile : String := "default"

end Sinks

end CommandGrammar
