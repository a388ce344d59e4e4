import JointSchnorr.Journal.Record

/-!
# Setting up the recording

A process has one place for a logger and one for a subscriber. Setting up the recording takes
the first with a bridge, which passes plain log lines on, and then the second with a subscriber
that records. It fails at the first place that is taken; what it has installed by then stays.
-/

namespace JointSchnorr.Journal

/-- The two places of a process, and whether they are taken. -/
structure Places where
  logger : Bool
  subscriber : Bool
deriving DecidableEq

/-- Which place is taken. -/
inductive SetupError where
  | logger
  | subscriber
deriving DecidableEq

/-- The text of a failure to set up. -/
def SetupError.message : SetupError → String
  | logger =>
    "failed to install the log bridge: attempted to set a logger after the logging system " ++
      "was already initialized"
  | subscriber =>
    "failed to install the global subscriber: a global default trace dispatcher has already " ++
      "been set"

/-- Sets up the recording. -/
def Places.setUp (places : Places) : Places × Except SetupError Unit :=
  if places.logger then (places, .error .logger)
  else if places.subscriber then (⟨true, true⟩, .error .subscriber)
  else (⟨true, true⟩, .ok ())

/-- Sets up the recording several times over. -/
def Places.setUpTimes (places : Places) : Nat → List (Except SetupError Unit)
  | 0 => []
  | n + 1 =>
    let (places, result) := places.setUp
    result :: places.setUpTimes n

/-- Whether one of the attempts has succeeded, so that there are records. -/
def isRecording (attempts : List (Except SetupError Unit)) : Bool :=
  attempts.any fun
    | .ok _ => true
    | .error _ => false

/-- The record of a plain log line of level warn, which the filter judges by the line's own
target. -/
def bridgeRecords (logger : String) (f : Filter) (target text : String) : List Record :=
  let names := ["message", "log.target", "log.module_path", "log.file", "log.line"]
  if f.passesEvent [] target names .warn then
    [⟨logger, .warn, "log", text, [("log.target", .text target)]⟩]
  else []

end JointSchnorr.Journal
