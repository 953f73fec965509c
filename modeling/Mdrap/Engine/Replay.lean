import Mathlib.Logic.Function.Basic
import Mdrap.IngestLog.Read
import Mdrap.Engine.Submit
import Mdrap.IngestLog.Run

/-!
# Replaying a log

What the engine has decided is made again from the log: a state is folded over the records from an initial one on. The engine does
so in several places, each with a loop of its own.
-/

namespace Mdrap

open Lib

variable {V : Type}

/-- The loop of `_replay_projection_batch`: the steps for the records before an offset are taken and not kept; of the others the
decisions are kept, as many as there is room for. -/
def replayLoop (c : StepConfig V) (now : Json) (fromOffset : Int) :
    Nat → List (Nat × RawEvent) → EngineState V → Option GapManager → List (EngineDecision V) × Option GapManager
  | 0, _, _, gaps => ([], gaps)
  | _, [], _, gaps => ([], gaps)
  | room + 1, (off, raw) :: rest, s, gaps =>
    let (d, s, gaps) := stepAlone c raw now (some (off : Int)) false s gaps
    if off < fromOffset then replayLoop c now fromOffset (room + 1) rest s gaps
    else
      let (ds, gaps) := replayLoop c now fromOffset room rest s gaps
      (d :: ds, gaps)

namespace Engine

/-- `create_initial_state`. -/
def createInitialState (e : Engine V) : EngineState V := .initial e.config.stalenessThresholdS

/-- `_replay_projection_batch`: the decisions from an offset on, and the last of their offsets. -/
def replayProjectionBatch (e : Engine V) (fromOffset : Int) (maxBatchSize : Nat) (now : UInt64) :
    Except HistoryIncomplete (List (EngineDecision V) × Int) × Engine V :=
  match e.log with
  | none => (.ok ([], fromOffset - 1), e)
  | some log =>
    if (log.nextOffset : Int) ≤ fromOffset then (.ok ([], fromOffset - 1), e)
    else
      match log.iterFrom 0 now with
      | (.error err, log) => (.error err, { e with log := some log })
      | (.ok records, log) =>
        let (batch, gaps) := replayLoop e.config.toStepConfig e.config.now fromOffset maxBatchSize records e.createInitialState e.gaps
        (.ok (batch, (batch.getLast?.map EngineDecision.offset).getD (fromOffset - 1)), { e with log := some log, gaps := gaps })

end Engine

end Mdrap

/-!
## Snapshots, and the states an engine comes to

A snapshot holds the state but for the set of fingerprints, which is made anew from the window, and for the number of events that
were handed in, for which the number of events is taken.
-/

namespace Mdrap

open Lib

variable {V : Type}

/-- What a snapshot says of a state. -/
structure StateDict (V : Type) where
  eventCount : Nat
  lastAppliedOffset : Int
  observedCount : Option Nat
  sequenceState : Dict String Int
  sequenceSeen : Dict String Nat
  sequenceCand : Dict String Int
  sequenceRegress : Dict String Nat
  sequenceStaleSeen : Dict String (List Int)
  dedupWindow : List (Fingerprint V)
  priceWindows : Dict String (List V)
  bboState : Dict String (Dict String (Quote V))
  reconciliationState : Dict String (Dict String (V × V))
  counts : Counts
  stalenessThresholdS : V
  epochState : Dict String Nat
  epochTs : Dict String V
  sessionState : Dict String String
  priceStats : Dict String (V × V × Nat)
  priceAnom : Dict String (Nat × V)

/-- `to_dict`. -/
def EngineState.toDict (s : EngineState V) : StateDict V where
  __ := s
  observedCount := none

/-- `from_dict`. -/
def EngineState.fromDict (d : StateDict V) : EngineState V where
  __ := d
  observedCount := d.observedCount.getD d.eventCount
  dedupSet := d.dedupWindow

/-- A state that an engine can be in: a new one, one after a step or after a call of `submit`, or one that a snapshot gives back. -/
inductive EngineState.Reached (P : Py V) : EngineState V → Prop where
  | initial (stalenessThresholdS : V) : Reached P (.initial stalenessThresholdS)
  | step {s : EngineState V} (h : Reached P s) (c : StepConfig V) (hc : c.py = P) (raw : RawEvent) (now : Json)
      (offset : Option Int) (isReplay : Bool) (gaps : Option GapManager) :
      Reached P (stepAlone c raw now offset isReplay s gaps).2.1
  | submit {e : Engine V} (h : Reached P e.state) (hc : e.config.py = P) (xs : List Incoming) (env : SubmitEnv) :
      Reached P (e.submit xs env).2.state
  | restored {s : EngineState V} (h : Reached P s) : Reached P (.fromDict s.toDict)

end Mdrap

/-!
## Events that are handed in again

`submit` writes into the events that it is given: the time they came in, and for an event without an id one that is made of the
offset it will get. Both stay there when the append then fails, and when the caller hands the same event in again. A site is a log
directory with the process that has it open, if there is one, and with the events that its callers hold; it keeps the decisions on
the events that were appended. What an engine recovers of its state when the directory is opened is not said here.
-/

namespace Mdrap

open Lib

variable {V : Type}

/-- The events that callers hold, by their numbers. -/
abbrev HeldEvents := Nat → Incoming

/-- The event with its time, and with its id where it is accepted. -/
def touched (c : EngineConfig V) (x : Incoming) (n base : Nat) : Incoming :=
  let x := { x with raw := x.raw.stamped c.now }
  if (turnAway c x (n + 1)).isSome then x else { x with raw := x.raw.named c.py base }

/-- What the loop of `submit` writes into the events of a list, and the events as it hands them on. -/
def nameEvents (c : EngineConfig V) : List Nat → Nat → Nat → HeldEvents → List Incoming × HeldEvents
  | [], _, _, held => ([], held)
  | o :: os, n, base, held =>
    let x := touched c (held o) n base
    let (xs, held) := nameEvents c os (n + 1) (if (turnAway c x (n + 1)).isSome then base else base + 1) (Function.update held o x)
    (x :: xs, held)

/-- A process with its engine, or the directory that the next one opens. -/
inductive Process (V : Type) where
  | running (e : Engine V)
  | down (dir : LogDir)

/-- A log directory, the events that callers hold, and the decisions on the events that were appended. -/
structure Site (V : Type) where
  process : Process V
  held : HeldEvents
  decided : List (Nat × EngineDecision V)

/-- What can happen at a site: a call of `submit` at some time, the pruning of old segments, the end of a process with or without the
log being closed, and the start of one with an engine. -/
inductive SiteEvent (V : Type) where
  | submit (os : List Nat) (now : Json) (env : SubmitEnv)
  | prune (checkpoint : Int)
  | close (fsyncIo : Bool)
  | crash (c : Nat)
  | reopen (cfg : LogConfig) (now ts : UInt64) (e : Engine V)

/-- The engine at a time. -/
def Engine.atTime (e : Engine V) (now : Json) : Engine V := { e with config := { e.config with now := now } }

namespace Site

/-- A call of `submit`. -/
def submit (e : Engine V) (s : Site V) (os : List Nat) (env : SubmitEnv) : Site V :=
  let (xs, held) := nameEvents e.config os e.observedRawCount e.idBase s.held
  match e.submit xs env with
  | (.error _, e) => ⟨.running e, held, s.decided⟩
  | (.ok r, e) => ⟨.running e, held, s.decided ++ (os.zip r.decisions).filter (fun p => 0 ≤ p.2.offset)⟩

/-- One event. A directory that cannot be opened stays as it is. -/
def step (s : Site V) (event : SiteEvent V) : Site V :=
  match event, s.process with
  | .submit os now env, .running e => submit (e.atTime now) s os env
  | .prune checkpoint, .running e => { s with process := .running { e with log := e.log.map (fun l => (l.deleteSegmentsBefore checkpoint).2) } }
  | .close fsyncIo, .running e =>
    match e.log with
    | none => s
    | some log => { s with process := .down (log.close .ok fsyncIo).dir }
  | .crash c, .running e =>
    match e.log with
    | none => s
    | some log => { s with process := .down (log.crash c) }
  | .reopen cfg now ts e, .down dir =>
    match IngestLog.openLog cfg dir now ts with
    | .error _ => s
    | .ok log => { s with process := .running { e with log := some log } }
  | _, _ => s

end Site

end Mdrap
