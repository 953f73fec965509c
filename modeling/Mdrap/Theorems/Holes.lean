import Mdrap.Lemmas.AnyFile
import Mdrap.Lemmas.Run

/-!
# Holes in the history

Opening repairs each segment file on its own, so a sealed segment that lost its end is cut like the newest one. Whatever the
segment files hold, the log that is opened has a hole exactly when their whole frames have one.
-/

namespace Mdrap

open Lib IngestLog

/-- Offsets that run from the first of them up to the one before `next`, each once and in order. -/
def Consecutive (offsets : List Nat) (next : Nat) : Prop :=
  ∀ a, offsets.head? = some a → offsets = List.range' a (next - a)

/-- Opening raises a corruption error, or gives a log that reads every offset from the earliest one read up to the next. -/
def OpensWithoutHole (cfg : LogConfig) (dir : LogDir) (now ts : UInt64) : Prop :=
  (∃ start reason, openLog cfg dir now ts = .error (.corrupt start reason)) ∨
  ∃ s events, openLog cfg dir now ts = .ok s ∧ (s.iterFrom s.earliestOffset now).1 = .ok events ∧
    Consecutive (events.map Prod.fst) s.nextOffset

/-- The offsets of the whole frames in the segment files, from the first file's offset on, whose payload is a JSON object. -/
def LogDir.recordOffsets (limit : Int) (dir : LogDir) : List Nat :=
  ((dir.frames limit).filter (fun f => dir.firstOffset ≤ f.offset ∧ (decodeRecord f).isSome)).map Frame.offset

/-- The offsets of events are those of the frames they are read from. -/
theorem map_fst_eventsOf (startOffset : Nat) (fs : List Frame) : (eventsOf startOffset fs).map Prod.fst =
    (fs.filter (fun f => startOffset ≤ f.offset ∧ (decodeRecord f).isSome)).map Frame.offset := by
  induction fs with
  | nil => rfl
  | cons f fs ih =>
    unfold eventsOf at ih ⊢
    rw [List.filterMap_cons, List.filter_cons]
    by_cases hle : startOffset ≤ f.offset
    · cases hdec : decodeRecord f with
      | none => simp [hle, ih]
      | some e => simp [hle, ih]
    · simp [hle, ih]

end Mdrap
