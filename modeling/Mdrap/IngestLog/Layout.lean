import Mathlib.Data.List.Chain
import Mdrap.IngestLog.Log
import Mdrap.Lemmas.Frame

/-!
# What a log holds

The history of a log without its bytes: segments that follow each other without a gap, each with the records logged in it.
A log represents such a layout (`IngestLog.Represents`) when its files, with the bytes still in the buffer of the open one,
are those of the segments, and its counters are those of the last segment.

The items of a layout are its records in order, each with its offset, the segment it stands in and the position its frame
ends at.
-/

namespace Mdrap

open Lib

/-- A logged record and the time of its frame. -/
structure LogEntry where
  ts : UInt64
  record : List (String × Json)

/-- The frame of a record at an offset. -/
def LogEntry.frame (offset : Nat) (e : LogEntry) : Frame := ⟨offset, e.ts, recordBytes e.record⟩

/-- The size of the frame of a record. -/
def LogEntry.size (e : LogEntry) : Nat := frameHeaderSize + (recordBytes e.record).length

/-- The frames of records from an offset on. -/
@[grind =] def framesFrom : Nat → List LogEntry → List Frame
  | _, [] => []
  | offset, e :: es => e.frame offset :: framesFrom (offset + 1) es

theorem framesFrom_append (offset : Nat) (es es' : List LogEntry) :
    framesFrom offset (es ++ es') = framesFrom offset es ++ framesFrom (offset + es.length) es' := by
  induction es generalizing offset with
  | nil => rfl
  | cons e es ih =>
    simp only [List.cons_append, framesFrom, ih, List.length_cons]
    rw [show offset + 1 + es.length = offset + (es.length + 1) by omega]

/-- A record in its place: its offset, its segment, and the position its frame ends at. -/
structure Item where
  offset : Nat
  entry : LogEntry
  segment : Nat
  endPos : Nat

/-- The items of records written one behind the other. -/
@[grind =] def itemsFrom (segment : Nat) : Nat → Nat → List LogEntry → List Item
  | _, _, [] => []
  | offset, pos, e :: es => ⟨offset, e, segment, pos + e.size⟩ :: itemsFrom segment (offset + 1) (pos + e.size) es

/-- The first records whose frames end at or before a position. -/
def keepUpTo (c : Nat) : Nat → List LogEntry → List LogEntry
  | _, [] => []
  | pos, e :: es => if pos + e.size ≤ c then e :: keepUpTo c (pos + e.size) es else []

/-- A segment: its start offset, the time it was created, and its records. -/
structure Segment where
  start : Nat
  ts : UInt64
  entries : List LogEntry

namespace Segment

def frames (g : Segment) : List Frame := framesFrom g.start g.entries

/-- The offset after the last record. -/
def next (g : Segment) : Nat := g.start + g.entries.length

/-- The file of a segment. -/
def bytes (g : Segment) : Bytes := segmentHeaderBytes g.start g.ts ++ g.frames.flatMap Frame.bytes

def items (g : Segment) : List Item := itemsFrom g.start g.start segmentHeaderSize g.entries

/-- The numbers of every frame fit their fields. -/
def Fits (g : Segment) : Prop := ∀ f ∈ g.frames, f.Fits

/-- Every payload is one the log reads back under the limit. -/
def Within (limit : Int) (g : Segment) : Prop :=
  ∀ f ∈ g.frames, f.payload.length ≤ maxFramePayloadBytes ∧ (f.payload.length : Int) ≤ limit

/-- More records at the end. -/
def extend (g : Segment) (es : List LogEntry) : Segment := { g with entries := g.entries ++ es }

/-- The records that are left when the file is cut. -/
def cut (g : Segment) (c : Nat) : Segment := { g with entries := keepUpTo c segmentHeaderSize g.entries }

end Segment

/-- The history of a log: sealed segments and the active one, without a gap between them. -/
structure Layout where
  sealed : List Segment
  active : Segment
  chain : (sealed ++ [active]).IsChain (fun g g' => g.next = g'.start)
  nonempty : ∀ g ∈ sealed, g.entries ≠ []
  fits : ∀ g ∈ sealed ++ [active], g.Fits

namespace Layout

def segments (L : Layout) : List Segment := L.sealed ++ [L.active]

/-- The next offset. -/
def next (L : Layout) : Nat := L.active.next

/-- The first offset. -/
def first (L : Layout) : Nat :=
  match L.sealed with
  | [] => L.active.start
  | g :: _ => g.start

def items (L : Layout) : List Item := L.segments.flatMap Segment.items

def Within (limit : Int) (L : Layout) : Prop := ∀ g ∈ L.segments, g.Within limit

/-- One segment without records. -/
def initial (start : Nat) (ts : UInt64) : Layout where
  sealed := []
  active := ⟨start, ts, []⟩
  chain := List.isChain_singleton _
  nonempty := by simp
  fits := by simp [Segment.Fits, Segment.frames, framesFrom]

/-- More records at the end of the active segment. -/
def extend (L : Layout) (es : List LogEntry) (h : ∀ f ∈ framesFrom L.next es, f.Fits) : Layout where
  sealed := L.sealed
  active := L.active.extend es
  chain := by
    have hchain := L.chain
    rw [List.isChain_append] at hchain ⊢
    exact ⟨hchain.1, List.isChain_singleton _, by simpa [Segment.extend] using hchain.2.2⟩
  nonempty := L.nonempty
  fits := by
    intro g hg
    rcases List.mem_append.mp hg with hg | hg
    · exact L.fits g (List.mem_append_left _ hg)
    · rw [List.mem_singleton.mp hg]
      intro f hf
      rw [Segment.frames, Segment.extend, framesFrom_append] at hf
      rcases List.mem_append.mp hf with hf | hf
      · exact L.fits L.active (by simp) f hf
      · exact h f hf

/-- A new segment at the next offset; an active segment without records is replaced. -/
def rotate (L : Layout) (ts : UInt64) : Layout where
  sealed := if L.active.entries = [] then L.sealed else L.sealed ++ [L.active]
  active := ⟨L.next, ts, []⟩
  chain := by
    have hchain := L.chain
    split
    · rename_i hnil
      rw [List.isChain_append] at hchain ⊢
      refine ⟨hchain.1, List.isChain_singleton _, ?_⟩
      intro g hg g' hg'
      have := hchain.2.2 g hg L.active rfl
      simp only [List.head?_cons, Option.mem_def, Option.some.injEq] at hg'
      rw [← hg', this]
      simp [next, Segment.next, hnil]
    · rw [List.isChain_append]
      refine ⟨hchain, List.isChain_singleton _, ?_⟩
      intro g hg g' hg'
      simp only [List.getLast?_append, List.getLast?_singleton, Option.some_or, Option.mem_def, Option.some.injEq,
        List.head?_cons] at hg hg'
      rw [← hg, ← hg']
      rfl
  nonempty := by
    split
    · exact L.nonempty
    · intro g hg
      rcases List.mem_append.mp hg with hg | hg
      · exact L.nonempty g hg
      · rw [List.mem_singleton.mp hg]
        assumption
  fits := by
    intro g hg
    rcases List.mem_append.mp hg with hg | hg
    · refine L.fits g ?_
      split at hg
      · exact List.mem_append_left _ hg
      · exact hg
    · rw [List.mem_singleton.mp hg]
      simp [Segment.Fits, Segment.frames, framesFrom]

/-- The names and bytes of the segment files, with more bytes behind the last one. -/
def filesWith (L : Layout) (x : Bytes) : List (Nat × Bytes) :=
  L.sealed.map (fun g => (g.start, g.bytes)) ++ [(L.active.start, L.active.bytes ++ x)]

/-- The names and bytes of the segment files. -/
def files (L : Layout) : List (Nat × Bytes) := L.segments.map (fun g => (g.start, g.bytes))

end Layout

/-- The names and bytes of the segment files of a directory. -/
def LogDir.files (dir : LogDir) : List (Nat × Bytes) := dir.segments.entries.map (fun e => (e.1, e.2.written))

namespace IngestLog

/-- The bytes in the buffer for a segment. -/
def pending (s : IngestLog) (start : Nat) : Bytes :=
  match s.current with
  | some f => if f.start = start then f.buffer else []
  | none => []

/-- The names and bytes of the segment files, with what the buffer still holds. -/
def contents (s : IngestLog) : List (Nat × Bytes) := s.dir.segments.entries.map (fun e => (e.1, e.2.written ++ s.pending e.1))

/-- The log holds the history of a layout. -/
structure Represents (s : IngestLog) (L : Layout) : Prop where
  contents : s.contents = L.files
  next : s.nextOffset = L.next
  current : ∀ f, s.current = some f → f.start = L.active.start ∧ s.currentSegmentStartOffset = L.active.start ∧
    s.currentSegmentBytes = L.active.bytes.length ∧ (f.closed = true → s.isPoisoned = true ∧ f.buffer = [])

end IngestLog

end Mdrap
