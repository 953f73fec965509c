import Mdrap.IngestLog.Repair
import Mdrap.Lemmas.Layout

/-!
# What repair makes of a segment file

`Frames limit v b fs t`: the bytes `b` are the frames `fs`, each read one behind the other, and then `t`. The repair loop goes
over such frames and decides by what stands at `t`.
-/

namespace Mdrap

open Lib

/-- Bytes that are read as frames, and the bytes that are left. -/
inductive Frames (limit : Int) (v : Nat) : Bytes → List Frame → Bytes → Prop where
  | nil (b : Bytes) : Frames limit v b [] b
  | cons {b r t : Bytes} {f : Frame} {fs : List Frame} : readFrame limit v b = .frame f r → Frames limit v r fs t →
      Frames limit v b (f :: fs) t

/-- The size of frames in a file. -/
def framesSize (fs : List Frame) : Nat := (fs.map (fun f => frameHeaderSize + f.payload.length)).sum

@[simp] theorem framesSize_nil : framesSize [] = 0 := rfl

@[simp] theorem framesSize_cons (f : Frame) (fs : List Frame) :
    framesSize (f :: fs) = frameHeaderSize + f.payload.length + framesSize fs := rfl

/-- The highest offset among frames, from a value on. -/
def highestOf (h : Int) (fs : List Frame) : Int := fs.foldl (fun h f => max h f.offset) h

/-- A frame that can be read back under a limit. -/
def Frame.Readable (limit : Int) (f : Frame) : Prop :=
  f.Fits ∧ f.payload.length ≤ maxFramePayloadBytes ∧ (f.payload.length : Int) ≤ limit

namespace Frames

variable {limit : Int} {v : Nat}

/-- Readable frames are read, whatever follows them. -/
theorem of_readable {fs : List Frame} (h : ∀ f ∈ fs, f.Readable limit) (t : Bytes) :
    Frames limit v (fs.flatMap Frame.bytes ++ t) fs t := by
  induction fs with
  | nil => exact .nil t
  | cons f fs ih =>
    obtain ⟨hfits, hmax, hlimit⟩ := h f List.mem_cons_self
    rw [List.flatMap_cons, List.append_assoc]
    exact .cons (readFrame_bytes hfits hmax hlimit v _) (ih (fun f' hf' => h f' (List.mem_cons_of_mem _ hf')))

/-- The bytes that frames take. -/
theorem length_eq {b t : Bytes} {fs : List Frame} (h : Frames limit v b fs t) : b.length = framesSize fs + t.length := by
  induction h with
  | nil b => simp
  | cons hread _ ih =>
    obtain ⟨chunk, rfl, hlen, _⟩ := readFrame_frame hread
    rw [List.length_append, hlen, ih, framesSize_cons, frameHeaderSize]
    omega

/-- The frames alone are read as the same frames. -/
theorem take {b t : Bytes} {fs : List Frame} (h : Frames limit v b fs t) (t' : Bytes) :
    Frames limit v (b.take (framesSize fs) ++ t') fs t' := by
  induction h with
  | nil b => exact .nil t'
  | @cons b r t f fs hread _ ih =>
    obtain ⟨chunk, rfl, hlen, hagain⟩ := readFrame_frame hread
    have htake : (chunk ++ r).take (framesSize (f :: fs)) = chunk ++ r.take (framesSize fs) := by
      rw [framesSize_cons, List.take_append, hlen, frameHeaderSize,
        List.take_of_length_le (by omega), Nat.add_sub_cancel_left]
    rw [htake, List.append_assoc]
    exact .cons (hagain _) ih

/-- Any bytes are some frames and then something that is not a frame. -/
theorem exists_maximal (limit : Int) (v : Nat) (b : Bytes) :
    ∃ fs t, Frames limit v b fs t ∧ ∀ f r, readFrame limit v t ≠ .frame f r := by
  induction hn : b.length using Nat.strongRecOn generalizing b with
  | ind n ih =>
    by_cases h : ∃ f r, readFrame limit v b = .frame f r
    · obtain ⟨f, r, hread⟩ := h
      obtain ⟨chunk, hb, hlen, _⟩ := readFrame_frame hread
      have hr : r.length < n := by
        rw [← hn, hb, List.length_append, hlen]
        omega
      obtain ⟨fs, t, hfs, ht⟩ := ih r.length hr r rfl
      exact ⟨f :: fs, t, .cons hread hfs, ht⟩
    · exact ⟨[], b, .nil b, fun f r hread => h ⟨f, r, hread⟩⟩

/-- The repair loop goes over frames. -/
theorem repairLoop {b t : Bytes} {fs : List Frame} (h : Frames limit v b fs t) (n pos : Nat) (hi : Int)
    (hn : b.length < n) :
    ∃ m, t.length < m ∧ repairLoop limit v n b pos hi = repairLoop limit v m t (pos + framesSize fs) (highestOf hi fs) := by
  induction h generalizing n pos hi with
  | nil b => exact ⟨n, hn, rfl⟩
  | @cons b r t f fs hread _ ih =>
    obtain ⟨chunk, rfl, hlen, _⟩ := readFrame_frame hread
    rw [List.length_append, hlen] at hn
    obtain ⟨n, rfl⟩ : ∃ n', n = n' + 1 := ⟨n - 1, by omega⟩
    obtain ⟨m, hm, heq⟩ := ih n (pos + frameHeaderSize + f.payload.length) (max hi f.offset) (by omega)
    refine ⟨m, hm, ?_⟩
    rw [Mdrap.repairLoop, hread]
    simp only
    rw [heq, framesSize_cons, Nat.add_assoc, Nat.add_assoc, Nat.add_assoc]
    rfl

end Frames

/-- The valid frames end within the file. -/
theorem repairLoop_validPos_le {limit : Int} {v n : Nat} {b : Bytes} {pos : Nat} {hi : Int} {r : Repair}
    (h : repairLoop limit v n b pos hi = .ok r) : r.validPos ≤ pos + b.length := by
  induction n generalizing b pos hi with
  | zero =>
    cases h
    exact Nat.le_add_right _ _
  | succ n ih =>
    rw [repairLoop] at h
    cases hread : readFrame limit v b with
    | frame f rest =>
      obtain ⟨chunk, rfl, hlen, _⟩ := readFrame_frame hread
      rw [hread] at h
      have := ih h
      rw [List.length_append, hlen]
      rw [frameHeaderSize] at this
      omega
    | badMagic _ | badCrc _ _ _ _ =>
      rw [hread] at h
      simp only at h
      split at h
      · cases h
        exact Nat.le_add_right _ _
      · cases h
    | oversized _ =>
      rw [hread] at h
      cases h
    | eof | tornHeader | tornPayload =>
      rw [hread] at h
      cases h
      exact Nat.le_add_right _ _

/-- The valid frames end at or behind the position the loop starts at. -/
theorem le_validPos {limit : Int} {v n : Nat} {b : Bytes} {pos : Nat} {hi : Int} {r : Repair}
    (h : repairLoop limit v n b pos hi = .ok r) : pos ≤ r.validPos := by
  induction n generalizing b pos hi with
  | zero =>
    cases h
    exact Nat.le_refl _
  | succ n ih =>
    rw [repairLoop] at h
    split at h
    · cases h
      exact Nat.le_refl _
    · cases h
      exact Nat.le_refl _
    · split at h
      · cases h
        exact Nat.le_refl _
      · cases h
    · cases h
    · cases h
      exact Nat.le_refl _
    · split at h
      · cases h
        exact Nat.le_refl _
      · cases h
    · have := ih h
      omega

/-! ## Torn tails -/

/-- What is left of a frame after a cut is the end of the file, a torn header or a torn payload. -/
theorem readFrame_take {f : Frame} {limit : Int} (hf : f.Readable limit) (v : Nat) {r : Nat} (hr : r < f.bytes.length) :
    readFrame limit v (f.bytes.take r) = .eof ∨ readFrame limit v (f.bytes.take r) = .tornHeader ∨
      readFrame limit v (f.bytes.take r) = .tornPayload := by
  obtain ⟨hfits, hmax, hlimit⟩ := hf
  have hlen : (f.bytes.take r).length = r := by rw [List.length_take, Nat.min_eq_left (by omega)]
  by_cases h0 : f.bytes.take r = []
  · exact Or.inl (by rw [readFrame, if_pos h0])
  · by_cases h28 : r < frameHeaderSize
    · exact Or.inr (Or.inl (by rw [readFrame, if_neg h0, if_pos (by rw [hlen]; exact h28)]))
    · refine Or.inr (Or.inr ?_)
      have hhdr : (f.bytes.take r).take frameHeaderSize = frameHeaderBytes f logVersion := by
        rw [List.take_take, Nat.min_eq_left (by omega)]
        simpa using take_header_bytes f []
      have hpay : (((f.bytes.take r).drop frameHeaderSize).take f.payload.length).length < f.payload.length := by
        rw [Frame.length_bytes] at hr
        rw [frameHeaderSize] at h28
        rw [List.length_take, List.length_drop, hlen, frameHeaderSize]
        omega
      rw [readFrame, if_neg h0, if_neg (by rw [hlen]; exact h28), hhdr, unpackFrameHeader_bytes hfits]
      simp only [ne_eq, not_true_eq_false, if_false]
      rw [if_neg (by omega), if_pos hpay]

/-- A tail that the repair loop cuts off: nothing, a torn header or payload, zeros, or a damaged frame at the end. -/
def TornTail (limit : Int) (v : Nat) (t : Bytes) : Prop :=
  match readFrame limit v t with
  | .eof | .tornHeader | .tornPayload => True
  | .badMagic _ => t.all (· == 0) = true
  | .badCrc _ _ _ rest => rest = []
  | .oversized _ | .frame _ _ => False

/-- The repair loop stops before a torn tail. -/
theorem repairLoop_tornTail {limit : Int} {v : Nat} {t : Bytes} (ht : TornTail limit v t) (n pos : Nat) (hi : Int)
    (hn : t.length < n) : ∃ k, repairLoop limit v n t pos hi = .ok ⟨pos, hi, k⟩ := by
  obtain ⟨n, rfl⟩ : ∃ n', n = n' + 1 := ⟨n - 1, by omega⟩
  unfold TornTail at ht
  rw [repairLoop]
  cases hread : readFrame limit v t with
  | eof => exact ⟨0, rfl⟩
  | tornHeader => exact ⟨1, rfl⟩
  | tornPayload => exact ⟨1, rfl⟩
  | badMagic h =>
    rw [hread] at ht
    exact ⟨0, by simp only [ht, if_true]⟩
  | badCrc f e a rest =>
    rw [hread] at ht
    exact ⟨1, by simp only [ht, if_true]⟩
  | oversized h =>
    rw [hread] at ht
    exact ht.elim
  | frame f rest =>
    rw [hread] at ht
    exact ht.elim

/-- Any other tail makes the repair loop raise, or a frame of it is kept. -/
theorem lt_validPos_of_not_tornTail {limit : Int} {v : Nat} {t : Bytes} (ht : ¬TornTail limit v t) {n pos : Nat} {hi : Int}
    (hn : t.length < n) {r : Repair} (h : repairLoop limit v n t pos hi = .ok r) : pos < r.validPos := by
  obtain ⟨n, rfl⟩ : ∃ n', n = n' + 1 := ⟨n - 1, by omega⟩
  unfold TornTail at ht
  rw [repairLoop] at h
  cases hread : readFrame limit v t with
  | eof | tornHeader | tornPayload =>
    rw [hread] at ht
    exact absurd trivial ht
  | badMagic hd =>
    rw [hread] at ht h
    simp only [ht, if_false] at h
    cases h
  | badCrc f e a rest =>
    rw [hread] at ht h
    simp only [ht, if_false] at h
    cases h
  | oversized hd =>
    rw [hread] at h
    cases h
  | frame f rest =>
    rw [hread] at h
    have hle := le_validPos h
    rw [frameHeaderSize] at hle
    omega

/-- What is left of a frame after a cut is a torn tail. -/
theorem tornTail_take {f : Frame} {limit : Int} (hf : f.Readable limit) (v : Nat) {r : Nat} (hr : r < f.bytes.length) :
    TornTail limit v (f.bytes.take r) := by
  unfold TornTail
  rcases readFrame_take hf v hr with h | h | h
  all_goals
    rw [h]
    trivial

theorem tornTail_nil (limit : Int) (v : Nat) : TornTail limit v [] := trivial

/-! ## Segments of the log -/

/-- Every frame of a segment within the limits is readable. -/
theorem Segment.readable {limit : Int} {g : Segment} (hf : g.Fits) (hw : g.Within limit) :
    ∀ f ∈ g.frames, f.Readable limit := fun f h => ⟨hf f h, (hw f h).1, (hw f h).2⟩

theorem framesSize_framesFrom (offset : Nat) (es : List LogEntry) : framesSize (framesFrom offset es) = entriesSize es := by
  induction es generalizing offset with
  | nil => rfl
  | cons e es ih =>
    rw [framesFrom, framesSize_cons, ih, entriesSize_cons]
    rfl

/-- The highest offset of consecutive frames is the last one. -/
theorem highestOf_framesFrom (offset : Nat) (es : List LogEntry) (h : Int) (hh : h ≤ offset) :
    highestOf h (framesFrom offset es) = if es = [] then h else (offset + es.length : Nat) - 1 := by
  induction es generalizing offset h with
  | nil => rfl
  | cons e es ih =>
    have hstep : highestOf h (framesFrom offset (e :: es)) = highestOf offset (framesFrom (offset + 1) es) := by
      simp only [framesFrom, highestOf, List.foldl_cons, LogEntry.frame]
      rw [Int.max_eq_right hh]
    rw [hstep, ih (offset + 1) offset (by omega), if_neg (List.cons_ne_nil e es)]
    split
    · rename_i hnil
      subst hnil
      simp
    · simp only [List.length_cons]
      omega

/-- The highest offset of a segment: the one before the next, or `-1` when it has no record. -/
def Segment.highest (g : Segment) : Int := if g.entries = [] then -1 else (g.next : Int) - 1

/-- Repair goes over a segment of the log; what stands behind it decides. -/
theorem verifyAndRepairSegment_bytes_append {limit : Int} {g : Segment} (hf : g.Fits) (hw : g.Within limit) (t : Bytes)
    (durable : Nat) : ∃ m, t.length < m ∧ verifyAndRepairSegment limit ⟨g.bytes ++ t, durable⟩ =
      match repairLoop limit logVersion m t g.bytes.length g.highest with
      | .error e => .error e
      | .ok r => .ok (some ⟨(g.bytes ++ t).take r.validPos, min durable r.validPos⟩, r) := by
  have hlen : ¬(g.bytes ++ t).length < segmentHeaderSize := by
    rw [List.length_append, Segment.length_bytes]
    omega
  have htake : (g.bytes ++ t).take segmentHeaderSize = segmentHeaderBytes g.start g.ts := by
    rw [Segment.bytes, List.append_assoc]
    exact List.take_left' (by simp [segmentHeaderSize])
  have hdrop : (g.bytes ++ t).drop segmentHeaderSize = g.frames.flatMap Frame.bytes ++ t := by
    rw [Segment.bytes, List.append_assoc]
    exact List.drop_left' (by simp [segmentHeaderSize])
  have hversion : segmentVersion (g.bytes ++ t) = logVersion := by
    rw [Segment.bytes, List.append_assoc, segmentVersion_header]
  obtain ⟨m, hm, hloop⟩ := (Frames.of_readable (v := logVersion) (Segment.readable hf hw) t).repairLoop
    ((g.bytes ++ t).length + 1) segmentHeaderSize (-1) (by
      rw [← hdrop, List.length_drop]
      omega)
  have hsize : segmentHeaderSize + framesSize g.frames = g.bytes.length := by
    rw [Segment.length_bytes, Segment.frames, framesSize_framesFrom]
  have hhigh : highestOf (-1) g.frames = g.highest := highestOf_framesFrom g.start g.entries (-1) (by omega)
  refine ⟨m, hm, ?_⟩
  rw [hsize, hhigh] at hloop
  cases hr : repairLoop limit logVersion m t g.bytes.length g.highest <;>
    simp only [verifyAndRepairSegment, if_neg hlen, htake, checkSegmentHeader_header, hversion, hdrop, hloop, hr]

/-- Repair keeps a segment of the log and cuts off a torn tail behind it. -/
theorem verifyAndRepairSegment_torn {limit : Int} {g : Segment} (hf : g.Fits) (hw : g.Within limit) {t : Bytes}
    (ht : TornTail limit logVersion t) (durable : Nat) :
    ∃ k, verifyAndRepairSegment limit ⟨g.bytes ++ t, durable⟩ =
      .ok (some ⟨g.bytes, min durable g.bytes.length⟩, ⟨g.bytes.length, g.highest, k⟩) := by
  obtain ⟨m, hm, hrep⟩ := verifyAndRepairSegment_bytes_append hf hw t durable
  obtain ⟨k, htail⟩ := repairLoop_tornTail ht m g.bytes.length g.highest hm
  refine ⟨k, ?_⟩
  rw [hrep, htail]
  simp only
  rw [List.take_left]

/-- Repair leaves a segment of the log as it is. -/
theorem verifyAndRepairSegment_bytes {limit : Int} {g : Segment} (hf : g.Fits) (hw : g.Within limit) (durable : Nat) :
    ∃ k, verifyAndRepairSegment limit ⟨g.bytes, durable⟩ =
      .ok (some ⟨g.bytes, min durable g.bytes.length⟩, ⟨g.bytes.length, g.highest, k⟩) := by
  simpa using verifyAndRepairSegment_torn hf hw (tornTail_nil limit logVersion) durable

/-- The repair loop raises on a frame beyond a limit; otherwise it comes to what stands behind the frames. -/
theorem within_of_repairLoop {limit : Int} {v : Nat} {fs : List Frame} (hf : ∀ f ∈ fs, f.Fits) {t : Bytes} {n pos : Nat}
    {hi : Int} (hn : (fs.flatMap Frame.bytes ++ t).length < n) {r : Repair}
    (h : repairLoop limit v n (fs.flatMap Frame.bytes ++ t) pos hi = .ok r) :
    (∀ f ∈ fs, f.payload.length ≤ maxFramePayloadBytes ∧ (f.payload.length : Int) ≤ limit) ∧
      ∃ m pos' hi', t.length < m ∧ repairLoop limit v m t pos' hi' = .ok r := by
  induction fs generalizing n pos hi with
  | nil => exact ⟨by simp, n, pos, hi, hn, h⟩
  | cons f fs ih =>
    have hfits := hf f List.mem_cons_self
    rw [List.flatMap_cons, List.append_assoc] at h hn
    obtain ⟨n, rfl⟩ : ∃ n', n = n' + 1 := ⟨n - 1, by omega⟩
    rw [repairLoop] at h
    by_cases hw : f.payload.length ≤ maxFramePayloadBytes ∧ (f.payload.length : Int) ≤ limit
    · simp only [readFrame_bytes hfits hw.1 hw.2 v (fs.flatMap Frame.bytes ++ t)] at h
      have hn' : (fs.flatMap Frame.bytes ++ t).length < n := by
        rw [List.length_append, Frame.length_bytes] at hn
        omega
      obtain ⟨hfs, hrest⟩ := ih (fun f' hf' => hf f' (List.mem_cons_of_mem _ hf')) hn' h
      exact ⟨List.forall_mem_cons.mpr ⟨hw, hfs⟩, hrest⟩
    · obtain ⟨hd, hread⟩ := readFrame_oversized hfits hw v (fs.flatMap Frame.bytes ++ t)
      simp only [hread, reduceCtorEq] at h

/-- A segment of the log that repair accepts, whatever stands behind it, has no frame beyond a limit. -/
theorem Segment.within_of_repaired {limit : Int} {g : Segment} (hf : g.Fits) {t : Bytes} {durable : Nat}
    {x : Option SegFile × Repair} (h : verifyAndRepairSegment limit ⟨g.bytes ++ t, durable⟩ = .ok x) :
    g.Within limit ∧ ∃ m pos hi r, t.length < m ∧ repairLoop limit logVersion m t pos hi = .ok r := by
  have hlen : ¬(g.bytes ++ t).length < segmentHeaderSize := by
    rw [List.length_append, Segment.length_bytes]
    omega
  have hdrop : (g.bytes ++ t).drop segmentHeaderSize = g.frames.flatMap Frame.bytes ++ t := by
    rw [Segment.bytes, List.append_assoc]
    exact List.drop_left' (by simp [segmentHeaderSize])
  have hversion : segmentVersion (g.bytes ++ t) = logVersion := by
    rw [Segment.bytes, List.append_assoc, segmentVersion_header]
  unfold verifyAndRepairSegment at h
  simp only at h
  rw [if_neg hlen, hdrop, hversion] at h
  split at h
  · cases h
  · split at h
    · cases h
    · rename_i r hloop
      obtain ⟨hw, m, pos, hi, hm, hrest⟩ := within_of_repairLoop hf (by
        rw [← hdrop, List.length_drop]
        omega) hloop
      exact ⟨hw, m, pos, hi, r, hm, hrest⟩

/-- What is left of a frame beyond a limit is too short for a header, or refused. -/
theorem readFrame_take_oversized {f : Frame} (hf : f.Fits) {limit : Int}
    (h : ¬(f.payload.length ≤ maxFramePayloadBytes ∧ (f.payload.length : Int) ≤ limit)) (v r : Nat) :
    readFrame limit v (f.bytes.take r) = .eof ∨ readFrame limit v (f.bytes.take r) = .tornHeader ∨
      ∃ hd, readFrame limit v (f.bytes.take r) = .oversized hd := by
  by_cases h0 : f.bytes.take r = []
  · exact Or.inl (by rw [readFrame, if_pos h0])
  · by_cases h28 : (f.bytes.take r).length < frameHeaderSize
    · exact Or.inr (Or.inl (by rw [readFrame, if_neg h0, if_pos h28]))
    · refine Or.inr (Or.inr ?_)
      have hr : frameHeaderSize ≤ r := by
        rw [List.length_take] at h28
        omega
      have hhdr : (f.bytes.take r).take frameHeaderSize = frameHeaderBytes f logVersion := by
        rw [List.take_take, Nat.min_eq_left hr]
        simpa using take_header_bytes f []
      have hsize : maxFramePayloadBytes < f.payload.length ∨ limit < (f.payload.length : Int) := by omega
      rw [readFrame, if_neg h0, if_neg h28, hhdr, unpackFrameHeader_bytes hf]
      simp only [ne_eq, not_true_eq_false, if_false, if_pos hsize]
      exact ⟨_, rfl⟩

/-- What a cut leaves of a segment, where repair accepts it: segments within the limits and a torn tail. -/
theorem Segment.tornTail_of_repaired {limit : Int} {g : Segment} (hf : g.Fits) {c : Nat} (hc : segmentHeaderSize ≤ c)
    {durable : Nat} {x : Option SegFile × Repair} (h : verifyAndRepairSegment limit ⟨g.bytes.take c, durable⟩ = .ok x) :
    (g.cut c).Within limit ∧ ∃ t, g.bytes.take c = (g.cut c).bytes ++ t ∧ TornTail limit logVersion t := by
  obtain ⟨t, htake, htail⟩ := g.take_bytes c hc
  rw [htake] at h
  obtain ⟨hw, m, pos, hi, r, hm, hloop⟩ := Segment.within_of_repaired (Segment.fits_cut hf c) h
  refine ⟨hw, t, htake, ?_⟩
  rcases htail with ⟨_, rfl⟩ | ⟨e, rest, k, hentries, hk, rfl⟩
  · exact tornTail_nil limit logVersion
  · have hmem : e.frame (g.cut c).next ∈ g.frames := by
      rw [Segment.frames, hentries, framesFrom_append]
      exact List.mem_append_right _ List.mem_cons_self
    have hlen : k < (e.frame (g.cut c).next).bytes.length := by
      rw [LogEntry.length_frame_bytes]
      exact hk
    have hfits := hf _ hmem
    generalize e.frame (g.cut c).next = f at hfits hloop hm hlen ⊢
    by_cases hwf : f.payload.length ≤ maxFramePayloadBytes ∧ (f.payload.length : Int) ≤ limit
    · exact tornTail_take ⟨hfits, hwf.1, hwf.2⟩ logVersion hlen
    · obtain ⟨m, rfl⟩ : ∃ m', m = m' + 1 := ⟨m - 1, by omega⟩
      rw [repairLoop] at hloop
      rcases readFrame_take_oversized hfits hwf logVersion k with hread | hread | ⟨hd, hread⟩
      · simp only [TornTail, hread]
      · simp only [TornTail, hread]
      · simp only [hread, reduceCtorEq] at hloop

/-- The tail that a cut leaves behind the kept frames is torn. -/
theorem Segment.tornTail_of_cut {limit : Int} {g : Segment} (hf : g.Fits) (hw : g.Within limit) {c : Nat}
    (hc : segmentHeaderSize ≤ c) : ∃ t, g.bytes.take c = (g.cut c).bytes ++ t ∧ TornTail limit logVersion t := by
  obtain ⟨t, htake, ⟨_, rfl⟩ | ⟨e, rest, r, hentries, hr, rfl⟩⟩ := g.take_bytes c hc
  · exact ⟨[], htake, tornTail_nil limit logVersion⟩
  · refine ⟨_, htake, ?_⟩
    have hmem : e.frame (g.cut c).next ∈ g.frames := by
      rw [Segment.frames, hentries, framesFrom_append]
      exact List.mem_append_right _ List.mem_cons_self
    have hlen : r < (e.frame (g.cut c).next).bytes.length := by
      rw [LogEntry.length_frame_bytes]
      exact hr
    exact tornTail_take (Segment.readable hf hw _ hmem) logVersion hlen

end Mdrap
