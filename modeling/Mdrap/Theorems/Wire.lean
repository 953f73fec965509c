import Mdrap.Protocol.Wire

/-!
# Parsing a stream

The parser does the same whatever the chunks are. It finds the frames behind garbage: a header that begins in the garbage and ends in
the first frame has the text `MD` of that frame where the type or the length of a message would have to be, and neither letter is one.
-/

namespace Mdrap

open Lib

/-! ## Frames -/

/-- A call of one of the functions that pack a frame. -/
inductive WireFrame where
  | tick (a : TickArgs)
  | tickV2 (a : TickArgs) (reasonMask : Int)
  | depth (a : DepthArgs)

namespace WireFrame

/-- The frame. -/
def pack : WireFrame → Option Bytes
  | .tick a => packTickFrame a
  | .tickV2 a reasonMask => packTickFrameV2 a reasonMask
  | .depth a => packDepthFrame a

/-- The frame, unpacked by the function that goes with the one that has packed it. -/
def unpack (f : WireFrame) (frame : Bytes) : WireEvent :=
  match f with
  | .tick _ => .tick (unpackTickPayload (frame.drop wireHeaderSize))
  | .tickV2 _ _ => .tick (unpackTickPayloadV2 (frame.drop wireHeaderSize))
  | .depth _ => .depth (unpackDepthPayload (frame.drop wireHeaderSize))

end WireFrame

theorem length_packText (n : Nat) (s : String) : (packText n s).length = n := by
  simp only [packText, List.length_append, length_zeros, List.length_take]
  omega

theorem length_packDouble (bits : UInt64) : (packDouble bits).length = 8 := length_le 8 _

theorem length_packUInt64 {n : Int} {b : Bytes} (h : packUInt64 n = some b) : b.length = 8 := by
  rw [packUInt64] at h
  split at h
  · cases h
    exact length_le 8 _
  · cases h

theorem length_packSingle {bits : UInt64} {b : Bytes} (h : packSingle bits = some b) : b.length = 4 := by
  obtain ⟨x, -, rfl⟩ := Option.map_eq_some_iff.mp h
  exact length_le 4 _

/-- A packed frame is a header and a payload of the length the header says. -/
structure Framed (frame : Bytes) (msgType payloadLen : UInt8) (payload : Bytes) : Prop where
  bytes : frame = 0x4d :: 0x44 :: msgType :: payloadLen :: payload
  header : IsWireHeader 0x4d 0x44 msgType payloadLen
  length : payload.length = payloadLen.toNat

theorem Framed.of_header {msgType : UInt8} {payloadLen : Nat} {payload : Bytes}
    (hheader : IsWireHeader 0x4d 0x44 msgType (UInt8.ofNat payloadLen)) (hlen : payload.length = payloadLen)
    (hbyte : payloadLen < 256) : Framed (packWireHeader msgType payloadLen ++ payload) msgType (UInt8.ofNat payloadLen) payload :=
  ⟨rfl, hheader, by rw [hlen, UInt8.toNat_ofNat', Nat.mod_eq_of_lt hbyte]⟩

theorem packTickFrame_framed {a : TickArgs} {frame : Bytes} (h : packTickFrame a = some frame) :
    ∃ payload, Framed frame msgTypeTick (UInt8.ofNat tickPayloadLen) payload := by
  simp only [packTickFrame, Option.bind_eq_bind, Option.bind_eq_some_iff, Option.pure_def, Option.some.injEq] at h
  obtain ⟨seq, hseq, engineUs, hengine, rfl⟩ := h
  refine ⟨_, .of_header (by decide) ?_ (by decide)⟩
  simp only [List.length_append, length_packUInt64 hseq, length_packSingle hengine, length_packDouble, length_packText, length_le,
    length_zeros]
  rfl

theorem packTickFrameV2_framed {a : TickArgs} {reasonMask : Int} {frame : Bytes} (h : packTickFrameV2 a reasonMask = some frame) :
    ∃ payload, Framed frame msgTypeTickV2 (UInt8.ofNat tickV2PayloadLen) payload := by
  simp only [packTickFrameV2, Option.bind_eq_bind, Option.bind_eq_some_iff, Option.pure_def, Option.some.injEq] at h
  obtain ⟨seq, hseq, engineUs, hengine, mask, hmask, rfl⟩ := h
  refine ⟨_, .of_header (by decide) ?_ (by decide)⟩
  simp only [List.length_append, length_packUInt64 hseq, length_packUInt64 hmask, length_packSingle hengine, length_packDouble,
    length_packText, length_le, length_zeros]
  rfl

theorem packDepthFrame_framed {a : DepthArgs} {frame : Bytes} (h : packDepthFrame a = some frame) :
    ∃ payload, Framed frame msgTypeDepth (UInt8.ofNat depthPayloadLen) payload := by
  simp only [packDepthFrame, Option.bind_eq_bind, Option.bind_eq_some_iff, Option.pure_def, Option.some.injEq] at h
  obtain ⟨seq, hseq, engineUs, hengine, rfl⟩ := h
  refine ⟨_, .of_header (by decide) ?_ (by decide)⟩
  simp only [List.length_append, length_packUInt64 hseq, length_packSingle hengine, length_packDouble, length_packText, length_le,
    length_zeros]
  rfl

/-- What is unpacked from a frame is what the parser unpacks from its payload. -/
theorem WireFrame.framed {f : WireFrame} {frame : Bytes} (h : f.pack = some frame) :
    ∃ msgType payloadLen payload, Framed frame msgType payloadLen payload ∧ f.unpack frame = unpackPayload msgType payload := by
  cases f with
  | tick a =>
    obtain ⟨payload, hframed⟩ := packTickFrame_framed h
    exact ⟨_, _, payload, hframed, by rw [hframed.bytes]; rfl⟩
  | tickV2 a reasonMask =>
    obtain ⟨payload, hframed⟩ := packTickFrameV2_framed h
    exact ⟨_, _, payload, hframed, by rw [hframed.bytes]; rfl⟩
  | depth a =>
    obtain ⟨payload, hframed⟩ := packDepthFrame_framed h
    exact ⟨_, _, payload, hframed, by rw [hframed.bytes]; rfl⟩

/-- A frame at the beginning of the buffer is taken. -/
theorem Framed.scan {frame : Bytes} {msgType payloadLen : UInt8} {payload : Bytes} (h : Framed frame msgType payloadLen payload)
    (rest : Bytes) : binaryStreamParser.scan (frame ++ rest) =
      (unpackPayload msgType payload :: (binaryStreamParser.scan rest).1, (binaryStreamParser.scan rest).2) := by
  have hnext : binaryStreamParser.next (frame ++ rest) =
      .take (wireHeaderSize + payloadLen.toNat) (unpackPayload msgType payload) := by
    show nextFrame (frame ++ rest) = _
    have hwhole : ¬(payload ++ rest).length < payloadLen.toNat := by
      rw [List.length_append, h.length]
      omega
    rw [h.bytes]
    simp only [List.cons_append, nextFrame_eq, if_pos h.header, if_neg hwhole]
    rw [← h.length, List.take_left']
    rfl
  have hlen : frame.length = wireHeaderSize + payloadLen.toNat := by
    rw [h.bytes]
    simp only [List.length_cons, h.length, wireHeaderSize]
    omega
  rw [binaryStreamParser.scan_take hnext, ← hlen, List.drop_left']
  rfl

/-- Frames are taken one after the other, and nothing is left. -/
theorem scan_frames (frames : List (WireFrame × Bytes)) (h : ∀ f ∈ frames, f.1.pack = some f.2) :
    binaryStreamParser.scan (frames.flatMap (·.2)) = (frames.map (fun f => f.1.unpack f.2), []) := by
  induction frames with
  | nil => rfl
  | cons f frames ih =>
    obtain ⟨msgType, payloadLen, payload, hframed, hunpack⟩ := WireFrame.framed (h f List.mem_cons_self)
    rw [List.flatMap_cons, hframed.scan, ih (fun f hf => h f (List.mem_cons_of_mem _ hf)), List.map_cons, hunpack]

/-! ## Garbage -/

/-- No four bytes of it are a header. -/
def NoWireHeader (garbage : Bytes) : Prop :=
  ∀ before m d msgType payloadLen after, garbage = before ++ m :: d :: msgType :: payloadLen :: after →
    ¬IsWireHeader m d msgType payloadLen

theorem NoWireHeader.tail {x : UInt8} {garbage : Bytes} (h : NoWireHeader (x :: garbage)) : NoWireHeader garbage := by
  intro before m d msgType payloadLen after hsplit
  exact h (x :: before) m d msgType payloadLen after (by rw [hsplit, List.cons_append])

/-- Garbage alone gives nothing. -/
theorem scan_garbage {garbage : Bytes} (h : NoWireHeader garbage) : (binaryStreamParser.scan garbage).1 = [] := by
  induction garbage with
  | nil => rfl
  | cons x garbage ih =>
    rcases hnext : binaryStreamParser.next (x :: garbage) with _ | _ | ⟨n, e⟩
    · rw [binaryStreamParser.scan_wait hnext]
    · rw [binaryStreamParser.scan_skip hnext]
      exact ih h.tail
    · rcases garbage with _ | ⟨d, _ | ⟨msgType, _ | ⟨payloadLen, rest⟩⟩⟩
      all_goals try cases hnext
      have hnext' : nextFrame (x :: d :: msgType :: payloadLen :: rest) = .take n e := hnext
      rw [nextFrame_eq, if_neg (h [] x d msgType payloadLen rest rfl)] at hnext'
      cases hnext'

/-- No header begins in the garbage and ends in a frame. -/
theorem next_straddling {x : UInt8} {garbage : Bytes} (h : NoWireHeader (x :: garbage)) {msgType payloadLen : UInt8} {rest : Bytes} :
    binaryStreamParser.next (x :: garbage ++ 0x4d :: 0x44 :: msgType :: payloadLen :: rest) = .skip := by
  show nextFrame _ = .skip
  rcases garbage with _ | ⟨d, _ | ⟨t, _ | ⟨n, garbage⟩⟩⟩
  · -- the byte before the frame would have to be `M`, and the frame to begin with `D`
    simp only [List.cons_append, List.nil_append, nextFrame_eq]
    rw [if_neg]
    rintro ⟨hmagic, -⟩
    exact absurd (List.cons.inj (List.cons.inj hmagic).2).1 (by decide)
  · simp only [List.cons_append, List.nil_append, nextFrame_eq]
    rw [if_neg]
    rintro ⟨-, ⟨htype, -⟩ | ⟨htype, -⟩ | ⟨htype, -⟩⟩
    all_goals exact absurd htype (by decide)
  · simp only [List.cons_append, List.nil_append, nextFrame_eq]
    rw [if_neg]
    rintro ⟨-, ⟨-, hlen⟩ | ⟨-, hlen⟩ | ⟨-, hlen⟩⟩
    all_goals exact absurd hlen (by decide)
  · simp only [List.cons_append, nextFrame_eq]
    rw [if_neg (h [] x d t n garbage rfl)]

/-- Garbage before frames is dropped. -/
theorem scan_garbage_append {garbage : Bytes} (h : NoWireHeader garbage) (msgType payloadLen : UInt8) (rest : Bytes) :
    binaryStreamParser.scan (garbage ++ 0x4d :: 0x44 :: msgType :: payloadLen :: rest) =
      binaryStreamParser.scan (0x4d :: 0x44 :: msgType :: payloadLen :: rest) := by
  induction garbage with
  | nil => rfl
  | cons x garbage ih =>
    rw [binaryStreamParser.scan_skip (next_straddling h)]
    exact ih h.tail

/-! ## Streams -/

theorem feedChunks_eq (chunks : List Bytes) : feedChunks [] chunks = binaryStreamParser.scan chunks.flatten := by
  have hloop : ∀ (chunks : List Bytes) (buf : Bytes), feedChunks buf chunks = binaryStreamParser.feedAll buf chunks := by
    intro chunks
    induction chunks with
    | nil => intro buf; rfl
    | cons chunk chunks ih =>
      intro buf
      simp only [feedChunks, ih, feed, Scanner.feedAll]
  rw [hloop, binaryStreamParser.feedAll_eq rfl]
  rfl

/-- The chunks of a stream do not matter, and frames behind garbage are found, all of them and nothing else. -/
theorem stream_parsed :
    (∀ chunks chunks' : List Bytes, chunks.flatten = chunks'.flatten → feedChunks [] chunks = feedChunks [] chunks') ∧
    ∀ (garbage : Bytes) (frames : List (WireFrame × Bytes)), NoWireHeader garbage → (∀ f ∈ frames, f.1.pack = some f.2) →
      (feed [] (garbage ++ frames.flatMap (·.2))).1 = frames.map (fun f => f.1.unpack f.2) := by
  constructor
  · intro chunks chunks' h
    rw [feedChunks_eq, feedChunks_eq, h]
  · intro garbage frames hgarbage hframes
    rw [feed, List.nil_append]
    rcases frames with _ | ⟨f, frames⟩
    · rw [List.flatMap_nil, List.append_nil, scan_garbage hgarbage, List.map_nil]
    · obtain ⟨msgType, payloadLen, payload, hframed, -⟩ := WireFrame.framed (hframes f List.mem_cons_self)
      have hall := scan_frames (f :: frames) hframes
      rw [List.flatMap_cons, hframed.bytes, List.cons_append, List.cons_append, List.cons_append, List.cons_append] at hall
      rw [List.flatMap_cons, hframed.bytes, List.cons_append, List.cons_append, List.cons_append, List.cons_append,
        scan_garbage_append hgarbage, hall]

theorem NoWireHeader.of_short {garbage : Bytes} (h : garbage.length < 4) : NoWireHeader garbage := by
  intro before m d msgType payloadLen after hsplit
  rw [hsplit] at h
  simp only [List.length_append, List.length_cons] at h
  omega

/-- A tick without prices. -/
def bareTick : TickArgs := ⟨7, "ACME", "A", none, none, none, none, "VALID", false, 0, 0, 0, 0⟩

/-- The beginning of a header before a frame does no harm. -/
theorem stream_parsed_three : ∃ frame, (WireFrame.tick bareTick).pack = some frame ∧
    (feed [] ([0x4d, 0x44, 0x01] ++ frame)).1 = [(WireFrame.tick bareTick).unpack frame] ∧
    feedChunks [] [[0x4d], [0x44, 0x01] ++ frame] = feedChunks [] [[0x4d, 0x44, 0x01], frame] := by
  obtain ⟨frame, hframe⟩ : ∃ frame, (WireFrame.tick bareTick).pack = some frame :=
    Option.isSome_iff_exists.mp (by decide)
  have hparsed := stream_parsed.2 [0x4d, 0x44, 0x01] [(.tick bareTick, frame)] (.of_short (by decide)) (by simpa using hframe)
  rw [List.flatMap_singleton] at hparsed
  exact ⟨frame, hframe, hparsed, stream_parsed.1 _ _ (by simp)⟩

end Mdrap
