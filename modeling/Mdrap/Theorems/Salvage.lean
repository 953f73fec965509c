import Mathlib.Data.List.Infix
import Mdrap.IngestLog.Repair

/-!
# When salvage ends

The search for the next frame magic reads one byte, and a second one where the first is `0xAA`. At the end of the file there is no
second byte, and going back by one byte is going back to the same `0xAA`.
-/

namespace Mdrap

open Lib

/-! ## One round of the search -/

/-- There is no frame magic in these bytes. -/
def MagicFree (b : Bytes) : Prop := ¬[0xAA, 0x55] <:+: b

instance (b : Bytes) : Decidable (MagicFree b) := inferInstanceAs (Decidable ¬_)

theorem magicFree_cons {c : UInt8} {b : Bytes} : MagicFree (c :: b) ↔ ¬(c = 0xAA ∧ b.head? = some 0x55) ∧ MagicFree b := by
  have hpre : [0xAA, 0x55] <+: c :: b ↔ c = 0xAA ∧ b.head? = some 0x55 := by
    cases b <;> simp [List.cons_prefix_cons, eq_comm]
  rw [MagicFree, List.infix_cons_iff, hpre, not_or, MagicFree]

/-- Either there is a first frame magic, or there is none. -/
theorem magic_cases (b : Bytes) :
    (∃ x rest, b = x ++ 0xAA :: 0x55 :: rest ∧ MagicFree (x ++ [0xAA])) ∨ MagicFree b := by
  induction b with
  | nil => exact .inr (by decide)
  | cons c b ih =>
    by_cases hc : c = 0xAA ∧ b.head? = some 0x55
    · obtain ⟨rfl, hb⟩ := hc
      obtain ⟨rest, rfl⟩ : ∃ rest, b = 0x55 :: rest := by
        cases b with
        | nil => nomatch hb
        | cons d b => exact ⟨b, by simpa using hb⟩
      exact .inl ⟨[], rest, rfl, by decide⟩
    · rcases ih with ⟨x, rest, rfl, hx⟩ | hb
      · refine .inl ⟨c :: x, rest, rfl, magicFree_cons.mpr ⟨?_, hx⟩⟩
        rintro ⟨rfl, hhead⟩
        refine hc ⟨rfl, ?_⟩
        cases x with
        | nil => simp at hhead
        | cons d x => simpa using hhead
      · exact .inr (magicFree_cons.mpr ⟨hc, hb⟩)

section
variable {file : Bytes} {pos : Nat}

theorem drop_succ {c : UInt8} {b : Bytes} (h : file.drop pos = c :: b) : file.drop (pos + 1) = b := by
  rw [← List.drop_drop, h, List.drop_one, List.tail_cons]

theorem searchRound_end (h : file.drop pos = []) : searchRound file pos = (true, pos) := by
  rw [searchRound, readAt, h]
  rfl

theorem searchRound_last (h : file.drop pos = [0xAA]) : searchRound file pos = (false, pos) := by
  simp [searchRound, readAt, h, drop_succ h]

theorem searchRound_magic {rest : Bytes} (h : file.drop pos = 0xAA :: 0x55 :: rest) : searchRound file pos = (true, pos) := by
  simp [searchRound, readAt, h, drop_succ h]

theorem searchRound_byte {c : UInt8} {b : Bytes} (h : file.drop pos = c :: b) (hlast : c :: b ≠ [0xAA])
    (hmagic : ¬(c = 0xAA ∧ b.head? = some 0x55)) : searchRound file pos = (false, pos + 1) := by
  by_cases hc : c = 0xAA
  · subst hc
    cases b with
    | nil => exact absurd rfl hlast
    | cons d b =>
      have hd : d ≠ 0x55 := fun hd => hmagic ⟨rfl, by simp [hd]⟩
      simp [searchRound, readAt, h, drop_succ h, hd]
  · simp [searchRound, readAt, h, hc]

/-- A round leaves the search or moves on, but for an `0xAA` at the end of the file. -/
theorem searchRound_progress_iff (file : Bytes) (pos : Nat) :
    ((searchRound file pos).1 = true ∨ pos < (searchRound file pos).2) ↔ file.drop pos ≠ [0xAA] := by
  by_cases hlast : file.drop pos = [0xAA]
  · simp [searchRound_last hlast, hlast]
  · refine iff_of_true ?_ hlast
    cases h : file.drop pos with
    | nil => simp [searchRound_end h]
    | cons c b =>
      by_cases hmagic : c = 0xAA ∧ b.head? = some 0x55
      · obtain ⟨rfl, hb⟩ := hmagic
        obtain ⟨rest, rfl⟩ : ∃ rest, b = 0x55 :: rest := by
          cases b with
          | nil => nomatch hb
          | cons d b => exact ⟨b, by simpa using hb⟩
        simp [searchRound_magic h]
      · simp [searchRound_byte h (h ▸ hlast) hmagic]

end

/-! ## The search -/

section
variable {version : Nat} {file : Bytes} {pos : Nat} {corrupt : Bool} {frames : List (Bytes × Bytes)}

/-- A search goes on to the first frame magic. -/
theorem gives_search_found {x rest : Bytes} (h : file.drop pos = x ++ 0xAA :: 0x55 :: rest) (hx : MagicFree (x ++ [0xAA]))
    (r : Bool × List (Bytes × Bytes)) :
    Gives (salvageRound version file) ⟨pos, true, corrupt, frames⟩ r ↔
      Gives (salvageRound version file) ⟨pos + x.length, false, corrupt, frames⟩ r := by
  induction x generalizing pos with
  | nil => exact gives_iff_of_next (by simp [salvageRound, searchRound_magic h]) r
  | cons c x ih =>
    obtain ⟨hmagic, hx⟩ := magicFree_cons.mp hx
    have hbyte : searchRound file pos = (false, pos + 1) := by
      refine searchRound_byte h (by simp) ?_
      rintro ⟨hc, hhead⟩
      refine hmagic ⟨hc, ?_⟩
      cases x with
      | nil => simp at hhead
      | cons d x => simpa using hhead
    rw [gives_iff_of_next (t := ⟨pos + 1, true, corrupt, frames⟩) (by simp [salvageRound, hbyte]),
      ih (drop_succ h) hx, List.length_cons, Nat.add_right_comm, Nat.add_assoc]

theorem ends_search_found {x rest : Bytes} (h : file.drop pos = x ++ 0xAA :: 0x55 :: rest) (hx : MagicFree (x ++ [0xAA])) :
    Ends (salvageRound version file) ⟨pos, true, corrupt, frames⟩ ↔
      Ends (salvageRound version file) ⟨pos + x.length, false, corrupt, frames⟩ := ends_iff_of_gives (gives_search_found h hx)

/-- Without a frame magic, a search ends unless the last byte is `0xAA`, and the loop over the frames ends with it. -/
theorem gives_search_none (h : MagicFree (file.drop pos)) (r : Bool × List (Bytes × Bytes)) :
    Gives (salvageRound version file) ⟨pos, true, corrupt, frames⟩ r ↔
      (file.drop pos).getLast? ≠ some 0xAA ∧ r = (corrupt, frames) := by
  generalize hb : file.drop pos = b at h ⊢
  induction b generalizing pos with
  | nil =>
    have hleave : salvageRound version file ⟨pos, true, corrupt, frames⟩ = .next ⟨pos, false, corrupt, frames⟩ := by
      simp [salvageRound, searchRound_end hb]
    have hend : salvageRound version file ⟨pos, false, corrupt, frames⟩ = .done (corrupt, frames) := by
      simp [salvageRound, frameRound, readAt, hb]
    simp [gives_iff_of_next hleave, gives_iff_of_done hend]
  | cons c b ih =>
    by_cases hlast : c :: b = [0xAA]
    · rw [hlast] at hb ⊢
      have hself : salvageRound version file ⟨pos, true, corrupt, frames⟩ = .next ⟨pos, true, corrupt, frames⟩ := by
        simp [salvageRound, searchRound_last hb]
      have hnever : ¬Gives (salvageRound version file) ⟨pos, true, corrupt, frames⟩ r := fun hgives =>
        not_ends_of_next_self hself (ends_iff_gives.mpr ⟨r, hgives⟩)
      simp [hnever]
    · obtain ⟨hmagic, hfree⟩ := magicFree_cons.mp h
      rw [gives_iff_of_next (t := ⟨pos + 1, true, corrupt, frames⟩)
        (by simp [salvageRound, searchRound_byte hb hlast hmagic]), ih (drop_succ hb) hfree]
      cases b with
      | nil => simpa using fun _ => hlast
      | cons d b => rw [List.getLast?_cons_cons]

theorem ends_search_none (h : MagicFree (file.drop pos)) :
    Ends (salvageRound version file) ⟨pos, true, corrupt, frames⟩ ↔ (file.drop pos).getLast? ≠ some 0xAA := by
  simp [ends_iff_gives, gives_search_none h]

end

/-! ## The files on which salvage ends -/

/-- The bytes begin with a frame that is all there: the header of one, and as many bytes behind it as it says. -/
def BeginsFrame (b : Bytes) : Prop :=
  frameHeaderSize ≤ b.length ∧ ¬badSalvageHeader (b.take frameHeaderSize) ∧
    frameHeaderSize + (unpackFrameHeader (b.take frameHeaderSize)).length ≤ b.length

/-- The bytes begin with as many as a frame header has, but they are no frame header. -/
def BeginsDamaged (b : Bytes) : Prop := frameHeaderSize ≤ b.length ∧ badSalvageHeader (b.take frameHeaderSize)

/-- The bytes fall into frames, and damaged parts that go up to the next frame magic, followed by others. -/
inductive Leads : Bytes → Bytes → Prop
  | here (b : Bytes) : Leads b b
  | frame {b t : Bytes} (h : BeginsFrame b)
      (rest : Leads (b.drop (frameHeaderSize + (unpackFrameHeader (b.take frameHeaderSize)).length)) t) : Leads b t
  | damaged {b t x more : Bytes} (h : BeginsDamaged b) (hmagic : b.drop 1 = x ++ 0xAA :: 0x55 :: more)
      (hfirst : MagicFree (x ++ [0xAA])) (rest : Leads (0xAA :: 0x55 :: more) t) : Leads b t

/-- The frames and damaged parts of a segment file end with a damaged part that no frame magic follows, and whose last byte is
`0xAA`. -/
def Stranded (file : Bytes) : Prop :=
  segmentHeaderSize ≤ file.length ∧
    ∃ t, Leads (file.drop segmentHeaderSize) t ∧ BeginsDamaged t ∧ MagicFree (t.drop 1) ∧ t.getLast? = some 0xAA

section
variable {version : Nat} {file : Bytes} {pos : Nat} {corrupt : Bool} {frames : List (Bytes × Bytes)}

/-- The length a frame at the beginning of the bytes says it has, with its header. -/
def frameSpan (b : Bytes) : Nat := frameHeaderSize + (unpackFrameHeader (b.take frameHeaderSize)).length

/-- The header and the payload of a frame at the beginning of the bytes. -/
def firstFrame (b : Bytes) : Bytes × Bytes :=
  (b.take frameHeaderSize, (b.drop frameHeaderSize).take (unpackFrameHeader (b.take frameHeaderSize)).length)

/-- The checksum of a frame at the beginning of the bytes is that of its header. -/
def CrcAgrees (version : Nat) (b : Bytes) : Prop :=
  (computeFrameCrc ((b.take frameHeaderSize).take 24) (firstFrame b).2
    (effectiveVersion (unpackFrameHeader (b.take frameHeaderSize)).version version)).toNat = (unpackFrameHeader (b.take frameHeaderSize)).crc

instance (version : Nat) (b : Bytes) : Decidable (CrcAgrees version b) := inferInstanceAs (Decidable (_ = _))

/-- The round over a frame that is all there: it is kept if its checksum agrees. -/
theorem round_frame {b : Bytes} (hb : file.drop pos = b) (h : BeginsFrame b) :
    salvageRound version file ⟨pos, false, corrupt, frames⟩ =
      if CrcAgrees version b then .next ⟨pos + frameSpan b, false, corrupt, frames ++ [firstFrame b]⟩
      else .next ⟨pos + frameSpan b, false, true, frames⟩ := by
  obtain ⟨hhdr, hgood, hlen⟩ := h
  have hpos : 0 < frameHeaderSize := by decide
  have hread : readAt file pos frameHeaderSize = b.take frameHeaderSize := by rw [readAt, hb]
  have hne : b.take frameHeaderSize ≠ [] := by
    intro hnil
    have := congrArg List.length hnil
    rw [List.length_take, List.length_nil] at this
    omega
  have hall : ¬(b.take frameHeaderSize).length < frameHeaderSize := by rw [List.length_take]; omega
  have hbehind : readAt file (pos + frameHeaderSize) (unpackFrameHeader (b.take frameHeaderSize)).length = (firstFrame b).2 := by
    rw [readAt, ← List.drop_drop, hb, firstFrame]
  have hpayload : ¬(firstFrame b).2.length < (unpackFrameHeader (b.take frameHeaderSize)).length := by
    rw [firstFrame, List.length_take, List.length_drop]
    omega
  simp only [salvageRound, frameRound, hread, if_neg hne, if_neg hall, if_neg hgood, hbehind, if_neg hpayload, Bool.false_eq_true,
    if_false, frameSpan, Nat.add_assoc]
  by_cases hcrc : CrcAgrees version b
  · have hsame := hcrc
    unfold CrcAgrees at hsame
    rw [if_pos hcrc, if_neg (not_not.mpr hsame)]
    rfl
  · have hother := hcrc
    unfold CrcAgrees at hother
    rw [if_neg hcrc, if_pos hother]

/-- Over a frame that is all there, whatever its checksum. -/
theorem ends_scan_frame {b : Bytes} (hb : file.drop pos = b) (h : BeginsFrame b) : ∃ corrupt' frames',
    (Ends (salvageRound version file) ⟨pos, false, corrupt, frames⟩ ↔ Ends (salvageRound version file)
      ⟨pos + (frameHeaderSize + (unpackFrameHeader (b.take frameHeaderSize)).length), false, corrupt', frames'⟩) := by
  have hround := @round_frame version _ _ corrupt frames _ hb h
  split at hround
  · exact ⟨_, _, ends_iff_of_next hround⟩
  · exact ⟨_, _, ends_iff_of_next hround⟩

/-- From what is no frame header the search begins one byte on. -/
theorem round_damaged {b : Bytes} (hb : file.drop pos = b) (h : BeginsDamaged b) :
    salvageRound version file ⟨pos, false, corrupt, frames⟩ = .next ⟨pos + 1, true, true, frames⟩ := by
  obtain ⟨hhdr, hbad⟩ := h
  have hpos : 0 < frameHeaderSize := by decide
  have hread : readAt file pos frameHeaderSize = b.take frameHeaderSize := by rw [readAt, hb]
  have hne : b.take frameHeaderSize ≠ [] := by
    intro hnil
    have := congrArg List.length hnil
    rw [List.length_take, List.length_nil] at this
    omega
  have hall : ¬(b.take frameHeaderSize).length < frameHeaderSize := by rw [List.length_take]; omega
  simp only [salvageRound, frameRound, hread, if_neg hne, if_neg hall, if_pos hbad]
  rfl

theorem ends_scan_damaged {b : Bytes} (hb : file.drop pos = b) (h : BeginsDamaged b) :
    Ends (salvageRound version file) ⟨pos, false, corrupt, frames⟩ ↔
      Ends (salvageRound version file) ⟨pos + 1, true, true, frames⟩ := ends_iff_of_next (round_damaged hb h)

/-- At the end of the file, in a frame header and in a payload that is not all there the loop is left. -/
theorem round_torn {b : Bytes} (hb : file.drop pos = b) (hframe : ¬BeginsFrame b) (hdamaged : ¬BeginsDamaged b) :
    salvageRound version file ⟨pos, false, corrupt, frames⟩ = .done (if b = [] then corrupt else true, frames) := by
  have hread : readAt file pos frameHeaderSize = b.take frameHeaderSize := by rw [readAt, hb]
  by_cases hne : b.take frameHeaderSize = []
  · have hnil : b = [] := by
      cases b with
      | nil => rfl
      | cons c b => cases hne
    simp only [salvageRound, frameRound, hread, if_pos hne, if_pos hnil]
    rfl
  · have hsome : b ≠ [] := by
      rintro rfl
      exact hne rfl
    by_cases hhdr : frameHeaderSize ≤ b.length
    · have hgood : ¬badSalvageHeader (b.take frameHeaderSize) := fun hbad => hdamaged ⟨hhdr, hbad⟩
      have hall : ¬(b.take frameHeaderSize).length < frameHeaderSize := by rw [List.length_take]; omega
      have hshort : (readAt file (pos + frameHeaderSize) (unpackFrameHeader (b.take frameHeaderSize)).length).length <
          (unpackFrameHeader (b.take frameHeaderSize)).length := by
        have hlen : ¬frameHeaderSize + (unpackFrameHeader (b.take frameHeaderSize)).length ≤ b.length :=
          fun hle => hframe ⟨hhdr, hgood, hle⟩
        rw [readAt, ← List.drop_drop, hb, List.length_take, List.length_drop]
        omega
      simp only [salvageRound, frameRound, hread, if_neg hne, if_neg hall, if_neg hgood, if_pos hshort, if_neg hsome]
      rfl
    · have hshort : (b.take frameHeaderSize).length < frameHeaderSize := by rw [List.length_take]; omega
      simp only [salvageRound, frameRound, hread, if_neg hne, if_pos hshort, if_neg hsome]
      rfl

theorem ends_scan_torn {b : Bytes} (hb : file.drop pos = b) (hframe : ¬BeginsFrame b) (hdamaged : ¬BeginsDamaged b) :
    Ends (salvageRound version file) ⟨pos, false, corrupt, frames⟩ := ends_of_done (round_torn hb hframe hdamaged)

/-- The scan does not end where the bytes lead to a damaged part with an `0xAA` at its end. -/
theorem not_ends_of_leads {b t : Bytes} (h : Leads b t) (ht : BeginsDamaged t) (hfree : MagicFree (t.drop 1))
    (hlast : t.getLast? = some 0xAA) (hb : file.drop pos = b) :
    ¬Ends (salvageRound version file) ⟨pos, false, corrupt, frames⟩ := by
  induction h generalizing pos corrupt frames with
  | here b =>
    have hdrop : file.drop (pos + 1) = b.drop 1 := by rw [← List.drop_drop, hb]
    rw [ends_scan_damaged hb ht, ends_search_none (hdrop ▸ hfree), hdrop, not_not]
    obtain ⟨c, b, rfl⟩ : ∃ c b', b = c :: b' := by
      cases b with
      | nil => nomatch hlast
      | cons c b => exact ⟨c, b, rfl⟩
    cases b with
    | nil =>
      have := ht.1
      simp [frameHeaderSize] at this
    | cons d b => rwa [List.drop_one, List.tail_cons, ← List.getLast?_cons_cons]
  | frame h _ ih =>
    obtain ⟨corrupt', frames', hiff⟩ := @ends_scan_frame version _ _ corrupt frames _ hb h
    rw [hiff]
    exact ih ht hfree hlast (by rw [← List.drop_drop, hb])
  | damaged h hmagic hfirst _ ih =>
    have hdrop := (by rw [← List.drop_drop, hb] : file.drop (pos + 1) = _).trans hmagic
    rw [ends_scan_damaged hb h, ends_search_found hdrop hfirst]
    exact ih ht hfree hlast (by rw [← List.drop_drop, hdrop, List.drop_left])

/-- The scan ends where the bytes lead to no such part: what is left becomes shorter with every frame and every damaged part. -/
theorem ends_of_not_leads {b : Bytes}
    (h : ¬∃ t, Leads b t ∧ BeginsDamaged t ∧ MagicFree (t.drop 1) ∧ t.getLast? = some 0xAA) (hb : file.drop pos = b) :
    Ends (salvageRound version file) ⟨pos, false, corrupt, frames⟩ := by
  induction hn : b.length using Nat.strongRecOn generalizing b pos corrupt frames with
  | ind n ih =>
    have hpos : 0 < frameHeaderSize := by decide
    by_cases hframe : BeginsFrame b
    · obtain ⟨corrupt', frames', hiff⟩ := @ends_scan_frame version _ _ corrupt frames _ hb hframe
      rw [hiff]
      refine ih _ ?_ (b := b.drop _) ?_ (by rw [← List.drop_drop, hb]) rfl
      · have := hframe.1
        rw [List.length_drop]
        omega
      · rintro ⟨t, ht, hstop⟩
        exact h ⟨t, .frame hframe ht, hstop⟩
    · by_cases hdamaged : BeginsDamaged b
      · have hlen := hdamaged.1
        rw [ends_scan_damaged hb hdamaged]
        rcases magic_cases (b.drop 1) with ⟨x, more, hmagic, hfirst⟩ | hfree
        · have hdrop : file.drop (pos + 1) = x ++ 0xAA :: 0x55 :: more := by rw [← List.drop_drop, hb, hmagic]
          rw [ends_search_found hdrop hfirst]
          refine ih _ ?_ (b := 0xAA :: 0x55 :: more) ?_ (by rw [← List.drop_drop, hdrop, List.drop_left]) rfl
          · have hcut := congrArg List.length hmagic
            rw [List.length_drop, List.length_append] at hcut
            omega
          · rintro ⟨t, ht, hstop⟩
            exact h ⟨t, .damaged hdamaged hmagic hfirst ht, hstop⟩
        · have hdrop : file.drop (pos + 1) = b.drop 1 := by rw [← List.drop_drop, hb]
          rw [ends_search_none (hdrop ▸ hfree), hdrop]
          intro hlast
          refine h ⟨b, .here b, hdamaged, hfree, ?_⟩
          rw [List.getLast?_drop] at hlast
          split at hlast
          · nomatch hlast
          · exact hlast
      · exact ends_scan_torn hb hframe hdamaged

end

/-- The scan of a segment file ends if and only if the file does not end so. -/
theorem scanSegment_ends_iff (file : Bytes) : (∃ fuel r, scanSegment fuel file = some r) ↔ ¬Stranded file := by
  by_cases hlen : file.length < segmentHeaderSize
  · have hout : ¬Stranded file := fun h => absurd h.1 (by omega)
    exact iff_of_true ⟨0, (true, []), by rw [scanSegment, if_pos hlen]⟩ hout
  · have hiff : (∃ fuel r, scanSegment fuel file = some r) ↔
        Ends (salvageRound (segmentVersion file) file) (salvageStart file) := by
      simp only [scanSegment, if_neg hlen, Ends]
    rw [hiff]
    constructor
    · rintro hends ⟨_, t, hleads, hdamaged, hfree, hlast⟩
      exact not_ends_of_leads hleads hdamaged hfree hlast rfl hends
    · intro h
      exact ends_of_not_leads (fun hleads => h ⟨by omega, hleads⟩) rfl

/-- More rounds do not change what is found in a file. -/
theorem scanSegment_mono {n m : Nat} {file : Bytes} {r : Bool × List (Bytes × Bytes)} (hnm : n ≤ m)
    (h : scanSegment n file = some r) : scanSegment m file = some r := by
  by_cases hlen : file.length < segmentHeaderSize
  · rwa [scanSegment, if_pos hlen] at h ⊢
  · rw [scanSegment, if_neg hlen] at h ⊢
    exact loop_mono hnm h

/-- The files of a directory are salvaged one after the other: all of them are if each of them can be scanned. -/
theorem salvageFiles_ends_iff (backup : Bool) (now : UInt64) (second : Nat) (files : List (String × Bytes))
    (report : SalvageReport) (dir : SalvageDir) :
    (∃ fuel r, salvageFiles fuel backup now second files report dir = some r) ↔
      ∀ f ∈ files, ∃ fuel r, scanSegment fuel f.2 = some r := by
  have hone : ∀ fuel files report dir, (salvageFiles fuel backup now second files report dir).isSome ↔
      ∀ f ∈ files, (scanSegment fuel f.2).isSome := by
    intro fuel files
    induction files with
    | nil => simp [salvageFiles]
    | cons f files ih =>
      intro report dir
      obtain ⟨name, file⟩ := f
      rw [salvageFiles, List.forall_mem_cons]
      cases scanSegment fuel file with
      | none => simp
      | some r => simp [ih]
  simp only [← Option.isSome_iff_exists, hone]
  constructor
  · rintro ⟨fuel, hall⟩ f hf
    exact ⟨fuel, hall f hf⟩
  · intro hall
    induction files with
    | nil => exact ⟨0, by simp⟩
    | cons f files ih =>
      rw [List.forall_mem_cons] at hall
      obtain ⟨n, hn⟩ := hall.1
      obtain ⟨m, hm⟩ := ih hall.2
      have hmono : ∀ {a file}, a ≤ max n m → (scanSegment a file).isSome → (scanSegment (max n m) file).isSome := by
        intro a file ha hsome
        obtain ⟨r, hr⟩ := Option.isSome_iff_exists.mp hsome
        rw [scanSegment_mono ha hr]
        rfl
      refine ⟨max n m, List.forall_mem_cons.mpr ⟨hmono (Nat.le_max_left n m) hn, fun g hg => ?_⟩⟩
      exact hmono (Nat.le_max_right n m) (hm g hg)

/-- A round of the search for the frame magic leaves it or moves on, unless it has come to an `0xAA` that is the last byte of the
file; and salvage ends on exactly the directories none of whose segment files ends in a damaged part without a frame magic behind
its first byte and with `0xAA` as its last one. -/
theorem salvage_ends_iff (backup : Bool) (now : UInt64) (second : Nat) (dir : SalvageDir) :
    (∀ file pos, ((searchRound file pos).1 = true ∨ pos < (searchRound file pos).2) ↔ file.drop pos ≠ [0xAA]) ∧
      ((∃ fuel r, salvage fuel backup now second dir = some r) ↔ ∀ f ∈ dir.segments.items, ¬Stranded f.2) := by
  refine ⟨searchRound_progress_iff, ?_⟩
  simp only [salvage, salvageFiles_ends_iff, mem_sortBy, scanSegment_ends_iff]

/-- A segment file of a header and 27 zeros, and an `0xAA` behind them. -/
def strandedFile : Bytes := segmentHeaderBytes 0 0 ++ zeros 27 ++ [0xAA]

/-- The search in this file never ends. -/
theorem salvage_ends_false :
    ¬∃ fuel r, salvage fuel true 0 0 ⟨⟨[("segment_00000000000000000000.log", strandedFile)]⟩, Dict.empty, Dict.empty⟩ = some r := by
  have hstranded : Stranded strandedFile :=
    ⟨by decide, zeros 27 ++ [0xAA], by
      have hdrop : strandedFile.drop segmentHeaderSize = zeros 27 ++ [0xAA] := by decide
      rw [hdrop]
      exact .here _, ⟨by decide, by decide⟩, by decide, by decide⟩
  simp only [salvage, salvageFiles_ends_iff, mem_sortBy, scanSegment_ends_iff]
  exact fun hall => hall _ (List.mem_singleton_self _) hstranded

end Mdrap
