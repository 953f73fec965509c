import Mathlib.Data.List.Nodup
import Mdrap.Lemmas.AnyFile
import Mdrap.Lemmas.Served
import Mdrap.Lemmas.Submit
import Mdrap.Engine.Exact
import Mdrap.Engine.Replay

/-!
# Generated ids

An event without an id is given one that ends in the offset it is expected to get, or, where its fields do not pass, one that ends in
the offset it has got. Appended events have different offsets as long as no process starts below them, and so they have different
ids, as long as each id that was made in an earlier call is of the offset its event gets now. An append that fails leaves its id in
the event, and the next event gets the same one.
-/

namespace Mdrap

open Lib

variable {V : Type}

/-! ## Texts that end in a number -/

/-- What stands behind the last underscore. -/
theorem behind_last {l l' d d' : List Char} (h : l ++ '_' :: d = l' ++ '_' :: d') (hd : '_' ∉ d) (hd' : '_' ∉ d') : d = d' := by
  have hlast : ∀ l d : List Char, '_' ∉ d → (l ++ '_' :: d).reverse.takeWhile (fun c => c ≠ '_') = d.reverse := by
    intro l d hd
    rw [List.reverse_append, List.reverse_cons, List.append_assoc, List.takeWhile_append_of_pos]
    · simp
    · intro c hc
      simp only [decide_eq_true_eq]
      rintro rfl
      exact hd (List.mem_reverse.mp hc)
  have hboth := hlast l d hd
  rw [h, hlast l' d' hd'] at hboth
  exact (List.reverse_inj.mp hboth).symm

theorem toDigits_injective {m n : Nat} (h : Nat.toDigits 10 m = Nat.toDigits 10 n) : m = n := by
  have hread := congrArg (fun ds => Nat.ofDigitChars 10 ds 0) h
  simpa using hread

/-- The id that is made of a text and an offset, with this word in front. -/
def madeId (word text : String) (k : Nat) : String := word ++ text ++ "_" ++ toString k

theorem madeId_inj {word word' text text' : String} {k k' : Nat} (h : madeId word text k = madeId word' text' k') : k = k' := by
  have hsplit : ∀ (word text : String) (k : Nat),
      (madeId word text k).toList = (word.toList ++ text.toList) ++ '_' :: Nat.toDigits 10 k := by
    intro word text k
    simp [madeId, Nat.toList_repr]
  have hdigits : ∀ k : Nat, '_' ∉ Nat.toDigits 10 k := by
    intro k hk
    have hdigit := Nat.isDigit_of_mem_toDigits (by decide) (by decide) hk
    simp at hdigit
  have hlist := congrArg String.toList h
  rw [hsplit, hsplit] at hlist
  exact toDigits_injective (behind_last hlist (hdigits k) (hdigits k'))

/-! ## The events of a call -/

theorem stamped_stamped (raw : RawEvent) (now : Json) : (raw.stamped now).stamped now = raw.stamped now := by
  simp only [RawEvent.stamped, RawEvent.recvTs]
  by_cases h : truthy raw.receiveTimestamp
  · simp [h]
  · simp [h]

theorem truthy_named (P : Py V) (raw : RawEvent) (k : Nat) : truthy (raw.named P k).rawId = true := by
  unfold RawEvent.named
  split
  · assumption
  · simp [truthy]

theorem named_named (P : Py V) (raw : RawEvent) (k k' : Nat) : (raw.named P k).named P k' = raw.named P k :=
  if_pos (truthy_named P raw k)

theorem stamped_named (P : Py V) (raw : RawEvent) (k : Nat) (now : Json) :
    (raw.named P k).stamped now = (raw.stamped now).named P k := by
  unfold RawEvent.named
  by_cases h : truthy raw.rawId
  · have h' : truthy (raw.stamped now).rawId = true := h
    rw [if_pos h, if_pos h']
  · have h' : ¬truthy (raw.stamped now).rawId = true := h
    rw [if_neg h, if_neg h']
    rfl

theorem sourceText_named (P : Py V) (raw : RawEvent) (k : Nat) : (raw.named P k).sourceText P = raw.sourceText P := by
  unfold RawEvent.named
  split
  · rfl
  · rfl

/-- An event with an id has one as a text. -/
theorem idText_named (P : Py V) (raw : RawEvent) (k : Nat) : ∃ id, (raw.named P k).idText P = some id :=
  ⟨_, if_pos (truthy_named P raw k)⟩

theorem idText_str (P : Py V) {raw : RawEvent} {id : String} (h : raw.rawId = .str id) (hne : id ≠ "") : raw.idText P = some id := by
  have htruthy : truthy raw.rawId = true := by simp [h, truthy, hne]
  rw [RawEvent.idText, if_pos htruthy, h]

/-- What the loop hands on is accepted with what the loop has written into it. -/
theorem stamped_touched (c : EngineConfig V) (x : Incoming) (n base k : Nat) (h : turnAway c (touched c x n base) (n + 1) = none) :
    ((touched c x n base).raw.stamped c.now).named c.py k = (touched c x n base).raw := by
  unfold touched at h ⊢
  simp only at h ⊢
  split at h
  · rename_i hsome
    rw [h] at hsome
    cases hsome
  · rename_i hnone
    rw [if_neg hnone]
    simp only
    rw [stamped_named, stamped_stamped, named_named]

/-- The id of every event that came without one is that of the offset it is expected to get. -/
def KeepsOffsets (c : EngineConfig V) (unnamed : Nat → Prop) : List Nat → Nat → Nat → HeldEvents → Prop
  | [], _, _, _ => True
  | o :: os, n, base, held =>
    let x := touched c (held o) n base
    (turnAway c x (n + 1) = none → unnamed o → x.raw.rawId = .str (madeId "raw_" (x.raw.sourceText c.py) base)) ∧
      KeepsOffsets c unnamed os (n + 1) (if (turnAway c x (n + 1)).isSome then base else base + 1) (Function.update held o x)

/-- A decision whose id ends in its offset, and a row with the same id, if it has one. -/
def EngineDecision.Generated (d : EngineDecision V) : Prop :=
  (∃ (k : Nat) (word text : String), d.offset = k ∧ d.eventId = madeId word text k) ∧ ∀ row ∈ d.canonicalEvent, row.eventId = d.eventId

theorem named_generated (P : Py V) {raw : RawEvent} {k : Nat} {d : EngineDecision V}
    (hraw : raw.rawId = .str (madeId "raw_" (raw.sourceText P) k)) (hoffset : d.offset = k) (hd : d.Named P raw k) : d.Generated := by
  obtain ⟨hid, hrow⟩ := hd
  refine ⟨?_, hrow⟩
  rcases hid with hid | hid
  · exact ⟨k, "q_", raw.sourceText P, hoffset, hid⟩
  · have hne : madeId "raw_" (raw.sourceText P) k ≠ "" := by simp [madeId]
    rw [idText_str P hraw hne, Option.some.injEq] at hid
    exact ⟨k, "raw_", raw.sourceText P, hoffset, hid.symm⟩

/-- The decisions on events with ids. -/
theorem stepBatch_named (c : StepConfig V) (now : Json) (events : List (RawEvent × Int))
    (hids : ∀ p ∈ events, ∃ id, p.1.idText c.py = some id) (w : Work V) :
    List.Forall₂ (fun p d => d.offset = p.2 ∧ d.Named c.py p.1 p.2) events (stepBatch c now events w).1 := by
  induction events generalizing w with
  | nil => exact .nil
  | cons p events ih =>
    obtain ⟨raw, offset⟩ := p
    obtain ⟨id, hid⟩ := hids (raw, offset) List.mem_cons_self
    exact .cons ⟨step_offset c raw now offset false w, step_named c hid now offset false w⟩
      (ih (fun p hp => hids p (List.mem_cons_of_mem _ hp)) _)

theorem idText_accepted (c : EngineConfig V) (xs : List Incoming) (n base : Nat) :
    ∀ raw ∈ accepted (screen c xs n base), ∃ id, raw.idText c.py = some id := by
  induction xs generalizing n base with
  | nil => simp [screen, accepted]
  | cons x xs ih =>
    intro raw hraw
    rw [screen] at hraw
    rcases hturn : turnAway c x (n + 1) with _ | d
    · rw [hturn] at hraw
      simp only [accepted, List.filterMap_cons, Except.toOption, List.mem_cons] at hraw
      rcases hraw with rfl | hraw
      · exact idText_named c.py (x.raw.stamped c.now) base
      · exact ih _ _ raw hraw
    · rw [hturn] at hraw
      exact ih _ _ raw hraw

/-- The decisions of a call, beside the numbers of its events: an event that came without an id is decided on under one that ends in
its offset. -/
theorem generated_decisions (c : EngineConfig V) (unnamed : Nat → Prop) (os : List Nat) (n base : Nat) (held : HeldEvents)
    (hkeeps : KeepsOffsets c unnamed os n base held) {ds : List (EngineDecision V)}
    (hds : List.Forall₂ (fun (p : RawEvent × Int) d => d.offset = p.2 ∧ d.Named c.py p.1 p.2)
      ((accepted (screen c (nameEvents c os n base held).1 n base)).zip
        ((List.range' base (accepted (screen c (nameEvents c os n base held).1 n base)).length).map Int.ofNat)) ds) :
    List.Forall₂ (fun o d => 0 ≤ d.offset → unnamed o → d.Generated) os
      (merge (screen c (nameEvents c os n base held).1 n base) ds) := by
  induction os generalizing n base held ds with
  | nil => exact .nil
  | cons o os ih =>
    obtain ⟨hfirst, hrest⟩ := hkeeps
    simp only [nameEvents, screen] at hds ⊢
    rcases hturn : turnAway c (touched c (held o) n base) (n + 1) with _ | d
    · simp only [hturn, Option.isSome_none, Bool.false_eq_true, if_false] at hds hrest hfirst ⊢
      rw [stamped_touched c (held o) n base base hturn] at hds ⊢
      simp only [accepted, List.filterMap_cons, Except.toOption, List.length_cons, List.range'_succ, List.map_cons,
        List.zip_cons_cons] at hds
      cases hds with
      | @cons _ d _ ds' hd hds' =>
        refine .cons ?_ (ih (n + 1) (base + 1) _ hrest hds')
        intro _ hunnamed
        exact named_generated c.py (hfirst trivial hunnamed) hd.1 hd.2
    · simp only [hturn, Option.isSome_some, if_true] at hds hrest ⊢
      refine .cons ?_ (ih (n + 1) base _ hrest hds)
      intro hoffset
      rw [(turnAway_quarantined hturn).1] at hoffset
      omega

/-! ## The offsets of a call -/

theorem le_highestOf {fs : List Frame} {f : Frame} (hf : f ∈ fs) (hi : Int) : (f.offset : Int) ≤ highestOf hi fs := by
  induction fs generalizing hi with
  | nil => cases hf
  | cons g fs ih =>
    rcases List.mem_cons.mp hf with rfl | hf
    · have hmax := highestOf_max f.offset hi fs
      rw [Int.max_comm] at hmax
      rw [highestOf, List.foldl_cons, ← highestOf, hmax]
      exact Int.le_max_left _ _
    · exact ih hf _

namespace IngestLog

theorem rotateToNewSegment_nextOffset (s : IngestLog) (start : Nat) (ts : UInt64) (io : RotateIo) :
    (s.rotateToNewSegment start ts io).2.nextOffset = s.nextOffset := by
  have hclose : (s.closeSegment io).nextOffset = s.nextOffset := by
    unfold closeSegment
    split
    · rfl
    · exact (s.keeps_sealFile io).nextOffset
  unfold rotateToNewSegment
  simp only
  split
  · exact hclose
  · split
    · exact hclose
    · exact hclose
    · exact hclose

theorem rotateIfFull_nextOffset (s : IngestLog) (size : Nat) (env : Env) : (s.rotateIfFull size env).2.nextOffset = s.nextOffset := by
  unfold rotateIfFull
  split
  · exact rotateToNewSegment_nextOffset s _ _ _
  · rfl

theorem rollback_nextOffset (s : IngestLog) (pos : Nat) (r : IoResult) : (s.rollback pos r).nextOffset = s.nextOffset := by
  have hkeeps := s.keeps_fileTruncate pos r
  unfold rollback
  split
  · rename_i heq
    rw [heq] at hkeeps
    exact hkeeps.nextOffset
  · rename_i heq
    rw [heq] at hkeeps
    exact hkeeps.nextOffset

theorem writeFrames_nextOffset (s : IngestLog) (d : Bytes) (env : Env) : (s.writeFrames d env).2.nextOffset = s.nextOffset := by
  have hkeeps := s.keeps_fileWrite d env.write
  unfold writeFrames
  split
  · rename_i heq
    rw [heq] at hkeeps
    exact hkeeps.nextOffset
  · rename_i t heq
    rw [heq] at hkeeps
    simp only [flushIfDue]
    split
    · split
      · rename_i heq'
        have hflush := keeps_fileFlush { t with
          currentSegmentBytes := t.currentSegmentBytes + d.length
          bytesSinceFlush := t.bytesSinceFlush + d.length } env.flush
        rw [heq'] at hflush
        exact hflush.nextOffset.trans hkeeps.nextOffset
      · rename_i heq'
        have hflush := keeps_fileFlush { t with
          currentSegmentBytes := t.currentSegmentBytes + d.length
          bytesSinceFlush := t.bytesSinceFlush + d.length } env.flush
        rw [heq'] at hflush
        exact hflush.nextOffset.trans hkeeps.nextOffset
    · exact hkeeps.nextOffset

theorem batchSync_nextOffset (s : IngestLog) (last : Nat) (env : Env) : (s.batchSync last env).2.nextOffset = s.nextOffset := by
  have hkeeps := s.keeps_fileFsync env.fsync
  unfold batchSync
  split
  · split
    · rename_i heq
      rw [heq] at hkeeps
      exact hkeeps.nextOffset
    · rename_i heq
      rw [heq] at hkeeps
      exact hkeeps.nextOffset
  · rfl

/-- Whatever fails, a batch takes the next offsets or none. -/
theorem appendBatch_nextOffset (s : IngestLog) (events : List RawInput) (env : Env) :
    (∃ err, (s.appendBatch events env).1 = .error err ∧ (s.appendBatch events env).2.nextOffset = s.nextOffset) ∨
      ((s.appendBatch events env).1 = .ok (List.range' s.nextOffset events.length) ∧
        (s.appendBatch events env).2.nextOffset = s.nextOffset + events.length) := by
  unfold appendBatch
  split
  · rename_i hnil
    exact .inr (by simp [hnil])
  · split
    · exact .inl ⟨_, rfl, rfl⟩
    · simp only
      have hrotate := rotateIfFull_nextOffset s
        ((events.map (fun e => recordBytes (batchRecord env.frameTs e))).map (fun p => frameHeaderSize + p.length)).sum env
      split
      · rename_i heq
        rw [heq] at hrotate
        exact .inl ⟨_, rfl, hrotate⟩
      · rename_i t heq
        rw [heq] at hrotate
        split
        · exact .inl ⟨_, rfl, hrotate⟩
        · rename_i buffer _
          have hwrite := writeFrames_nextOffset t buffer env
          simp only [batchCommit]
          split
          · rename_i heq'
            rw [heq'] at hwrite
            exact .inl ⟨_, rfl, (rollback_nextOffset _ _ _).trans (hwrite.trans hrotate)⟩
          · rename_i u heq'
            rw [heq'] at hwrite
            split
            · rename_i v heq''
              have hsync := batchSync_nextOffset { u with bytesSinceFsync := u.bytesSinceFsync + buffer.length }
                (s.nextOffset + (events.map (fun e => recordBytes (batchRecord env.frameTs e))).length - 1) env
              rw [heq''] at hsync
              exact .inl ⟨_, rfl, (rollback_nextOffset _ _ _).trans (hsync.trans (hwrite.trans hrotate))⟩
            · exact .inr (by simp)

/-- A log goes on behind every frame that its directory has when it is opened. -/
theorem lt_openLog {cfg : LogConfig} {dir : LogDir} {now ts : UInt64} {log : IngestLog} (h : openLog cfg dir now ts = .ok log)
    {f : Frame} (hf : f ∈ dir.frames cfg.maxSegmentBytes) : (f.offset : Int) < log.nextOffset := by
  have hwhole : ∀ e ∈ dir.segments.entries, ¬Refused cfg.maxSegmentBytes e.2.written := by
    intro e he hrefused
    obtain ⟨start, reason, herr⟩ := openLog_refused he hrefused now ts
    rw [herr] at h
    cases h
  obtain ⟨log', k, hopen, -, -, hnext, -⟩ := openLog_any hwhole now ts
  rw [h, Except.ok.injEq] at hopen
  subst hopen
  have hle := le_highestOf hf (-1)
  omega

end IngestLog

/-- The offsets of a call are the next ones of the log, or it fails and the log keeps them. -/
theorem allocate_logged (log : IngestLog) (s : EngineState V) (events : List RawEvent) (env : Env) :
    (∃ err log', allocate (some log) s events env = (.error err, some log') ∧ log'.nextOffset = log.nextOffset) ∨
      ∃ log', allocate (some log) s events env = (.ok ((List.range' log.nextOffset events.length).map Int.ofNat), some log') ∧
        log'.nextOffset = log.nextOffset + events.length := by
  by_cases hnil : events = []
  · subst hnil
    exact .inr ⟨log, rfl, rfl⟩
  · have hlen : (events.map RawInput.event).length = events.length := List.length_map ..
    have hnext := log.appendBatch_nextOffset (events.map .event) env
    simp only [allocate, if_neg hnil]
    rcases hbatch : log.appendBatch (events.map .event) env with ⟨result, log'⟩
    rw [hbatch, hlen] at hnext
    rcases hnext with ⟨err, herr, hnext⟩ | ⟨hok, hnext⟩
    · simp only at herr hnext
      subst herr
      exact .inl ⟨err, log', rfl, hnext⟩
    · simp only at hok hnext
      subst hok
      exact .inr ⟨log', rfl, hnext⟩

/-- What a call does to the log, and the decisions it returns. -/
theorem submit_spec {e : Engine V} {log : IngestLog} (hlog : e.log = some log) (xs : List Incoming) (env : SubmitEnv) :
    (∃ err e' log', e.submit xs env = (.error err, e') ∧ e'.log = some log' ∧ log'.nextOffset = log.nextOffset) ∨
      ∃ r e' log' w, e.submit xs env = (.ok r, e') ∧ e'.log = some log' ∧
        log'.nextOffset = log.nextOffset + (accepted (e.screened xs)).length ∧
        r.decisions = (merge (e.screened xs) (stepBatch e.config.toStepConfig e.config.now ((accepted (e.screened xs)).zip
          ((List.range' log.nextOffset (accepted (e.screened xs)).length).map Int.ofNat)) w).1).map
            (fun d => { d with durable := isDurable (some log') d }) := by
  by_cases hxs : xs = []
  · subst hxs
    exact .inr ⟨⟨[], -1, false⟩, e, log, ⟨e.state, [], e.gaps⟩, rfl, hlog, rfl, rfl⟩
  · have hscreened : screen e.config xs e.observedRawCount e.idBase = e.screened xs := rfl
    simp only [Engine.submit, if_neg hxs, hscreened, hlog]
    rcases allocate_logged log e.state (accepted (e.screened xs)) env.log with ⟨err, log', halloc, hnext⟩ | ⟨log', halloc, hnext⟩
    · simp only [halloc]
      exact .inl ⟨err, _, log', rfl, rfl, hnext⟩
    · simp only [halloc]
      exact .inr ⟨_, _, log', _, rfl, rfl, hnext, rfl⟩

/-- The decisions that a site keeps. -/
theorem map_appended {os : List Nat} {ds : List (EngineDecision V)} (h : ds.length = os.length) :
    ((os.zip ds).filter (fun p => 0 ≤ p.2.offset)).map Prod.snd = ds.filter (fun d => 0 ≤ d.offset) := by
  have hsnd : (os.zip ds).map Prod.snd = ds := List.map_snd_zip (by omega)
  calc ((os.zip ds).filter (fun p => 0 ≤ p.2.offset)).map Prod.snd
      = ((os.zip ds).map Prod.snd).filter (fun d => 0 ≤ d.offset) := by rw [List.filter_map]; rfl
    _ = ds.filter (fun d => 0 ≤ d.offset) := by rw [hsnd]

/-- In a call whose events have the ids of their offsets, the appended events get the offsets from the next one on, and those that
came without an id get ids that end in them. -/
theorem submit_generated {e : Engine V} {log log' : IngestLog} (hlog : e.log = some log) {unnamed : Nat → Prop} {os : List Nat}
    {held : HeldEvents} (hkeeps : KeepsOffsets e.config unnamed os e.observedRawCount e.idBase held) {xs : List Incoming}
    (hxs : (nameEvents e.config os e.observedRawCount e.idBase held).1 = xs) {ds : List (EngineDecision V)} {w : Work V}
    (hds : ds = (merge (e.screened xs) (stepBatch e.config.toStepConfig e.config.now ((accepted (e.screened xs)).zip
      ((List.range' log.nextOffset (accepted (e.screened xs)).length).map Int.ofNat)) w).1).map
        (fun d => { d with durable := isDurable (some log') d })) :
    ((os.zip ds).filter (fun p => 0 ≤ p.2.offset)).map (·.2.offset) =
        (List.range' log.nextOffset (accepted (e.screened xs)).length).map Int.ofNat ∧
      ∀ p ∈ (os.zip ds).filter (fun p => 0 ≤ p.2.offset), unnamed p.1 → p.2.Generated := by
  have hbase : e.idBase = log.nextOffset := by rw [Engine.idBase, hlog]
  rw [← hbase] at hds ⊢
  have hnamed := stepBatch_named e.config.toStepConfig e.config.now ((accepted (e.screened xs)).zip
    ((List.range' e.idBase (accepted (e.screened xs)).length).map Int.ofNat))
    (fun p hp => idText_accepted e.config xs e.observedRawCount e.idBase p.1 (List.of_mem_zip hp).1) w
  have hoffsets := stepBatch_offsets e.config.toStepConfig e.config.now ((accepted (e.screened xs)).zip
    ((List.range' e.idBase (accepted (e.screened xs)).length).map Int.ofNat)) w
  rw [List.map_snd_zip (by simp)] at hoffsets
  generalize (stepBatch e.config.toStepConfig e.config.now ((accepted (e.screened xs)).zip
    ((List.range' e.idBase (accepted (e.screened xs)).length).map Int.ofNat)) w).1 = stepped at hnamed hoffsets hds
  have hlen : stepped.length = (accepted (e.screened xs)).length := by
    rw [← List.length_map EngineDecision.offset, hoffsets]
    simp
  subst hxs
  have hgenerated := generated_decisions e.config unnamed os e.observedRawCount e.idBase held hkeeps hnamed
  have hall : List.Forall₂ (fun o d => 0 ≤ d.offset → unnamed o → d.Generated) os ds := by
    rw [hds, List.forall₂_map_right_iff]
    exact hgenerated
  obtain ⟨hlength, hpairs⟩ := List.forall₂_iff_zip.mp hall
  constructor
  · have hlogged : ∀ d ∈ stepped, 0 ≤ d.offset := by
      intro d hd
      have hmem := hoffsets ▸ List.mem_map_of_mem (f := EngineDecision.offset) hd
      obtain ⟨i, -, hi⟩ := List.mem_map.mp hmem
      rw [← hi]
      exact Int.natCast_nonneg i
    have hfilter := filter_merge hlen (fun d hd => (screen_error hd).1) hlogged
    calc ((os.zip ds).filter (fun p => 0 ≤ p.2.offset)).map (·.2.offset)
        = (((os.zip ds).filter (fun p => 0 ≤ p.2.offset)).map Prod.snd).map EngineDecision.offset := by rw [List.map_map]; rfl
      _ = (ds.filter (fun d => 0 ≤ d.offset)).map EngineDecision.offset := by rw [map_appended hlength.symm]
      _ = ((merge (e.screened _) stepped).filter (fun d => 0 ≤ d.offset)).map EngineDecision.offset := by
          rw [hds, List.filter_map, List.map_map]
          rfl
      _ = stepped.map EngineDecision.offset := congrArg (List.map EngineDecision.offset) hfilter
      _ = _ := hoffsets
  · intro p hp hunnamed
    obtain ⟨hmem, hoffset⟩ := List.mem_filter.mp hp
    exact hpairs hmem (by simpa using hoffset) hunnamed

/-! ## Runs -/

namespace Site

/-- What a run keeps: the appended events have different offsets, all below the next one, and ids that end in them. -/
structure Sound (unnamed : Nat → Prop) (s : Site V) : Prop where
  log : ∀ e, s.process = .running e → ∃ log, e.log = some log ∧ ∀ p ∈ s.decided, p.2.offset < log.nextOffset
  offsets : (s.decided.map (·.2.offset)).Nodup
  ids : ∀ p ∈ s.decided, unnamed p.1 → p.2.Generated

/-- In a call, each event that came without an id has the one of the offset that it is expected to get; and the directory that a
process opens has a frame with the offset of every event that was appended, or with a later one. -/
def Orderly (unnamed : Nat → Prop) (s : Site V) (event : SiteEvent V) : Prop :=
  match event, s.process with
  | .submit os now _, .running e =>
    KeepsOffsets (e.atTime now).config unnamed os (e.atTime now).observedRawCount (e.atTime now).idBase s.held
  | .reopen cfg _ _ _, .down dir => ∀ p ∈ s.decided, ∃ f ∈ dir.frames cfg.maxSegmentBytes, p.2.offset ≤ f.offset
  | _, _ => True

variable {unnamed : Nat → Prop}

theorem Sound.submit {s : Site V} (h : s.Sound unnamed) {e : Engine V} {log : IngestLog} (hlog : e.log = some log)
    (hbelow : ∀ p ∈ s.decided, p.2.offset < log.nextOffset) {os : List Nat}
    (hkeeps : KeepsOffsets e.config unnamed os e.observedRawCount e.idBase s.held) (env : SubmitEnv) :
    (Site.submit e s os env).Sound unnamed := by
  unfold Site.submit
  rcases hnames : nameEvents e.config os e.observedRawCount e.idBase s.held with ⟨xs, held⟩
  simp only
  rcases submit_spec hlog xs env with ⟨err, e', log', heq, hlog', hnext⟩ | ⟨r, e', log', w, heq, hlog', hnext, hds⟩
  · rw [heq]
    refine ⟨?_, h.offsets, h.ids⟩
    rintro e'' ⟨⟩
    exact ⟨log', hlog', by rw [hnext]; exact hbelow⟩
  · rw [heq]
    obtain ⟨hoffsets, hids⟩ := submit_generated hlog hkeeps (by rw [hnames]) hds
    have hnew : ∀ p ∈ (os.zip r.decisions).filter (fun p => 0 ≤ p.2.offset),
        (log.nextOffset : Int) ≤ p.2.offset ∧ p.2.offset < log'.nextOffset := by
      intro p hp
      have hmem := hoffsets ▸ List.mem_map_of_mem (f := fun p : Nat × EngineDecision V => p.2.offset) hp
      obtain ⟨i, hi, hpi⟩ := List.mem_map.mp hmem
      rw [List.mem_range'_1] at hi
      simp only [Int.ofNat_eq_natCast] at hpi
      omega
    refine ⟨?_, ?_, ?_⟩
    · rintro e'' ⟨⟩
      refine ⟨log', hlog', ?_⟩
      intro p hp
      rcases List.mem_append.mp hp with hp | hp
      · have hold := hbelow p hp
        omega
      · exact (hnew p hp).2
    · rw [List.map_append, List.nodup_append]
      refine ⟨h.offsets, ?_, ?_⟩
      · rw [hoffsets]
        exact List.Nodup.map (fun a b hab => by simpa using hab) List.nodup_range'
      · intro k hk k' hk'
        obtain ⟨p, hp, rfl⟩ := List.mem_map.mp hk
        obtain ⟨p', hp', rfl⟩ := List.mem_map.mp hk'
        have hold := hbelow p hp
        have hge := (hnew p' hp').1
        omega
    · intro p hp
      rcases List.mem_append.mp hp with hp | hp
      · exact h.ids p hp
      · exact hids p hp

theorem Sound.step {s : Site V} (h : s.Sound unnamed) {event : SiteEvent V} (horderly : s.Orderly unnamed event) :
    (s.step event).Sound unnamed := by
  rcases hprocess : s.process with e | dir
  · obtain ⟨log, hlog, hbelow⟩ := h.log e hprocess
    cases event with
    | submit os now env =>
      simp only [Orderly, hprocess] at horderly
      simp only [Site.step, hprocess]
      exact h.submit (e := e.atTime now) hlog hbelow horderly env
    | prune checkpoint =>
      simp only [Site.step, hprocess]
      refine ⟨?_, h.offsets, h.ids⟩
      rintro e' ⟨⟩
      refine ⟨(log.deleteSegmentsBefore checkpoint).2, by simp [hlog], ?_⟩
      have hnext : (log.deleteSegmentsBefore checkpoint).2.nextOffset = log.nextOffset := rfl
      rw [hnext]
      exact hbelow
    | close fsyncIo =>
      simp only [Site.step, hprocess, hlog]
      refine ⟨?_, h.offsets, h.ids⟩
      intro e' hrunning
      cases hrunning
    | crash c =>
      simp only [Site.step, hprocess, hlog]
      refine ⟨?_, h.offsets, h.ids⟩
      intro e' hrunning
      cases hrunning
    | reopen cfg now ts e' =>
      simp only [Site.step, hprocess]
      exact h
  · cases event with
    | reopen cfg now ts e =>
      simp only [Orderly, hprocess] at horderly
      simp only [Site.step, hprocess]
      rcases hopen : IngestLog.openLog cfg dir now ts with err | log
      · exact h
      · refine ⟨?_, h.offsets, h.ids⟩
        rintro e' ⟨⟩
        refine ⟨log, rfl, ?_⟩
        intro p hp
        obtain ⟨f, hf, hle⟩ := horderly p hp
        exact Int.lt_of_le_of_lt hle (IngestLog.lt_openLog hopen hf)
    | submit os now env =>
      simp only [Site.step, hprocess]
      exact h
    | prune checkpoint =>
      simp only [Site.step, hprocess]
      exact h
    | close fsyncIo =>
      simp only [Site.step, hprocess]
      exact h
    | crash c =>
      simp only [Site.step, hprocess]
      exact h

/-- The decisions on appended events that came without an id. -/
def generated (unnamed : Nat → Bool) (s : Site V) : List (EngineDecision V) :=
  (s.decided.filter (fun p => unnamed p.1)).map Prod.snd

/-- The rows of decisions in the table of events. -/
def rowsOf (P : Py V) (ds : List (EngineDecision V)) : List (CanonicalRow V) :=
  (ds.map BatchItem.decision).flatMap (BatchItem.canonicalRows P)

/-- The ids of the decisions differ, and no row is passed over for its id when the rows are inserted. -/
def UniqueIds (P : Py V) (unnamed : Nat → Bool) (s : Site V) : Prop :=
  ((s.generated unnamed).map EngineDecision.eventId).Nodup ∧
    ((rowsOf P (s.generated unnamed)).foldl (Database.insertCanonical P) Database.empty).canonical =
      (rowsOf P (s.generated unnamed)).filter (fun r => !Database.hasNull P r)

/-- The ids of the rows are among those of the decisions. -/
theorem rowIds_sublist (P : Py V) {ds : List (EngineDecision V)} (h : ∀ d ∈ ds, ∀ row ∈ d.canonicalEvent, row.eventId = d.eventId) :
    ((rowsOf P ds).map CanonicalRow.eventId).Sublist (ds.map EngineDecision.eventId) := by
  induction ds with
  | nil => exact .slnil
  | cons d ds ih =>
    have hrest := ih (fun d' hd' => h d' (List.mem_cons_of_mem _ hd'))
    have hfirst : ((BatchItem.canonicalRows P (.decision d)).map CanonicalRow.eventId).Sublist [d.eventId] := by
      rw [BatchItem.canonicalRows]
      split
      · exact List.nil_sublist _
      · rcases hrow : d.canonicalEvent with _ | row
        · exact List.nil_sublist _
        · have hid : (BatchItem.canonicalRow P row).eventId = d.eventId := h d List.mem_cons_self row hrow
          simp [hid]
    rw [rowsOf, List.map_cons, List.flatMap_cons, List.map_append, List.map_cons, ← List.singleton_append]
    exact hfirst.append hrest

/-- Decisions with different offsets have different ids where the ids end in the offsets. -/
theorem ids_nodup {ds : List (EngineDecision V)} (hoffsets : (ds.map EngineDecision.offset).Nodup) (hids : ∀ d ∈ ds, d.Generated) :
    (ds.map EngineDecision.eventId).Nodup := by
  rw [List.Nodup, List.pairwise_map] at hoffsets ⊢
  refine hoffsets.imp_of_mem ?_
  intro d d' hd hd' hne hid
  obtain ⟨⟨k, word, text, hoffset, hmade⟩, -⟩ := hids d hd
  obtain ⟨⟨k', word', text', hoffset', hmade'⟩, -⟩ := hids d' hd'
  have hk : k = k' := madeId_inj (hmade.symm.trans (hid.trans hmade'))
  exact hne (by rw [hoffset, hoffset', hk])

theorem Sound.uniqueIds {s : Site V} {unnamed : Nat → Bool} (h : s.Sound (fun o => unnamed o = true)) (P : Py V) :
    s.UniqueIds P unnamed := by
  have hgenerated : ∀ d ∈ s.generated unnamed, d.Generated := by
    intro d hd
    obtain ⟨p, hp, rfl⟩ := List.mem_map.mp hd
    obtain ⟨hp, hunnamed⟩ := List.mem_filter.mp hp
    exact h.ids p hp hunnamed
  have hoffsets : ((s.generated unnamed).map EngineDecision.offset).Nodup := by
    rw [generated, List.map_map]
    exact h.offsets.sublist (List.filter_sublist.map _)
  have hnodup := ids_nodup hoffsets hgenerated
  refine ⟨hnodup, ?_⟩
  rw [Database.foldl_insertCanonical]
  refine insertAll_of_nodup ?_
  exact hnodup.sublist (rowIds_sublist P (fun d hd => (hgenerated d hd).2))

end Site

/-- In every run in which each event that came without an id has, whenever it is handed in, none or the one of the offset that it is
expected to get, and in which every process finds what was appended, the ids of such events differ and no row of theirs is passed
over. -/
theorem generated_ids_unique (P : Py V) (held : HeldEvents) (dir : LogDir) (events : List (SiteEvent V))
    (h : Along Site.step (Site.Orderly (fun o => !truthy (held o).raw.rawId)) ⟨.down dir, held, []⟩ events) :
    (runFrom Site.step ⟨.down dir, held, []⟩ events).UniqueIds P (fun o => !truthy (held o).raw.rawId) := by
  have hstart : Site.Sound (fun o => (!truthy (held o).raw.rawId) = true) (⟨.down dir, held, []⟩ : Site V) := by
    refine ⟨?_, List.nodup_nil, ?_⟩
    · intro e he
      cases he
    · intro p hp
      cases hp
  exact (h.inv (fun s event hs horderly => hs.step horderly) hstart).uniqueIds P

/-! ## Runs on given events -/

/-- Halts without an id, told apart by their times. -/
def namelessHalts : HeldEvents := fun o =>
  ⟨⟨.str "A", .obj [("instrument", .str "X"), ("event_type", .str "HALT"), ("exchange_ts", .int o)], .int 1, .null, .json .null, .null⟩,
    none⟩

/-- A start with an engine that has seen nothing. -/
def freshStart : SiteEvent PyNum := .reopen ⟨.always, 1000, 128⟩ 0 0
  (.new { py := exactPy, sessionPolicy := .strict, stalenessThresholdS := exactPy.dec 5 0, maxPayloadBytes := 1048576,
          snapshotCadenceEvents := 100000, now := .int 1 } none none)

/-- A call in which the write of the log ends like this. -/
def submitWith (os : List Nat) (write : IoResult) : SiteEvent PyNum :=
  .submit os (.int 1) ⟨{ Env.faultless 0 0 0 0 with write := write }, false⟩

instance (j : Json) (t : String) : Decidable (j = .str t) :=
  match j with
  | .str s => decidable_of_iff (s = t) (Json.str.injEq s t ▸ Iff.rfl)
  | .null | .bool _ | .int _ | .float _ | .arr _ | .obj _ => isFalse (fun h => nomatch h)

instance KeepsOffsets.decidable (c : EngineConfig V) (unnamed : Nat → Prop) [DecidablePred unnamed] :
    (os : List Nat) → (n base : Nat) → (held : HeldEvents) → Decidable (KeepsOffsets c unnamed os n base held)
  | [], _, _, _ => isTrue trivial
  | o :: os, n, base, held =>
    let x := touched c (held o) n base
    have := KeepsOffsets.decidable c unnamed os (n + 1) (if (turnAway c x (n + 1)).isSome then base else base + 1)
      (Function.update held o x)
    have : Decidable (turnAway c x (n + 1) = none) := decidable_of_iff _ Option.isNone_iff_eq_none
    inferInstanceAs (Decidable (_ ∧ _))

instance (unnamed : Nat → Prop) [DecidablePred unnamed] (s : Site V) (event : SiteEvent V) : Decidable (s.Orderly unnamed event) :=
  match event, s with
  | .submit _ _ _, ⟨.running _, _, _⟩ => inferInstanceAs (Decidable (KeepsOffsets ..))
  | .reopen cfg _ _ _, ⟨.down dir, _, decided⟩ =>
    inferInstanceAs (Decidable (∀ p ∈ decided, ∃ f ∈ dir.frames cfg.maxSegmentBytes, p.2.offset ≤ f.offset))
  | .submit _ _ _, ⟨.down _, _, _⟩ | .reopen _ _ _ _, ⟨.running _, _, _⟩ | .prune _, _ | .close _, _ | .crash _, _ => isTrue trivial

set_option maxRecDepth 100000 in
/-- An event whose append failed is handed in again at once, and the directory is opened again. -/
theorem generated_ids_unique_again : (runFrom Site.step ⟨.down LogDir.empty, namelessHalts, []⟩
    [freshStart, submitWith [0] (.fail 3), submitWith [0] .ok, .close true, freshStart, submitWith [1] .ok]).UniqueIds exactPy
      (fun o => !truthy (namelessHalts o).raw.rawId) :=
  generated_ids_unique exactPy namelessHalts LogDir.empty _ (by decide +kernel)

/-- An append fails, the next event gets its offset and with it the id that the first one holds, and the first one is handed in
again. -/
theorem generated_ids_unique_false : ¬∀ (held : HeldEvents) (dir : LogDir) (events : List (SiteEvent PyNum)),
    (runFrom Site.step ⟨.down dir, held, []⟩ events).UniqueIds exactPy (fun o => !truthy (held o).raw.rawId) := by
  intro h
  have hids : ((runFrom Site.step ⟨.down LogDir.empty, namelessHalts, []⟩
      [freshStart, submitWith [0] (.fail 3), submitWith [1] .ok, submitWith [0] .ok]).generated
        (fun o => !truthy (namelessHalts o).raw.rawId)).map EngineDecision.eventId = ["raw_A_0", "raw_A_0"] := by
    decide +kernel
  have hunique := (h namelessHalts LogDir.empty [freshStart, submitWith [0] (.fail 3), submitWith [1] .ok, submitWith [0] .ok]).1
  rw [hids] at hunique
  exact absurd hunique (by decide)

end Mdrap
