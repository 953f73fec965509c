import Mdrap.Theorems.Failover

/-!
# Promotion

A standby keeps the number and the time of the last heartbeat of a primary that it was handed, whatever the ones before it said. It is
promoted on that heartbeat alone.
-/

namespace Mdrap

open Lib

variable {V : Type} {F : Floats V}

namespace FailoverNode

/-- A heartbeat of a primary that a node follows: of its cluster, of its epoch, and not its own. -/
def Follows (n : FailoverNode V) (hb : HeartbeatMessage V) : Prop :=
  hb.clusterId = n.clusterId ∧ hb.nodeId ≠ n.nodeId ∧ hb.epoch = n.epoch ∧ hb.state = .primary

instance (n : FailoverNode V) (hb : HeartbeatMessage V) : Decidable (n.Follows hb) := inferInstanceAs (Decidable (_ ∧ _))

/-- The heartbeats of its primaries that a node has received. -/
def heard (n : FailoverNode V) (es : List (FollowerEvent V)) : List (HeartbeatMessage V) :=
  es.filterMap (fun
    | .receiveHeartbeat hb => if n.Follows hb then some hb else none
    | _ => none)

/-- At some time a node has all that the sender of a heartbeat had committed, and the heartbeat is older than the timeout. -/
def LeftBehind (F : Floats V) (now : V) (localSeq : Int) (n : FailoverNode V) (hb : HeartbeatMessage V) : Prop :=
  hb.lastCommittedSeq ≤ localSeq ∧ F.le (F.sub now hb.timestamp) n.heartbeatTimeout = false

instance (F : Floats V) (now : V) (localSeq : Int) (n : FailoverNode V) (hb : HeartbeatMessage V) :
    Decidable (n.LeftBehind F now localSeq hb) := inferInstanceAs (Decidable (_ ∧ _))

/-- Where the last heartbeat lets a node be promoted, the ones before it do so too. -/
def LastSpeaksForAll (F : Floats V) (now : V) (localSeq : Int) (n : FailoverNode V) (es : List (FollowerEvent V)) : Prop :=
  ∀ last ∈ (n.heard es).getLast?, F.eq last.timestamp (F.int 0) = false → n.LeftBehind F now localSeq last →
    ∀ hb ∈ (n.heard es).dropLast, n.LeftBehind F now localSeq hb

/-! ## What a node keeps -/

/-- A node that followed a primary either does so still, with the values of the last heartbeat, or was promoted. -/
structure Kept (n : FailoverNode V) (last : Option (HeartbeatMessage V)) (s : FailoverNode V) : Prop where
  nodeId : s.nodeId = n.nodeId
  clusterId : s.clusterId = n.clusterId
  timeout : s.heartbeatTimeout = n.heartbeatTimeout
  role : ((s.state = .standby ∨ s.state = .syncing) ∧ s.epoch = n.epoch ∧
      ∀ hb ∈ last, s.lastPrimaryHbTime = hb.timestamp ∧ s.primaryLastSeq = hb.lastCommittedSeq) ∨
    (s.state = .primary ∧ s.epoch = n.epoch + 1)

variable {n s : FailoverNode V} {last : Option (HeartbeatMessage V)}

theorem adopt_of_le {hb : HeartbeatMessage V} (h : hb.epoch ≤ s.epoch) : s.adopt hb = s := if_neg (not_lt.mpr h)

/-- A node that follows a primary keeps the values of its heartbeats. -/
theorem receiveHeartbeat_follower {hb : HeartbeatMessage V} (hstate : s.state ≠ .primary) (hepoch : hb.epoch = s.epoch) :
    (s.receiveHeartbeat hb).2 = if s.Follows hb then s.trackPrimary hb else s := by
  have hle : ¬s.epoch < hb.epoch := hepoch.symm ▸ lt_irrefl _
  by_cases hcluster : hb.clusterId = s.clusterId
  · by_cases hid : hb.nodeId = s.nodeId
    · rw [FailoverCluster.receive_own hid, if_neg (fun hall => hall.2.1 hid)]
    · unfold receiveHeartbeat
      rw [if_neg (not_not_intro hcluster), if_neg hid, if_neg (fun hall => hle hall.1), adopt_of_le hepoch.le]
      dsimp only
      rw [if_neg (fun hall => hall.1.ne hepoch), if_neg (fun hall => hstate hall.1)]
      by_cases hprimary : hb.state = .primary
      · have hfollows : s.Follows hb := ⟨hcluster, hid, hepoch, hprimary⟩
        rw [if_pos hprimary, if_pos hfollows]
      · rw [if_neg hprimary, if_neg (fun hall => hprimary hall.2.2.2)]
  · unfold receiveHeartbeat
    rw [if_pos hcluster, if_neg (fun hall => hcluster hall.1)]

/-- A node that was promoted does not care for heartbeats of the epoch before. -/
theorem receiveHeartbeat_promoted {hb : HeartbeatMessage V} (hepoch : hb.epoch < s.epoch) : (s.receiveHeartbeat hb).2 = s := by
  have hle : ¬s.epoch < hb.epoch := not_lt.mpr hepoch.le
  unfold receiveHeartbeat
  by_cases hcluster : hb.clusterId = s.clusterId
  · by_cases hid : hb.nodeId = s.nodeId
    · rw [if_neg (not_not_intro hcluster), if_pos hid]
    · rw [if_neg (not_not_intro hcluster), if_neg hid, if_neg (fun hall => hle hall.1), adopt_of_le hepoch.le]
      dsimp only
      by_cases hprimary : hb.state = .primary
      · rw [if_pos ⟨hepoch, hprimary⟩]
      · rw [if_neg (fun hall => hprimary hall.2), if_neg (fun hall => hprimary hall.2.1), if_neg hprimary]
  · rw [if_pos hcluster]

/-- A node stays a follower of the same primary where only its role changes. -/
theorem Kept.role_changed (h : n.Kept last s) (hstate : s.state ≠ .primary) {state : NodeState}
    (hnew : state = .standby ∨ state = .syncing) : n.Kept last { s with state := state } := by
  refine ⟨h.nodeId, h.clusterId, h.timeout, .inl ?_⟩
  rcases h.role with ⟨-, hepoch, hvalues⟩ | ⟨hprimary, -⟩
  · exact ⟨hnew, hepoch, hvalues⟩
  · exact absurd hprimary hstate

theorem Kept.replicateCommit (h : n.Kept last s) (seq : Int) : n.Kept last (s.replicateCommit seq) := by
  unfold FailoverNode.replicateCommit
  split
  · rename_i hcond
    exact h.role_changed (hcond.2 ▸ nofun) (.inl rfl)
  · exact h

theorem Kept.checkFailoverCondition (h : n.Kept last s) (now : V) (localSeq : Int) :
    n.Kept last (s.checkFailoverCondition F now localSeq).2 := by
  unfold FailoverNode.checkFailoverCondition
  by_cases htimed : s.timedOut F now = true
  · have hstandby : s.state = .standby := (of_decide_eq_true htimed).1
    rw [htimed]
    by_cases hseq : localSeq < s.primaryLastSeq
    · rw [if_neg (by decide), if_pos hseq]
      exact h.role_changed (hstandby ▸ nofun) (.inr rfl)
    · rw [if_neg (by decide), if_neg hseq]
      refine ⟨h.nodeId, h.clusterId, h.timeout, .inr ⟨rfl, ?_⟩⟩
      rcases h.role with ⟨-, hepoch, -⟩ | ⟨hprimary, -⟩
      · exact congrArg (· + 1) hepoch
      · exact nomatch hstandby.symm.trans hprimary
  · rw [if_pos (by simpa using htimed)]
    exact h

theorem Kept.receiveHeartbeat (h : n.Kept last s) {hb : HeartbeatMessage V} (hepoch : hb.epoch = n.epoch) :
    n.Kept (if n.Follows hb then some hb else last) (s.receiveHeartbeat hb).2 := by
  rcases h.role with ⟨hstate, hsame, hvalues⟩ | ⟨hprimary, hnext⟩
  · have hne : s.state ≠ .primary := by
      rcases hstate with hs | hs
      · exact hs ▸ nofun
      · exact hs ▸ nofun
    have hfollows : s.Follows hb ↔ n.Follows hb := by
      unfold Follows
      rw [h.clusterId, h.nodeId, hsame]
    rw [receiveHeartbeat_follower hne (hepoch.trans hsame.symm)]
    by_cases hn : n.Follows hb
    · rw [if_pos (hfollows.mpr hn), if_pos hn]
      refine ⟨h.nodeId, h.clusterId, h.timeout, .inl ⟨hstate, hsame, ?_⟩⟩
      rintro hb' ⟨⟩
      exact ⟨rfl, rfl⟩
    · rw [if_neg (mt hfollows.mp hn), if_neg hn]
      exact h
  · rw [receiveHeartbeat_promoted (by omega)]
    exact ⟨h.nodeId, h.clusterId, h.timeout, .inr ⟨hprimary, hnext⟩⟩

/-! ## A run of a node -/

theorem heard_append (n : FailoverNode V) (es fs : List (FollowerEvent V)) : n.heard (es ++ fs) = n.heard es ++ n.heard fs :=
  List.filterMap_append

/-- Whatever comes, a node keeps the values of the last heartbeat of its primaries. -/
theorem kept_run (hstart : n.state = .standby) {es : List (FollowerEvent V)}
    (hepoch : ∀ hb, .receiveHeartbeat hb ∈ es → hb.epoch = n.epoch) :
    n.Kept (n.heard es).getLast? (runFrom (follow F) n es) := by
  induction es using List.reverseRecOn with
  | nil =>
    refine ⟨rfl, rfl, rfl, .inl ⟨.inl hstart, rfl, ?_⟩⟩
    rintro hb ⟨⟩
  | append_singleton es e ih =>
    have hrest := ih (fun hb hhb => hepoch hb (List.mem_append_left _ hhb))
    rw [runFrom_append, heard_append]
    cases e with
    | receiveHeartbeat hb =>
      have hlast : (n.heard es ++ n.heard [.receiveHeartbeat hb]).getLast? =
          if n.Follows hb then some hb else (n.heard es).getLast? := by
        by_cases hn : n.Follows hb
        · simp [heard, hn]
        · simp [heard, hn]
      rw [hlast]
      exact hrest.receiveHeartbeat (hepoch hb (List.mem_append_right _ List.mem_cons_self))
    | replicateCommit seq =>
      have hnone : n.heard [.replicateCommit seq] = [] := rfl
      rw [hnone, List.append_nil]
      exact hrest.replicateCommit seq
    | checkFailoverCondition now localSeq =>
      have hnone : n.heard [.checkFailoverCondition now localSeq] = [] := rfl
      rw [hnone, List.append_nil]
      exact hrest.checkFailoverCondition now localSeq

/-- A standby is promoted where it has timed out and has caught up. -/
theorem checkFailoverCondition_promotes (now : V) (localSeq : Int) :
    (s.checkFailoverCondition F now localSeq).1 = true ↔ s.timedOut F now = true ∧ s.primaryLastSeq ≤ localSeq := by
  unfold FailoverNode.checkFailoverCondition
  by_cases htimed : s.timedOut F now = true
  · by_cases hseq : localSeq < s.primaryLastSeq
    · simp [htimed, hseq]
    · simp [htimed, hseq, not_lt.mp hseq]
  · simp [htimed]

theorem timedOut_iff (now : V) : s.timedOut F now = true ↔
    s.state = .standby ∧ F.eq s.lastPrimaryHbTime (F.int 0) = false ∧
      F.le (F.sub now s.lastPrimaryHbTime) s.heartbeatTimeout = false := by
  simp [timedOut]

/-- A standby that keeps the values of a heartbeat is promoted where the heartbeat lets it. -/
theorem promotes_iff {hb : HeartbeatMessage V} (hstandby : s.state = .standby) (htime : s.lastPrimaryHbTime = hb.timestamp)
    (hseq : s.primaryLastSeq = hb.lastCommittedSeq) (htimeout : s.heartbeatTimeout = n.heartbeatTimeout) {now : V}
    {localSeq : Int} :
    (s.checkFailoverCondition F now localSeq).1 = true ↔
      F.eq hb.timestamp (F.int 0) = false ∧ n.LeftBehind F now localSeq hb := by
  rw [checkFailoverCondition_promotes, timedOut_iff, htime, hseq, htimeout, LeftBehind]
  constructor
  · rintro ⟨⟨-, hzero, hold⟩, hle⟩
    exact ⟨hzero, hle, hold⟩
  · rintro ⟨hzero, hle, hold⟩
    exact ⟨⟨hstandby, hzero, hold⟩, hle⟩

end FailoverNode

/-- A standby is promoted only when every heartbeat of its primaries lets it, if and only if the last one that lets it speaks for all
those before it. -/
theorem promotion_caught_up (F : Floats V) (n : FailoverNode V) (es : List (FollowerEvent V)) (hstart : n.state = .standby)
    (hepoch : ∀ hb, .receiveHeartbeat hb ∈ es → hb.epoch = n.epoch) (now : V) (localSeq : Int)
    (hstandby : (runFrom (FailoverNode.follow F) n es).state = .standby) :
    (((runFrom (FailoverNode.follow F) n es).checkFailoverCondition F now localSeq).1 = true →
        ∀ hb ∈ n.heard es, n.LeftBehind F now localSeq hb) ↔
      n.LastSpeaksForAll F now localSeq es := by
  have hkept := FailoverNode.kept_run (F := F) hstart hepoch
  rcases hkept.role with ⟨-, -, hvalues⟩ | ⟨hprimary, -⟩
  · rcases List.eq_nil_or_concat (n.heard es) with hnil | ⟨before, last, hconcat⟩
    · refine iff_of_true (fun _ hb hhb => ?_) (fun last hlast => ?_)
      · rw [hnil] at hhb
        cases hhb
      · rw [hnil] at hlast
        cases hlast
    · rw [List.concat_eq_append] at hconcat
      have hlast : (n.heard es).getLast? = some last := by rw [hconcat, List.getLast?_concat]
      have hbefore : (n.heard es).dropLast = before := by rw [hconcat, List.dropLast_concat]
      obtain ⟨htime, hseq⟩ := hvalues last hlast
      rw [FailoverNode.promotes_iff hstandby htime hseq hkept.timeout]
      unfold FailoverNode.LastSpeaksForAll
      rw [hlast, hbefore, hconcat]
      simp only [Option.mem_some_iff, forall_eq', List.mem_append, List.mem_singleton]
      constructor
      · intro h hzero hleft hb hhb
        exact h ⟨hzero, hleft⟩ hb (.inl hhb)
      · rintro h ⟨hzero, hleft⟩ hb (hhb | rfl)
        · exact h hzero hleft hb hhb
        · exact hleft
  · exact nomatch hstandby.symm.trans hprimary

/-- A standby of the primary a. -/
def standbyNode : FailoverNode (Option ℚ) := .new FailoverCluster.failoverFloats "b" "mdrap-cluster" .standby (some 2) 1

/-- A heartbeat of the primary a. -/
def primaryHeartbeat (lastCommittedSeq : Int) (timestamp : ℚ) : FollowerEvent (Option ℚ) :=
  .receiveHeartbeat ⟨"a", "mdrap-cluster", 1, .primary, lastCommittedSeq, some timestamp, 1⟩

/-- The standby after some heartbeats. -/
def standbyAfter (es : List (FollowerEvent (Option ℚ))) : FailoverNode (Option ℚ) :=
  runFrom (FailoverNode.follow FailoverCluster.failoverFloats) standbyNode es

/-- Two heartbeats in their order, and a standby that has caught up. -/
theorem promotion_caught_up_in_order :
    ((standbyAfter [primaryHeartbeat 50 1, primaryHeartbeat 100 2]).checkFailoverCondition
        FailoverCluster.failoverFloats (some 5) 100).1 = true ∧
      ∀ hb ∈ standbyNode.heard [primaryHeartbeat 50 1, primaryHeartbeat 100 2],
        standbyNode.LeftBehind FailoverCluster.failoverFloats (some 5) 100 hb := by
  have hepoch : ∀ hb, FollowerEvent.receiveHeartbeat hb ∈ [primaryHeartbeat 50 1, primaryHeartbeat 100 2] →
      hb.epoch = standbyNode.epoch := by
    intro hb hhb
    rcases List.mem_cons.mp hhb with h | h
    · exact FollowerEvent.receiveHeartbeat.inj h ▸ rfl
    · exact FollowerEvent.receiveHeartbeat.inj (List.mem_singleton.mp h) ▸ rfl
  have hpromotes : ((standbyAfter [primaryHeartbeat 50 1, primaryHeartbeat 100 2]).checkFailoverCondition
      FailoverCluster.failoverFloats (some 5) 100).1 = true := by decide +kernel
  refine ⟨hpromotes, (promotion_caught_up FailoverCluster.failoverFloats standbyNode
    [primaryHeartbeat 50 1, primaryHeartbeat 100 2] rfl hepoch (some 5) 100 (by decide)).mpr ?_ hpromotes⟩
  intro last hlast hzero hleft
  decide +kernel

/-- A heartbeat that comes late makes a standby forget what its primary has committed since. -/
theorem promotion_caught_up_false :
    (standbyAfter [primaryHeartbeat 100 2, primaryHeartbeat 50 1]).state = .standby ∧
      ((standbyAfter [primaryHeartbeat 100 2, primaryHeartbeat 50 1]).checkFailoverCondition
        FailoverCluster.failoverFloats (some 5) 50).1 = true ∧
      ∃ hb ∈ standbyNode.heard [primaryHeartbeat 100 2, primaryHeartbeat 50 1], 50 < hb.lastCommittedSeq := by
  decide +kernel

end Mdrap
