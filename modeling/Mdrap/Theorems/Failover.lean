import Mathlib.Data.Finset.Max
import Mathlib.Data.Fintype.Basic
import Mathlib.Data.Prod.Lex
import Mathlib.Order.Lattice
import Mathlib.Algebra.Order.Field.Rat
import Mathlib.Data.String.Basic
import Mdrap.Failover.Node

/-!
# Primaries

How many nodes of a cluster are primary, over all the orders in which heartbeats can come.
-/

namespace Mdrap

open Lib

variable {n : Nat} {V : Type}

/-! ## What a step does to a node -/

namespace FailoverNode

/-- A heartbeat makes no node primary. -/
theorem receiveHeartbeat_primary {hb : HeartbeatMessage V} {node : FailoverNode V}
    (h : (node.receiveHeartbeat hb).2.state = .primary) : node.state = .primary := by
  unfold receiveHeartbeat at h
  split at h
  · exact h
  · split at h
    · exact h
    · split at h
      · nomatch h
      · dsimp only at h
        have hadopt : (node.adopt hb).state = node.state := by
          unfold adopt
          split <;> rfl
        split at h
        · rwa [← hadopt]
        · split at h
          · split at h
            · nomatch h
            · rwa [← hadopt]
          · split at h
            · rw [← hadopt]
              exact h
            · rwa [← hadopt]

end FailoverNode

namespace FailoverCluster

variable (F : Floats V)

theorem atNode_self (c : FailoverCluster n V) (i : Fin n) (f : FailoverNode V → FailoverNode V) :
    (c.atNode i f).nodes i = f (c.nodes i) := Function.update_self ..

theorem atNode_ne (c : FailoverCluster n V) {i j : Fin n} (h : j ≠ i) (f : FailoverNode V → FailoverNode V) :
    (c.atNode i f).nodes j = c.nodes j := Function.update_of_ne h ..

/-- A heartbeat that was sent is received by the node. -/
theorem step_receive {c : FailoverCluster n V} {k : Nat} {hb : HeartbeatMessage V} (h : c.sent[k]? = some hb) (i : Fin n) :
    c.step F (.receiveHeartbeat i k) = c.atNode i (fun node => (node.receiveHeartbeat hb).2) := by
  simp only [step, h]

theorem step_receive_none {c : FailoverCluster n V} {k : Nat} (h : c.sent[k]? = none) (i : Fin n) :
    c.step F (.receiveHeartbeat i k) = c := by
  simp only [step, h]

/-- Work on a node that makes it primary only if it was makes no other node primary. -/
theorem IsPrimary.of_atNode {c : FailoverCluster n V} {i j : Fin n} {f : FailoverNode V → FailoverNode V}
    (hf : (f (c.nodes i)).state = .primary → (c.nodes i).state = .primary) (h : (c.atNode i f).IsPrimary j) : c.IsPrimary j := by
  unfold IsPrimary at h ⊢
  by_cases hj : j = i
  · subst hj
    rw [atNode_self] at h
    exact hf h
  · rwa [atNode_ne c hj] at h

/-! ## One primary -/

/-- At most one node is primary. -/
def OnePrimary (c : FailoverCluster n V) : Prop := ∀ i j, c.IsPrimary i → c.IsPrimary j → i = j

/-- No two nodes are primary with one fencing token, and no token that one node accepts is accepted by another. -/
def Fenced (c : FailoverCluster n V) : Prop :=
  ∀ i j, i ≠ j → ¬(c.IsPrimary i ∧ c.IsPrimary j ∧ (c.nodes i).fencingToken = (c.nodes j).fencingToken) ∧
    ∀ token, ¬((c.nodes i).assertFencingToken token = .ok () ∧ (c.nodes j).assertFencingToken token = .ok ())

theorem primary_of_assert {node : FailoverNode V} {token : Int} (h : node.assertFencingToken token = .ok ()) :
    node.state = .primary := by
  unfold FailoverNode.assertFencingToken at h
  split at h
  · cases h
  · rename_i hstate
    exact not_not.mp hstate

theorem assert_of_le {node : FailoverNode V} {token : Int} (hstate : node.state = .primary) (h : node.fencingToken ≤ token) :
    node.assertFencingToken token = .ok () := by
  unfold FailoverNode.assertFencingToken
  rw [if_neg (not_not.mpr hstate), if_neg (not_lt.mpr h)]

/-- Only a token that is too old is refused, so two primaries always accept one in common. -/
theorem fenced_iff (c : FailoverCluster n V) : c.Fenced ↔ c.OnePrimary := by
  constructor
  · intro h i j hi hj
    by_contra hne
    refine (h i j hne).2 (max (c.nodes i).fencingToken (c.nodes j).fencingToken) ⟨?_, ?_⟩
    · exact assert_of_le hi (le_max_left ..)
    · exact assert_of_le hj (le_max_right ..)
  · intro h i j hne
    refine ⟨fun hboth => hne (h i j hboth.1 hboth.2.1), ?_⟩
    intro token hboth
    exact hne (h i j (primary_of_assert hboth.1) (primary_of_assert hboth.2))

/-- The node that an event makes primary, if any. -/
def promoted (c : FailoverCluster n V) : FailoverEvent n V → Option (Fin n)
  | .promote i => some i
  | .checkFailoverCondition i now localSeq =>
    if (c.nodes i).timedOut F now ∧ (c.nodes i).primaryLastSeq ≤ localSeq then some i else none
  | _ => none

/-- A node that is made primary is the only one. -/
def PromotesAlone (c : FailoverCluster n V) (e : FailoverEvent n V) : Prop :=
  ∀ i, c.promoted F e = some i → ∀ j, c.IsPrimary j → j = i

variable {F}

theorem checkFailover_cases (node : FailoverNode V) (now : V) (localSeq : Int) :
    (node.timedOut F now = true ∧ node.primaryLastSeq ≤ localSeq ∧ (node.checkFailoverCondition F now localSeq).2 = node.promote) ∨
      (¬(node.timedOut F now = true ∧ node.primaryLastSeq ≤ localSeq) ∧
        ((node.checkFailoverCondition F now localSeq).2.state = .primary → node.state = .primary)) := by
  unfold FailoverNode.checkFailoverCondition
  by_cases htimed : node.timedOut F now = true
  · by_cases hseq : localSeq < node.primaryLastSeq
    · refine .inr ⟨fun h => absurd h.2 (by omega), ?_⟩
      simp [htimed, hseq]
    · exact .inl ⟨htimed, by omega, by simp [htimed, hseq]⟩
  · refine .inr ⟨fun h => htimed h.1, ?_⟩
    simp [htimed]

/-- A step that makes no node primary. -/
theorem step_quiet {c : FailoverCluster n V} {e : FailoverEvent n V} (h : c.promoted F e = none) {j : Fin n}
    (hj : (c.step F e).IsPrimary j) : c.IsPrimary j := by
  cases e with
  | sendHeartbeat i lastCommittedSeq now => exact hj
  | receiveHeartbeat i k =>
    cases hsent : c.sent[k]? with
    | none => rwa [step_receive_none F hsent] at hj
    | some hb =>
      rw [step_receive F hsent] at hj
      exact hj.of_atNode FailoverNode.receiveHeartbeat_primary
  | checkFailoverCondition i now localSeq =>
    rcases @checkFailover_cases V F (c.nodes i) now localSeq with ⟨htimed, hseq, -⟩ | ⟨-, hkeeps⟩
    · simp [promoted, htimed, hseq] at h
    · simp only [step] at hj
      exact hj.of_atNode hkeeps
  | promote i => nomatch h
  | demote i =>
    simp only [step] at hj
    refine hj.of_atNode ?_
    intro hstate
    cases hstate

/-- A step that makes a node primary. -/
theorem step_promotes {c : FailoverCluster n V} {e : FailoverEvent n V} {i : Fin n} (h : c.promoted F e = some i) :
    c.step F e = c.atNode i .promote := by
  cases e with
  | sendHeartbeat i' lastCommittedSeq now => nomatch h
  | receiveHeartbeat i' k => nomatch h
  | checkFailoverCondition i' now localSeq =>
    rcases @checkFailover_cases V F (c.nodes i') now localSeq with ⟨htimed, hseq, heq⟩ | ⟨hnot, -⟩
    · simp only [promoted, htimed, hseq, and_self, if_true, Option.some.injEq] at h
      subst h
      simp only [step, atNode, heq]
    · simp [promoted, hnot] at h
  | promote i' =>
    cases h
    rfl
  | demote i' => nomatch h

/-- From one primary a step leads to one primary exactly when it makes no second one. -/
theorem onePrimary_step {c : FailoverCluster n V} (h : c.OnePrimary) (e : FailoverEvent n V) :
    (c.step F e).OnePrimary ↔ c.PromotesAlone F e := by
  cases hprom : c.promoted F e with
  | none =>
    have halone : c.PromotesAlone F e := by
      intro i hi
      rw [hprom] at hi
      cases hi
    refine ⟨fun _ => halone, ?_⟩
    intro _ i j hi hj
    exact h i j (step_quiet hprom hi) (step_quiet hprom hj)
  | some i =>
    have hstep := step_promotes hprom
    have hself : (c.atNode i .promote).IsPrimary i := by
      unfold IsPrimary
      rw [atNode_self]
      rfl
    have hother : ∀ j, j ≠ i → ((c.atNode i .promote).IsPrimary j ↔ c.IsPrimary j) := by
      intro j hj
      unfold IsPrimary
      rw [atNode_ne c hj]
    constructor
    · intro hone i' hi' j hj
      rw [hprom] at hi'
      cases hi'
      by_contra hne
      rw [hstep] at hone
      exact hne (hone j i ((hother j hne).mpr hj) hself)
    · intro halone
      rw [hstep]
      have hall : ∀ j, (c.atNode i .promote).IsPrimary j → j = i := by
        intro j hj
        by_contra hne
        exact hne (halone i hprom j ((hother j hne).mp hj))
      intro j k hj hk
      rw [hall j hj, hall k hk]

theorem onePrimary_start (ids : Fin n → String) (clusterId : String) (timeouts : Fin n → V) (epoch : Int) (p : Fin n) :
    (start F ids clusterId timeouts epoch p).OnePrimary := by
  have hp : ∀ i, (start F ids clusterId timeouts epoch p).IsPrimary i → i = p := by
    intro i hi
    unfold IsPrimary at hi
    by_contra hne
    simp [start, FailoverNode.new, hne] at hi
  intro i j hi hj
  rw [hp i hi, hp j hj]

/-- A token is good for one node at most, at every moment of a run, if and only if a node is made primary only while no other one is. -/
theorem fencing_iff (F : Floats V) (ids : Fin n → String) (clusterId : String) (timeouts : Fin n → V) (epoch : Int) (p : Fin n)
    (es : List (FailoverEvent n V)) :
    (∀ fs, fs <+: es → (runFrom (step F) (start F ids clusterId timeouts epoch p) fs).Fenced) ↔
      Along (step F) (fun c e => c.PromotesAlone F e) (start F ids clusterId timeouts epoch p) es := by
  have hiff := @Along.iff_prefixes (FailoverCluster n V) (FailoverEvent n V) (step F) (fun c e => c.PromotesAlone F e)
    OnePrimary (fun _ => True) (fun _ _ _ _ => trivial) (fun c e _ hone => onePrimary_step hone e)
    (start F ids clusterId timeouts epoch p) trivial (onePrimary_start ids clusterId timeouts epoch p) es
  rw [← hiff]
  exact forall_congr' (fun fs => imp_congr_right (fun _ => fenced_iff _))

/-- Numbers of the tests. -/
def failoverFloats : Floats (Option ℚ) := .exact id (fun _ => 0)

/-- A primary and two standbys. -/
def threeNodes : FailoverCluster 3 (Option ℚ) :=
  start failoverFloats (fun i => ["a", "b", "c"].get i) "mdrap-cluster" (fun _ => some 2) 1 0

/-- Both standbys are promoted. -/
def bothPromoted : List (FailoverEvent 3 (Option ℚ)) := [.promote 1, .promote 2]

/-- Two standbys that are promoted are primary with one token. -/
theorem fencing_false :
    (runFrom (step failoverFloats) threeNodes bothPromoted).IsPrimary 1 ∧
      (runFrom (step failoverFloats) threeNodes bothPromoted).IsPrimary 2 ∧
      ((runFrom (step failoverFloats) threeNodes bothPromoted).nodes 1).fencingToken =
        ((runFrom (step failoverFloats) threeNodes bothPromoted).nodes 2).fencingToken ∧
      ¬(runFrom (step failoverFloats) threeNodes bothPromoted).Fenced := by
  refine ⟨by decide, by decide, by decide, ?_⟩
  rw [fenced_iff]
  intro h
  exact absurd (h 1 2 (by decide) (by decide)) (by decide)

/-! ## Ranks -/

/-- Of two primaries the one with the higher epoch stays, and in one epoch the one with the lower id. -/
def failoverRank (epoch : Int) (nodeId : String) : ℤ ×ₗ Stringᵒᵈ := toLex (epoch, OrderDual.toDual nodeId)

def rank (node : FailoverNode V) : ℤ ×ₗ Stringᵒᵈ := failoverRank node.epoch node.nodeId

def rankOf (hb : HeartbeatMessage V) : ℤ ×ₗ Stringᵒᵈ := failoverRank hb.epoch hb.nodeId

theorem failoverRank_lt {e e' : Int} {id id' : String} :
    failoverRank e id < failoverRank e' id' ↔ e < e' ∨ e = e' ∧ id' < id := by
  unfold failoverRank
  rw [Prod.Lex.toLex_lt_toLex]
  rfl

theorem failoverRank_mono {e e' : Int} (h : e ≤ e') (id : String) : failoverRank e id ≤ failoverRank e' id := by
  rcases h.lt_or_eq with hlt | rfl
  · exact (failoverRank_lt.mpr (.inl hlt)).le
  · exact le_rfl

theorem adopt_state (hb : HeartbeatMessage V) (node : FailoverNode V) : (node.adopt hb).state = node.state := by
  unfold FailoverNode.adopt
  split <;> rfl

theorem rank_le_adopt (hb : HeartbeatMessage V) (node : FailoverNode V) : rank node ≤ rank (node.adopt hb) := by
  unfold FailoverNode.adopt
  split
  · rename_i h
    exact failoverRank_mono h.le _
  · exact le_rfl

/-- A primary that receives a heartbeat stays primary and keeps at least its rank, or the heartbeat is from a primary of a higher
rank. -/
theorem receive_primary {node : FailoverNode V} (h : node.state = .primary) (hb : HeartbeatMessage V) :
    ((node.receiveHeartbeat hb).2.state = .primary ∧ rank node ≤ rank (node.receiveHeartbeat hb).2) ∨
      (hb.state = .primary ∧ rank node < rankOf hb) := by
  unfold FailoverNode.receiveHeartbeat
  have hadopt := adopt_state hb node
  have hrank := rank_le_adopt hb node
  split
  · exact .inl ⟨h, le_rfl⟩
  · split
    · exact .inl ⟨h, le_rfl⟩
    · split
      · rename_i hhigher
        exact .inr ⟨hhigher.2.2, failoverRank_lt.mpr (.inl hhigher.1)⟩
      · rename_i hhigher
        dsimp only
        split
        · exact .inl ⟨hadopt.trans h, hrank⟩
        · split
          · rename_i hsame
            have hle : ¬node.epoch < hb.epoch := fun hlt => hhigher ⟨hlt, h, hsame.2.1⟩
            have heq : node.adopt hb = node := by
              unfold FailoverNode.adopt
              rw [if_neg hle]
            rw [heq] at hsame ⊢
            split
            · rename_i hid
              exact .inr ⟨hsame.2.1, failoverRank_lt.mpr (.inr ⟨hsame.2.2.symm, hid⟩)⟩
            · exact .inl ⟨h, le_rfl⟩
          · split
            · exact .inl ⟨hadopt.trans h, hrank⟩
            · exact .inl ⟨hadopt.trans h, hrank⟩

/-! ## The last primary -/

/-- Some primary has at least a rank. -/
def Covers (c : FailoverCluster n V) (r : ℤ ×ₗ Stringᵒᵈ) : Prop := ∃ i, c.IsPrimary i ∧ r ≤ rank (c.nodes i)

/-- No heartbeat of a primary outranks all the primaries there are. -/
def Backed (c : FailoverCluster n V) : Prop := ∀ hb ∈ c.sent, hb.state = .primary → c.Covers (rankOf hb)

/-- A heartbeat that is sent or received, or a promotion. -/
def HeartbeatOrPromote : FailoverEvent n V → Prop
  | .sendHeartbeat _ _ _ => True
  | .receiveHeartbeat _ _ => True
  | .promote _ => True
  | .checkFailoverCondition _ _ _ => False
  | .demote _ => False

instance (e : FailoverEvent n V) : Decidable (HeartbeatOrPromote e) := by
  cases e <;> unfold HeartbeatOrPromote <;> infer_instance

theorem covers_atNode {c : FailoverCluster n V} {r : ℤ ×ₗ Stringᵒᵈ} {i : Fin n} {f : FailoverNode V → FailoverNode V}
    (h : c.Covers r)
    (hf : c.IsPrimary i → r ≤ rank (c.nodes i) → (c.atNode i f).Covers r) : (c.atNode i f).Covers r := by
  obtain ⟨j, hj, hr⟩ := h
  by_cases hji : j = i
  · subst hji
    exact hf hj hr
  · refine ⟨j, ?_, ?_⟩
    · unfold IsPrimary
      rw [atNode_ne c hji]
      exact hj
    · rwa [atNode_ne c hji]

/-- What some primary covers, some primary still covers after a step. -/
theorem covers_step {c : FailoverCluster n V} (hbacked : c.Backed) {e : FailoverEvent n V} (he : HeartbeatOrPromote e)
    {r : ℤ ×ₗ Stringᵒᵈ} (h : c.Covers r) : (c.step F e).Covers r := by
  cases e with
  | sendHeartbeat i lastCommittedSeq now => exact h
  | receiveHeartbeat i k =>
    cases hsent : c.sent[k]? with
    | none => rwa [step_receive_none F hsent]
    | some hb =>
      rw [step_receive F hsent]
      refine covers_atNode h ?_
      intro hi hr
      rcases receive_primary hi hb with ⟨hstate, hle⟩ | ⟨hstate, hlt⟩
      · refine ⟨i, ?_, ?_⟩
        · unfold IsPrimary
          rwa [atNode_self]
        · rw [atNode_self]
          exact hr.trans hle
      · -- the heartbeat is covered by a primary of a higher rank, which is another one
        obtain ⟨j, hj, hjr⟩ := hbacked hb (List.mem_of_getElem? hsent) hstate
        have hji : j ≠ i := by
          rintro rfl
          exact absurd (hlt.trans_le hjr) (lt_irrefl _)
        refine ⟨j, ?_, ?_⟩
        · unfold IsPrimary
          rw [atNode_ne c hji]
          exact hj
        · rw [atNode_ne c hji]
          exact hr.trans (hlt.le.trans hjr)
  | promote i =>
    refine covers_atNode h ?_
    intro _ hr
    refine ⟨i, ?_, ?_⟩
    · unfold IsPrimary
      rw [atNode_self]
      rfl
    · rw [atNode_self]
      exact hr.trans (failoverRank_mono (by simp [FailoverNode.promote]) _)
  | checkFailoverCondition i now localSeq => exact he.elim
  | demote i => exact he.elim

theorem backed_step {c : FailoverCluster n V} (h : c.Backed) {e : FailoverEvent n V} (he : HeartbeatOrPromote e) :
    (c.step F e).Backed := by
  intro hb hmem hstate
  cases e with
  | sendHeartbeat i lastCommittedSeq now =>
    rcases List.mem_append.mp hmem with hold | hnew
    · exact h hb hold hstate
    · rw [List.mem_singleton] at hnew
      subst hnew
      exact ⟨i, hstate, le_rfl⟩
  | receiveHeartbeat i k =>
    refine covers_step h he (h hb ?_ hstate)
    cases hsent : c.sent[k]? with
    | none => rwa [step_receive_none F hsent] at hmem
    | some hb' =>
      rw [step_receive F hsent] at hmem
      exact hmem
  | promote i => exact covers_step h he (h hb hmem hstate)
  | checkFailoverCondition i now localSeq => exact he.elim
  | demote i => exact he.elim

/-- Once there is a primary, heartbeats and promotions leave one. -/
theorem primary_persists {c : FailoverCluster n V} (hsent : c.sent = []) {es : List (FailoverEvent n V)}
    (hes : ∀ e ∈ es, HeartbeatOrPromote e) {fs : List (FailoverEvent n V)} (hfs : fs <+: es)
    (h : ∃ i, (runFrom (step F) c fs).IsPrimary i) : ∃ i, (runFrom (step F) c es).IsPrimary i := by
  have hstart : c.Backed := by
    intro hb hmem
    rw [hsent] at hmem
    cases hmem
  obtain ⟨gs, rfl⟩ := hfs
  have halong : Along (step F) (fun _ e => HeartbeatOrPromote e) c (fs ++ gs) := Along.of_forall (fun e he _ => hes e he) c
  have hmid : (runFrom (step F) c fs).Backed := halong.of_append.inv (I := Backed) (fun _ _ hb he => backed_step hb he) hstart
  obtain ⟨i, hi⟩ := h
  have hcovers := halong.of_append_right.inv (I := fun s => s.Backed ∧ s.Covers (rank ((runFrom (step F) c fs).nodes i)))
    (fun _ _ hs he => ⟨backed_step hs.1 he, covers_step hs.1 he hs.2⟩) ⟨hmid, i, hi, le_rfl⟩
  rw [← runFrom_append] at hcovers
  obtain ⟨j, hj, -⟩ := hcovers.2
  exact ⟨j, hj⟩

/-! ## Several primaries -/

/-- A heartbeat that a node has sent in some state. -/
def SentIn (c : FailoverCluster n V) (j : Fin n) (hb : HeartbeatMessage V) : Prop :=
  ∃ lastCommittedSeq now, hb = (c.nodes j).sendHeartbeat lastCommittedSeq now

/-- In a run from some state, a node has received a heartbeat that another one has sent in that state. -/
def Received (F : Floats V) (c : FailoverCluster n V) (es : List (FailoverEvent n V)) (i j : Fin n) : Prop :=
  ∃ fs k hb, fs ++ [.receiveHeartbeat i k] <+: es ∧ (runFrom (step F) c fs).sent[k]? = some hb ∧ c.SentIn j hb

/-- The primaries of a state receive nothing but heartbeats that primaries have sent in it, and nothing else is done to them. -/
def Exchanges (c s : FailoverCluster n V) : FailoverEvent n V → Prop
  | .sendHeartbeat _ _ _ => True
  | .receiveHeartbeat i k => c.IsPrimary i → ∀ hb, s.sent[k]? = some hb → ∃ j, c.IsPrimary j ∧ c.SentIn j hb
  | .checkFailoverCondition i _ _ => ¬c.IsPrimary i
  | .promote i => ¬c.IsPrimary i
  | .demote i => ¬c.IsPrimary i

/-- A primary does not care for a primary of a lower rank. -/
theorem receive_lower {node : FailoverNode V} {hb : HeartbeatMessage V} (hstate : hb.state = .primary)
    (h : rankOf hb < rank node) (hnode : node.state = .primary) : (node.receiveHeartbeat hb).2 = node := by
  have hcases := failoverRank_lt.mp h
  have hle : ¬node.epoch < hb.epoch := by
    rcases hcases with hlt | ⟨heq, -⟩ <;> omega
  have hadopt : node.adopt hb = node := by
    unfold FailoverNode.adopt
    rw [if_neg hle]
  unfold FailoverNode.receiveHeartbeat
  rw [hadopt]
  split
  · rfl
  · split
    · rfl
    · rw [if_neg (fun hall => hle hall.1)]
      dsimp only
      split
      · rfl
      · rename_i hstale
        have heq : hb.epoch = node.epoch := by
          rcases hcases with hlt | ⟨heq, -⟩
          · exact absurd ⟨hlt, hstate⟩ hstale
          · exact heq
        have hid : node.nodeId < hb.nodeId := by
          rcases hcases with hlt | ⟨-, hid⟩
          · omega
          · exact hid
        rw [if_pos ⟨hnode, hstate, heq⟩, if_neg (lt_asymm hid)]

/-- A primary gives way to a primary of a higher rank. -/
theorem receive_higher {node : FailoverNode V} {hb : HeartbeatMessage V} (hcluster : hb.clusterId = node.clusterId)
    (hid : hb.nodeId ≠ node.nodeId) (hstate : hb.state = .primary) (h : rank node < rankOf hb) :
    (node.receiveHeartbeat hb).2.state ≠ .primary := by
  intro hstays
  have hnode := FailoverNode.receiveHeartbeat_primary hstays
  have hcases := failoverRank_lt.mp h
  unfold FailoverNode.receiveHeartbeat at hstays
  rw [if_neg (not_not.mpr hcluster), if_neg hid] at hstays
  by_cases hlt : node.epoch < hb.epoch
  · rw [if_pos ⟨hlt, hnode, hstate⟩] at hstays
    cases hstays
  · have hadopt : node.adopt hb = node := by
      unfold FailoverNode.adopt
      rw [if_neg hlt]
    obtain ⟨heq, hlower⟩ : node.epoch = hb.epoch ∧ hb.nodeId < node.nodeId := by
      rcases hcases with hlt' | hsame
      · exact absurd hlt' hlt
      · exact hsame
    rw [if_neg (fun hall => hlt hall.1), hadopt] at hstays
    dsimp only at hstays
    rw [if_neg (fun hstale => by omega), if_pos ⟨hnode, hstate, heq.symm⟩, if_pos hlower] at hstays
    cases hstays

/-- A node does not care for its own heartbeats. -/
theorem receive_own {node : FailoverNode V} {hb : HeartbeatMessage V} (h : hb.nodeId = node.nodeId) :
    (node.receiveHeartbeat hb).2 = node := by
  unfold FailoverNode.receiveHeartbeat
  split
  · rfl
  · rfl

section exchange

variable {c : FailoverCluster n V}

/-- A primary of the state that is still primary has not changed. -/
def Unmoved (c s : FailoverCluster n V) : Prop := ∀ i, c.IsPrimary i → s.IsPrimary i → s.nodes i = c.nodes i

/-- A primary of the state is left alone, or it receives a heartbeat that a primary has sent in the state. -/
theorem exchanges_cases {s : FailoverCluster n V} {e : FailoverEvent n V} (he : c.Exchanges s e) {i : Fin n} (hi : c.IsPrimary i) :
    (s.step F e).nodes i = s.nodes i ∨
      ∃ k hb j, e = .receiveHeartbeat i k ∧ s.sent[k]? = some hb ∧ c.IsPrimary j ∧ c.SentIn j hb ∧
        (s.step F e).nodes i = ((s.nodes i).receiveHeartbeat hb).2 := by
  have hne : ∀ i', ¬c.IsPrimary i' → i ≠ i' := by
    rintro i' hi' rfl
    exact hi' hi
  cases e with
  | sendHeartbeat i' lastCommittedSeq now => exact .inl rfl
  | receiveHeartbeat i' k =>
    cases hsent : s.sent[k]? with
    | none => exact .inl (by rw [step_receive_none F hsent])
    | some hb =>
      rw [step_receive F hsent]
      by_cases hi' : i = i'
      · subst hi'
        obtain ⟨j, hj, hfrom⟩ := he hi hb hsent
        exact .inr ⟨k, hb, j, rfl, hsent, hj, hfrom, atNode_self ..⟩
      · exact .inl (atNode_ne s hi' _)
  | checkFailoverCondition i' now localSeq =>
    simp only [step]
    exact .inl (atNode_ne s (hne i' he) _)
  | promote i' => exact .inl (atNode_ne s (hne i' he) _)
  | demote i' => exact .inl (atNode_ne s (hne i' he) _)

/-- A primary of the state that is no longer primary does not become primary again. -/
theorem stays_down {s : FailoverCluster n V} {e : FailoverEvent n V} (he : c.Exchanges s e) {i : Fin n} (hi : c.IsPrimary i)
    (h : ¬s.IsPrimary i) : ¬(s.step F e).IsPrimary i := by
  unfold IsPrimary at h ⊢
  rcases exchanges_cases he hi with heq | ⟨k, hb, j, -, -, -, -, heq⟩
  · rwa [heq]
  · rw [heq]
    exact fun hstate => h (FailoverNode.receiveHeartbeat_primary hstate)

variable (hids : Function.Injective (fun i => (c.nodes i).nodeId)) (hclusters : ∀ i j, (c.nodes i).clusterId = (c.nodes j).clusterId)

include hids in
/-- Two nodes do not have the same rank. -/
theorem rank_injective {i j : Fin n} (h : rank (c.nodes i) = rank (c.nodes j)) : i = j := by
  have hpair := toLex.injective h
  exact hids (OrderDual.toDual.injective (Prod.mk.inj hpair).2)

include hids hclusters in
theorem unmoved_step {s : FailoverCluster n V} {e : FailoverEvent n V} (he : c.Exchanges s e) (h : c.Unmoved s) :
    c.Unmoved (s.step F e) := by
  intro i hi hstays
  unfold IsPrimary at hstays
  rcases exchanges_cases he hi with heq | ⟨k, hb, j, -, -, hj, ⟨lastCommittedSeq, now, rfl⟩, heq⟩
  · rw [heq] at hstays ⊢
    exact h i hi hstays
  · rw [heq] at hstays ⊢
    have hsi := FailoverNode.receiveHeartbeat_primary hstays
    rw [h i hi hsi] at hstays ⊢
    by_cases hij : j = i
    · subst hij
      exact receive_own rfl
    · rcases lt_trichotomy (rank (c.nodes j)) (rank (c.nodes i)) with hlt | hrank | hlt
      · exact receive_lower hj hlt hi
      · exact absurd (rank_injective hids hrank) hij
      · exact absurd hstays (receive_higher (hclusters j i) (fun hid => hij (hids hid)) hj hlt)

include hids in
/-- The primary of the highest rank stays. -/
theorem highest_step {s : FailoverCluster n V} {e : FailoverEvent n V} (he : c.Exchanges s e) (h : c.Unmoved s) {w : Fin n}
    (hw : c.IsPrimary w) (hmax : ∀ j, c.IsPrimary j → rank (c.nodes j) ≤ rank (c.nodes w)) (hs : s.IsPrimary w) :
    (s.step F e).IsPrimary w := by
  unfold IsPrimary at hs ⊢
  rcases exchanges_cases he hw with heq | ⟨k, hb, j, -, -, hj, ⟨lastCommittedSeq, now, rfl⟩, heq⟩
  · rwa [heq]
  · rw [heq, h w hw hs]
    by_cases hjw : j = w
    · subst hjw
      rw [receive_own rfl]
      exact hw
    · have hlt : rank (c.nodes j) < rank (c.nodes w) :=
        lt_of_le_of_ne (hmax j hj) (fun hrank => hjw (rank_injective hids hrank))
      have hsame : ((c.nodes w).receiveHeartbeat ((c.nodes j).sendHeartbeat lastCommittedSeq now)).2 = c.nodes w :=
        receive_lower hj hlt hw
      rw [hsame]
      exact hw

include hids hclusters in
/-- After an exchange of heartbeats exactly one of the primaries is left. -/
theorem exchange_resolves {es : List (FailoverEvent n V)} (hes : Along (step F) (fun s e => c.Exchanges s e) c es)
    (hreceived : ∀ i j, i ≠ j → c.IsPrimary i → c.IsPrimary j → Received F c es i j) (hsome : ∃ i, c.IsPrimary i) :
    ∃! i, c.IsPrimary i ∧ (runFrom (step F) c es).IsPrimary i := by
  classical
  obtain ⟨i₀, hi₀⟩ := hsome
  obtain ⟨w, hw, hmax⟩ := Finset.exists_max_image (Finset.univ.filter c.IsPrimary) (fun i => rank (c.nodes i))
    ⟨i₀, Finset.mem_filter.mpr ⟨Finset.mem_univ _, hi₀⟩⟩
  rw [Finset.mem_filter] at hw
  have hmax : ∀ j, c.IsPrimary j → rank (c.nodes j) ≤ rank (c.nodes w) :=
    fun j hj => hmax j (Finset.mem_filter.mpr ⟨Finset.mem_univ _, hj⟩)
  have hkeeps : ∀ s e, (c.Unmoved s ∧ s.IsPrimary w) → c.Exchanges s e → c.Unmoved (s.step F e) ∧ (s.step F e).IsPrimary w :=
    fun s e hs he => ⟨unmoved_step hids hclusters he hs.1, highest_step hids he hs.1 hw.2 hmax hs.2⟩
  have hstart : c.Unmoved c ∧ c.IsPrimary w := ⟨fun _ _ _ => rfl, hw.2⟩
  refine ⟨w, ⟨hw.2, (hes.inv hkeeps hstart).2⟩, ?_⟩
  rintro i ⟨hi, hlast⟩
  by_contra hne
  -- the heartbeat of the highest primary puts every other one down
  obtain ⟨fs, k, hb, ⟨gs, rfl⟩, hsent, lastCommittedSeq, now, rfl⟩ := hreceived i w hne hi hw.2
  have hmid := hes.of_append.of_append.inv hkeeps hstart
  have hlt : rank (c.nodes i) < rank (c.nodes w) :=
    lt_of_le_of_ne (hmax i hi) (fun hrank => hne (rank_injective hids hrank))
  have hdown : ¬(runFrom (step F) c (fs ++ [.receiveHeartbeat i k])).IsPrimary i := by
    rw [runFrom_append]
    unfold IsPrimary
    simp only [runFrom_cons, runFrom_nil]
    rw [step_receive F hsent, atNode_self]
    by_cases hstill : (runFrom (step F) c fs).IsPrimary i
    · rw [hmid.1 i hi hstill]
      exact receive_higher (hclusters w i) (fun hid => hne (hids hid).symm) hw.2 hlt
    · exact fun hstate => hstill (FailoverNode.receiveHeartbeat_primary hstate)
  have hend := hes.of_append_right.inv (I := fun s => ¬s.IsPrimary i) (fun _ _ hs he => stays_down he hi hs) hdown
  rw [← runFrom_append] at hend
  exact hend hlast

end exchange

/-- Two nodes that were promoted in one epoch. -/
def twoPrimaries : FailoverCluster 2 (Option ℚ) where
  nodes i := (FailoverNode.new failoverFloats (["a", "b"].get i) "mdrap-cluster" .standby (some 2) 1).promote
  sent := []

/-- Each sends a heartbeat and receives the one of the other. -/
def plainExchange : List (FailoverEvent 2 (Option ℚ)) :=
  [.sendHeartbeat 0 0 (some 1), .sendHeartbeat 1 0 (some 1), .receiveHeartbeat 0 1, .receiveHeartbeat 1 0]

/-- Each sends a heartbeat; one is promoted again before it receives the one of the other. -/
def lateExchange : List (FailoverEvent 2 (Option ℚ)) :=
  [.sendHeartbeat 0 0 (some 1), .sendHeartbeat 1 0 (some 1), .promote 1, .receiveHeartbeat 0 1, .receiveHeartbeat 1 0]

end FailoverCluster

end Mdrap
