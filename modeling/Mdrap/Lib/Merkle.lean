import Mathlib.Data.List.Basic
import Mathlib.Data.List.Induction
import Mathlib.Tactic.Common
import Mathlib.Data.List.Forall2

/-!
# Hash trees

A level of nodes is paired up to the next one, where a single node at its end is taken as it is, until one node is left. Over digests
this is the root of a tree. Where leaves and nodes are hashed apart and no two of the messages at hand have the same digest, a root
fixes the tree, and a path that climbs to it starts at one of its leaves.
-/

namespace Lib

/-! ## Levels -/

section

variable {α β : Type*}

/-- The next level. -/
@[grind =] def pairUp (node : α → α → α) : List α → List α
  | l :: r :: rest => node l r :: pairUp node rest
  | level => level

variable {node : α → α → α} {node' : β → β → β}

theorem length_pairUp_le (node : α → α → α) (level : List α) : (pairUp node level).length ≤ level.length := by
  induction level using pairUp.induct with
  | case1 l r rest ih =>
    simp only [pairUp, List.length_cons]
    omega
  | case2 level h =>
    exact Nat.le_of_eq (congrArg List.length (pairUp.eq_2 _ _ (fun l r rest heq => h l r rest heq)))

theorem length_pairUp_lt (node : α → α → α) (l r : α) (rest : List α) :
    (pairUp node (l :: r :: rest)).length < (l :: r :: rest).length := by
  have := length_pairUp_le node rest
  simp only [pairUp, List.length_cons]
  omega

/-- The node that is left in the end. -/
@[grind =] def apex (node : α → α → α) : List α → Option α
  | l :: r :: rest => apex node (pairUp node (l :: r :: rest))
  | [a] => some a
  | [] => none
termination_by level => level.length
decreasing_by exact length_pairUp_lt ..

/-- Levels are paired up alike under a map that takes nodes to nodes. -/
theorem map_pairUp {f : α → β} (h : ∀ a b, f (node a b) = node' (f a) (f b)) (level : List α) :
    (pairUp node level).map f = pairUp node' (level.map f) := by
  induction level using pairUp.induct with
  | case1 l r rest ih => rw [pairUp, List.map_cons, h, ih, List.map_cons, List.map_cons, pairUp]
  | case2 level hlevel =>
    match level with
    | [] => rfl
    | [a] => rfl
    | l :: r :: rest => exact absurd rfl (hlevel l r rest)

theorem map_apex {f : α → β} (h : ∀ a b, f (node a b) = node' (f a) (f b)) (level : List α) :
    (apex node level).map f = apex node' (level.map f) := by
  induction level using apex.induct node with
  | case1 l r rest ih => rw [apex, ih, map_pairUp h, List.map_cons, List.map_cons, apex]
  | case2 a => simp [apex]
  | case3 => simp [apex]

theorem pairUp_ne_nil (l : α) (rest : List α) : pairUp node (l :: rest) ≠ [] := by
  cases rest <;> simp [pairUp]

theorem apex_eq_none {level : List α} (h : apex node level = none) : level = [] := by
  induction level using apex.induct node with
  | case1 l r rest ih =>
    rw [apex] at h
    exact absurd (ih h) (pairUp_ne_nil l (r :: rest))
  | case2 a => simp [apex] at h
  | case3 => rfl

/-- Lists that are paired up one after the other are put together. -/
theorem flatten_pairUp (level : List (List α)) : (pairUp (· ++ ·) level).flatten = level.flatten := by
  induction level using pairUp.induct with
  | case1 l r rest ih => simp [pairUp, ih]
  | case2 level h => rw [pairUp.eq_2 _ _ (fun l r rest heq => h l r rest heq)]

theorem apex_append {level : List (List α)} {all : List α} (h : apex (· ++ ·) level = some all) : level.flatten = all := by
  induction level using apex.induct (fun l r : List α => l ++ r) with
  | case1 l r rest ih =>
    rw [apex] at h
    rw [← flatten_pairUp]
    exact ih h
  | case2 a => simpa [apex] using h
  | case3 => simp [apex] at h

/-! ## Paths -/

/-- The side on which a sibling stands. -/
inductive Side where
  | left
  | right
  deriving DecidableEq

/-- The node above another one and its sibling. -/
def above (node : α → α → α) (a : α) : Side × α → α
  | (.right, s) => node a s
  | (.left, s) => node s a

/-- The node at the end of a path. -/
def climb (node : α → α → α) (a : α) (path : List (Side × α)) : α := path.foldl (above node) a

/-- The sibling of a node of a level, where it has one. -/
def siblingAt : Nat → List α → List (Side × α)
  | 0, _ :: r :: _ => [(.right, r)]
  | 1, l :: _ :: _ => [(.left, l)]
  | i + 2, _ :: _ :: rest => siblingAt i rest
  | _, _ => []

/-- The siblings from a node of a level up to the one that is left in the end. -/
def pathAt (node : α → α → α) (i : Nat) : List α → List (Side × α)
  | l :: r :: rest => siblingAt i (l :: r :: rest) ++ pathAt node (i / 2) (pairUp node (l :: r :: rest))
  | _ => []
termination_by level => level.length
decreasing_by exact length_pairUp_lt ..

theorem climb_append (a : α) (p q : List (Side × α)) : climb node a (p ++ q) = climb node (climb node a p) q := List.foldl_append

/-- The node above a node of a level. -/
theorem climb_siblingAt {i : Nat} {level : List α} {a : α} (h : level[i]? = some a) :
    (pairUp node level)[i / 2]? = some (climb node a (siblingAt i level)) := by
  induction level using pairUp.induct generalizing i with
  | case1 l r rest ih =>
    match i with
    | 0 =>
      obtain rfl : l = a := by simpa using h
      rfl
    | 1 =>
      obtain rfl : r = a := by simpa using h
      rfl
    | i + 2 =>
      have hhalf : (i + 2) / 2 = i / 2 + 1 := by omega
      rw [hhalf, pairUp, List.getElem?_cons_succ, siblingAt]
      exact ih (by simpa using h)
  | case2 level hlevel =>
    match level, i with
    | [], i => simp at h
    | [b], 0 => simpa [pairUp, siblingAt, climb] using h
    | [b], i + 1 => simp at h
    | l :: r :: rest, i => exact absurd rfl (hlevel l r rest)

/-- The path of a node climbs to the one that is left in the end. -/
theorem climb_pathAt {i : Nat} {level : List α} {a : α} (h : level[i]? = some a) :
    apex node level = some (climb node a (pathAt node i level)) := by
  induction level using apex.induct node generalizing i a with
  | case1 l r rest ih =>
    rw [apex, pathAt, climb_append]
    exact ih (climb_siblingAt h)
  | case2 b =>
    match i with
    | 0 =>
      obtain rfl : b = a := by simpa using h
      simp [apex, pathAt, climb]
    | i + 1 => simp at h
  | case3 => simp at h

end

/-! ## Trees -/

variable {α D M : Type*}

inductive HashTree (α : Type*) where
  | leaf (a : α)
  | node (l r : HashTree α)

namespace HashTree

def leaves : HashTree α → List α
  | leaf a => [a]
  | node l r => l.leaves ++ r.leaves

theorem apex_leaf {xs : List α} {t : HashTree α} (h : apex node (xs.map leaf) = some t) : t.leaves = xs := by
  have hleaves : (apex node (xs.map leaf)).map leaves = apex (fun l r => l ++ r) ((xs.map leaf).map leaves) :=
    map_apex (fun _ _ => rfl) _
  rw [h, Option.map_some] at hleaves
  have hall := apex_append hleaves.symm
  rw [← hall, List.map_map]
  exact List.flatMap_singleton' xs

end HashTree

/-- How leaves and nodes become messages, and what the digest of a message is. -/
structure HashScheme (α D M : Type*) where
  hash : M → D
  leaf : α → M
  node : D → D → M

/-- No two of the messages have the same digest. -/
def NoCollision (hash : M → D) (messages : List M) : Prop :=
  ∀ m ∈ messages, ∀ m' ∈ messages, hash m = hash m' → m = m'

instance [DecidableEq D] [DecidableEq M] (hash : M → D) (messages : List M) : Decidable (NoCollision hash messages) :=
  inferInstanceAs (Decidable (∀ m ∈ messages, ∀ m' ∈ messages, hash m = hash m' → m = m'))

theorem NoCollision.mono {hash : M → D} {messages messages' : List M} (h : NoCollision hash messages)
    (hsub : messages' ⊆ messages) : NoCollision hash messages' :=
  fun m hm m' hm' => h m (hsub hm) m' (hsub hm')

namespace HashScheme

variable (s : HashScheme α D M)

/-- The digest of a node. -/
def nodeHash (l r : D) : D := s.hash (s.node l r)

/-- The digest of a leaf. -/
def leafHash (a : α) : D := s.hash (s.leaf a)

def digest : HashTree α → D
  | .leaf a => s.leafHash a
  | .node l r => s.nodeHash (digest l) (digest r)

/-- What is hashed for a tree. -/
def messages : HashTree α → List M
  | .leaf a => [s.leaf a]
  | .node l r => s.node (s.digest l) (s.digest r) :: (messages l ++ messages r)

/-- The message above a digest and its sibling. -/
def messageAbove (d : D) : Side × D → M
  | (.right, sibling) => s.node d sibling
  | (.left, sibling) => s.node sibling d

/-- What is hashed along a path. -/
def pathMessages (d : D) : List (Side × D) → List M
  | [] => []
  | e :: path => s.messageAbove d e :: pathMessages (above s.nodeHash d e) path

/-- A leaf or a node. -/
def IsMessage (m : M) : Prop := (∃ a, m = s.leaf a) ∨ ∃ l r, m = s.node l r

/-- A message is a leaf or a node, and of one kind of leaf or of one pair of digests. -/
structure Separated : Prop where
  leaf_injective : Function.Injective s.leaf
  apart : ∀ a l r, s.leaf a ≠ s.node l r
  left : ∀ m m' r r', s.node (s.hash m) r = s.node (s.hash m') r' → s.hash m = s.hash m' ∧ r = r'
  right : ∀ l l' m m', s.node l (s.hash m) = s.node l' (s.hash m') → l = l' ∧ s.hash m = s.hash m'

variable {s}

theorem above_eq_hash (d : D) (e : Side × D) : above s.nodeHash d e = s.hash (s.messageAbove d e) := by
  obtain ⟨side, sibling⟩ := e
  cases side <;> rfl

theorem isMessage_above (d : D) (e : Side × D) : s.IsMessage (s.messageAbove d e) := by
  obtain ⟨side, sibling⟩ := e
  cases side <;> exact .inr ⟨_, _, rfl⟩

/-- The digest of a tree is that of a message that was hashed for it. -/
theorem exists_message (s : HashScheme α D M) (t : HashTree α) :
    ∃ m ∈ s.messages t, s.IsMessage m ∧ s.digest t = s.hash m := by
  cases t with
  | leaf a => exact ⟨_, List.mem_cons_self, .inl ⟨a, rfl⟩, rfl⟩
  | node l r => exact ⟨_, List.mem_cons_self, .inr ⟨_, _, rfl⟩, rfl⟩

/-- A digest fixes the tree. -/
theorem digest_inj (hs : s.Separated) {t t' : HashTree α} (hfree : NoCollision s.hash (s.messages t ++ s.messages t'))
    (h : s.digest t = s.digest t') : t = t' := by
  induction t generalizing t' with
  | leaf a =>
    cases t' with
    | leaf a' =>
      have hmessage := hfree (s.leaf a) (by simp [messages]) (s.leaf a') (by simp [messages]) h
      rw [hs.leaf_injective hmessage]
    | node l' r' => exact absurd (hfree _ (by simp [messages]) _ (by simp [messages]) h) (hs.apart a _ _)
  | node l r ihl ihr =>
    cases t' with
    | leaf a' => exact absurd (hfree _ (by simp [messages]) _ (by simp [messages]) h).symm (hs.apart a' _ _)
    | node l' r' =>
      have hmessage := hfree (s.node (s.digest l) (s.digest r)) (by simp [messages]) (s.node (s.digest l') (s.digest r'))
        (by simp [messages]) h
      obtain ⟨m, -, -, hm⟩ := s.exists_message l
      obtain ⟨m', -, -, hm'⟩ := s.exists_message l'
      rw [hm, hm'] at hmessage
      obtain ⟨hleft, hright⟩ := hs.left _ _ _ _ hmessage
      rw [← hm, ← hm'] at hleft
      rw [ihl (hfree.mono (by simp only [messages]; grind)) hleft, ihr (hfree.mono (by simp only [messages]; grind)) hright]

theorem pathMessages_append (d : D) (p q : List (Side × D)) :
    s.pathMessages d (p ++ q) = s.pathMessages d p ++ s.pathMessages (climb s.nodeHash d p) q := by
  induction p generalizing d with
  | nil => rfl
  | cons e p ih =>
    rw [List.cons_append, pathMessages, ih, pathMessages, List.cons_append]
    rfl

/-- A digest on a path is that of a message that was hashed along it. -/
theorem exists_climb_message (s : HashScheme α D M) (a : α) (path : List (Side × D)) :
    ∃ m ∈ s.leaf a :: s.pathMessages (s.leafHash a) path, s.IsMessage m ∧ climb s.nodeHash (s.leafHash a) path = s.hash m := by
  induction path using List.reverseRecOn with
  | nil => exact ⟨_, List.mem_cons_self, .inl ⟨a, rfl⟩, rfl⟩
  | append_singleton path e _ =>
    rw [climb_append, pathMessages_append]
    exact ⟨_, by simp [pathMessages], isMessage_above _ e, above_eq_hash _ e⟩

/-- A path that climbs to the digest of a tree starts at one of its leaves. -/
theorem mem_leaves_of_climb (hs : s.Separated) {t : HashTree α} {a : α} {path : List (Side × D)}
    (hfree : NoCollision s.hash (s.messages t ++ s.leaf a :: s.pathMessages (s.leafHash a) path))
    (h : climb s.nodeHash (s.leafHash a) path = s.digest t) : a ∈ t.leaves := by
  induction path using List.reverseRecOn generalizing t with
  | nil =>
    cases t with
    | leaf b =>
      have hmessage := hfree (s.leaf a) (by simp) (s.leaf b) (by simp [messages]) h
      rw [hs.leaf_injective hmessage]
      exact List.mem_cons_self
    | node l r => exact absurd (hfree _ (by simp) _ (by simp [messages]) h) (hs.apart a _ _)
  | append_singleton path e ih =>
    obtain ⟨m, -, -, hm⟩ := s.exists_climb_message a path
    rw [climb_append] at h
    change above s.nodeHash (climb s.nodeHash (s.leafHash a) path) e = s.digest t at h
    rw [above_eq_hash] at h
    rw [pathMessages_append] at hfree
    have hlast : s.messageAbove (climb s.nodeHash (s.leafHash a) path) e ∈
        s.messages t ++ s.leaf a :: (s.pathMessages (s.leafHash a) path ++
          s.pathMessages (climb s.nodeHash (s.leafHash a) path) [e]) := by
      simp [pathMessages]
    cases t with
    | leaf b =>
      have hmessage := hfree _ hlast (s.leaf b) (by simp [messages]) h
      obtain ⟨side, sibling⟩ := e
      cases side <;> exact absurd hmessage.symm (hs.apart b _ _)
    | node l r =>
      have hmessage := hfree _ hlast (s.node (s.digest l) (s.digest r)) (by simp [messages]) h
      obtain ⟨ml, -, -, hl⟩ := s.exists_message l
      obtain ⟨mr, -, -, hr⟩ := s.exists_message r
      obtain ⟨side, sibling⟩ := e
      cases side with
      | left =>
        rw [messageAbove, hm, hr] at hmessage
        have hsame := (hs.right _ _ _ _ hmessage).2
        rw [← hm, ← hr] at hsame
        exact List.mem_append_right _ (ih (hfree.mono (by simp only [messages]; grind)) hsame)
      | right =>
        rw [messageAbove, hm, hl] at hmessage
        have hsame := (hs.left _ _ _ _ hmessage).1
        rw [← hm, ← hl] at hsame
        exact List.mem_append_left _ (ih (hfree.mono (by simp only [messages]; grind)) hsame)

end HashScheme

/-! ## Levels whose last node is taken twice -/

/-- The pairs of a level; a single node at its end is paired with itself. -/
def pairs : List α → List (α × α)
  | a :: b :: rest => (a, b) :: pairs rest
  | [a] => [(a, a)]
  | [] => []

theorem length_pairs (level : List α) : (pairs level).length = (level.length + 1) / 2 := by
  induction level using pairs.induct with
  | case1 a b rest ih =>
    simp only [pairs, List.length_cons]
    omega
  | case2 a => simp [pairs]
  | case3 => simp [pairs]

theorem mem_of_mem_pairs {level : List α} {p : α × α} (h : p ∈ pairs level) : p.1 ∈ level ∧ p.2 ∈ level := by
  induction level using pairs.induct with
  | case1 a b rest ih =>
    rcases List.mem_cons.mp h with rfl | hrest
    · simp
    · exact (ih hrest).imp (fun hmem => by simp [hmem]) (fun hmem => by simp [hmem])
  | case2 a => simp_all [pairs]
  | case3 => simp [pairs] at h

/-- Of levels of one length, the pairs fix the level. -/
theorem pairs_inj {level level' : List α} (hlen : level.length = level'.length) (h : pairs level = pairs level') :
    level = level' := by
  induction level using pairs.induct generalizing level' with
  | case1 a b rest ih =>
    match level' with
    | a' :: b' :: rest' =>
      simp only [pairs, List.cons.injEq, Prod.mk.injEq] at h
      rw [h.1.1, h.1.2, ih (by simpa using hlen) h.2]
    | [a'] => simp at hlen
    | [] => simp at hlen
  | case2 a =>
    match level' with
    | a' :: b' :: rest' => simp at hlen
    | [a'] =>
      simp only [pairs, List.cons.injEq, Prod.mk.injEq] at h
      rw [h.1.1]
    | [] => simp at hlen
  | case3 =>
    match level' with
    | [] => rfl
    | a' :: rest' => simp at hlen

/-- The node that is left in the end where the last node of a level is taken twice. -/
def summit (node : α → α → α) : List α → Option α
  | a :: b :: rest => summit node ((pairs (a :: b :: rest)).map (fun p => node p.1 p.2))
  | [a] => some a
  | [] => none
termination_by level => level.length
decreasing_by
  rw [List.length_map, length_pairs, List.length_cons, List.length_cons]
  omega

theorem summit_eq_none {node : α → α → α} {level : List α} (h : summit node level = none) : level = [] := by
  induction level using summit.induct node with
  | case1 a b rest ih =>
    rw [summit] at h
    simp [pairs] at ih
    exact absurd h ih
  | case2 a => simp [summit] at h
  | case3 => rfl

section

variable (hash : M → D) (pair : D → D → M)

/-- What is hashed up to the node that is left in the end. -/
def summitMessages : List D → List M
  | a :: b :: rest =>
    (pairs (a :: b :: rest)).map (fun p => pair p.1 p.2) ++
      summitMessages ((pairs (a :: b :: rest)).map (fun p => hash (pair p.1 p.2)))
  | _ => []
termination_by level => level.length
decreasing_by
  rw [List.length_map, length_pairs, List.length_cons, List.length_cons]
  omega

variable {hash pair}

/-- A map without collisions. -/
theorem map_inj_of_mem {β : Type*} {f : α → β} {xs ys : List α} (hf : ∀ x ∈ xs, ∀ y ∈ ys, f x = f y → x = y)
    (h : xs.map f = ys.map f) : xs = ys := by
  induction xs generalizing ys with
  | nil => exact (List.map_eq_nil_iff.mp h.symm).symm
  | cons x xs ih =>
    cases ys with
    | nil => simp at h
    | cons y ys =>
      rw [List.map_cons, List.map_cons, List.cons.injEq] at h
      rw [hf x (by simp) y (by simp) h.1, ih (fun x hx y hy => hf x (by simp [hx]) y (by simp [hy])) h.2]

/-- Of levels of one length, the node that is left in the end fixes the level. -/
theorem summit_inj {P : D → Prop} (hdigest : ∀ m, P (hash m))
    (hpair : ∀ a b c d, P a → P c → pair a b = pair c d → a = c ∧ b = d) {level level' : List D}
    (hlen : level.length = level'.length) (hP : ∀ d ∈ level, P d) (hP' : ∀ d ∈ level', P d)
    (hfree : NoCollision hash (summitMessages hash pair level ++ summitMessages hash pair level'))
    (h : summit (fun l r => hash (pair l r)) level = summit (fun l r => hash (pair l r)) level') : level = level' := by
  induction level using summit.induct (fun l r => hash (pair l r)) generalizing level' with
  | case1 a b rest ih =>
    match level' with
    | a' :: b' :: rest' =>
      rw [summit, summit] at h
      rw [summitMessages, summitMessages] at hfree
      have hnext : ∀ level : List D, ∀ d ∈ (pairs level).map (fun p => hash (pair p.1 p.2)), P d := by
        intro level d hd
        obtain ⟨p, -, rfl⟩ := List.mem_map.mp hd
        exact hdigest _
      have hlength : ((pairs (a :: b :: rest)).map (fun p => hash (pair p.1 p.2))).length =
          ((pairs (a' :: b' :: rest')).map (fun p => hash (pair p.1 p.2))).length := by
        rw [List.length_map, List.length_map, length_pairs, length_pairs, hlen]
      have hup := ih hlength (hnext _) (hnext _) (hfree.mono (by grind)) h
      refine pairs_inj hlen (map_inj_of_mem ?_ hup)
      intro p hp q hq hsame
      have hmessage := hfree (pair p.1 p.2) (by grind) (pair q.1 q.2) (by grind) hsame
      obtain ⟨hfst, hsnd⟩ := hpair _ _ _ _ (hP _ (mem_of_mem_pairs hp).1) (hP' _ (mem_of_mem_pairs hq).1) hmessage
      exact Prod.ext hfst hsnd
    | [a'] => simp at hlen
    | [] => simp at hlen
  | case2 a =>
    match level' with
    | a' :: b' :: rest' => simp at hlen
    | [a'] => simpa [summit] using h
    | [] => simp at hlen
  | case3 => exact (List.eq_nil_of_length_eq_zero hlen.symm).symm

end

end Lib

/-!
## Hash chains

A row is linked to the head before it and gives the head after it, or does not fit. A list of rows is a chain from one head to
another where each row fits. Where a head fixes the row that gave it and the head before, up to a relation, it fixes the rows of a
chain, up to that relation.
-/

namespace Lib

variable {H R : Type*} (link : H → R → Option H)

/-- The head after rows that all fit. -/
def chain (h : H) (rows : List R) : Option H := rows.foldlM link h

variable {link}

@[simp] theorem chain_nil (h : H) : chain link h [] = some h := rfl

theorem chain_cons (h : H) (r : R) (rows : List R) : chain link h (r :: rows) = (link h r).bind (fun k => chain link k rows) := rfl

theorem chain_append (h : H) (rows rows' : List R) :
    chain link h (rows ++ rows') = (chain link h rows).bind (fun k => chain link k rows') := List.foldlM_append

/-- One row more at the end. -/
theorem chain_concat (h : H) (rows : List R) (r : R) : chain link h (rows ++ [r]) = (chain link h rows).bind (fun k => link k r) := by
  rw [chain_append]
  congr 1
  funext k
  rw [chain_cons]
  simp

/-- A chain begins with a chain. -/
theorem chain_take {h k : H} {rows : List R} (hc : chain link h rows = some k) (n : Nat) : ∃ m, chain link h (rows.take n) = some m := by
  rw [← List.take_append_drop n rows, chain_append] at hc
  exact (Option.bind_eq_some_iff.mp hc).imp fun _ hm => hm.1

/-- Chains of the same length to the same head have the same start and, in order, related rows. What is known of the rows of the
first chain and of the heads of the second one may be used. -/
theorem chain_commits {Q : R → R → Prop} {p : R → Prop} {q : H → Prop} (hq : ∀ h r k, link h r = some k → q k)
    (hlink : ∀ h h' r r' k, p r → q h' → link h r = some k → link h' r' = some k → h = h' ∧ Q r r') {h h' k : H}
    {rows rows' : List R} (hp : ∀ r ∈ rows, p r) (hstart : q h') (hlen : rows.length = rows'.length)
    (hc : chain link h rows = some k) (hc' : chain link h' rows' = some k) : h = h' ∧ List.Forall₂ Q rows rows' := by
  induction rows generalizing h h' rows' with
  | nil =>
    cases rows' with
    | nil =>
      rw [chain_nil] at hc hc'
      exact ⟨Option.some.inj (hc.trans hc'.symm), .nil⟩
    | cons r' rows' => simp at hlen
  | cons r rows ih =>
    cases rows' with
    | nil => simp at hlen
    | cons r' rows' =>
      rw [chain_cons] at hc hc'
      obtain ⟨m, hm, hrest⟩ := Option.bind_eq_some_iff.mp hc
      obtain ⟨m', hm', hrest'⟩ := Option.bind_eq_some_iff.mp hc'
      obtain ⟨rfl, hrows⟩ := ih (fun x hx => hp x (by simp [hx])) (hq _ _ _ hm') (by simpa using hlen) hrest hrest'
      obtain ⟨hsame, hrow⟩ := hlink h h' r r' m (hp r (by simp)) hstart hm hm'
      exact ⟨hsame, .cons hrow hrows⟩

/-- A chain stays one when a row is exchanged for one that links alike. -/
theorem chain_exchange {r r' : R} (hlink : ∀ h, link h r = link h r') (h : H) (before after : List R) :
    chain link h (before ++ r :: after) = chain link h (before ++ r' :: after) := by
  simp only [chain_append, chain_cons, hlink]

end Lib
