import Mdrap.Lemmas.Audit
import Mdrap.Lib.Merkle
import Mdrap.Storage.Audit
import Mdrap.Theorems.Audit

/-!
# What a root proves

The root of a batch is the digest of a tree whose leaves are the texts in order, and a generated proof is the path of a leaf in it. No
function to digests of 32 bytes is injective; what is asked of the hash is that no two of the messages that the calls at hand have
hashed get the same digest.
-/

namespace Mdrap

open Lib

namespace AuditEnv

variable {env : AuditEnv}

/-- The two hashes of `MerkleAuditTree`. -/
def merkle (env : AuditEnv) : HashScheme String Bytes Bytes where
  hash := env.sha256
  leaf data := 0 :: encodeUtf8 data.toList
  node left right := 1 :: left ++ right

theorem merkle_separated (hlength : ∀ b, (env.sha256 b).length = 32) : env.merkle.Separated where
  leaf_injective x y h := String.toList_injective (encodeUtf8_injective (List.cons.inj h).2)
  apart a l r h := absurd (List.cons.inj h).1 (by decide)
  left m m' r r' h := List.append_inj (List.cons.inj h).2 ((hlength m).trans (hlength m').symm)
  right l l' m m' h := List.append_inj' (List.cons.inj h).2 ((hlength m).trans (hlength m').symm)

theorem message_ne_nil {m : Bytes} (h : env.merkle.IsMessage m) : m ≠ [] := by
  rcases h with ⟨a, rfl⟩ | ⟨l, r, rfl⟩
  · exact List.cons_ne_nil _ _
  · exact List.cons_ne_nil _ _

/-! ## Trees -/

theorem nextLevel_eq (level : List Bytes) : env.nextLevel level = pairUp env.merkle.nodeHash level := by
  induction level using pairUp.induct with
  | case1 left right rest ih =>
    rw [nextLevel, ih, pairUp]
    rfl
  | case2 level h =>
    rcases level with _ | ⟨left, _ | ⟨right, rest⟩⟩
    · rfl
    · rfl
    · exact absurd rfl (h left right rest)

theorem rootOf_eq (level : List Bytes) : env.rootOf level = (apex env.merkle.nodeHash level).getD (env.sha256 []) := by
  induction level using apex.induct env.merkle.nodeHash with
  | case1 left right rest ih => rw [rootOf, apex, nextLevel_eq, ih]
  | case2 a => simp [rootOf, apex]
  | case3 => simp [rootOf, apex]

/-- The tree over the leaves of a batch. -/
def treeOf (leaves : List String) : Option (HashTree String) := apex .node (leaves.map .leaf)

theorem apex_leaves (leaves : List String) : (treeOf leaves).map env.merkle.digest = apex env.merkle.nodeHash (leaves.map env.hashLeaf) := by
  rw [treeOf, @map_apex _ _ _ env.merkle.nodeHash env.merkle.digest (fun _ _ => rfl), List.map_map]
  rfl

/-- The messages that `compute_root` hashes. -/
def rootMessages (env : AuditEnv) (leaves : List String) : List Bytes := (treeOf leaves).elim [[]] env.merkle.messages

theorem treeOf_eq_none {leaves : List String} (h : treeOf leaves = none) : leaves = [] := List.map_eq_nil_iff.mp (apex_eq_none h)

theorem computeRoot_eq (leaves : List String) :
    env.computeRoot leaves = hexText ((treeOf leaves).elim (env.sha256 []) env.merkle.digest) := by
  rw [computeRoot, rootOf_eq, ← apex_leaves]
  cases treeOf leaves <;> rfl

/-! ## Proofs -/

/-- An entry of a proof. -/
def entryText : Side × Bytes → String × String
  | (.right, sibling) => (hexText sibling, "R")
  | (.left, sibling) => (hexText sibling, "L")

/-- An entry as a sibling with its side. -/
def entryOf (e : String × String) : Option (Side × Bytes) :=
  (fromHexChars e.1.toList).map (fun sibling => (if e.2 = "R" then .right else .left, sibling))

/-- The messages that `verify_proof` hashes. -/
def proofMessages (env : AuditEnv) (leafData : String) (proof : List (String × String)) : List Bytes :=
  env.merkle.leaf leafData :: (proof.mapM entryOf).elim [] (env.merkle.pathMessages (env.hashLeaf leafData))

theorem proofStep_eq (curr : Bytes) (e : String × String) :
    env.proofStep curr e = (entryOf e).map (above env.merkle.nodeHash curr) := by
  rw [proofStep, entryOf, Option.map_map]
  congr 1
  funext sibling
  by_cases hside : e.2 = "R"
  · simp only [Function.comp, if_pos hside]
    rfl
  · simp only [Function.comp, if_neg hside]
    rfl

/-- The entries of a proof are climbed one after the other. -/
theorem foldlM_proofStep (curr : Bytes) (proof : List (String × String)) :
    proof.foldlM env.proofStep curr = (proof.mapM entryOf).map (climb env.merkle.nodeHash curr) := by
  induction proof generalizing curr with
  | nil => rfl
  | cons e proof ih =>
    rw [List.foldlM_cons, List.mapM_cons, proofStep_eq]
    cases entryOf e with
    | none => rfl
    | some path =>
      change proof.foldlM env.proofStep (above env.merkle.nodeHash curr path) = _
      rw [ih]
      cases proof.mapM entryOf <;> rfl

theorem isAsciiSpace_digitChar : ∀ n < 16, isAsciiSpace n.digitChar = false := by decide

theorem fromHexChars_hexText (b : Bytes) : fromHexChars (hexText b).toList = some b := by
  rw [hexText, String.toList_ofList]
  induction b with
  | nil => rfl
  | cons x b ih =>
    have hx := x.toNat_lt
    have hbyte : UInt8.ofNat (x.toNat / 16 * 16 + x.toNat % 16) = x := by
      rw [Nat.div_add_mod']
      exact UInt8.ofNat_toNat
    rw [List.flatMap_cons, List.cons_append, List.cons_append, List.nil_append, fromHexChars,
      isAsciiSpace_digitChar _ (by omega), hexVal_digitChar _ (by omega), hexVal_digitChar _ (by omega), ih]
    simp [hbyte]

theorem entryOf_entryText (e : Side × Bytes) : entryOf (entryText e) = some e := by
  obtain ⟨side, sibling⟩ := e
  cases side <;> simp [entryText, entryOf, fromHexChars_hexText]

theorem mapM_entryText (path : List (Side × Bytes)) : (path.map entryText).mapM entryOf = some path := by
  induction path with
  | nil => rfl
  | cons e path ih =>
    rw [List.map_cons, List.mapM_cons, entryOf_entryText, ih]
    rfl

/-- The pairs before that of the node give nothing, and neither do those after it. -/
theorem pairProof_eq (idx i : Nat) (level : List Bytes) :
    pairProof idx i level = if i ≤ idx then (siblingAt (idx - i) level).map entryText else [] := by
  induction level using pairUp.induct generalizing i with
  | case1 left right rest ih =>
    rw [pairProof, ih]
    by_cases hself : i = idx
    · subst hself
      simp [siblingAt, entryText]
    · by_cases hother : i + 1 = idx
      · subst hother
        simp [siblingAt, entryText]
      · by_cases hbefore : i ≤ idx
        · obtain ⟨k, rfl⟩ : ∃ k, idx = i + 2 + k := ⟨idx - (i + 2), by omega⟩
          have hindex : i + 2 + k - i = k + 2 := by omega
          have hrest : i + 2 + k - (i + 2) = k := by omega
          rw [if_neg hself, if_neg hother, if_pos (by omega), if_pos hbefore, hindex, hrest, siblingAt]
        · rw [if_neg hself, if_neg hother, if_neg (by omega), if_neg hbefore]
  | case2 level h =>
    rcases level with _ | ⟨left, _ | ⟨right, rest⟩⟩
    · simp [pairProof, siblingAt]
    · simp [pairProof, siblingAt]
    · exact absurd rfl (h left right rest)

theorem proofLevels_eq (idx : Nat) (level : List Bytes) :
    env.proofLevels idx level = (pathAt env.merkle.nodeHash idx level).map entryText := by
  induction level using apex.induct env.merkle.nodeHash generalizing idx with
  | case1 left right rest ih =>
    rw [proofLevels, pathAt, pairProof_eq, nextLevel_eq, ih, if_pos (Nat.zero_le _), List.map_append, Nat.sub_zero]
  | case2 a => simp [proofLevels, pathAt]
  | case3 => simp [proofLevels, pathAt]

/-! ## Completeness, soundness and binding -/

theorem isAscii_hexText (b : Bytes) : (hexText b).toList.all (fun c => c.toNat < 128) = true := by
  have hdigit : ∀ n < 16, n.digitChar.toNat < 128 := by decide
  rw [hexText, String.toList_ofList, List.all_eq_true]
  intro c hc
  obtain ⟨x, -, hmem⟩ := List.mem_flatMap.mp hc
  have hx := x.toNat_lt
  simp only [List.mem_cons, List.not_mem_nil, or_false] at hmem
  rcases hmem with rfl | rfl
  · exact decide_eq_true (hdigit _ (by omega))
  · exact decide_eq_true (hdigit _ (by omega))

/-- What `verify_proof` accepts against a root. -/
theorem verifyProof_eq_true (leafData : String) (proof : List (String × String)) (root : Bytes) :
    env.verifyProof leafData proof (hexText root) = some true ↔
      ∃ path, proof.mapM entryOf = some path ∧ climb env.merkle.nodeHash (env.hashLeaf leafData) path = root := by
  rw [verifyProof, foldlM_proofStep, isAscii_hexText]
  cases hpath : proof.mapM entryOf with
  | none => simp
  | some path => simp [hexText_injective.eq_iff]

/-- A generated proof is accepted. -/
theorem verifyProof_generateProof (leaves : List String) {i : Nat} (h : i < leaves.length) :
    ∃ proof, env.generateProof leaves i = .ok proof ∧ env.verifyProof leaves[i] proof (env.computeRoot leaves) = some true := by
  refine ⟨env.proofLevels i (leaves.map env.hashLeaf), ?_, ?_⟩
  · rw [generateProof, if_pos ⟨Int.natCast_nonneg i, by exact_mod_cast h⟩, Int.toNat_natCast]
  · have hleaf : (leaves.map env.hashLeaf)[i]? = some (env.hashLeaf leaves[i]) := by simp [h]
    rw [computeRoot, rootOf_eq, climb_pathAt hleaf, Option.getD_some, verifyProof_eq_true, proofLevels_eq]
    exact ⟨_, mapM_entryText _, rfl⟩

/-- A proof that is accepted is one of a leaf. -/
theorem mem_of_verifyProof (hlength : ∀ b, (env.sha256 b).length = 32) {leaves : List String} {x : String}
    {proof : List (String × String)} (hfree : NoCollision env.sha256 (env.rootMessages leaves ++ env.proofMessages x proof))
    (h : env.verifyProof x proof (env.computeRoot leaves) = some true) : x ∈ leaves := by
  rw [computeRoot_eq, verifyProof_eq_true] at h
  obtain ⟨path, hpath, hclimb⟩ := h
  rw [proofMessages, hpath, Option.elim_some] at hfree
  rcases htree : treeOf leaves with _ | t
  · rw [htree, Option.elim_none] at hclimb
    rw [rootMessages, htree, Option.elim_none] at hfree
    obtain ⟨m, hm, hmessage, hdigest⟩ := env.merkle.exists_climb_message x path
    have hnil := hfree m (List.mem_append_right _ hm) [] (by simp) (hdigest.symm.trans hclimb)
    exact absurd hnil (message_ne_nil hmessage)
  · rw [htree, Option.elim_some] at hclimb
    rw [rootMessages, htree, Option.elim_some] at hfree
    rw [← HashTree.apex_leaf htree]
    exact HashScheme.mem_leaves_of_climb (merkle_separated hlength) hfree hclimb

/-- A root fixes the leaves. -/
theorem computeRoot_inj (hlength : ∀ b, (env.sha256 b).length = 32) {leaves leaves' : List String}
    (hfree : NoCollision env.sha256 (env.rootMessages leaves ++ env.rootMessages leaves'))
    (h : env.computeRoot leaves = env.computeRoot leaves') : leaves = leaves' := by
  have hroot := hexText_injective ((computeRoot_eq leaves).symm.trans (h.trans (computeRoot_eq leaves')))
  -- A tree has another root than no leaves have.
  have hother : ∀ t : HashTree String, NoCollision env.sha256 (env.merkle.messages t ++ [[]]) → env.merkle.digest t ≠ env.sha256 [] := by
    intro t hfree hsame
    obtain ⟨m, hm, hmessage, hdigest⟩ := env.merkle.exists_message t
    exact message_ne_nil hmessage (hfree m (List.mem_append_left _ hm) [] (by simp) (hdigest.symm.trans hsame))
  rw [rootMessages, rootMessages] at hfree
  rcases htree : treeOf leaves with _ | t <;> rcases htree' : treeOf leaves' with _ | t' <;> rw [htree, htree'] at hroot hfree
  · rw [treeOf_eq_none htree, treeOf_eq_none htree']
  · exact absurd hroot.symm (hother t' (hfree.mono (by simp only [Option.elim_some, Option.elim_none]; grind)))
  · exact absurd hroot (hother t hfree)
  · have hsame : t = t' := HashScheme.digest_inj (merkle_separated hlength) hfree hroot
    rw [← HashTree.apex_leaf htree, ← HashTree.apex_leaf htree', hsame]

/-- Generated proofs are accepted, an accepted proof is one of a leaf, and a root fixes the leaves. -/
theorem merkle_proofs (env : AuditEnv) (hlength : ∀ b, (env.sha256 b).length = 32) :
    (∀ (leaves : List String) (i : Nat) (h : i < leaves.length),
        ∃ proof, env.generateProof leaves i = .ok proof ∧ env.verifyProof leaves[i] proof (env.computeRoot leaves) = some true) ∧
      (∀ (leaves : List String) (x : String) (proof : List (String × String)),
        NoCollision env.sha256 (env.rootMessages leaves ++ env.proofMessages x proof) →
        env.verifyProof x proof (env.computeRoot leaves) = some true → x ∈ leaves) ∧
      ∀ leaves leaves' : List String, NoCollision env.sha256 (env.rootMessages leaves ++ env.rootMessages leaves') →
        env.computeRoot leaves = env.computeRoot leaves' → leaves = leaves' :=
  ⟨fun leaves _ h => verifyProof_generateProof leaves h, fun _ _ _ hfree h => mem_of_verifyProof hlength hfree h,
    fun _ _ hfree h => computeRoot_inj hlength hfree h⟩

theorem length_sha256 (b : Bytes) : (Lib.sha256 b).length = 32 := by
  simp only [Lib.sha256, List.flatMap_cons, List.flatMap_nil, List.length_append, length_be, List.length_nil]

theorem treeOf_two : treeOf ["a", "b"] = some (.node (.leaf "a") (.leaf "b")) := by
  simp [treeOf, apex, pairUp]

/-- Two leaves, with the proof of the first. -/
theorem merkle_proofs_two :
    (∃ proof, sqliteAudit.generateProof ["a", "b"] 1 = .ok proof ∧
        sqliteAudit.verifyProof "b" proof (sqliteAudit.computeRoot ["a", "b"]) = some true) ∧
      "a" ∈ ["a", "b"] ∧ ["a", "b"] = ["a", "b"] := by
  obtain ⟨hcomplete, hsound, hbinding⟩ := merkle_proofs sqliteAudit length_sha256
  refine ⟨hcomplete ["a", "b"] 1 (by decide), ?_, ?_⟩
  · refine hsound ["a", "b"] "a" [(hexText (sqliteAudit.hashLeaf "b"), "R")] ?_ ?_
    · rw [rootMessages, treeOf_two]
      decide +kernel
    · rw [computeRoot_eq, treeOf_two]
      decide +kernel
  · refine hbinding ["a", "b"] ["a", "b"] ?_ rfl
    rw [rootMessages, treeOf_two]
    decide +kernel

end AuditEnv

end Mdrap
