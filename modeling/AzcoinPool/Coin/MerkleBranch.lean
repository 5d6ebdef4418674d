import AzcoinPool.Coin.ShareValidator
import AzcoinPool.Coin.TemplateMapper
import AzcoinPool.Lib.Merkle

/-!
# The merkle branch of a job

A miner folds SHA256d over the branch of a job to get the merkle root of its coinbase and the
template's transactions, so the branch has to be the sibling path of the coinbase. The mapper puts
the ids of all transactions into it. For at most one transaction that is the sibling path; from two
transactions on it is not, and `applyMerkleBranch_eq_root_iff` says so exactly.
-/

namespace AzcoinPool

/-- The node above two nodes of the merkle tree. -/
def merkleNode (doubleSha256 : Bytes → Bytes32) (a b : Bytes32) : Bytes32 :=
  doubleSha256 (a.bytes ++ b.bytes)

/-- The transaction's `txid` field is the hexadecimal text of the id, which is written with the
internal byte order reversed. -/
def TransactionEntry.HasTxid (tx : TransactionEntry) (id : Bytes32) : Prop :=
  ∃ s, tx.txid = some s ∧ Hex.decode s.text = .ok id.reverse.bytes

theorem merkleBranchEntry_of_hasTxid {tx : TransactionEntry} {id : Bytes32} (h : tx.HasTxid id) :
    merkleBranchEntry tx = some id := by
  obtain ⟨s, htxid, hdecode⟩ := h
  simp only [merkleBranchEntry, htxid, Option.some_or, hdecode, Bytes32.ofList?_bytes,
    Option.map_some, Bytes32.reverse_reverse]

/-- The branch of a template with well-formed ids is the list of the ids. -/
theorem buildMerkleBranch_eq {template : BlockTemplate} {ids : List Bytes32}
    (h : List.Forall₂ TransactionEntry.HasTxid template.transactions ids) :
    buildMerkleBranch template = ids := by
  rw [buildMerkleBranch]
  generalize template.transactions = transactions at h
  induction h with
  | nil => rfl
  | cons hid _ ih => rw [List.filterMap_cons, merkleBranchEntry_of_hasTxid hid, ih]

/-- For a template with well-formed ids and any coinbase hash, folding over the job's branch gives
the merkle root, whatever the hash function is, just when there is at most one transaction. -/
theorem applyMerkleBranch_eq_root_iff {bitcoin : BitcoinCrate} {template : BlockTemplate}
    {payoutScriptPubkey : Slice} {job : Job} {ids : List Bytes32}
    (hjob : templateToJob bitcoin template payoutScriptPubkey = .ok job)
    (hids : List.Forall₂ TransactionEntry.HasTxid template.transactions ids) (c : Bytes32) :
    (∀ doubleSha256 : Bytes → Bytes32,
      some (applyMerkleBranch doubleSha256 c job.merkleBranch) =
        Merkle.root (merkleNode doubleSha256) (c :: ids)) ↔
      template.transactions.length ≤ 1 := by
  rw [(MappedJob.of_templateToJob hjob).merkleBranch, buildMerkleBranch_eq hids, hids.length_eq]
  simp only [applyMerkleBranch_eq_foldl]
  constructor
  · intro h
    by_contra hlen
    -- a hash that marks the last id tells a fold that ends on it from one that does not
    obtain ⟨t, hlast⟩ : ∃ t, ids.getLast? = some t :=
      ⟨_, List.getLast?_eq_some_getLast (by rintro rfl; simp at hlen)⟩
    obtain ⟨z₀, z₁, h₀, h₁, hz⟩ := Bytes32.exists_distinct t
    have hnode : merkleNode (Bytes32.onPair (Merkle.marking t z₀ z₁)) = Merkle.marking t z₀ z₁ := by
      funext a b
      exact Bytes32.onPair_append _ a b
    have hfold := h (Bytes32.onPair (Merkle.marking t z₀ z₁))
    simp only [Bytes32.onPair_append, hnode] at hfold
    exact Merkle.foldl_marking_ne_root (by omega) hlast h₀ h₁ hz c hfold
  · intro hlen doubleSha256
    rw [Merkle.root_cons, Merkle.siblings_eq_self _ hlen]
    rfl

/-- At one transaction the condition of `applyMerkleBranch_eq_root_iff` holds. -/
theorem applyMerkleBranch_eq_root_fixture : ∃ job,
    templateToJob .ofFormat (fixtureTemplate [fixtureTransaction 'a']) fixturePayoutScript =
      .ok job ∧
    ∀ c, ∀ doubleSha256 : Bytes → Bytes32,
      some (applyMerkleBranch doubleSha256 c job.merkleBranch) =
        Merkle.root (merkleNode doubleSha256) [c, Bytes32.fill 0xaa] := by
  have hok : (templateToJob .ofFormat (fixtureTemplate [fixtureTransaction 'a'])
      fixturePayoutScript).isOk = true := by decide +kernel
  obtain ⟨job, hjob⟩ := Except.exists_of_isOk hok
  refine ⟨job, hjob, fun c => (applyMerkleBranch_eq_root_iff hjob ?_ c).mpr (by decide)⟩
  exact .cons ⟨_, rfl, by decide +kernel⟩ .nil

/-- With two transactions the fold over the branch is not the root: a hash that answers `0x01…`
just for a pair that ends in the second id gives that value for the fold and `0x00…` for the
root. -/
theorem applyMerkleBranch_ne_root_fixture : ∃ job,
    templateToJob .ofFormat (fixtureTemplate [fixtureTransaction 'a', fixtureTransaction 'b'])
      fixturePayoutScript = .ok job ∧
    List.Forall₂ TransactionEntry.HasTxid [fixtureTransaction 'a', fixtureTransaction 'b']
      [Bytes32.fill 0xaa, Bytes32.fill 0xbb] ∧
    let doubleSha256 :=
      Bytes32.onPair (Merkle.marking (Bytes32.fill 0xbb) (Bytes32.fill 0) (Bytes32.fill 1))
    some (applyMerkleBranch doubleSha256 (Bytes32.fill 0) job.merkleBranch) ≠
      Merkle.root (merkleNode doubleSha256)
        [Bytes32.fill 0, Bytes32.fill 0xaa, Bytes32.fill 0xbb] := by
  have hok : (templateToJob .ofFormat
      (fixtureTemplate [fixtureTransaction 'a', fixtureTransaction 'b'])
      fixturePayoutScript).isOk = true := by decide +kernel
  obtain ⟨job, hjob⟩ := Except.exists_of_isOk hok
  refine ⟨job, hjob, ?_, ?_⟩
  · exact .cons ⟨_, rfl, by decide +kernel⟩ (.cons ⟨_, rfl, by decide +kernel⟩ .nil)
  · rw [(MappedJob.of_templateToJob hjob).merkleBranch]
    decide +kernel

end AzcoinPool
