import AzcoinPool.Coin.TemplateMapper
import AzcoinPool.Lib.HexText

/-!
# The ids of a template's transactions

The mapper decodes the transactions of a template twice. `decode_template_transactions` fails at the
first body that does not decode; `build_merkle_branch` leaves out an entry whose id is missing, not
hexadecimal or not of 32 bytes. So a mapped job commits to one id for each body, in order, just when
every entry has a well-formed id (`idsCommitted_iff`): an entry without one is a transaction of the
block that its merkle root does not cover.
-/

open Hex

namespace AzcoinPool

/-! ## Ids -/

/-- The id of an entry: the text of `txid`, or of `hash` when there is none, with the internal byte
order reversed. -/
def TransactionEntry.HasId (tx : TransactionEntry) (id : Bytes32) : Prop :=
  ∃ s, tx.txid.or tx.hash = some s ∧ Hex.decode s.text = .ok id.reverse.bytes

/-- The text of the id is there, and is of 64 hexadecimal digits. -/
def TransactionEntry.WellFormedId (tx : TransactionEntry) : Prop :=
  ∃ s, tx.txid.or tx.hash = some s ∧ s.text.toList.length = 64 ∧
    ∀ c ∈ s.text.toList, isHexDigit c = true

theorem merkleBranchEntry_eq_some {tx : TransactionEntry} {id : Bytes32} :
    merkleBranchEntry tx = some id ↔ tx.HasId id := by
  rw [merkleBranchEntry, TransactionEntry.HasId]
  cases tx.txid.or tx.hash with
  | none => simp
  | some s =>
    simp only [Option.some.injEq, exists_eq_left']
    cases Hex.decode s.text with
    | error e => simp
    | ok b =>
      simp only [Except.ok.injEq, Option.map_eq_some_iff, Bytes32.ofList?_eq_some]
      constructor
      · rintro ⟨a, rfl, rfl⟩
        rw [Bytes32.reverse_reverse]
      · rintro rfl
        exact ⟨id.reverse, rfl, Bytes32.reverse_reverse id⟩

/-- An entry adds an id to the branch when its text is well formed. -/
theorem wellFormedId_iff {tx : TransactionEntry} :
    tx.WellFormedId ↔ (merkleBranchEntry tx).isSome = true := by
  rw [Option.isSome_iff_exists]
  simp only [merkleBranchEntry_eq_some]
  constructor
  · rintro ⟨s, hs, hlen, hdigits⟩
    have hdecode : Hex.decode s.text = .ok (pairBytes s.text.toList) :=
      decode_eq_ok_iff.mpr ⟨by rw [hlen], hdigits, rfl⟩
    have hsize : (pairBytes s.text.toList).length = 32 := by rw [length_pairBytes, hlen]
    exact ⟨(Bytes32.mk _ hsize).reverse, s, hs, by rw [Bytes32.reverse_reverse]; exact hdecode⟩
  · rintro ⟨id, s, hs, hdecode⟩
    obtain ⟨heven, hdigits, hbytes⟩ := decode_eq_ok_iff.mp hdecode
    have hsize : s.text.toList.length / 2 = 32 := by
      rw [← length_pairBytes, ← hbytes, Bytes32.length_bytes]
    exact ⟨s, hs, by omega, hdigits⟩

/-! ## The branch and the bodies -/

/-- Nothing is left out by a `filterMap` when every element has a value. -/
theorem forall₂_filterMap_iff {α β : Type*} {f : α → Option β} {l : List α} :
    List.Forall₂ (fun a b => f a = some b) l (l.filterMap f) ↔ ∀ a ∈ l, (f a).isSome = true := by
  induction l with
  | nil => simp
  | cons a l ih =>
    cases hf : f a with
    | none =>
      rw [List.filterMap_cons_none hf]
      simp only [List.mem_cons, forall_eq_or_imp, hf, Option.isSome_none, Bool.false_eq_true,
        false_and, iff_false]
      intro h
      cases hl : l.filterMap f with
      | nil => rw [hl] at h; cases h
      | cons b bs =>
        rw [hl] at h
        cases h with
        | cons hb _ => rw [hf] at hb; cases hb
    | some b =>
      rw [List.filterMap_cons_some hf, List.forall₂_cons, ih]
      simp [hf]

/-- The ids handed to the merkle commitment and the bodies of the block correspond to the template's
transactions, one to one and in order. -/
def IdsCommitted (template : BlockTemplate) (job : Job) : Prop :=
  ∃ ba, job.blockAssembly = some ba ∧
    List.Forall₂ TransactionEntry.HasId template.transactions job.merkleBranch ∧
    List.Forall₂ (fun tx body => Hex.decode tx.data.text = .ok body) template.transactions
      ba.templateTransactions

/-- A mapped job commits to the ids of all its transactions just when each entry of the template has
a well-formed one. -/
theorem idsCommitted_iff {bitcoin : BitcoinCrate} {template : BlockTemplate}
    {payoutScriptPubkey : Slice} {job : Job}
    (hjob : templateToJob bitcoin template payoutScriptPubkey = .ok job) :
    IdsCommitted template job ↔ ∀ tx ∈ template.transactions, tx.WellFormedId := by
  have hmapped := MappedJob.of_templateToJob hjob
  have hids : List.Forall₂ TransactionEntry.HasId template.transactions job.merkleBranch ↔
      ∀ tx ∈ template.transactions, tx.WellFormedId := by
    simp only [hmapped.merkleBranch, buildMerkleBranch, wellFormedId_iff, ← forall₂_filterMap_iff,
      merkleBranchEntry_eq_some]
  rw [← hids]
  constructor
  · rintro ⟨ba, -, hbranch, -⟩
    exact hbranch
  · intro hbranch
    obtain ⟨flags, commitment, txs, -, -, htxs, -, hassembly⟩ := hmapped.blockAssembly
    exact ⟨_, hassembly, hbranch, forall₂_of_decodeTransactionsFrom htxs⟩

theorem idsCommitted_fixture : ∃ job,
    templateToJob .ofFormat (fixtureTemplate [fixtureTransaction 'c', fixtureTransaction 'd'])
      fixturePayoutScript = .ok job ∧
    IdsCommitted (fixtureTemplate [fixtureTransaction 'c', fixtureTransaction 'd']) job := by
  have hok : (templateToJob .ofFormat
      (fixtureTemplate [fixtureTransaction 'c', fixtureTransaction 'd'])
      fixturePayoutScript).isOk = true := by decide +kernel
  obtain ⟨job, hjob⟩ := Except.exists_of_isOk hok
  refine ⟨job, hjob, (idsCommitted_iff hjob).mpr fun tx htx => wellFormedId_iff.mpr ?_⟩
  exact List.all_eq_true.mp (show (fixtureTemplate [fixtureTransaction 'c',
    fixtureTransaction 'd']).transactions.all (fun tx => (merkleBranchEntry tx).isSome) = true by
      decide +kernel) tx htx

/-- A transaction without an id. -/
def anonymousTransaction : TransactionEntry where
  data := ⟨"cafe", by decide⟩
  txid := none
  hash := none

/-- A template with a transaction that has no id is mapped to a job, whose branch is empty. -/
theorem not_idsCommitted_fixture : ∃ job,
    templateToJob .ofFormat (fixtureTemplate [anonymousTransaction]) fixturePayoutScript =
      .ok job ∧
    job.merkleBranch = [] ∧ ¬IdsCommitted (fixtureTemplate [anonymousTransaction]) job := by
  have hok : (templateToJob .ofFormat (fixtureTemplate [anonymousTransaction])
      fixturePayoutScript).isOk = true := by decide +kernel
  obtain ⟨job, hjob⟩ := Except.exists_of_isOk hok
  have hbranch : job.merkleBranch = [] := by
    rw [(MappedJob.of_templateToJob hjob).merkleBranch]
    rfl
  refine ⟨job, hjob, hbranch, ?_⟩
  rintro ⟨ba, -, hids, -⟩
  rw [hbranch] at hids
  cases hids

end AzcoinPool
