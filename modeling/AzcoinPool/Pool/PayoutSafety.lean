import AzcoinPool.Pool.Attribution
import AzcoinPool.Pool.Provenance
import AzcoinPool.Pool.SolvedBlock

/-!
# What the pool submits

A session can take a job of other work from the registry between the validation of a share and the
submission of its block, so the block need not be the one that was validated. It is a block of a
template of the daemon all the same, and its coinbase pays the configured script
(`paysOut_of_runsTo`), whatever the miners send and however the sessions interleave. The shares the
pool gets that far carry extranonces of four bytes each, or none at all, from a connection that
never subscribed (`ShareSubmission.ExtranoncesFit`); a coinbase without extranonces is eight bytes
short and, of a coinbase value below `2 ^ 56`, does not decode (`not_decode_of_short`), so no block
is submitted for it. The witness of a coinbase is restored by an index into its inputs, which a
mapped job always has (`ne_panicked_of_runsTo`).
-/

open Bitcoin Endian

namespace AzcoinPool

variable {env : PoolEnv} {parseJson : String → Option Sv1Request}

/-! ## The shares of a session -/

/-- The extranonce1 decodes, the extranonce2 is as long, and that is four bytes or none. -/
def ShareSubmission.ExtranoncesFit (share : ShareSubmission) : Prop :=
  ∃ extranonce1, shareExtranonce1 share = .ok extranonce1 ∧
    share.extraNonce2.length = extranonce1.length ∧
    (extranonce1.length = 4 ∨ extranonce1.length = 0)

/-- A share of a connection has extranonces of four bytes, once its shape is checked, when there was
a `mining.subscribe`, and none otherwise. -/
theorem extranonces_of_dispatch {inputs : List ConnectionInput} {next : UInt32}
    {req : Sv1Request} {id : Option Value} {share : ShareSubmission}
    (h : dispatchRequest next (SessionState.run inputs) req = .onSubmit id share)
    (hshape : rejectShape share = none) :
    ∃ extranonce1, shareExtranonce1 share = .ok extranonce1 ∧
      share.extraNonce2.length = extranonce1.length ∧
      extranonce1.length = if (latestIssued inputs).isSome then 4 else 0 := by
  have hsubmitted :
      (dispatchRequest next (SessionState.run inputs) req).submitted = some share := by
    rw [h]
    rfl
  obtain ⟨worker, jobId, extraNonce2, ntime, nonce, bits, -, -, rfl⟩ :=
    eq_of_dispatch_onSubmit hsubmitted
  simp only [rejectShape, sessionShare, Option.or_eq_none_iff, rejectExtraNonce2_eq_none,
    Option.mem_some_iff, forall_eq'] at hshape
  obtain ⟨hlen, -⟩ := hshape
  -- the extranonces of the state are the last ones issued, or empty
  have hissued := run_extranonces inputs
  cases hlatest : latestIssued inputs with
  | some en1 =>
    rw [hlatest] at hissued
    obtain ⟨h1, h2⟩ := hissued
    refine ⟨(toLeBytes en1).reverse, ?_, ?_, by simp⟩
    · simp only [shareExtranonce1, sessionShare, Option.bind_some, h1, Hex.decode_lowerHex08]
    · rw [sessionShare, ← hlen, h2]
      simp
  | none =>
    rw [hlatest] at hissued
    obtain ⟨h1, h2⟩ := hissued
    refine ⟨[], ?_, ?_, rfl⟩
    · simp only [shareExtranonce1, sessionShare, Option.bind_some, h1]
      rfl
    · rw [sessionShare, ← hlen, h2]
      rfl

/-- A share that is not yet rejected has passed the checks on its shape. -/
def SubmitStage.InShape : SubmitStage → Prop
  | .lookup share | .relookup share _ | .fetching share _ _ | .submitting share _ _ =>
    rejectShape share = none
  | .recording share result _ | .reporting share result _ =>
    result = .block → rejectShape share = none

theorem SubmitStage.inShape_start (share : ShareSubmission) : (start share).InShape := by
  rw [start]
  split
  · next result hresult =>
    rintro rfl
    cases kind_of_rejectShape hresult
  · next hshape => exact hshape

theorem Session.StepTo.inShape {shared shared' : Shared} {x x' : Session} {e : SessionEvent}
    (hstep : StepTo env parseJson shared x e shared' x')
    (h : ∀ stage ∈ x.pc.submitStage, stage.InShape) :
    ∀ stage ∈ x'.pc.submitStage, stage.InShape := by
  cases hstep with
  | arrive | peerClose | readPending | readBlank | recvLagged | recvSkip => exact h
  | readSubmit =>
    rintro _ ⟨⟩
    exact SubmitStage.inShape_start _
  | @lookup id share pc =>
    rw [pc] at h
    have hstage : rejectShape share = none := h _ rfl
    rintro _ ⟨⟩ -
    exact hstage
  | @relookup id share validated job pc _ =>
    rw [pc] at h
    have hstage : rejectShape share = none := h _ rfl
    rintro _ ⟨⟩
    exact hstage
  | @submitted template id share job validated candidate pc _ =>
    rw [pc] at h
    have hstage : rejectShape share = none := h _ rfl
    rintro _ ⟨⟩
    exact hstage
  | @recorded id share result validated pc =>
    rw [pc] at h
    have hstage : result = .block → rejectShape share = none := h _ rfl
    rintro _ ⟨⟩
    exact hstage
  | @reportedBlock id share validated pc =>
    rw [pc] at h
    have hstage : rejectShape share = none := h _ rfl rfl
    rintro _ ⟨⟩
    exact hstage
  | _ => simp [SessionPc.submitStage_eq_some, finish]

/-- Behind every run, shares that are not yet rejected are in shape. -/
theorem inShape_of_runsTo {Ok : Pool → Event → Prop} {es : List Event} {p : Pool}
    (h : (poolMachine env parseJson).RunsTo Ok es p) {s : Nat} {x : Session}
    (hx : p.sessions[s]? = some x) : ∀ stage ∈ x.pc.submitStage, stage.InShape := by
  refine session_invariant (I := fun x => ∀ stage ∈ x.pc.submitStage, stage.InShape) ?_ ?_ ?_ h hx
  · simp [SessionPc.submitStage]
  · exact fun _ _ _ hshape hstep => hstep.inShape hshape
  · exact fun hshape _ => hshape

/-- A share that a candidate is about to be built for has extranonces of four bytes, or none, and
then its session has read no `mining.subscribe`. -/
theorem extranonces_of_runsTo {Ok : Pool → Event → Prop} {es : List Event} {p : Pool}
    (h : (poolMachine env parseJson).RunsTo Ok es p) {s : Nat} {x : Session}
    (get : p.sessions[s]? = some x) {id : Option Value} {share : ShareSubmission} {job : Job}
    {validated : Option Job} (pc : x.pc = .submitting id (.fetching share job validated)) :
    ∃ extranonce1, shareExtranonce1 share = .ok extranonce1 ∧
      share.extraNonce2.length = extranonce1.length ∧
      (extranonce1.length = 4 ∨ extranonce1.length = 0 ∧
        ∀ req ∈ x.parsed.filterMap parseJson, req.method ≠ "mining.subscribe") := by
  have hshape : rejectShape share = none :=
    inShape_of_runsTo h get (.fetching share job validated) (by rw [pc]; rfl)
  obtain ⟨inputs, unanswered, hfollows⟩ := follows_of_runsTo h get
  have hhandles := hfollows.handles
  rw [pc] at hhandles
  obtain ⟨req, next, rfl, hdispatch⟩ := hhandles
  obtain ⟨extranonce1, hen1, hlen2, hlen1⟩ := extranonces_of_dispatch hdispatch hshape
  refine ⟨extranonce1, hen1, hlen2, ?_⟩
  rw [hlen1, hfollows.requests]
  split
  · exact .inl rfl
  · next hlatest =>
    refine .inr ⟨rfl, ?_⟩
    simp only [List.forall_mem_append, List.forall_mem_singleton]
    refine ⟨not_subscribe_of_latestIssued hlatest, fun hmethod => ?_⟩
    rw [dispatchRequest_of_subscribe _ _ hmethod] at hdispatch
    cases hdispatch

theorem extranoncesFit_of_runsTo {Ok : Pool → Event → Prop} {es : List Event} {p : Pool}
    (h : (poolMachine env parseJson).RunsTo Ok es p) {s : Nat} {x : Session}
    (get : p.sessions[s]? = some x) {id : Option Value} {share : ShareSubmission} {job : Job}
    {validated : Option Job} (pc : x.pc = .submitting id (.fetching share job validated)) :
    share.ExtranoncesFit := by
  obtain ⟨extranonce1, hen1, hlen2, hlen1⟩ := extranonces_of_runsTo h get pc
  exact ⟨extranonce1, hen1, hlen2, hlen1.imp_right And.left⟩

/-- The shares behind the calls of the submitter have extranonces that fit. -/
theorem submitted_extranoncesFit {Ok : Pool → Event → Prop} {es : List Event} {p : Pool}
    (h : (poolMachine env parseJson).RunsTo Ok es p) :
    ∀ sub ∈ p.shared.submitted, sub.share.ExtranoncesFit := by
  induction h with
  | nil => simp [poolMachine]
  | @snoc es p p' e run ok step ih =>
    cases Pool.step_cases step with
    | pollNothing | pollSame | pollNew | connect => exact ih
    | @session s e x x' shared get hstep =>
      cases hstep with
      | submitted pc hsubmit =>
        simp only [List.forall_mem_append, List.forall_mem_singleton]
        exact ⟨ih, extranoncesFit_of_runsTo run get pc⟩
      | _ => exact ih

/-! ## A coinbase without extranonces -/

/-- Every four bytes are a `u32`. -/
theorem exists_u32_encode {bs : Bytes} (h : bs.length = 4) :
    ∃ n, PrefixCodec.u32.encode n = bs := by
  have hlt : leNat bs < 2 ^ 32 := by
    have := leNat_lt bs
    rw [h] at this
    exact this
  refine ⟨UInt32.ofNat (leNat bs), ?_⟩
  show leBytes 4 (UInt32.ofNat (leNat bs)).toNat = bs
  rw [UInt32.toNat_ofNat_of_lt' hlt, ← h, leBytes_leNat]

/-- A number that fits in `k` bytes has a zero byte behind them. -/
theorem leBytes_succ_of_lt {k n : Nat} (h : n < 256 ^ k) :
    leBytes (k + 1) n = leBytes k n ++ [0] := by
  induction k generalizing n with
  | zero =>
    obtain rfl : n = 0 := by omega
    rfl
  | succ k ih =>
    rw [leBytes, ih (Nat.div_lt_of_lt_mul (by rwa [Nat.pow_succ, Nat.mul_comm] at h))]
    rfl

theorem length_encodeVarInt_pos (n : Nat) : 0 < (PrefixCodec.encodeVarInt n).length := by
  rw [PrefixCodec.encodeVarInt]
  split
  · simp
  · split
    · simp
    · split <;> simp

/-- The transaction that the shortened coinbase starts with: the script has taken eight bytes of
what follows it, the value's bytes are the sequence number, and there is no output. -/
def shiftedCoinbase (scriptSig : Bytes) (sequence lockTime : UInt32) : Transaction :=
  ⟨1, lockTime, [⟨OutPoint.null, scriptSig, sequence, []⟩], []⟩

theorem decode_shiftedCoinbase {scriptSig : Bytes} (h : scriptSig.length < 2 ^ 64)
    (sequence lockTime : UInt32) (rest : Bytes) :
    transaction.decode (coinbaseHead ++ PrefixCodec.encodeVarInt scriptSig.length ++ scriptSig ++
        PrefixCodec.u32.encode sequence ++ [0] ++ PrefixCodec.u32.encode lockTime ++ rest) =
      some (shiftedCoinbase scriptSig sequence lockTime, rest) := by
  set tx := shiftedCoinbase scriptSig sequence lockTime with htx
  have hin : inputs.Valid (tx.input.map TxIn.bare) := by
    refine ⟨by simp [htx, shiftedCoinbase], fun i hi => ?_⟩
    rw [htx, shiftedCoinbase, List.map_singleton, List.mem_singleton] at hi
    subst hi
    exact ⟨⟨trivial, h⟩, trivial⟩
  have hvalid : transaction.Valid tx := by
    have hout : outputs.Valid tx.output := ⟨by simp [htx, shiftedCoinbase], by
      simp [htx, shiftedCoinbase]⟩
    refine .inr ⟨⟨hin, hout⟩, by simp [htx, shiftedCoinbase], fun i hi => ?_⟩
    rw [htx, shiftedCoinbase, List.mem_singleton] at hi
    rw [hi]
  have hencode : transaction.encode tx = coinbaseHead ++
      PrefixCodec.encodeVarInt scriptSig.length ++ scriptSig ++ PrefixCodec.u32.encode sequence ++
        [0] ++ PrefixCodec.u32.encode lockTime := by
    have hlegacy : transaction.encode tx = legacy.encode tx := rfl
    have hinputs : (inputs.encode (tx.input.map TxIn.bare) : Bytes) =
        PrefixCodec.encodeVarInt 1 ++ (outPoint.encode OutPoint.null ++
          (PrefixCodec.encodeVarInt scriptSig.length ++ scriptSig) ++
            PrefixCodec.u32.encode sequence) :=
      congrArg _ (List.append_nil _)
    have houtputs : (outputs.encode tx.output : Bytes) = [0] := rfl
    rw [hlegacy, legacy_encode, hinputs, houtputs]
    simp only [htx, shiftedCoinbase, coinbaseHead, List.append_assoc]
  rw [← hencode, transaction.decode_encode hvalid]

/-- A coinbase whose script is eight bytes shorter than its length says takes them from what
follows, up to the third byte of the coinbase value. Of a value below `2 ^ 56` the last byte is then
read as the number of outputs, none, and the bytes of the outputs are left over. -/
theorem not_decode_of_short {template : BlockTemplate} {payoutScriptPubkey : Bytes} {job : Job}
    {commitment : Option Bytes} {before after : Bytes}
    (hcut : CutCoinbase template payoutScriptPubkey job commitment before after)
    (hvalue : template.coinbasevalue.toNat < 2 ^ 56) (tx : Transaction) :
    transaction.decode (job.coinbasePart1 ++ job.coinbasePart2) ≠ some (tx, []) := by
  have hlen := hcut.length_lt
  obtain ⟨count, more, houtputs⟩ : ∃ count more,
      (outputs.encode (coinbaseOutputs template.coinbasevalue payoutScriptPubkey commitment) :
        Bytes) = count :: (PrefixCodec.u64.encode template.coinbasevalue ++
          (PrefixCodec.encodeVarInt payoutScriptPubkey.length ++ payoutScriptPubkey) ++ more) := by
    cases commitment with
    | none => exact ⟨1, [], rfl⟩
    | some script => exact ⟨2, txOut.encode ⟨0, script⟩ ++ [], rfl⟩
  have hu64 : PrefixCodec.u64.encode template.coinbasevalue =
      leBytes 7 template.coinbasevalue.toNat ++ [0] :=
    leBytes_succ_of_lt hvalue
  -- what the script takes, what is read as the sequence number and as the lock time, and the rest
  set low := leBytes 7 template.coinbasevalue.toNat with hlow
  have hlow7 : low.length = 7 := length_leBytes _ _
  set gap := PrefixCodec.u32.encode 0xffffffff ++ count :: low.take 3
  have hgap : gap.length = 8 := by
    simp only [gap, List.length_append, List.length_cons, List.length_take, hlow7]
    rfl
  set rest := PrefixCodec.encodeVarInt payoutScriptPubkey.length ++ payoutScriptPubkey ++ more ++
    PrefixCodec.u32.encode 0
  have hrest : 5 ≤ rest.length := by
    have h4 : (PrefixCodec.u32.encode 0).length = 4 := rfl
    have h1 := length_encodeVarInt_pos payoutScriptPubkey.length
    simp only [rest, List.length_append, h4]
    omega
  have hdrop3 : (low.drop 3).length = 4 := by simp [hlow7]
  have htake4 : (rest.take 4).length = 4 := by
    rw [List.length_take]
    omega
  obtain ⟨sequence, hsequence⟩ := exists_u32_encode hdrop3
  obtain ⟨lockTime, hlockTime⟩ := exists_u32_encode htake4
  have hscript : (before ++ after ++ gap).length = before.length + 8 + after.length := by
    simp only [List.length_append, hgap]
    omega
  have hbytes : job.coinbasePart1 ++ job.coinbasePart2 =
      coinbaseHead ++ PrefixCodec.encodeVarInt (before ++ after ++ gap).length ++
        (before ++ after ++ gap) ++ PrefixCodec.u32.encode sequence ++ [0] ++
          PrefixCodec.u32.encode lockTime ++ rest.drop 4 := by
    rw [hscript, hsequence, hlockTime, hcut.part1_eq, hcut.part2_eq, coinbaseTail, houtputs, hu64]
    have htail : gap ++ low.drop 3 ++ [0] ++ rest.take 4 ++ rest.drop 4 =
        PrefixCodec.u32.encode 0xffffffff ++ count :: (low ++ [0] ++ rest) := by
      simp only [gap, List.append_assoc, List.cons_append, List.take_append_drop]
    simp only [List.append_assoc] at htail ⊢
    rw [htail]
    simp only [rest, List.append_assoc, List.cons_append]
  rw [hbytes, decode_shiftedCoinbase (by omega)]
  intro h
  have hnil : rest.drop 4 = [] := (Prod.mk.inj (Option.some.inj h)).2
  have hdrop := congrArg List.length hnil
  rw [List.length_drop, List.length_nil] at hdrop
  omega

/-! ## The submitted block -/

/-- The transaction without its witnesses. -/
def stripWitness (tx : Transaction) : Transaction :=
  { tx with input := tx.input.map fun i => { i with witness := [] } }

/-- The submission is a block of the template whose coinbase pays the script. -/
structure BlockSubmission.PaysOut (env : PoolEnv) (template : BlockTemplate)
    (payoutScriptPubkey : Slice) (sub : BlockSubmission) (header : Bytes) (cb : Transaction)
    (txs : List Transaction) : Prop where
  decode : block.decode sub.candidate.rawBlock = some ((header, cb :: txs), [])
  height : sub.candidate.height = template.height
  coinbase : PaysTemplate template payoutScriptPubkey.bytes (stripWitness cb)
  witness : cb.input.map TxIn.witness = coinbaseWitnesses template
  transactions : List.Forall₂ (TransactionEntry.Decodes env.bitcoin) template.transactions txs
  /-- The header is on the template's parent and target, and its merkle root is folded from the
  coinbase of the block. -/
  header_eq : ∃ version prevHash nbits,
    decodePrevHash template.previousblockhash.text = .ok prevHash ∧
    decodeBits template.bits.text = .ok nbits ∧
    header = buildBlockHeader version prevHash
      (applyMerkleBranch env.doubleSha256
        (env.doubleSha256 (serializeNoWitness env.bitcoin cb)) (buildMerkleBranch template))
      sub.share.ntime nbits sub.share.nonce

/-- Whatever its script, a coinbase with the outputs of the cut pays the template. -/
theorem CutCoinbase.pays {template : BlockTemplate} {payoutScriptPubkey : Bytes} {job : Job}
    {commitment : Option Bytes} {before after : Bytes}
    (hcut : CutCoinbase template payoutScriptPubkey job commitment before after)
    (scriptSig : Bytes) (witness : List Bytes) :
    PaysTemplate template payoutScriptPubkey (stripWitness (coinbaseOf scriptSig
      (coinbaseOutputs template.coinbasevalue payoutScriptPubkey commitment) witness)) := by
  refine ⟨⟨scriptSig, rfl⟩, rfl, ?_⟩
  have hcommitment := hcut.commitment_eq
  cases commitment with
  | none =>
    rw [BlockTemplate.commitmentText, nonBlankText_eq_none hcommitment]
    rfl
  | some script =>
    obtain ⟨text, htext, hdecode, -⟩ := nonBlankText_eq_some hcommitment
    rw [BlockTemplate.commitmentText, htext]
    exact ⟨script, hdecode, rfl⟩

/-- A coinbase that goes into a candidate reads as a transaction without its witness. -/
theorem deserialize_of_candidateStep {bitcoin : BitcoinCrate} {header : Bytes} {job : Job}
    {extranonce1 extraNonce2 : Bytes} {candidate : BlockCandidate}
    (h : candidateStep bitcoin header job extranonce1 extraNonce2 = .submitBlock candidate) :
    (∃ tx, bitcoin.deserialize (reconstructMinerCoinbase job extranonce1 extraNonce2) = .ok tx) ∧
      ∃ blockAssembly ∈ job.blockAssembly, candidate.height = blockAssembly.height := by
  have hassemble {coinbaseTx : Bytes} {blockAssembly : BlockAssemblyData}
      (hstep : assembleCandidate bitcoin header coinbaseTx blockAssembly =
        .submitBlock candidate) :
      (bitcoin.deserialize coinbaseTx).isOk = true ∧ candidate.height = blockAssembly.height := by
    rw [assembleCandidate] at hstep
    split at hstep
    · cases hstep
    · next rawBlock hraw =>
      have hheader := (buildRawBlock_eq_ok hraw).1
      have hok : (buildRawBlock bitcoin header coinbaseTx
          blockAssembly.templateTransactions).isOk = true := by
        rw [hraw]
        rfl
      cases hstep
      exact ⟨((buildRawBlock_isOk hheader).mp hok).1, rfl⟩
  rw [candidateStep] at h
  split at h
  · cases h
  · next blockAssembly hassembly =>
    dsimp only at h
    split at h
    · split at h
      · cases h
      · cases h
      · next bytes hrestore =>
        refine ⟨?_, blockAssembly, hassembly, (hassemble h).2⟩
        rw [restoreCoinbaseWitness] at hrestore
        split at hrestore
        · cases hrestore
        · next tx htx => exact ⟨tx, htx⟩
    · exact ⟨Except.exists_of_isOk (hassemble h).1, blockAssembly, hassembly, (hassemble h).2⟩

/-- The share has an extranonce2, or the templates of the block's height have coinbase values below
`2 ^ 56`. Only a connection that never subscribed can send a share without. -/
def BlockSubmission.Regular (templates : List BlockTemplate) (sub : BlockSubmission) : Prop :=
  sub.share.extraNonce2 ≠ [] ∨ ∀ template ∈ templates,
    sub.candidate.height = template.height → template.coinbasevalue.toNat < 2 ^ 56

/-- A candidate on a mapped job, for a share with extranonces that fit, pays the script. -/
theorem paysOut_of_submitBlock (hbitcoin : env.bitcoin.FollowsFormat) {template : BlockTemplate}
    {payoutScriptPubkey : Slice} {job : Job} {current : Option Job}
    (hjob : templateToJob env.bitcoin template payoutScriptPubkey = .ok job)
    {sub : BlockSubmission} (hfit : sub.share.ExtranoncesFit)
    (hregular : sub.Regular [template])
    (hsubmit : maybeSubmitStep env job current sub.share = some (.submitBlock sub.candidate)) :
    ∃ header cb txs, sub.PaysOut env template payoutScriptPubkey header cb txs := by
  have hmapped := MappedJob.of_templateToJob hjob
  obtain ⟨commitment, before, after, hcut⟩ := exists_cutCoinbase hbitcoin hjob
  obtain ⟨-, extranonce1, header, hen1, hheader, hcandidate⟩ :=
    maybeSubmitStep_eq_submitBlock hsubmit
  obtain ⟨⟨tx, htx⟩, blockAssembly, hassembly, hheight⟩ := deserialize_of_candidateStep hcandidate
  obtain ⟨flags, commitment', bodies, -, -, hbodies, -, hassembly'⟩ := hmapped.blockAssembly
  obtain rfl : blockAssembly = _ := Option.some.inj (hassembly.symm.trans hassembly')
  obtain ⟨extranonce1', hen1', hlen2, hlen1⟩ := hfit
  obtain rfl : extranonce1' = extranonce1 := Except.ok.inj (hen1'.symm.trans hen1)
  rcases hlen1 with hlen1 | hlen1
  · have hlen : (extranonce1' ++ sub.share.extraNonce2).length = 8 := by
      rw [List.length_append, hlen2, hlen1]
    obtain ⟨blockAssembly, coinbase, hassembly'', hcoinbase, hraw⟩ :=
      exists_of_candidateStep hcandidate
    obtain rfl : blockAssembly = _ := Option.some.inj (hassembly''.symm.trans hassembly)
    obtain ⟨hvalid, rfl, hlegacy⟩ := candidateCoinbase_eq hbitcoin hcut hlen hcoinbase
    obtain ⟨txs, hdecode, htxs⟩ := block_decode_of_buildRawBlock hbitcoin hvalid hraw
    obtain ⟨version, hbuilt⟩ := exists_version_of_buildSolvedBlockHeader hheader
    have hcommitment := isSome_commitment_of_mapped hmapped hassembly
    refine ⟨header, _, txs, hdecode, hheight, hcut.pays _ _, ?_,
      forall₂_decodes (forall₂_of_decodeTransactionsFrom hbodies) htxs, ?_⟩
    · rw [coinbaseWitnesses, ← hcommitment]
      cases commitment' <;> rfl
    · refine ⟨version, job.prevHash, job.nbits, hmapped.prevHash, hmapped.nbits, ?_⟩
      rw [hlegacy, ← hmapped.merkleBranch, hbuilt]
      rfl
  · -- without extranonces the coinbase is eight bytes short
    obtain rfl := List.eq_nil_of_length_eq_zero hlen1
    have hen2 : sub.share.extraNonce2 = [] := List.eq_nil_of_length_eq_zero (hlen2.trans hlen1)
    rw [reconstructMinerCoinbase, hen2, List.append_nil, List.append_nil,
      hbitcoin.deserialize] at htx
    have hvalue : template.coinbasevalue.toNat < 2 ^ 56 :=
      hregular.resolve_left (not_not.mpr hen2) template (List.mem_singleton_self _) hheight
    exact absurd htx (not_decode_of_short hcut hvalue tx)

/-- A block that was submitted in a run pays the script. -/
theorem exists_paysOut_of_submitted (hbitcoin : env.bitcoin.FollowsFormat)
    {Ok : Pool → Event → Prop} {es : List Event} {p : Pool}
    (h : (poolMachine env parseJson).RunsTo Ok es p) {sub : BlockSubmission}
    (hsub : sub ∈ p.shared.submitted) :
    ∃ payoutScriptPubkey, env.payoutScriptPubkey = some payoutScriptPubkey ∧
      (sub.Regular (answers es) → ∃ template ∈ answers es, ∃ header cb txs,
        sub.PaysOut env template payoutScriptPubkey header cb txs) := by
  obtain ⟨-, job, current, ⟨template, htemplate, payout, hpayout, hjob⟩, hsubmit⟩ :=
    (answered_of_runsTo h).shared.submitted sub hsub
  refine ⟨payout, hpayout, fun hregular => ⟨template, htemplate, ?_⟩⟩
  refine paysOut_of_submitBlock hbitcoin hjob (submitted_extranoncesFit h sub hsub) ?_ hsubmit
  refine hregular.imp_right fun hvalue => ?_
  rw [List.forall_mem_singleton]
  exact hvalue template htemplate

/-- Every regular block the pool submits, in any run and whatever the miners send, is a block of a
template the daemon answered with in the run, and its coinbase pays the configured script. -/
theorem paysOut_of_runsTo (hbitcoin : env.bitcoin.FollowsFormat) {es : List Event} {p : Pool}
    (h : (poolMachine env parseJson).RunsTo (fun _ _ => True) es p) :
    ∀ sub ∈ p.shared.submitted, ∃ payoutScriptPubkey,
      env.payoutScriptPubkey = some payoutScriptPubkey ∧
        (sub.Regular (answers es) → ∃ template ∈ answers es, ∃ header cb txs,
          sub.PaysOut env template payoutScriptPubkey header cb txs) :=
  fun _ hsub => exists_paysOut_of_submitted hbitcoin h hsub

/-- A session that goes through `on_submit` with a share that is found a block, up to the call of
the submitter. -/
def solve (s : Nat) (template : BlockTemplate) : List Event :=
  sendLine s submitLine ++ [.session s .proceed, .session s .proceed, .session s .proceed,
    .session s .proceed, .session s (.currentJob (.ok (some template)))]

/-- A miner's share on a template with a transaction and a witness commitment is submitted. -/
theorem paysOut_fixture :
    let template := { fixtureTemplate [spendingTransaction] with
      defaultWitnessCommitment := some ⟨"6a24aa21a9ed11223344556677889900", by decide⟩ }
    ∃ p sub header cb txs,
      (poolMachine fixtureEnv fixtureJson).run
        ([.connect] ++ handshake 0 template ++ solve 0 template) = some p ∧
      p.shared.submitted = [sub] ∧
      sub.PaysOut fixtureEnv template fixturePayoutScript header cb txs := by
  intro template
  have hany : ((poolMachine fixtureEnv fixtureJson).run
      ([.connect] ++ handshake 0 template ++ solve 0 template)).any
        (fun p => decide (p.shared.submitted.length = 1 ∧
          ∀ sub ∈ p.shared.submitted, sub.share.extraNonce2 ≠ [])) = true := by
    decide +kernel
  obtain ⟨p, hp, hprops⟩ := (Option.any_eq_true _ _).mp hany
  obtain ⟨hlen, hextraNonce2⟩ := of_decide_eq_true hprops
  obtain ⟨sub, hsub⟩ := List.length_eq_one_iff.mp hlen
  have hextraNonce2 := hextraNonce2 sub (by rw [hsub]; simp)
  have hanswers : answers ([.connect] ++ handshake 0 template ++ solve 0 template) =
      [template, template] := rfl
  obtain ⟨payout, hpayout, hpays⟩ :=
    paysOut_of_runsTo BitcoinCrate.ofFormat_followsFormat (Machine.runsTo_of_run hp) sub
      (by rw [hsub]; simp)
  obtain rfl : payout = fixturePayoutScript := (Option.some.inj hpayout).symm
  obtain ⟨template', htemplate', header, cb, txs, hpays⟩ := hpays (.inl hextraNonce2)
  obtain rfl : template' = template := by
    rw [hanswers] at htemplate'
    simpa using htemplate'
  exact ⟨p, sub, header, cb, txs, hp, hsub, hpays⟩

/-! ## No panic -/

/-- A candidate step on a mapped job does not panic. -/
theorem maybeSubmitStep_ne_panicked (hbitcoin : env.bitcoin.FollowsFormat) {job : Job}
    (hjob : env.IsMapped job) (current : Option Job) (share : ShareSubmission) :
    maybeSubmitStep env job current share ≠ some .panicked := by
  obtain ⟨template, payout, hmap⟩ := hjob
  intro h
  rw [maybeSubmitStep] at h
  split at h
  · cases h
  · split at h
    · cases h
    · split at h
      · cases h
      · obtain ⟨tx, htx, hnil⟩ := exists_of_candidateStep_eq_panicked (Option.some.inj h)
        rw [reconstructMinerCoinbase, List.append_assoc, List.append_assoc] at htx
        exact input_ne_nil_of_templateToJob hbitcoin hmap htx hnil

/-- The session's candidate step does not panic, whatever `current_job` returns. -/
def Session.PanicFree (env : PoolEnv) (x : Session) : Prop :=
  ∀ id share job validated current, x.pc = .submitting id (.fetching share job validated) →
    maybeSubmitStep env job current share ≠ some .panicked

/-- A candidate step of a session behind a run does not panic. -/
theorem ne_panicked_of_runsTo (hbitcoin : env.bitcoin.FollowsFormat) {Ok : Pool → Event → Prop}
    {es : List Event} {p : Pool} (h : (poolMachine env parseJson).RunsTo Ok es p) {x : Session}
    (hx : x ∈ p.sessions) : x.PanicFree env := by
  intro id share job validated current hpc
  obtain ⟨template, -, payout, -, hmap⟩ := ((answered_of_runsTo h).sessions x hx).pc job
    (by rw [hpc]; exact List.mem_cons_self)
  exact maybeSubmitStep_ne_panicked hbitcoin ⟨template, payout, hmap⟩ current share

end AzcoinPool
