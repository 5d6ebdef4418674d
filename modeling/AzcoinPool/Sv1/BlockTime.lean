import AzcoinPool.Coin.NodeApi
import AzcoinPool.Sv1.Dispatch
import AzcoinPool.Sv1.Notify

/-!
# The block time of a job of the node API

The block time passes four codecs: the text of the API's template is read, `mining.notify` writes
it, `mining.submit` reads it, and the report to the API writes it again. The last three take the
first digits of the text for the highest ones, the first takes them for the lowest. So the text
comes through, and the job has the time an RPC template would give it, just when the text reads the
same with its pairs of digits in the opposite order (`ntimeSurvives_iff`).
-/

open Endian

namespace AzcoinPool

/-- The block time in a notification. -/
def notifyNtime (notify : Value) : Option String := do
  let members ← notify.asObject
  let params ← (memberGet members "params").bind Value.asArray
  params[7]?.bind Value.asStr

theorem notifyNtime_buildMiningNotify (job : Job) :
    notifyNtime (buildMiningNotify job) = some (lowerHex08 job.ntime) := by
  simp [notifyNtime, buildMiningNotify, Value.asObject, memberGet, List.lookup_cons, Value.asArray,
    Value.asStr]

/-- The block time in a `mining.submit`. -/
def Sv1Request.submitNtime (req : Sv1Request) : Option String :=
  (req.params.bind Value.asArray).bind fun params => params[3]?.bind Value.asStr

/-- A block time in the notification's format is read as what was written. -/
theorem submitHexU32_lowerHex08 (n : UInt32) (label : String) :
    submitHexU32 (lowerHex08 n) label = .ok n := by
  rw [submitHexU32, if_neg (by simp [Hex.utf8ByteSize_lowerHex08]),
    Hex.u32FromStrRadix16_lowerHex08]
  rfl

/-- The block time of a submission is read from its fourth parameter. -/
theorem submitNtime_of_mapRequestToCommand {req : Sv1Request} {username jobId : String}
    {extraNonce2 : Bytes} {ntime nonce : UInt32} {versionBits : Option UInt32}
    (h : mapRequestToCommand req =
      .ok (some (.submitShare username jobId extraNonce2 ntime nonce versionBits))) :
    ∃ hex, req.submitNtime = some hex ∧
      submitHexU32 hex "mining.submit param 3 (ntime)" = .ok ntime := by
  have hmap := mapSubmitParams_of_mapRequestToCommand h
  unfold mapSubmitParams at hmap
  obtain ⟨params, hparams, hmap⟩ := Except.bind_eq_ok.mp hmap
  split at hmap
  · cases hmap
  · iterate 3 obtain ⟨_, _, hmap⟩ := Except.bind_eq_ok.mp hmap
    obtain ⟨ntimeHex, hntimeHex, hmap⟩ := Except.bind_eq_ok.mp hmap
    iterate 2 obtain ⟨_, _, hmap⟩ := Except.bind_eq_ok.mp hmap
    obtain ⟨ntime', hntime, hmap⟩ := Except.bind_eq_ok.mp hmap
    iterate 2 obtain ⟨_, _, hmap⟩ := Except.bind_eq_ok.mp hmap
    cases hmap
    refine ⟨ntimeHex, ?_, hntime⟩
    rw [Sv1Request.submitNtime, okOr_eq_ok.mp hparams]
    exact okOr_eq_ok.mp hntimeHex

/-! ## What the API's text is read as -/

/-- The text reads the same with its four pairs of digits in the opposite order. -/
def ReadsSameReversed (s : String) : Prop :=
  s.toList.take 2 = s.toList.drop 6 ∧ (s.toList.drop 2).take 2 = (s.toList.drop 4).take 2

instance (s : String) : Decidable (ReadsSameReversed s) :=
  inferInstanceAs (Decidable (_ ∧ _))

/-- Eight digits are read with the first byte the lowest, which gives the number they denote just
when they read the same in both directions. -/
theorem ntimeHexToU32_of_isLowerHex08 {s : String} (h : Hex.IsLowerHex08 s) :
    ∃ n ntime, s = lowerHex08 n ∧ ntimeHexToU32 s = .ok ntime ∧
      (ntime = n ↔ ReadsSameReversed s) := by
  obtain ⟨b₃, b₂, b₁, b₀, hs⟩ := Hex.exists_encode_of_isLowerHex08 h
  have hlen : [b₃, b₂, b₁, b₀].length = 4 := rfl
  have hbe := toLeBytes_fromBeBytes hlen
  have hle := toLeBytes_fromLeBytes hlen
  refine ⟨fromBeBytes [b₃, b₂, b₁, b₀], fromLeBytes [b₃, b₂, b₁, b₀], ?_, ?_, ?_⟩
  · rw [Hex.lowerHex08_eq_encode, hbe, List.reverse_reverse, hs]
  · unfold ntimeHexToU32
    rw [Hex.trim_of_isLowerHex08 h, hs, Hex.decode_encode]
    rfl
  · have heq : fromLeBytes [b₃, b₂, b₁, b₀] = fromBeBytes [b₃, b₂, b₁, b₀] ↔ b₃ = b₀ ∧ b₂ = b₁ := by
      constructor
      · intro heq
        rw [heq, hbe] at hle
        simp only [List.reverse_cons, List.reverse_nil, List.nil_append, List.cons_append,
          List.cons.injEq, and_true] at hle
        exact ⟨hle.1.symm, hle.2.1.symm⟩
      · rintro ⟨rfl, rfl⟩
        exact (fromBeBytes_reverse [b₃, b₂, b₂, b₃]).symm
    have hdigits : s.toList = Hex.encodeByte b₃ ++ Hex.encodeByte b₂ ++ Hex.encodeByte b₁ ++
        Hex.encodeByte b₀ := by
      rw [hs, Hex.encode, String.toList_ofList]
      simp
    rw [heq, ReadsSameReversed, hdigits, ← Hex.encodeByte_inj (a := b₃),
      ← Hex.encodeByte_inj (a := b₂)]
    simp [Hex.encodeByte]

/-! ## When the block time survives -/

/-- The text of the API's template comes back in the notification of the job and in the report of a
share that carries it, and the job has the time of an RPC template with the number it denotes. -/
structure NtimeSurvives (s : String) (job : Job) : Prop where
  notify : notifyNtime (buildMiningNotify job) = some s
  /-- The notification's text is a block time to `mining.submit`. -/
  submit : ∀ t ∈ notifyNtime (buildMiningNotify job),
    (submitHexU32 t "mining.submit param 3 (ntime)").isOk = true
  report : ∀ {req : Sv1Request} {username jobId : String} {extraNonce2 : Bytes}
    {ntime nonce : UInt32} {versionBits : Option UInt32},
      mapRequestToCommand req =
        .ok (some (.submitShare username jobId extraNonce2 ntime nonce versionBits)) →
      req.submitNtime = notifyNtime (buildMiningNotify job) →
        ∀ state worker ts result poolDifficulty,
          (buildShareRequest ts
            (sessionShare state worker jobId extraNonce2 ntime nonce versionBits) result
              poolDifficulty).ntime = s
  source : ∀ {bitcoin : BitcoinCrate} {template : BlockTemplate} {payoutScriptPubkey : Slice}
    {rpcJob : Job} {n : UInt32},
      templateToJob bitcoin template payoutScriptPubkey = .ok rpcJob →
      u32FromStrRadix16 s = some n → template.curtime = n.toUInt64 → job.ntime = rpcJob.ntime

/-- The block time of a job of the node API survives just when its text reads the same in both
directions. -/
theorem ntimeSurvives_iff {template : NodeApiTemplate} {job : Job}
    (hs : Hex.IsLowerHex08 template.ntime) (hjob : apiTemplateToJob template = .ok job) :
    NtimeSurvives template.ntime job ↔ ReadsSameReversed template.ntime := by
  obtain ⟨n, ntime, htext, hread, hiff⟩ := ntimeHexToU32_of_isLowerHex08 hs
  obtain rfl : job.ntime = ntime :=
    Except.ok.inj ((ntime_of_apiTemplateToJob hjob).symm.trans hread)
  rw [← hiff]
  constructor
  · intro h
    have hnotify := h.notify
    rw [notifyNtime_buildMiningNotify, htext, Option.some.injEq] at hnotify
    exact Hex.lowerHex08_inj.mp hnotify
  · intro hn
    refine ⟨?_, ?_, ?_, ?_⟩
    · rw [notifyNtime_buildMiningNotify, hn, htext]
    · intro t ht
      rw [notifyNtime_buildMiningNotify] at ht
      obtain rfl := Option.some.inj ht
      rw [submitHexU32_lowerHex08]
      rfl
    · intro req username jobId en2 ntime nonce bits hreq hntime state worker ts result d
      obtain ⟨hex, hhex, hparse⟩ := submitNtime_of_mapRequestToCommand hreq
      rw [hhex, notifyNtime_buildMiningNotify, Option.some.injEq] at hntime
      rw [hntime, submitHexU32_lowerHex08] at hparse
      obtain rfl := Except.ok.inj hparse
      show lowerHex08 job.ntime = template.ntime
      rw [hn, htext]
    · intro bitcoin rpc payout rpcJob m hrpc hm hcurtime
      rw [htext, Hex.u32FromStrRadix16_lowerHex08] at hm
      obtain rfl := Option.some.inj hm
      rw [(MappedJob.of_templateToJob hrpc).ntime, hcurtime, hn, ntimeToU32]
      simp

/-- A text that reads the same in both directions. -/
theorem ntimeSurvives_fixture : ∃ job,
    apiTemplateToJob { fixtureApiTemplate with ntime := "69b3b369" } = .ok job ∧
    NtimeSurvives "69b3b369" job := by
  obtain ⟨job, hjob⟩ := Except.exists_of_isOk
    (show (apiTemplateToJob { fixtureApiTemplate with ntime := "69b3b369" }).isOk = true by
      decide +kernel)
  have hs : Hex.IsLowerHex08 "69b3b369" := ⟨by decide, List.all_eq_true.mp (by decide)⟩
  exact ⟨job, hjob, (ntimeSurvives_iff hs hjob).mpr (by decide)⟩

/-- The text of the API's tests goes out with its bytes in the opposite order. -/
theorem not_ntimeSurvives_fixture : Hex.IsLowerHex08 fixtureApiTemplate.ntime ∧ ∃ job,
    apiTemplateToJob fixtureApiTemplate = .ok job ∧
    notifyNtime (buildMiningNotify job) = some "703ab369" ∧
    ¬NtimeSurvives fixtureApiTemplate.ntime job := by
  refine ⟨⟨by decide, List.all_eq_true.mp (by decide)⟩, ?_⟩
  have hany : (apiTemplateToJob fixtureApiTemplate).toOption.any (fun job =>
      decide (lowerHex08 job.ntime = "703ab369")) = true := by
    decide +kernel
  obtain ⟨job, hjob, hntime⟩ := Except.exists_of_any hany
  have hnotify : notifyNtime (buildMiningNotify job) = some "703ab369" := by
    rw [notifyNtime_buildMiningNotify, of_decide_eq_true hntime]
  refine ⟨job, hjob, hnotify, fun h => ?_⟩
  have hsame := h.notify
  rw [hnotify] at hsame
  exact absurd (Option.some.inj hsame) (by decide)

end AzcoinPool
