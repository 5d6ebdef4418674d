import AzcoinPool.Sv1.Dispatch
import Mathlib.Data.List.DropRight

/-!
# What `mining.configure` tells the miner

The response's members on version rolling against the state behind the request. The member
`version-rolling` writes the mask and the bit count of the session, but every further name of the
list is answered with `false`, also the names of these two members: the last writer wins
(`memberGet_configure`). So the response agrees with the session just when neither name comes behind
the last `version-rolling` (`configureAgrees_iff`).
-/

namespace AzcoinPool

/-! ## Members -/

theorem memberGet_cons (key k : String) (v : Value) (members : List (String × Value)) :
    memberGet ((k, v) :: members) key = if key = k then some v else memberGet members key := by
  rw [memberGet, List.lookup_cons]
  by_cases h : key = k
  · subst h
    rw [if_pos rfl, beq_self_eq_true]
  · rw [if_neg h, beq_false_of_ne h]
    rfl

/-- An insertion changes the member of its name. -/
theorem memberGet_memberInsert (key key' : String) (value : Value)
    (members : List (String × Value)) :
    memberGet (memberInsert key value members) key' =
      if key' = key then some value else memberGet members key' := by
  induction members with
  | nil => rw [memberInsert, memberGet_cons]
  | cons member members ih =>
    obtain ⟨k, v⟩ := member
    rw [memberInsert, memberGet_cons key' k]
    by_cases hk : k = key
    · subst hk
      rw [if_pos rfl, memberGet_cons]
      split <;> rfl
    · rw [if_neg hk, memberGet_cons, ih]
      by_cases h : key' = k
      · subst h
        rw [if_pos rfl, if_neg hk, if_pos rfl]
      · rw [if_neg h, if_neg h]

/-- The members a session's version rolling is told in. -/
def versionRollingMembers : List String :=
  ["version-rolling", "version-rolling.mask", "version-rolling.min-bit-count"]

/-- What such a member says of a session's version rolling. -/
def toldMember (versionRolling : Option Sv1VersionRollingConfig) (key : String) : Value :=
  if key = "version-rolling" then .bool versionRolling.isSome
  else if key = "version-rolling.mask" then
    .string (lowerHex08 ((versionRolling.map (·.mask)).getD 0))
  else .ofU32 ((versionRolling.map (·.minBitCount)).getD 0)

/-- The name `version-rolling` writes the three members. -/
theorem memberGet_configureMember_self (versionRolling : Option Sv1VersionRollingConfig)
    (result : List (String × Value)) {key : String} (hkey : key ∈ versionRollingMembers) :
    memberGet (configureMember versionRolling result "version-rolling") key =
      some (toldMember versionRolling key) := by
  have hzero : lowerHex08 0 = "00000000" := by decide +kernel
  simp only [versionRollingMembers, List.mem_cons, List.not_mem_nil, or_false] at hkey
  unfold configureMember
  rw [if_pos rfl]
  cases versionRolling <;> rcases hkey with rfl | rfl | rfl <;>
    simp [memberGet_memberInsert, toldMember, hzero]

/-- Any other name is answered with `false`. -/
theorem memberGet_configureMember_of_ne (versionRolling : Option Sv1VersionRollingConfig)
    (result : List (String × Value)) {extension : String} (h : extension ≠ "version-rolling")
    (key : String) :
    memberGet (configureMember versionRolling result extension) key =
      if key = extension then some (.bool false) else memberGet result key := by
  unfold configureMember
  rw [if_neg h, memberGet_memberInsert]

/-! ## The whole list -/

/-- The names behind the last `version-rolling`. -/
def namesBehind (extensions : List String) : List String :=
  extensions.rtakeWhile fun extension => decide (extension ≠ "version-rolling")

theorem not_mem_namesBehind (extensions : List String) :
    "version-rolling" ∉ namesBehind extensions := by
  intro h
  have hne := List.mem_rtakeWhile_imp h
  exact of_decide_eq_true hne rfl

/-- A member says what the session has, unless its name comes behind the last `version-rolling`. -/
theorem memberGet_configure (versionRolling : Option Sv1VersionRollingConfig)
    {extensions : List String} (h : "version-rolling" ∈ extensions) {key : String}
    (hkey : key ∈ versionRollingMembers) :
    memberGet (extensions.foldl (configureMember versionRolling) []) key =
      if key ∈ namesBehind extensions then some (.bool false)
      else some (toldMember versionRolling key) := by
  induction extensions using List.reverseRecOn with
  | nil => cases h
  | append_singleton extensions extension ih =>
    rw [List.foldl_concat, namesBehind, List.rtakeWhile_concat]
    by_cases hlast : extension = "version-rolling"
    · subst hlast
      simp only [ne_eq, not_true_eq_false, decide_false, Bool.false_eq_true, if_false,
        List.not_mem_nil]
      exact memberGet_configureMember_self versionRolling _ hkey
    · have hmem : "version-rolling" ∈ extensions := by
        rcases List.mem_append.mp h with h | h
        · exact h
        · exact absurd (List.mem_singleton.mp h).symm hlast
      rw [memberGet_configureMember_of_ne versionRolling _ hlast, ih hmem,
        if_pos (decide_eq_true hlast), ← namesBehind]
      by_cases hk : key = extension
      · rw [if_pos hk, if_pos (by rw [hk]; simp)]
      · rw [if_neg hk]
        have hmem_iff : key ∈ namesBehind extensions ++ [extension] ↔
            key ∈ namesBehind extensions := by
          rw [List.mem_append, List.mem_singleton, or_iff_left hk]
        simp only [hmem_iff]

/-! ## Agreement -/

/-- A configure response tells the version rolling of a session: its mask in eight digits, whether
there is one, and its bit count, which is no more than the mask has bits. -/
def ConfigureAgrees (response : Sv1Response) (state : SessionState) : Prop :=
  let mask := (state.versionRolling.map (·.mask)).getD 0
  let count := (state.versionRolling.map (·.minBitCount)).getD 0
  ∃ members, response.result = some (.object members) ∧
    memberGet members "version-rolling.mask" = some (.string (lowerHex08 mask)) ∧
    memberGet members "version-rolling" = some (.bool state.versionRolling.isSome) ∧
    memberGet members "version-rolling.min-bit-count" = some (.ofU32 count) ∧
    count ≤ countOnes mask

theorem negotiated_minBitCount_le (requested : Option Sv1VersionRollingConfig) :
    let negotiated := requested.bind negotiateVersionRolling
    (negotiated.map (·.minBitCount)).getD 0 ≤ countOnes ((negotiated.map (·.mask)).getD 0) := by
  have hzero (n : UInt32) : 0 ≤ n := UInt32.le_iff_toNat_le.mpr (Nat.zero_le _)
  intro negotiated
  cases hneg : negotiated with
  | none => exact hzero _
  | some config =>
    obtain ⟨requested, -, hrequested⟩ := Option.bind_eq_some_iff.mp hneg
    rw [negotiateVersionRolling] at hrequested
    split at hrequested
    · cases hrequested
    · cases hrequested
      have hmin (a b : UInt32) : min a b = if a ≤ b then a else b := rfl
      simp only [Option.map_some, Option.getD_some, hmin]
      split
      · next h => exact h
      · exact UInt32.le_refl _

/-- A `mining.configure` for version rolling is answered with what the session has behind it just
when the names of the mask and of the bit count do not come behind the last `version-rolling`. -/
theorem configureAgrees_iff (next : UInt32) (state : SessionState) {req : Sv1Request}
    {extensions : List String} {versionRolling : Option Sv1VersionRollingConfig}
    (hcmd : mapRequestToCommand req = .ok (some (.configure extensions versionRolling)))
    (hrequested : "version-rolling" ∈ extensions) :
    ∃ state' response, dispatchRequest next state req = .done next state' response ∧
      (ConfigureAgrees response state' ↔
        "version-rolling.mask" ∉ namesBehind extensions ∧
        "version-rolling.min-bit-count" ∉ namesBehind extensions) := by
  refine ⟨_, _, by rw [dispatchRequest, hcmd], ?_⟩
  have hmember {key : String} (hkey : key ∈ versionRollingMembers) :=
    memberGet_configure (versionRolling.bind negotiateVersionRolling) hrequested hkey
  constructor
  · rintro ⟨members, hmembers, hmask, -, hcount, -⟩
    cases hmembers
    rw [hmember (by decide)] at hmask hcount
    constructor
    · intro h
      rw [if_pos h] at hmask
      cases hmask
    · intro h
      rw [if_pos h] at hcount
      cases hcount
  · rintro ⟨hmask, hcount⟩
    refine ⟨_, rfl, ?_, ?_, ?_, negotiated_minBitCount_le versionRolling⟩
    · rw [hmember (by decide), if_neg hmask]
      rfl
    · rw [hmember (by decide), if_neg (not_mem_namesBehind extensions)]
      rfl
    · rw [hmember (by decide), if_neg hcount]
      rfl

/-- A configure request for a list of extensions. -/
def fixtureConfigure (extensions : List String) : Sv1Request where
  id := some (.ofU32 1)
  method := "mining.configure"
  params := some (.array [.array (extensions.map .string),
    .object [("version-rolling.mask", .string "1fffe000")]])

theorem configureAgrees_fixture : ∃ state' response,
    dispatchRequest 1 {} (fixtureConfigure ["version-rolling.mask", "version-rolling"]) =
      .done 1 state' response ∧ ConfigureAgrees response state' := by
  have hcmd : mapRequestToCommand (fixtureConfigure ["version-rolling.mask", "version-rolling"]) =
      .ok (some (.configure ["version-rolling.mask", "version-rolling"]
        (some ⟨0x1fffe000, 0⟩))) := by
    decide +kernel
  obtain ⟨state', response, hdispatch, hagrees⟩ := configureAgrees_iff 1 {} hcmd (by decide)
  exact ⟨state', response, hdispatch, hagrees.mpr (by decide)⟩

/-- A list that names the mask behind `version-rolling`: the miner is told `false` for a mask. -/
theorem not_configureAgrees :
    ¬∀ (next : UInt32) (state : SessionState) (req : Sv1Request) (extensions : List String)
        (versionRolling : Option Sv1VersionRollingConfig) (state' : SessionState)
        (response : Sv1Response),
      mapRequestToCommand req = .ok (some (.configure extensions versionRolling)) →
      "version-rolling" ∈ extensions →
      dispatchRequest next state req = .done next state' response →
      ConfigureAgrees response state' := by
  intro h
  have hcmd : mapRequestToCommand (fixtureConfigure ["version-rolling", "version-rolling.mask"]) =
      .ok (some (.configure ["version-rolling", "version-rolling.mask"]
        (some ⟨0x1fffe000, 0⟩))) := by
    decide +kernel
  obtain ⟨members, hmembers, hmask, -⟩ := h 1 {} _ _ _ _ _ hcmd (by decide)
    (by rw [dispatchRequest, hcmd])
  cases hmembers
  have hfalse : memberGet (["version-rolling", "version-rolling.mask"].foldl
      (configureMember ((some ⟨0x1fffe000, 0⟩ : Option Sv1VersionRollingConfig).bind
        negotiateVersionRolling)) []) "version-rolling.mask" = some (.bool false) := by
    rw [memberGet_configure _ (by decide) (by decide), if_pos (by decide)]
  rw [hfalse] at hmask
  cases hmask

end AzcoinPool
