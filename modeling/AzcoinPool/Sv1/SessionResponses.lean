import AzcoinPool.Sv1.Messages

/-!
# Responses of a session

`session.rs`: the negotiation of version rolling and the builders of the responses and of the
difficulty notification.
-/

namespace AzcoinPool

/-- `SV1_VERSION_ROLLING_MASK`. -/
def sv1VersionRollingMask : UInt32 := 0x1fffe000

/-- `count_ones`. -/
def countOnes (n : UInt32) : UInt32 :=
  UInt32.ofNat ((List.range 32).countP fun i => n.toNat.testBit i)

def negotiateVersionRolling (requested : Sv1VersionRollingConfig) :
    Option Sv1VersionRollingConfig :=
  let mask := sv1VersionRollingMask &&& requested.mask
  if mask = 0 then none else some ⟨mask, min requested.minBitCount (countOnes mask)⟩

/-- What one requested extension adds to the configure response. -/
def configureMember (versionRolling : Option Sv1VersionRollingConfig)
    (result : List (String × Value)) (extension : String) : List (String × Value) :=
  if extension = "version-rolling" then
    match versionRolling with
    | some config =>
      memberInsert "version-rolling.min-bit-count" (.ofU32 config.minBitCount)
        (memberInsert "version-rolling.mask" (.string (lowerHex08 config.mask))
          (memberInsert extension (.bool true) result))
    | none =>
      memberInsert "version-rolling.min-bit-count" (.ofU32 0)
        (memberInsert "version-rolling.mask" (.string "00000000")
          (memberInsert extension (.bool false) result))
  else memberInsert extension (.bool false) result

def buildConfigureResponse (id : Option Value) (extensions : List String)
    (versionRolling : Option Sv1VersionRollingConfig) : Sv1Response where
  id := id
  result := some (.object (extensions.foldl (configureMember versionRolling) []))
  error := none

def buildSubscribeResponse (id : Option Value) (extranonce1 : String) : Sv1Response where
  id := id
  result := some (.array [
    .array [.array [.string "mining.set_difficulty", .string "mining.notify"],
      .string extranonce1, .ofU32 4],
    .string extranonce1, .ofU32 4])
  error := none

def buildAuthorizeSuccess (id : Option Value) : Sv1Response := ⟨id, some (.bool true), none⟩

def buildSetDifficultyNotification (difficulty : UInt32) : Value :=
  .object [("method", .string "mining.set_difficulty"), ("params", .array [.ofU32 difficulty])]

def buildSubmitSuccess (id : Option Value) : Sv1Response := ⟨id, some (.bool true), none⟩

def buildErrorResponse (id : Option Value) (code : Int32) (message : String) : Sv1Response :=
  ⟨id, none, some ⟨code, message⟩⟩

def buildSubmitReject (id : Option Value) (reason : String) : Sv1Response :=
  buildErrorResponse id (-1) reason

end AzcoinPool
