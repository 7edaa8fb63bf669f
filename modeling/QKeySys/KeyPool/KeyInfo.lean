/-! Keys of the key pool, their texts and the times that decide their status. -/

namespace QKeySys.KeyPool

/-- The bytes of a C string before its terminator, as characters. -/
abbrev CString := List Char

/-- What fits into a buffer of `max` bytes with the terminator, for `strncpy` with a forced
terminator and for `snprintf`.
-/
def fit (max : Nat) (text : CString) : CString := text.take (max - 1)

/-- A decimal number as `%d` and `%lld` print it. -/
def decimal (n : Int) : CString :=
  if n < 0 then '-' :: Nat.toDigits 10 n.natAbs else Nat.toDigits 10 n.natAbs

/-- An `int64_t` result. -/
def int64 (n : Int) : Int := Int.bmod n UInt64.size

/-- An `int` result. -/
def int32 (n : Int) : Int := Int.bmod n UInt32.size

/-- `INT_MAX` -/
abbrev intMax : Int := 2147483647

/-- `PTRDIFF_MAX` -/
abbrev ptrdiffMax : Nat := 9223372036854775807

/-- `KEY_ID_MAX_LEN` -/
def keyIdMaxLen : Nat := 64

/-- `KEY_VALUE_MAX_LEN` -/
def keyValueMaxLen : Nat := 128

inductive KeyStatus where
  | valid
  | frozen
  | deleted
  deriving DecidableEq, Repr

/-- A key; `serial` is auxiliary and numbers the initialisations. -/
structure KeyInfo where
  keyId : CString
  keyValue : CString
  createTs : Int
  status : KeyStatus
  serial : Nat
  deriving DecidableEq, Repr

/-- `sizeof(KeyInfo)`: the two buffers, the time, the status and the padding behind it. -/
def sizeofKeyInfo : Nat := keyIdMaxLen + keyValueMaxLen + 8 + 4 + 4

/-- The part of the configuration that the pool reads. `freezeDuration` is the result of
`KeyConfig_GetFreezeDuration`, which the code computes in floating point.
-/
structure KeyConfig where
  keyValidity : Int
  freezeDuration : Int
  validThreshold : Int
  deriving DecidableEq, Repr

/-- `DEFAULT_CONFIG`, with a freeze ratio of 30%. -/
def defaultConfig : KeyConfig where
  keyValidity := 60
  freezeDuration := 18
  validThreshold := 3

/-- `KeyInfo_Init` -/
def KeyInfo.init (keyId keyValue : CString) (createTs : Int) (serial : Nat) : KeyInfo where
  keyId := fit keyIdMaxLen keyId
  keyValue := fit keyValueMaxLen keyValue
  createTs := createTs
  status := .valid
  serial := serial

/-- `KeyInfo_GetExpireTime` -/
def getExpireTime (key : KeyInfo) (config : KeyConfig) : Int :=
  int64 (key.createTs + config.keyValidity)

/-- `KeyInfo_GetDeleteTime` -/
def getDeleteTime (key : KeyInfo) (config : KeyConfig) : Int :=
  int64 (getExpireTime key config + config.freezeDuration)

/-- The status of a key at a time. -/
def statusAt (key : KeyInfo) (config : KeyConfig) (now : Int) : KeyStatus :=
  if now < getExpireTime key config then .valid
  else if now < getDeleteTime key config then .frozen
  else .deleted

/-- `KeyManager_UpdateKeyStatus`, at the time it reads. -/
def updateKeyStatus (key : KeyInfo) (config : KeyConfig) (now : Int) : KeyInfo :=
  { key with status := statusAt key config now }

/-- A decimal number has digits only, behind a minus sign at most. -/
theorem mem_decimal {n : Int} {c : Char} (inside : c ∈ decimal n) : c = '-' ∨ c.isDigit := by
  have digit (inside : c ∈ Nat.toDigits 10 n.natAbs) : c.isDigit :=
    Nat.isDigit_of_mem_toDigits (by decide) (by decide) inside
  unfold decimal at inside
  split at inside
  · exact (List.mem_cons.mp inside).imp_right digit
  · exact .inr (digit inside)

/-- A key is valid exactly before its expiry. -/
theorem statusAt_eq_valid {key : KeyInfo} {config : KeyConfig} {now : Int}
    : statusAt key config now = .valid ↔ now < getExpireTime key config := by
  unfold statusAt
  split
  case isTrue early => simp [early]
  case isFalse late => split <;> simp [late]

end QKeySys.KeyPool
