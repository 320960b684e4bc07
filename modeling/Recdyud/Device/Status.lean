import Recdyud.Device.Lifecycle

/-!
# Lock and level

The two questions the diagnostics ask of the tuner, and the wait for a lock.
-/

namespace Recdyud

/-- Lock status values above this mean "TS locked". -/
def lockThreshold : ℕ := 8

def cmdGetLockStatus : Bytes := cmd 0xB1 [0x26, 0x0A, 0x00, 0x00]

def cmdGetSignalLevel : Bytes := cmd 0xD5

structure SignalLevel where
  valid : Bool
  /-- 24-bit, 8.16 fixed point -/
  raw : ℕ
  deriving DecidableEq, Repr

/-- The value BonDriver_dyud reports from GetSignalLevel(). -/
def SignalLevel.value (self : SignalLevel) : ℚ :=
  if self.valid then self.raw / 65536 * 20 else 0

namespace Tuner

variable (P : Primitives) {ω : Type} [UsbDevice ω]

/-- `res[i]` -/
def item (res : Bytes) (i : ℕ) : Method ω UInt8 :=
  match index res i with
  | .ok b => pure b
  | .error _ => throw .indexError

def getLockStatus : Method ω ℕ := do
  let res ← command P cmdGetLockStatus false
  if (← item res 0) = 0 then
    return (← item res 3).toNat
  else
    return 0

def getSignalLevel : Method ω SignalLevel := do
  let res ← command P cmdGetSignalLevel false
  if (← item res 0) ≠ 0 then
    return ⟨false, 0⟩
  else
    return ⟨(← item res 2) ≠ 0, intFromBytes (slice res 3 6)⟩

end Tuner

end Recdyud
