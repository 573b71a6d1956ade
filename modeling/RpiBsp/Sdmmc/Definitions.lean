import Mathlib.Algebra.GroupWithZero.Nat
import Mathlib.Algebra.Ring.Int.Defs
import Mathlib.Order.CompletePartialOrder
import Mathlib.Tactic.Common

/-!
# Sdmmc — definitions

What the layers of the SD/MMC driver share: error numbers, the codes of the sense data, the kinds of
device and the power states.
-/

namespace Sdmmc

/-- The error numbers the driver tells apart. -/
inductive Errno where
  | eok
  | eio
  | enxio
  | enomem
  | eacces
  | ebusy
  | enodev
  | einval
  | erofs
  | enotsup
  | etimedout
deriving DecidableEq, Repr

def ASC_INVALID_FIELD : ℕ := 0x24
def ASC_WRITE_PROTECTED : ℕ := 0x27
def ASC_MEDIA_NOT_PRESENT : ℕ := 0x3a
def ASC_COPY_PROTECTION : ℕ := 0x6f
def ASCQ_READ_SCRAMBLED : ℕ := 0x03
def ASCQ_VU_WRITE_PROTECTED : ℕ := 0xff

/-- `DEV_TYPE_*`. -/
inductive DevType where
  | mmc
  | sd
deriving DecidableEq, Repr

/-- `PM_*`. -/
inductive Pm where
  | idle
  | active
  | sleep
  | suspend
deriving DecidableEq, Repr

end Sdmmc
