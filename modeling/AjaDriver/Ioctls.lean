/-
# The driver's interface

Constants, error codes and the data of `aja_ioctls.h` that the stream
engine reads or writes, and what the driver uses of `timecode.h`, which is
not part of the sources: the timecode type is a parameter of everything.
-/
import AjaDriver.Registers
import AjaDriver.Lib.Word
import Mathlib.Logic.Function.Basic

namespace AjaDriver

/-! ### Error codes -/

def EINTR : ℤ := 4
def EIO : ℤ := 5
def EAGAIN : ℤ := 11
def ENOMEM : ℤ := 12
def EFAULT : ℤ := 14
def EBUSY : ℤ := 16
def ENODEV : ℤ := 19
def EINVAL : ℤ := 22
def ERANGE : ℤ := 34
def EOVERFLOW : ℤ := 75
def ENOTCONN : ℤ := 107
def ETIMEDOUT : ℤ := 110
def ERESTARTSYS : ℤ := 512

/-! ### Constants -/

def ajaMaxpages : ℕ := 64
def ajaMaxchans : ℕ := 2
def ajaSpeedDivisor : ℤ := 1000000

/-- `enum aja_stream_flags`. -/
def ajaCapture : BitVec 32 := 0x01
def ajaPlayback : BitVec 32 := 0x02
def ajaTriggerAudio : BitVec 32 := 0x04

/-- `enum aja_tcg_flags`. -/
def ajaTcgRunning : BitVec 32 := 0x01

/-- The module parameters, with their defaults. -/
structure ModParams where
  force64 : Bool := true
  max_play_speed : ℕ := 3000000
  max_dmalist : ℤ := 4000
  use_dma64 : Bool := true
  dma_merge : Bool := true

/-! ### Timecode -/

/-- `timecode_smpte_t`. -/
structure TimecodeSmpte where
  timecode : BitVec 32
  userbits : BitVec 32
  fps : ℤ

/-- What the driver uses of `timecode.h`. `zero` is a timecode whose bytes
are all 0; `setField2` and `clearField2` are `timecode_set_flag` and
`timecode_clear_flag` with `TimecodeField2`; `compare` is true of equal ones. -/
class Timecode (TC : Type) where
  zero : TC
  init : TC → TC
  isValid : TC → Bool
  inc : TC → TC
  dec : TC → TC
  setField2 : TC → TC
  clearField2 : TC → TC
  makevalidwire : TC → TC
  toRp188 : TC → ℕ × ℕ
  fromRp188 : ℕ × ℕ → TC
  withFps : TC → ℕ → TC
  fps : TC → ℤ
  frame : TC → ℤ
  compare : TC → TC → Bool
  toSmpte : TC → TimecodeSmpte
  fromSmpte : TimecodeSmpte → TC

/-- A count of frames is a timecode, one with no wire format. -/
instance : Timecode ℕ where
  zero := 0
  init _ := 0
  isValid n := decide (n ≠ 0)
  inc n := n + 1
  dec n := n - 1
  setField2 := id
  clearField2 := id
  makevalidwire := id
  toRp188 n := (n, 0)
  fromRp188 rp := rp.1
  withFps n _ := n
  fps _ := 30
  frame n := n % 30
  compare m n := decide (m = n)
  toSmpte n := ⟨BitVec.ofNat 32 n, 0, 30⟩
  fromSmpte stc := stc.timecode.toNat

/-- `enum aja_timecode_types`. -/
inductive TimecodeType
  | internal
  | sdi1
  | sdi2
  | ltc
  deriving DecidableEq, Repr

/-! ### Frames and pages -/

/-- `aja_frametime_t`. -/
structure FrameTime (TC : Type) where
  id : ℤ
  line : ℕ
  timer : ℕ
  tstamp : ℤ
  tcg : TC
  priv : ℕ

/-- `aja_stream_meta_t`. -/
structure StreamMeta (TC : Type) where
  timing : FrameTime TC
  flags : ℤ
  inc : ℤ
  chan : ℤ
  audioptr : ℕ
  priv : ℕ
  tc : TimecodeType → TC

/-- A page's metadata after `memset` to 0. -/
def StreamMeta.zero {TC : Type} [Timecode TC] : StreamMeta TC where
  timing := ⟨0, 0, 0, 0, Timecode.zero, 0⟩
  flags := 0
  inc := 0
  chan := 0
  audioptr := 0
  priv := 0
  tc := fun _ => Timecode.zero

/-- `aja_stream_init_t`. -/
structure StreamInit where
  pagect : ℤ
  flags : BitVec 32
  chans : ℤ
  tcsource : ℤ

/-- `IsValidPage`. -/
def isValidPage (v : ℤ) : Bool :=
  if v < 0 then false
  else if v ≥ ajaMaxpages then false
  else true

@[simp] theorem isValidPage_iff (v : ℤ) : isValidPage v = true ↔ 0 ≤ v ∧ v < 64 := by
  unfold isValidPage ajaMaxpages
  split_ifs <;> simp <;> omega

end AjaDriver
