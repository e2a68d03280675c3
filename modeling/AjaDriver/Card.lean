/-
# The card structure

The fields of `aja_card_t` the stream engine works on, and the small
operations everything else is written with: a register write, the use of an
array index, the audio and timecode helpers. What the driver writes to the
card, the LTC board and the P2 slave is kept in order in `io`; what it reads
from them is an argument of the operation that reads it.
-/
import AjaDriver.Pool

namespace AjaDriver

open Function

/-- `aja_lastpage_t`. -/
structure LastPage where
  page : ℤ
  type : BitVec 32

/-- `aja_stream_drop_t`; the `int` `count` is an integer without a bound. -/
structure StreamDrop (TC : Type) where
  count : ℤ
  id : ℤ
  tc : TC

/-- `aja_stream_t`; `pool` groups `pagealloc`, `pfirst`, `plast` and `fifo`. -/
structure Stream (TC : Type) where
  pid : ℤ
  flags : BitVec 32
  pagect : ℤ
  chans : ℤ
  tcsource : ℤ
  spdct : ℤ
  speed : ℤ
  running : Bool
  drop : StreamDrop TC
  trigger : ℤ
  atrig : BitVec 32
  last : ℤ → LastPage
  pagemeta : ℤ → StreamMeta TC
  pool : Pool

/-- `aja_frameinfo_t`. -/
structure FrameInfo (TC : Type) where
  id : ℤ
  time : FrameTime TC

/-- `aja_tcg_t`. -/
structure Tcg (TC : Type) where
  flags : BitVec 32
  value : TC

/-- `aja_audio_t`. -/
structure Audio where
  frames : ℤ
  running : Bool

/-- What the driver writes: registers of the card (`aja_prset`), the LTC
board (`pcitc.run`, `pcitc.writetc`, `pcitc.sync`), the P2 slave's timecode. -/
inductive Io (TC : Type)
  | prset (preg : Register) (value : ℤ)
  | ltcRun (val : Bool)
  | ltcWrite (tc : TC)
  | ltcSync (val : Bool)
  | p2slaveSetTc (tc : TC)

/-- The part of `aja_card_t` the stream engine works on; `pcitc` and `p2slave`
say whether the card has an LTC board and a P2 slave. -/
structure Card (TC : Type) where
  frame : FrameInfo TC
  stream : Stream TC
  tcg : Tcg TC
  aplay : Audio
  pcitc : Bool
  p2slave : Bool
  io : List (Io TC)

variable {TC : Type}

namespace Card

/-- `aja_prset`. -/
def prset (c : Card TC) (preg : Register) (value : ℤ) : Card TC :=
  { c with io := c.io ++ [.prset preg value] }

theorem frame_prset (c : Card TC) (preg : Register) (value : ℤ) :
    (c.prset preg value).frame = c.frame := rfl

/-- A call to the LTC board or the P2 slave. -/
def send (c : Card TC) (e : Io TC) : Card TC := { c with io := c.io ++ [e] }

/-- The card with another pool. -/
def withPool (c : Card TC) (P : Pool) : Card TC := { c with stream := { c.stream with pool := P } }

/-- Index `i` is used into array `t`. -/
def touch (c : Card TC) (t : Tbl) (i : ℤ) : Card TC := c.withPool (c.stream.pool.touch t i)

/-- Write the metadata of a page. -/
def setMeta (c : Card TC) (page : ℤ) (m : StreamMeta TC) : Card TC :=
  { c.touch .pagemeta page with
    stream := { (c.touch .pagemeta page).stream with pagemeta := update c.stream.pagemeta page m } }

/-- Record the page a channel was given last. -/
def setLast (c : Card TC) (chan : ℤ) (l : LastPage) : Card TC :=
  { c.touch .last chan with
    stream := { (c.touch .last chan).stream with last := update c.stream.last chan l } }

/-- Write `frame.time.priv`. -/
def setPriv (c : Card TC) (priv : ℕ) : Card TC :=
  { c with frame := { c.frame with time := { c.frame.time with priv := priv } } }

/-! ### Audio -/

/-- `aja_aplay_start`. -/
def aplayStart (c : Card TC) : Card TC := (c.prset aplayreset 1).prset aplayreset 0

/-- `aja_aplay_stop`. -/
def aplayStop (c : Card TC) : Card TC := c.prset aplayreset 1

/-- `aja_acap_start`. -/
def acapStart (c : Card TC) : Card TC :=
  ((((((c.prset dma3irqenable 1).prset acapreset 1).prset acapenable 0).prset acapreset 0).prset
    acapreset 1).prset acapreset 0).prset acapenable 1

/-- `aja_acap_stop`. -/
def acapStop (c : Card TC) : Card TC := c.prset acapenable 0

/-! ### Timecode -/

/-- `aja_timecode_setflags`. -/
def timecodeSetflags (c : Card TC) (flags : BitVec 32) : Card TC :=
  { c with tcg := { c.tcg with flags := c.tcg.flags ||| flags } }

/-- `aja_timecode_clrflags`. -/
def timecodeClrflags (c : Card TC) (flags : BitVec 32) : Card TC :=
  { c with tcg := { c.tcg with flags := c.tcg.flags &&& ~~~flags } }

/-- `pcitc.run`, when the card has an LTC board. -/
def ltcRun (c : Card TC) (val : Bool) : Card TC := if c.pcitc then c.send (.ltcRun val) else c

theorem frame_ltcRun (c : Card TC) (val : Bool) : (c.ltcRun val).frame = c.frame := by
  unfold ltcRun
  split_ifs <;> rfl

theorem tcg_ltcRun (c : Card TC) (val : Bool) : (c.ltcRun val).tcg = c.tcg := by
  unfold ltcRun
  split_ifs <;> rfl

/-- Change the timecode generator's value. -/
def mapTcg (c : Card TC) (f : TC → TC) : Card TC :=
  { c with tcg := { c.tcg with value := f c.tcg.value } }

variable [Timecode TC]

/-- A card just allocated: every byte 0. -/
def new (pcitc p2slave : Bool) : Card TC where
  frame := ⟨0, ⟨0, 0, 0, 0, Timecode.zero, 0⟩⟩
  stream :=
    { pid := 0
      flags := 0
      pagect := 0
      chans := 0
      tcsource := 0
      spdct := 0
      speed := 0
      running := false
      drop := ⟨0, 0, Timecode.zero⟩
      trigger := 0
      atrig := 0
      last := fun _ => ⟨0, 0⟩
      pagemeta := fun _ => StreamMeta.zero
      pool :=
        { pagealloc := fun _ => ⟨none, none, 0, false⟩
          pfirst := none
          plast := none
          fifo := 0
          touched := [] } }
  tcg := ⟨0, Timecode.zero⟩
  aplay := ⟨0, false⟩
  pcitc := pcitc
  p2slave := p2slave
  io := []

/-- `aja_timecode_set_sdi1`. -/
def timecodeSetSdi1 (c : Card TC) (tc : TC) : Card TC :=
  (c.prset ch1rp188_1 (Timecode.toRp188 tc).1).prset ch1rp188_2 (Timecode.toRp188 tc).2

/-- `aja_timecode_set_sdi2`. -/
def timecodeSetSdi2 (c : Card TC) (tc : TC) : Card TC :=
  (c.prset ch2rp188_1 (Timecode.toRp188 tc).1).prset ch2rp188_2 (Timecode.toRp188 tc).2

/-- `aja_timecode_set_ltc`; `gen` is what `pcitc.readtcgen` reads, `none` when
it fails. -/
def timecodeSetLtc (c : Card TC) (gen : Option TC) (ntc : TC) : Card TC :=
  if !c.pcitc then c
  else
    match gen with
    | none => c
    | some tc => if !Timecode.compare tc ntc then c.send (.ltcWrite ntc) else c

/-- At most the timecode goes to the LTC board. -/
theorem timecodeSetLtc_cases (c : Card TC) (gen : Option TC) (ntc : TC) :
    c.timecodeSetLtc gen ntc = c ∨ c.timecodeSetLtc gen ntc = c.send (.ltcWrite ntc) := by
  unfold timecodeSetLtc
  split_ifs
  · exact .inl rfl
  · cases gen with
    | none => exact .inl rfl
    | some tc =>
      simp only
      split_ifs
      · exact .inr rfl
      · exact .inl rfl

end Card

/-- `aja_timecode_getfps`, of the frame rate register's value. -/
def timecodeGetfps (d : ℕ) : ℕ :=
  match d with
  | 1 => 60
  | 2 => 60
  | 3 => 30
  | 4 => 30
  | 5 => 25
  | 6 => 24
  | 7 => 24
  | _ => 0

/-- `aja_timecode_get_sdi1` and `aja_timecode_get_sdi2`, of the values of the
channel's two RP188 registers and of the frame rate register. -/
def timecodeGetSdi [Timecode TC] (rp : ℕ × ℕ) (framerate : ℕ) : TC :=
  Timecode.withFps (Timecode.fromRp188 rp) (timecodeGetfps framerate)

end AjaDriver
