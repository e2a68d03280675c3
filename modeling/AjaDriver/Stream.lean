/-
# The stream engine

The stream ioctls and the interrupt-side engine of `aja.c`: init, start and
stop, the client's page calls, and what a frame interrupt does to a stream
(`streamFreeup`, `streamPlayback`, `streamCapture`).

A `for` loop that may return early is a recursion whose result says how it
ended: `bumpLoop` is the speed bump of `aja_stream_playback`, `loadLoop` its
load of one page for each channel, `captureLoop` the loop of
`aja_stream_capture`.
-/
import AjaDriver.Card

namespace AjaDriver

open Function Word

variable {TC : Type}

/-! ### Init, start and stop -/

/-- `aja_stream_clear`, run by process `pid`. -/
def streamClear (c : Card TC) (pid : ℤ) : Card TC :=
  { c with
    stream := { c.stream with
      pid := pid
      pagect := 0
      spdct := 0
      chans := 0
      drop := { c.stream.drop with count := 0, id := 0 }
      running := false
      trigger := 0
      speed := 1 * ajaSpeedDivisor
      last := fun i => if 0 ≤ i ∧ i < ajaMaxchans then ⟨0, 0⟩ else c.stream.last i
      pool := c.stream.pool.clear } }

/-- `stinit.chans` after the two bounds of `aja_ioctl_stream_init`. -/
def clampChans (chans : ℤ) : ℤ :=
  let chans := if chans < 1 then 1 else chans
  if chans > ajaMaxchans then ajaMaxchans else chans

/-- `aja_ioctl_stream_init`. -/
def streamInit (c : Card TC) (pid : ℤ) (stinit : StreamInit) : Card TC :=
  let chans := clampChans stinit.chans
  let pagect := if stinit.pagect > ajaMaxpages then (ajaMaxpages : ℤ) else stinit.pagect
  let c := streamClear c pid
  let c := { c with
    stream := { c.stream with
      flags := stinit.flags
      pagect := pagect
      chans := chans
      tcsource := stinit.tcsource } }
  let c := c.prset regclocking 2
  let c :=
    if stinit.flags &&& ajaPlayback ≠ 0 then (c.prset ch1mode 0).prset ch2mode 0
    else (c.prset ch1mode 1).prset ch2mode 1
  c.prset ch2disable (if chans > 1 then 0 else 1)

/-- `aja_stream_start`. -/
def streamStart (c : Card TC) : Card TC :=
  let c := { c with
    stream := { c.stream with
      trigger := 0
      atrig := c.stream.flags &&& ajaTriggerAudio
      running := true } }
  (c.ltcRun true).timecodeSetflags ajaTcgRunning

theorem frame_streamStart (c : Card TC) : (streamStart c).frame = c.frame :=
  Card.frame_ltcRun _ true

theorem tcg_streamStart (c : Card TC) :
    (streamStart c).tcg.flags = c.tcg.flags ||| ajaTcgRunning := by
  unfold streamStart
  simp only [Card.timecodeSetflags, Card.tcg_ltcRun]

theorem value_streamStart (c : Card TC) : (streamStart c).tcg.value = c.tcg.value := by
  unfold streamStart
  simp only [Card.timecodeSetflags, Card.tcg_ltcRun]

/-- `aja_stream_stop`. -/
def streamStop (c : Card TC) : Card TC :=
  let c := { c with stream := { c.stream with trigger := 0, atrig := 0, running := false } }
  let c := (c.ltcRun false).timecodeClrflags ajaTcgRunning
  let c :=
    if c.stream.flags &&& ajaTriggerAudio ≠ 0 then
      let c := if c.stream.flags &&& ajaPlayback ≠ 0 then c.aplayStop else c
      if c.stream.flags &&& ajaCapture ≠ 0 then c.acapStop else c
    else c
  ((c.prset ch1mode 0).prset ch2mode 0).prset regclocking 0

/-- How `aja_wait_for_frame` ends. -/
inductive FrameWait
  | frame
  | timeout
  | signal
  deriving DecidableEq, Repr

/-- `aja_ioctl_stream_start`. -/
def ioctlStreamStart (c : Card TC) (w : FrameWait) : ℤ × Card TC :=
  if c.stream.running then (-EBUSY, c)
  else
    let c := c.prset regclocking 2
    let c := { c with stream := { c.stream with speed := 1 * ajaSpeedDivisor, spdct := 0 } }
    match w with
    | .signal => (-EINTR, c)
    | .timeout => (-ETIMEDOUT, c)
    | .frame => (0, streamStart c)

/-- `aja_ioctl_stream_stop`. -/
def ioctlStreamStop (c : Card TC) (w : FrameWait) : ℤ × Card TC :=
  match w with
  | .signal => (-EINTR, c)
  | .timeout => (-ETIMEDOUT, c)
  | .frame => (0, streamStop c)

/-- `aja_release`, for process `pid`. -/
def release (c : Card TC) (pid : ℤ) : Card TC :=
  if c.stream.running ∧ pid = c.stream.pid then streamStop c else c

/-! ### The client's calls -/

/-- `aja_ioctl_stream_page_alloc`. -/
def ioctlPageAlloc (c : Card TC) : ℤ × Card TC :=
  let r := c.stream.pool.streamPageAlloc c.stream.pagect
  (r.1, c.withPool r.2)

/-- `aja_ioctl_stream_page_free`. -/
def ioctlPageFree (c : Card TC) (page : ℤ) : ℤ × Card TC :=
  (0, c.withPool (c.stream.pool.streamPageFree page))

/-- `aja_ioctl_stream_fifo_push`. -/
def ioctlFifoPush (c : Card TC) (page : ℤ) : ℤ × Card TC :=
  let r := c.stream.pool.streamFifoPush page
  (r.1, c.withPool r.2)

/-- `aja_ioctl_stream_fifo_pop`. -/
def ioctlFifoPop (c : Card TC) : ℤ × Card TC :=
  let r := c.stream.pool.streamFifoPop
  (r.1, c.withPool r.2)

/-- `aja_ioctl_stream_getmeta`: the result and the metadata copied out. -/
def ioctlGetmeta (c : Card TC) (page : ℤ) : (ℤ × Option (StreamMeta TC)) × Card TC :=
  if !isValidPage page then ((-1, none), c)
  else ((0, some (c.stream.pagemeta page)), c.touch .pagemeta page)

/-- `aja_ioctl_stream_setmeta`. -/
def ioctlSetmeta (c : Card TC) (page : ℤ) (m : StreamMeta TC) : ℤ × Card TC :=
  if !isValidPage page then (-1, c) else (0, c.setMeta page m)

/-- The speed `aja_ioctl_stream_setspeed` stores: the bound is an `unsigned
int`, so the request is compared with it as one. -/
def clampSpeed (M : ModParams) (speed : ℤ) : ℤ :=
  if unsigned speed > M.max_play_speed then wrap M.max_play_speed else speed

/-- `aja_ioctl_stream_setspeed`. -/
def ioctlSetspeed (M : ModParams) (c : Card TC) (speed : ℤ) : ℤ × Card TC :=
  (0, { c with stream := { c.stream with speed := clampSpeed M speed } })

/-- `aja_ioctl_stream_settrig`. -/
def ioctlSettrig (c : Card TC) (trig : ℤ) : ℤ × Card TC :=
  if c.frame.id ≥ trig then (-EINVAL, c)
  else (0, { c with stream := { c.stream with trigger := trig } })

/-! ### The interrupt side -/

/-- `aja_stream_speedcount`: the frames due, and the stream with the rest
left in the accumulator. -/
def streamSpeedcount (s : Stream TC) : ℤ × Stream TC :=
  let spdct := wrap (s.spdct + s.speed)
  let frms := spdct.tdiv ajaSpeedDivisor
  (frms, { s with spdct := spdct - frms * ajaSpeedDivisor })

/-- `aja_stream_drop`. -/
def streamDrop (c : Card TC) : Card TC :=
  { c with
    stream := { c.stream with
      drop := { count := c.stream.drop.count + 1, id := c.frame.id, tc := c.tcg.value } } }

/-- What `aja_stream_freeup` reads: the audio pointer and the timecodes. -/
structure FreeupIn (TC : Type) where
  aptr : ℕ
  sdi1 : TC
  sdi2 : TC
  ltc : TC

/-- The metadata `aja_stream_freeup` completes on a captured page. -/
def FreeupIn.mark (x : FreeupIn TC) (m : StreamMeta TC) : StreamMeta TC :=
  { m with
    audioptr := x.aptr
    tc := update (update (update m.tc .sdi1 x.sdi1) .sdi2 x.sdi2) .ltc x.ltc }

/-- One round of the loop of `aja_stream_freeup`. -/
def freeupSlot (x : FreeupIn TC) (i : ℤ) (c : Card TC) : Card TC :=
  let l := c.stream.last i
  let c :=
    if l.type &&& ajaPlayback ≠ 0 then c.withPool (c.stream.pool.streamPageFree l.page) else c
  let c :=
    if l.type &&& ajaCapture ≠ 0 then
      let c := c.setMeta l.page (x.mark (c.stream.pagemeta l.page))
      c.withPool (c.stream.pool.streamFifoPush l.page).2
    else c
  c.setLast i { l with type := 0 }

/-- `aja_stream_freeup`. -/
def streamFreeup (x : FreeupIn TC) (c : Card TC) : Card TC := freeupSlot x 1 (freeupSlot x 0 c)

/-- `aja_stream_playback_frame`. -/
def streamPlaybackFrame (c : Card TC) (chan : ℤ) : ℤ × Card TC :=
  let r := c.stream.pool.streamFifoPop
  let newp := r.1
  let c := c.withPool r.2
  let reg := if chan ≠ 0 then ch2output else ch1output
  if newp < 0 then (-ENOMEM, c)
  else
    let c := c.touch .pagemeta newp
    if (c.stream.pagemeta newp).chan ≠ chan then (-EINVAL, c)
    else
      let c := c.prset reg newp
      (newp, c.setLast chan { type := ajaPlayback, page := newp })

/-- Pop one page for each of `n` channels; `false` when the FIFO ran dry. -/
def bumpChans : ℕ → Pool → Bool × Pool
  | 0, P => (true, P)
  | n + 1, P =>
    if P.streamFifoPop.1 < 0 then (false, P.streamFifoPop.2) else bumpChans n P.streamFifoPop.2

/-- How the speed bump ends: all pages popped, the level too low for another
round, or the FIFO empty in the middle of one. -/
inductive BumpEnd
  | done
  | short
  | dry
  deriving DecidableEq, Repr

/-- The speed bump: pop the pages of `k` frames. -/
def bumpLoop (chans : ℤ) : ℕ → Pool → BumpEnd × Pool
  | 0, P => (.done, P)
  | k + 1, P =>
    if P.fifo < chans then (.short, P)
    else if (bumpChans chans.toNat P).1 then bumpLoop chans k (bumpChans chans.toNat P).2
    else (.dry, (bumpChans chans.toNat P).2)

/-- Load a page on each of the `k` channels from `n` on; the master page is
the one of channel 0. `none` when a channel got no page. -/
def loadLoop : ℕ → ℤ → ℤ → Card TC → Option ℤ × Card TC
  | 0, _, newp, c => (some newp, c)
  | k + 1, n, newp, c =>
    let r := streamPlaybackFrame c n
    if r.1 < 0 then (none, r.2) else loadLoop k (n + 1) (if n = 0 then r.1 else newp) r.2

section Engine

variable [Timecode TC]

/-- The end of `aja_stream_playback`: the master page's timecode and private
value go out, its metadata is zeroed. -/
def playbackMeta (newp : ℤ) (c : Card TC) : Card TC :=
  let c := c.touch .pagemeta newp
  let m := c.stream.pagemeta newp
  let tc := m.tc .internal
  let c :=
    if Timecode.isValid tc then
      (c.mapTcg fun _ => tc).setMeta newp { m with tc := update m.tc .internal (Timecode.init tc) }
    else c
  (c.setPriv (c.stream.pagemeta newp).priv).setMeta newp StreamMeta.zero

/-- The load of the next frame at the end of `aja_stream_playback`. -/
def playbackLoad (c : Card TC) : Card TC :=
  match loadLoop c.stream.chans.toNat 0 0 c with
  | (none, c) => c
  | (some newp, c) => playbackMeta newp c

/-- `aja_stream_playback`. -/
def streamPlayback (c : Card TC) : Card TC :=
  if c.stream.flags &&& ajaPlayback = 0 then c
  else if c.stream.pool.fifo < c.stream.chans then streamDrop c
  else
    let ret := (streamSpeedcount c.stream).1
    let c := { c with stream := (streamSpeedcount c.stream).2 }
    if ret ≠ 1 then
      if ret = 0 then c
      else
        match bumpLoop c.stream.chans (ret - 1).toNat c.stream.pool with
        | (.short, P) => streamDrop (c.withPool P)
        | (.dry, P) => c.withPool P
        | (.done, P) => playbackLoad (c.withPool P)
    else playbackLoad c

/-- `aja_stream_capture_frame`. -/
def streamCaptureFrame (c : Card TC) (chan : ℤ) : ℤ × Card TC :=
  let r := c.stream.pool.streamPageAlloc c.stream.pagect
  let newp := r.1
  let c := c.withPool r.2
  if newp < 0 then (-ENOMEM, c)
  else
    let c := c.prset (if chan ≠ 0 then ch2input else ch1input) newp
    (newp, c.setLast chan { type := ajaCapture, page := newp })

/-- The metadata of a page just armed for channel `n`. -/
def captureMeta (c : Card TC) (n inc : ℤ) : StreamMeta TC :=
  { (StreamMeta.zero : StreamMeta TC) with
    timing := c.frame.time
    chan := n
    inc := inc
    priv := c.frame.time.priv
    tc := update (StreamMeta.zero : StreamMeta TC).tc .internal c.tcg.value }

/-- Arm a page on each of the `k` channels from `n` on. -/
def captureLoop (inc : ℤ) : ℕ → ℤ → Card TC → Card TC
  | 0, _, c => c
  | k + 1, n, c =>
    let r := streamCaptureFrame c n
    if r.1 < 0 then r.2 else captureLoop inc k (n + 1) (r.2.setMeta r.1 (captureMeta r.2 n inc))

/-- The timecode generator's adjustment in `aja_stream_capture`. -/
def captureBump (inc : ℤ) (c : Card TC) : Card TC :=
  if inc = 0 then c.mapTcg Timecode.dec
  else if inc > 0 then c.mapTcg (Timecode.inc^[(inc - 1).toNat])
  else c

/-- `aja_stream_capture`. -/
def streamCapture (c : Card TC) : Card TC :=
  if c.stream.flags &&& ajaCapture = 0 then c
  else if wrap (c.stream.pagect - c.stream.pool.fifo) ≤ c.stream.chans then streamDrop c
  else
    let inc := (streamSpeedcount c.stream).1
    let c := { c with stream := (streamSpeedcount c.stream).2 }
    captureLoop inc c.stream.chans.toNat 0 (captureBump inc c)

end Engine

end AjaDriver
