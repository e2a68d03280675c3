/-
# The P2 slave's serial port

The packet state machine behind the card's UART: requests are received byte
by byte into `inb` over as many interrupts as it takes, the P2 slave makes its
reply in `outb`, and the reply is sent over as many interrupts as the transmit
FIFO takes. What the UART's status registers read is an argument of the
interrupt. What answers the requests is a parameter: `handle` gives, from the
device and the two buffers, the buffer written and the device after, as
`p2slaveHandlePkt` does.
-/
import AjaDriver.P2Slave

namespace AjaDriver

open Function

/-- `enum aja_slavepkt_state`. -/
inductive SlaveState
  | rx
  | tx
  deriving DecidableEq, Repr

/-- `aja_slavepkt_t`. -/
structure SlavePkt where
  inb : Buf
  outb : Buf
  tstamp : ℤ
  state : SlaveState
  inpt : ℤ
  insize : ℤ
  outpt : ℤ
  outsize : ℤ

/-- What the serial code does to the card and to the P2 slave. -/
inductive SerialIo
  | prset (preg : Register) (value : ℤ)
  | handlePkt (pin pout : Buf)

/-- The flag of `enum aja_flags` that asks for the UART's reset. -/
def ajaResetUART : BitVec 32 := 0x0001

/-- The part of `aja_card_t` the serial code works on; `audioWraps` counts the
audio wrap interrupts. -/
structure Serial (D : Type) where
  pkt : SlavePkt
  p2slave : Option D
  audioWraps : ℤ
  flags : BitVec 32
  io : List SerialIo

variable {D : Type}

/-- `aja_prset`. -/
def Serial.prset (c : Serial D) (preg : Register) (value : ℤ) : Serial D :=
  { c with io := c.io ++ [.prset preg value] }

/-- `aja_uart_enable`. -/
def uartEnable (c : Serial D) (val : ℤ) : Serial D :=
  (c.prset uartenabletx val).prset uartenablerx val

/-! ### The UART -/

/-- What `aja_uart_rx` read: its result, the bytes stored, the errors cleared. -/
structure UartRx where
  ret : ℤ
  data : List Byte
  io : List SerialIo

/-- `aja_uart_rx`, after `i` rounds with `n` to go: the FIFO holds bytes, each
behind the status it is read with, and a status of 0 says it is empty. -/
def uartRx : ℕ → ℤ → List (BitVec 4 × Byte) → UartRx
  | 0, i, _ => ⟨i, [], []⟩
  | _ + 1, i, [] => ⟨i, [], []⟩
  | n + 1, i, (val, byte) :: fifo =>
    if val = 0 then ⟨i, [], []⟩
    else if val &&& 0x04 ≠ 0 then ⟨-1, [], [.prset uartrxparityerror 1]⟩
    else if val &&& 0x08 ≠ 0 then ⟨-2, [], [.prset uartrxoverrun 1]⟩
    else
      let r := uartRx n (i + 1) fifo
      { r with data := byte :: r.data }

/-- `aja_uart_tx`, after `i` rounds with `n` to go: the bytes written before
the FIFO reads full. -/
def uartTx (full : ℕ → Bool) (data : Buf) : ℕ → ℕ → List Byte
  | 0, _ => []
  | n + 1, i => if full i then [] else data i :: uartTx full data n (i + 1)

/-! ### Packets -/

/-- `aja_slavepkt_reset`. -/
def slavepktReset (pkt : SlavePkt) : SlavePkt :=
  { pkt with state := .rx, insize := 0, outsize := 0, inpt := 0, outpt := 0 }

/-- `aja_slavepkt_size`. -/
def slavepktSize (data : Buf) : ℕ := (data 0 &&& 0x0F).toNat + 3

/-- `aja_slavepkt_tx`. -/
def slavepktTx (full : ℕ → Bool) (c : Serial D) : Serial D :=
  if c.pkt.state ≠ .tx then c
  else
    let cbytes := c.pkt.outpt
    let sent :=
      uartTx full (fun i => c.pkt.outb (cbytes.toNat + i)) (c.pkt.outsize - cbytes).toNat 0
    let c := { c with io := c.io ++ sent.map fun b => .prset uartout b.toNat }
    let bytes : ℤ := sent.length
    if bytes > 0 then
      let pkt := { c.pkt with outpt := c.pkt.outpt + bytes }
      { c with pkt := if pkt.outpt ≥ pkt.outsize then slavepktReset pkt else pkt }
    else c

/-- The end of a request: the P2 slave handles it, and the reply goes out. -/
def slavepktHandle (handle : D → Buf → Buf → Buf × D) (full : ℕ → Bool) (dev : D) (c : Serial D) :
    Serial D :=
  let r := handle dev c.pkt.outb c.pkt.inb
  slavepktTx full
    { c with
      p2slave := some r.2
      io := c.io ++ [.handlePkt c.pkt.inb r.1]
      pkt := { c.pkt with outb := r.1, outsize := slavepktSize r.1, state := .tx } }

/-- `aja_slavepkt_rx`. -/
def slavepktRx (handle : D → Buf → Buf → Buf × D) (fifo : List (BitVec 4 × Byte))
    (full : ℕ → Bool) (c : Serial D) :
    Serial D :=
  match c.p2slave with
  | none => c
  | some dev =>
    if c.pkt.state = .tx then c
    else
      let cbytes := c.pkt.inpt
      let r := uartRx (32 - cbytes).toNat 0 fifo
      let c := { c with
        io := c.io ++ r.io
        pkt := { c.pkt with tstamp := c.audioWraps, inb := c.pkt.inb.store cbytes.toNat r.data } }
      if r.ret > 0 then
        let pkt : SlavePkt :=
          if cbytes = 0 then { c.pkt with insize := slavepktSize c.pkt.inb } else c.pkt
        let pkt : SlavePkt := { pkt with inpt := pkt.inpt + r.ret }
        let c := { c with pkt := pkt }
        if pkt.inpt ≥ pkt.insize then slavepktHandle handle full dev c else c
      else { uartEnable { c with pkt := slavepktReset c.pkt } 0 with flags := c.flags |||
        ajaResetUART }

/-- The audio wrap interrupt: the check for a stalled request, and the UART's
reset. -/
def audioWrap (c : Serial D) : Serial D :=
  let c := { c with audioWraps := c.audioWraps + 1 }
  let c :=
    if c.pkt.inpt ≠ 0 ∧ c.pkt.tstamp + 2 < c.audioWraps then
      { uartEnable { c with pkt := slavepktReset c.pkt } 0 with flags := c.flags ||| ajaResetUART }
    else c
  if c.flags &&& ajaResetUART ≠ 0 then uartEnable { c with flags := c.flags &&& ~~~ajaResetUART } 1
    else c

/-- The interrupts of the serial port. An rx interrupt may end a request, and
the first bytes of the reply then go out in it. -/
inductive SerialIrq
  | rx (fifo : List (BitVec 4 × Byte)) (full : ℕ → Bool)
  | tx (full : ℕ → Bool)
  | audioWrap

/-- `aja_irq_service`, the serial port's part. -/
def Serial.step (handle : D → Buf → Buf → Buf × D) (c : Serial D) : SerialIrq → Serial D
  | .rx fifo full => slavepktRx handle fifo full c
  | .tx full => slavepktTx full c
  | .audioWrap => AjaDriver.audioWrap c

/-- The bytes written to the UART. -/
def Serial.sent (c : Serial D) : List ℤ :=
  c.io.filterMap fun
    | .prset preg value => if preg = uartout then some value else none
    | .handlePkt _ _ => none

/-- The calls of `p2slave_handle_pkt`, each with the request and the reply. -/
def Serial.calls (c : Serial D) : List (Buf × Buf) :=
  c.io.filterMap fun
    | .prset _ _ => none
    | .handlePkt pin pout => some (pin, pout)

end AjaDriver
