/-
# Card registers

A register of the card is a bit field of a 32-bit word of the register
space: the word's byte address, the field's shift and its mask, as in
`aja_register_t`. The fields here are the ones the driver's own code names,
with the values `registers.pl` generated into `aja_registers.h`.
-/
import Mathlib.Data.BitVec

namespace AjaDriver

/-- `aja_register_t`. -/
structure Register where
  add : BitVec 32
  shift : BitVec 32
  mask : BitVec 32
  deriving DecidableEq, Repr

/-! ### Frame buffers and modes -/

def regclocking : Register := ⟨0x0, 20, 0x00300000⟩
def ch1mode : Register := ⟨0x4, 0, 0x00000001⟩
def ch1output : Register := ⟨0xC, 0, 0xFFFFFFFF⟩
def ch1input : Register := ⟨0x10, 0, 0xFFFFFFFF⟩
def ch2mode : Register := ⟨0x14, 0, 0x00000001⟩
def ch2disable : Register := ⟨0x14, 7, 0x00000080⟩
def ch2output : Register := ⟨0x1C, 0, 0xFFFFFFFF⟩
def ch2input : Register := ⟨0x20, 0, 0xFFFFFFFF⟩

/-! ### Timecode -/

def ch1rp188_1 : Register := ⟨0x78, 0, 0xFFFFFFFF⟩
def ch1rp188_2 : Register := ⟨0x7C, 0, 0xFFFFFFFF⟩
def ch2rp188_1 : Register := ⟨0x104, 0, 0xFFFFFFFF⟩
def ch2rp188_2 : Register := ⟨0x108, 0, 0xFFFFFFFF⟩

/-! ### Audio -/

def acapenable : Register := ⟨0x60, 0, 0x00000001⟩
def acapreset : Register := ⟨0x60, 8, 0x00000100⟩
def aplayreset : Register := ⟨0x60, 9, 0x00000200⟩
def dma3irqenable : Register := ⟨0xC4, 2, 0x00000004⟩

/-! ### Interrupts -/

def buserrorirqenable : Register := ⟨0xC4, 4, 0x00000010⟩
def dma1irqenable : Register := ⟨0xC4, 0, 0x00000001⟩
def dma2irqenable : Register := ⟨0xC4, 1, 0x00000002⟩
def outputirqenable : Register := ⟨0x50, 0, 0x00000001⟩
def input1irqenable : Register := ⟨0x50, 1, 0x00000002⟩
def input2irqenable : Register := ⟨0x50, 2, 0x00000004⟩
def audiowrapirqenable : Register := ⟨0x50, 6, 0x00000040⟩
def uarttxirqenable : Register := ⟨0x50, 7, 0x00000080⟩
def uartrxirqenable : Register := ⟨0x50, 8, 0x00000100⟩

/-! ### DMA engines -/

def dma1hadd : Register := ⟨0x80, 0, 0xFFFFFFFF⟩
def dma1cadd : Register := ⟨0x84, 0, 0x3FFFFFFF⟩
def dma1count : Register := ⟨0x88, 0, 0xFFFFFFFF⟩
def dma1next : Register := ⟨0x8C, 0, 0xFFFFFFFF⟩
def dma1go : Register := ⟨0xC0, 0, 0x00000001⟩
def dma1hadd_high : Register := ⟨0x190, 0, 0xFFFFFFFF⟩
def dma1next_high : Register := ⟨0x194, 0, 0xFFFFFFFF⟩
def dma2hadd : Register := ⟨0x90, 0, 0xFFFFFFFF⟩
def dma2cadd : Register := ⟨0x94, 0, 0xFFFFFFFF⟩
def dma2count : Register := ⟨0x98, 0, 0xFFFFFFFF⟩
def dma2next : Register := ⟨0x9C, 0, 0xFFFFFFFF⟩
def dma2go : Register := ⟨0xC0, 1, 0x00000002⟩
def dma2hadd_high : Register := ⟨0x198, 0, 0xFFFFFFFF⟩
def dma2next_high : Register := ⟨0x19C, 0, 0xFFFFFFFF⟩
def dma3hadd : Register := ⟨0xA0, 0, 0xFFFFFFFF⟩
def dma3cadd : Register := ⟨0xA4, 0, 0xFFFFFFFF⟩
def dma3count : Register := ⟨0xA8, 0, 0xFFFFFFFF⟩
def dma3next : Register := ⟨0xAC, 0, 0xFFFFFFFF⟩
def dma3go : Register := ⟨0xC0, 2, 0x00000004⟩
def dma3hadd_high : Register := ⟨0x1A0, 0, 0xFFFFFFFF⟩
def dma3next_high : Register := ⟨0x1A4, 0, 0xFFFFFFFF⟩

/-! ### UART -/

def uartout : Register := ⟨0x118, 0, 0x000000FF⟩
def uartenabletx : Register := ⟨0x120, 0, 0x00000001⟩
def uartenablerx : Register := ⟨0x120, 3, 0x00000008⟩
def uartrxparityerror : Register := ⟨0x120, 6, 0x00000040⟩
def uartrxoverrun : Register := ⟨0x120, 7, 0x00000080⟩

end AjaDriver
