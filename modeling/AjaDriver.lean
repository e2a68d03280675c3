import AjaDriver.Safety
import AjaDriver.Delivery
import AjaDriver.Capture
import AjaDriver.Serial.Bounds
import AjaDriver.P2Slave.Ring
import AjaDriver.Pcitc.Rate
import AjaDriver.Pcitc.Sample
import AjaDriver.Dma.Bytes
import AjaDriver.Dma.Release
import AjaDriver.Access
import AjaDriver.Trigger
import AjaDriver.Irqsleep
import AjaDriver.Pcitc.Pcie
import AjaDriver.Released
import AjaDriver.Fields
import AjaDriver.Lib.Table
import AjaDriver.Slots
import AjaDriver.Pcitc.Probe
import AjaDriver.Outcome
import AjaDriver.Dma.Merge
import AjaDriver.Audio
import AjaDriver.Audio.Taken
import AjaDriver.Irqset
import AjaDriver.Irqsleep.Index
import AjaDriver.P2Slave.Sense
import AjaDriver.Starts
import AjaDriver.Lib.Accumulator
import AjaDriver.Ready
import AjaDriver.Speed
import AjaDriver.Speed.Requests
import AjaDriver.Resync
import AjaDriver.Speed.Capture
import AjaDriver.Ready.Runs
import AjaDriver.P2Slave.Checksum
import AjaDriver.Pcitc.Mailbox
import AjaDriver.Pool.Fifo
import AjaDriver.Dma.Partition
import AjaDriver.P2Slave.Complete
import AjaDriver.Pcitc.Write
import AjaDriver.RegInfo
import AjaDriver.Pool.Lists
import AjaDriver.Consumed
import AjaDriver.Serial.Conversation
import AjaDriver.P2Slave.Data
import AjaDriver.Ltc
import AjaDriver.Service.Timecode
import AjaDriver.Service.Safe
import AjaDriver.Capture.Film
import AjaDriver.Lib.Packets
import AjaDriver.Playback.Airing
import AjaDriver.Dma.Engines
import AjaDriver.Firmware
import AjaDriver.Cards.Runs
import AjaDriver.Lib.Waiting
import AjaDriver.Waitfornext
import AjaDriver.P2Slave.Reader
import AjaDriver.Lib.Stores
import AjaDriver.Lut
