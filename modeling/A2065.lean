import A2065.Lib.Bits
import A2065.Lib.Prog
import A2065.Lib.Watch
import A2065.Lib.Publish
import A2065.Lib.CyclicMem
import A2065.Lib.Crc
import A2065.Lib.OnesComplement
import A2065.Lib.Circular
import A2065.Lib.RingBuffer
import A2065.Lib.Footprint
import A2065.Types
import A2065.BoardramAccess
import A2065.Crc32
import A2065.Mac
import A2065.MacBytes
import A2065.UdpChecksum
import A2065.Effects
import A2065.Registers
import A2065.Rings
import A2065.RingEffects
import A2065.Operations
import A2065.RegisterEffects
import A2065.CsrInvariant
import A2065.Stop
import A2065.StationAddress
import A2065.Visits
import A2065.Ownership
import A2065.MainDoorbell
import A2065.Regfile
import A2065.Delivery
import A2065.MainDdr3
import A2065.DeferredWrites
import A2065.BoardramRemote
import A2065.RamMailbox
import A2065.Bridge
import A2065.Publication
import A2065.Exec
import A2065.Commands
import A2065.InitBlock
import A2065.DirectCsr
import A2065.InitStart
import A2065.Descriptors
import A2065.Gather
import A2065.Acknowledge
import A2065.Scatter
import A2065.AddressFilter
import A2065.TmpBuffer
import A2065.ReceiveQueue
import A2065.TransmitQueue
import A2065.Demand
import A2065.TransmitCall
import A2065.ReceiveCall
import A2065.FcsResidue
import A2065.Shutdown
import A2065.Loopback
import A2065.WholeFrames
import A2065.LoopBounds
import A2065.MungeEffect
import A2065.Quiesce
import A2065.RegistersLocal
import A2065.DdrWindow
import A2065.BehindFrame
import A2065.TransmitBuffer
import A2065.FullDuplex
import A2065.Session
import A2065.DoorbellSerial
import A2065.InterruptSettling
import A2065.EndToEnd
import A2065.Autoconfig
import A2065.BridgeAccess
import A2065.CardTop
import A2065.DemandRetry
import A2065.StationIdentity
import A2065.Lib.Response
import A2065.RemoteBuild
import A2065.Responsiveness
