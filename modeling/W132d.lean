import W132d.Machine
import W132d.Cyclic
import W132d.Reorder.Basic
import W132d.Reorder.Ring
import W132d.Reorder.Window
import W132d.Reorder.Session
import W132d.Reorder.Recovery
import W132d.Reorder.Slots
import W132d.Reorder.Entry
import W132d.Reorder.Restart
import W132d.Reorder.Ownership
import W132d.Hci
import W132d.TcpAck.Basic
import W132d.TcpAck.Newest
import W132d.Commands
import W132d.Credit
import W132d.Flash.Basic
import W132d.Remote.Voice
import W132d.Flash.Segments
import W132d.Flash.Bundle
import W132d.Flash.Reserved
import W132d.Release.Lock
import W132d.Retained
import W132d.Release.Repository
import W132d.Defrag.Basic
import W132d.Defrag.Sound
import W132d.Defrag.Complete
import W132d.Chain
import W132d.Sdio.Basic
import W132d.ListHead
import W132d.Literal
import W132d.Sdio.Channels
import W132d.Sdio.Queue
import W132d.Sdio.Dispatch
import W132d.Sdio.Packer
import W132d.Tty.Permits
import W132d.Tty.Receive
import W132d.Tally
import W132d.TxPool.Basic
import W132d.TxPool.Share
import W132d.TxPool.Accounting
import W132d.TcpAck.Concurrent
import W132d.Lease
import W132d.TcpAck.Owners
import W132d.Wmmac
import W132d.Raising
import W132d.Cuttable
import W132d.Release.Immutable
import W132d.Remote.Bridge
import W132d.Remote.Recording
import W132d.Remote.Pairing
import W132d.Remote.Window
import W132d.Standby.Power
import W132d.Serial
import W132d.Standby.State
import W132d.Reorder.Work
import W132d.Reorder.WorkQueue
import W132d.Sleep.Basic
import W132d.Sleep.Count
import W132d.Circular
import W132d.Wcn.LogRing
import W132d.Credit.Tags
import W132d.Sdio.Blocks
import W132d.Deferred
import W132d.Wcn.Power
import W132d.Completion
import W132d.Wcn.Loopcheck
import W132d.Wcn.Watchdog
import W132d.Cmd.Basic
import W132d.Cmd.Response
import W132d.Cmd.Stale
import W132d.Mutex
import W132d.Wcn.AtCmd
import W132d.Wcn.Answers
import W132d.Loop
import W132d.Sdio.Parser
import W132d.Descents
import W132d.Reorder.Checked
import W132d.Reorder.Replay
import W132d.Reorder.SkbList
import W132d.Reorder.InRing
import W132d.Reorder.BaEvents
import W132d.TxPool.Close
import W132d.TxPool.Qos
import W132d.TxPool.Priority
import W132d.Defrag.Copies
import W132d.TcpAck.Options
import W132d.Sdio.Frag
import W132d.Flash.Verified
import W132d.Wmmac.Admission
import W132d.Remote.Utterance
import W132d.Remote.StartFailure
import W132d.Remote.Finish
import W132d.Bytes
import W132d.OnesComplement
import W132d.Framed
import W132d.Standby.Input
import W132d.Csum
import W132d.TxFilter
import W132d.Rx.Compound
import W132d.Rx.Csum
import W132d.Peek
import W132d.Elements
import W132d.Wmmac.Element
import W132d.FwInfo
import W132d.Event
import W132d.Cmd.Copy
import W132d.Tty.Sitm
import W132d.Wcn.Pool
import W132d.Wcn.Registration
import W132d.TextFile
import W132d.Substitute
import W132d.Release.Switch
import W132d.Deb822
import W132d.Release.Metadata
import W132d.Release.Finalize
import W132d.Crc
import W132d.Cmd.Ini
import W132d.Rx.Deliver
import W132d.Wcn.Fstab
import W132d.Wcn.Firmware
import W132d.Wcn.Download
import W132d.Tty.Woble
import W132d.Beacon
import W132d.DbgIni
import W132d.Layout
import W132d.Nvm.Table
import W132d.Nvm.Parse
import W132d.Nvm.Bounds
import W132d.Nvm.Numeral
import W132d.Nvm.Record
import W132d.Nvm.Calibration
import W132d.TcpAck.Parameters
import W132d.Rundown
import W132d.Sdio.Card
import W132d.Rx.MsgList
import W132d.ScanRequest
import W132d.Addressed
import W132d.Release.Publish
import W132d.Sdio.RxPool
import W132d.Footprint
import W132d.Rockusb.Comm
import W132d.Rockusb.Lba
import W132d.Rockusb.Sparse
import W132d.Flash.Tool
