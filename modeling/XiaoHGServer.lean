import XiaoHGServer.Library.Transition
import XiaoHGServer.Library.Places
import XiaoHGServer.Library.Ledger
import XiaoHGServer.Library.Backlog
import XiaoHGServer.Library.Leases
import XiaoHGServer.Library.Addresses
import XiaoHGServer.Library.Quarantine
import XiaoHGServer.Library.Desk
import XiaoHGServer.Library.Sweep
import XiaoHGServer.Library.Streaks
import XiaoHGServer.Library.Frames
import XiaoHGServer.Library.LockOrder
import XiaoHGServer.Library.ShiftRegister
import XiaoHGServer.Library.RegisterPeriod
import XiaoHGServer.Library.CString
import XiaoHGServer.Library.PackedStrings
import XiaoHGServer.Model.Comm
import XiaoHGServer.Model.Crc
import XiaoHGServer.Model.Memory
import XiaoHGServer.Model.State
import XiaoHGServer.Model.Timer
import XiaoHGServer.Model.Pool
import XiaoHGServer.Model.Receive
import XiaoHGServer.Model.Send
import XiaoHGServer.Model.Business
import XiaoHGServer.Model.Epoll
import XiaoHGServer.Model.Process
import XiaoHGServer.Model.Steps
import XiaoHGServer.Model.Admission
import XiaoHGServer.Model.Locking
import XiaoHGServer.Model.WakeUp
import XiaoHGServer.Model.Conf
import XiaoHGServer.Model.Log
import XiaoHGServer.Model.ProcTitle
import XiaoHGServer.Model.Signals
import XiaoHGServer.Model.Master
import XiaoHGServer.Model.Client
import XiaoHGServer.Pool.Clients
import XiaoHGServer.Pool.Partition
import XiaoHGServer.Pool.Moves
import XiaoHGServer.Pool.Uses
import XiaoHGServer.Pool.Descriptors
import XiaoHGServer.Pool.Growth
import XiaoHGServer.Pool.Limit
import XiaoHGServer.Pool.Recycle
import XiaoHGServer.Pool.Quarantine
import XiaoHGServer.Epoll.Resume
import XiaoHGServer.Receive.Framing
import XiaoHGServer.Receive.Ownership
import XiaoHGServer.Receive.Sessions
import XiaoHGServer.Receive.Windows
import XiaoHGServer.Receive.Flood
import XiaoHGServer.Send.Moves
import XiaoHGServer.Send.Ownership
import XiaoHGServer.Send.Flag
import XiaoHGServer.Send.Stream
import XiaoHGServer.Send.Queue
import XiaoHGServer.Send.Stranded
import XiaoHGServer.Send.Stamps
import XiaoHGServer.Send.Backlog
import XiaoHGServer.Send.Limits
import XiaoHGServer.Worker.Discard
import XiaoHGServer.Worker.Checksum
import XiaoHGServer.Worker.BitErrors
import XiaoHGServer.Worker.Reply
import XiaoHGServer.Worker.Protocol
import XiaoHGServer.Worker.Answers
import XiaoHGServer.Worker.WakeUp
import XiaoHGServer.Worker.HandOver
import XiaoHGServer.Worker.Progress
import XiaoHGServer.Timer.Queue
import XiaoHGServer.Timer.Heartbeat
import XiaoHGServer.Timer.Sweep
import XiaoHGServer.Locks.Order
import XiaoHGServer.Conf.Trim
import XiaoHGServer.Conf.Lines
import XiaoHGServer.Conf.Fields
import XiaoHGServer.Conf.Items
import XiaoHGServer.Log.Texts
import XiaoHGServer.Log.Lengths
import XiaoHGServer.Process.Title
import XiaoHGServer.Process.Tree
import XiaoHGServer.Process.Creation
import XiaoHGServer.Process.Reaping
import XiaoHGServer.Process.Ports
import XiaoHGServer.Process.Survival
import XiaoHGServer.Client.Messages
import XiaoHGServer.Client.Stream
import XiaoHGServer.Client.Service
