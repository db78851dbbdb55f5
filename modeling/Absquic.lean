import Absquic.Lib.Lts
import Absquic.Lib.Chan
import Absquic.Lib.List
import Absquic.Lib.Mealy
import Absquic.Lib.Service
import Absquic.Lib.Gather
import Absquic.Lib.Fifo
import Absquic.Lib.Live
import Absquic.Lib.Component
import Absquic.Core
import Absquic.Quiche
import Absquic.Conn.Task
import Absquic.Conn.Steps
import Absquic.Conn.Control
import Absquic.Conn.Permits
import Absquic.Conn.Timer
import Absquic.Conn.Slots
import Absquic.Conn.Close
import Absquic.Conn.Outside
import Absquic.Conn.Inversion
import Absquic.Conn.Events
import Absquic.Conn.Inbound
import Absquic.Conn.Dgram
import Absquic.Conn.Outbound
import Absquic.Conn.Flush
import Absquic.Conn.Pacing
import Absquic.Conn.Commands
import Absquic.Conn.Received
import Absquic.Conn.Messages
import Absquic.Conn.Deadline
import Absquic.Conn.Served
import Absquic.Conn.Answered
import Absquic.Ep.Task
import Absquic.Ep.Steps
import Absquic.Ep.Control
import Absquic.Ep.Slots
import Absquic.Ep.Permits
import Absquic.Ep.Routing
import Absquic.Ep.Cids
import Absquic.Ep.Path
import Absquic.Proc
import Absquic.Ep.Accept
import Absquic.Ep.Ledger
import Absquic.Ep.Stall
import Absquic.Ep.Finish
import Absquic.Ep.App
import Absquic.Ep.Dead
import Absquic.Ep.Commands
import Absquic.Ep.Serial
import Absquic.Ep.Lives
import Absquic.Ep.Served
import Absquic.Ep.Given
import Absquic.Ep.Handed
import Absquic.Ep.Delivered
import Absquic.Ep.Reached
import Absquic.Udp
import Absquic.Udp.Stream
import Absquic.Bound
import Absquic.Bound.Path
import Absquic.Bound.Sent
import Absquic.Bound.Close
import Absquic.Net
import Absquic.Udp.Handle
