import IrohKmp.Kernel.Identity
import IrohKmp.Kernel.Connection
import IrohKmp.Kernel.EndpointAddr
import IrohKmp.Kernel.AddrNormalForm
import IrohKmp.Kernel.Paths
import IrohKmp.Runtime.AcceptLoop
import IrohKmp.Runtime.FirstStop
import IrohKmp.Runtime.StreamIntegrity
import IrohKmp.Runtime.StreamAnswers
import IrohKmp.Runtime.Watch
import IrohKmp.Runtime.StreamPipe
import IrohKmp.Theory.GuardedForget
import IrohKmp.Theory.GuardedEnd
import IrohKmp.Runtime.Closing
import IrohKmp.Runtime.StreamCancel
import IrohKmp.Runtime.StreamStall
import IrohKmp.Kernel.Invitation
import IrohKmp.Runtime.AcceptCancel
import IrohKmp.Runtime.AcceptPool
import IrohKmp.Runtime.AcceptServe
import IrohKmp.Runtime.AndroidInit
import IrohKmp.Kernel.Refusals
import IrohKmp.Runtime.WatchOrder
import IrohKmp.Kernel.RemoteInfo
import IrohKmp.Kernel.Restart
