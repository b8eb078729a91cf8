import Alyrn.Detail.IntrusiveQueue.Refinement
import Alyrn.Detail.IntrusiveList.Refinement
import Alyrn.Detail.LoopShutdown
import Alyrn.Backend.Mailbox.Delivery
import Alyrn.Coro.Select.Runs
import Alyrn.Coro.HeapFrame
import Alyrn.Coro.SpawnState.HandOff
import Alyrn.Runtime.HookPairing
import Alyrn.Net.Buffer.Runs
import Alyrn.Net.Buffer.Find
import Alyrn.Net.Admission
import Alyrn.Epoll.Loop.Dispatch
import Alyrn.Epoll.RecvSource.Runs
import Alyrn.Uring.TimerQueue.Coverage
import Alyrn.Backend.TimerQueues
import Alyrn.Uring.Connector.Convergence
import Alyrn.Uring.RecvSource.Barrier
import Alyrn.Uring.RecvSource.Buffers
import Alyrn.Backend.Write
import Alyrn.Uring.WorkQueues.Turn
import Alyrn.Uring.Loop.Accounting
import Alyrn.Uring.Stream.Expiry
import Alyrn.Uring.CloseBarrier
import Alyrn.Uring.Stream.SplitRelease
import Alyrn.Epoll.Stream.Runs
