import Cos.Linux.UnixDelivery
import Cos.Linux.SignalSound
import Cos.Linux.FileRefine
import Cos.Linux.FillCoherence
import Cos.Sched.FutexRuns
import Cos.Net.TcpStreamRuns
import Cos.Linux.EpollRuns
import Cos.Messenger.GroupCalls
import Cos.Security.AccountRuns
import Cos.Runtime.JobRuns
import Cos.Runtime.Sync
import Cos.Messenger.VaultRuns
import Cos.Runtime.CondRuns
import Cos.Fs.FatFsckRuns
import Cos.Boot.UpdateRuns
import Cos.Dns.RequestRuns
import Cos.Ipc.MailboxRuns
import Cos.Ipc.SharedMemoryRuns
import Cos.Sync.LocksRuns
import Cos.Http.CookieRuns
import Cos.Kmod.ModuleRuns
import Cos.Sandbox.SandboxRuns
import Cos.Elf.Confinement
import Cos.Elf.RelrDecode
import Cos.Elf.SizedWrites
import Cos.Validation.StackRoundTrip
import Cos.Elf.TlsBlocks
import Cos.Link.RelocationOrder
import Cos.Paging.TextPages
import Cos.Elf.HashLookup
import Cos.Kheap.Reallocation
import Cos.Kheap.RequestSizes
import Cos.Kheap.Usage
import Cos.Linux.EventFd
import Cos.Linux.ForkGate
import Cos.Linux.Getdents
import Cos.Linux.Paths
import Cos.Messenger.ChatHistory
import Cos.Messenger.Prekeys
import Cos.Net.TcpReack
import Cos.Paging.CloneRollback
import Cos.Physical.UsableFrames
import Cos.Runtime.HeapRuns
import Cos.Libc.Strtol
import Cos.Libc.MemoryMoves
import Cos.Paging.MmapRanges
