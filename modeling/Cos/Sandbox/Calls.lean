import Mathlib.Data.BitVec

/-! # System calls: the gate and the handlers

What cos_syscall_needs asks of a confined process for a call, and what the
handler of the call does with the same registers. -/

namespace Cos.Sandbox

abbrev Caps := BitVec 32

def capFsRead : Caps := 0x00000001
def capFsWrite : Caps := 0x00000002
def capNet : Caps := 0x00000004
def capSpawn : Caps := 0x00000008
def capWindow : Caps := 0x00000010
def capAudio : Caps := 0x00000020
def capSettings : Caps := 0x00000040
def capDevices : Caps := 0x00000080
def capIpc : Caps := 0x00000100
def capCompute : Caps := 0x00000200
def capSysinfo : Caps := 0x00000400
def capShell : Caps := 0x00000800
def capPower : Caps := 0x00001000
def capAccount : Caps := 0x00002000
def capUnknown : Caps := 0x80000000
def capAll : Caps := 0xFFFFFFFF

def Within (some all : Caps) : Prop :=
  some &&& all = some

instance {some all : Caps} : Decidable (Within some all) :=
  inferInstanceAs (Decidable (some &&& all = some))

/-- The registers that a call's number and arguments come in, as far as they decide something
here. -/
structure Regs where
  rax : BitVec 64
  rdi : BitVec 64
  rsi : BitVec 64
  rdx : BitVec 64
  r9 : BitVec 64
deriving DecidableEq

inductive Sys
  | write | exit | winCreate | winFill | winClear | brk | sbrk | readFile | writeFile | yield
  | sleepMs | getpid | spawn | waitpid | dlopen | dlsym | fdOpen | fdOpendir | fdRead | fdWrite
  | fdLseek | fdReaddir | fdClose | sigaction | kill | sigreturn | mmap | munmap | winDrawText
  | winPollKey | threadCreate | threadExit | threadJoin | timeMs | timeUnix | mkdir | unlink
  | rename | stat | netAvailable | netResolve | netHttpGet | setTls | getTls | dlInfo | dlopen2
  | dlclose | futexWait | futexWake | gettid | spawn2 | ipcSend | ipcRecv | ipcRespond | ipcNotify
  | shmCreate | shmAttach | mprotect | winPollMouse | audioOpen | audioWrite | audioStatus
  | audioDrain | audioStop | audioVolume | audioClose | win2Create | win2Present | win2Poll
  | win2Wait | win2SetTitle | win2Close | win2Screen | win2GetPath | win2Video | statEx | fsSpace
  | openPath | uiPrefs | listdirEx | clipSet | clipGet | rtcNow | settingsGet | settingsSet
  | imageDecode | win2VideoYuv420 | settingsAction | passwordChange | setAttr | fsGeneration
  | parInfo | parStart | parPoll | parStop | parFree | win2VideoMap | win2VideoCommit
  | win2PresentRects | devicesList | sandbox | systemInfo | proclist | netHttpStart | netHttpPoll
  | netHttpTake | netHttpCancel | socket | bind | listen | accept | connect | send | recv | sendto
  | recvfrom | sockPoll | sockClose | sockName | dnsStart | dnsPoll | netInfo | shellCreate
  | winList | winCtl | shellIcons | desktopList | desktopCtl | notifList | ctxList | kmodLoad
  | kmodUnload | kmodList | dlctl | notifSend | kernelUpdate | win2Input | win2Grab | win2Fullscreen
  | win2Resize | fileDrop | dragGhost | lxshmMap | timeUs | cpuStats | getcpu
deriving DecidableEq

def Sys.number : Sys → Nat
  | .write => 0 | .exit => 1 | .winCreate => 2 | .winFill => 3 | .winClear => 4 | .brk => 5
  | .sbrk => 6 | .readFile => 7 | .writeFile => 8 | .yield => 9 | .sleepMs => 10 | .getpid => 11
  | .spawn => 12 | .waitpid => 13 | .dlopen => 14 | .dlsym => 15 | .fdOpen => 16 | .fdOpendir => 17
  | .fdRead => 18 | .fdWrite => 19 | .fdLseek => 20 | .fdReaddir => 21 | .fdClose => 22
  | .sigaction => 23 | .kill => 24 | .sigreturn => 25 | .mmap => 26 | .munmap => 27
  | .winDrawText => 28 | .winPollKey => 29 | .threadCreate => 30 | .threadExit => 31
  | .threadJoin => 32 | .timeMs => 33 | .timeUnix => 34 | .mkdir => 35 | .unlink => 36
  | .rename => 37 | .stat => 38 | .netAvailable => 39 | .netResolve => 40 | .netHttpGet => 41
  | .setTls => 42 | .getTls => 43 | .dlInfo => 44 | .dlopen2 => 45 | .dlclose => 46
  | .futexWait => 47 | .futexWake => 48 | .gettid => 49 | .spawn2 => 50 | .ipcSend => 51
  | .ipcRecv => 52 | .ipcRespond => 53 | .ipcNotify => 54 | .shmCreate => 55 | .shmAttach => 56
  | .mprotect => 57 | .winPollMouse => 58 | .audioOpen => 170 | .audioWrite => 171
  | .audioStatus => 172 | .audioDrain => 173 | .audioStop => 174 | .audioVolume => 175
  | .audioClose => 176 | .win2Create => 180 | .win2Present => 181 | .win2Poll => 182
  | .win2Wait => 183 | .win2SetTitle => 184 | .win2Close => 185 | .win2Screen => 186
  | .win2GetPath => 187 | .win2Video => 188 | .statEx => 190 | .fsSpace => 191 | .openPath => 192
  | .uiPrefs => 193 | .listdirEx => 194 | .clipSet => 195 | .clipGet => 196 | .rtcNow => 197
  | .settingsGet => 198 | .settingsSet => 199 | .imageDecode => 200 | .win2VideoYuv420 => 201
  | .settingsAction => 202 | .passwordChange => 203 | .setAttr => 204 | .fsGeneration => 205
  | .parInfo => 206 | .parStart => 207 | .parPoll => 208 | .parStop => 209 | .parFree => 210
  | .win2VideoMap => 211 | .win2VideoCommit => 212 | .win2PresentRects => 213 | .devicesList => 214
  | .sandbox => 215 | .systemInfo => 216 | .proclist => 217 | .netHttpStart => 218
  | .netHttpPoll => 219 | .netHttpTake => 220 | .netHttpCancel => 221 | .socket => 222
  | .bind => 223 | .listen => 224 | .accept => 225 | .connect => 226 | .send => 227 | .recv => 228
  | .sendto => 229 | .recvfrom => 230 | .sockPoll => 231 | .sockClose => 232 | .sockName => 233
  | .dnsStart => 234 | .dnsPoll => 235 | .netInfo => 236 | .shellCreate => 237 | .winList => 238
  | .winCtl => 239 | .shellIcons => 240 | .desktopList => 241 | .desktopCtl => 242
  | .notifList => 243 | .ctxList => 244 | .kmodLoad => 245 | .kmodUnload => 246 | .kmodList => 247
  | .dlctl => 248 | .notifSend => 249 | .kernelUpdate => 250 | .win2Input => 251 | .win2Grab => 252
  | .win2Fullscreen => 253 | .win2Resize => 254 | .fileDrop => 255 | .dragGhost => 256
  | .lxshmMap => 260 | .timeUs => 261 | .cpuStats => 298 | .getcpu => 299

def Sys.all : List Sys :=
  [.write, .exit, .winCreate, .winFill, .winClear, .brk, .sbrk, .readFile, .writeFile, .yield,
    .sleepMs, .getpid, .spawn, .waitpid, .dlopen, .dlsym, .fdOpen, .fdOpendir, .fdRead, .fdWrite,
    .fdLseek, .fdReaddir, .fdClose, .sigaction, .kill, .sigreturn, .mmap, .munmap, .winDrawText,
    .winPollKey, .threadCreate, .threadExit, .threadJoin, .timeMs, .timeUnix, .mkdir, .unlink,
    .rename, .stat, .netAvailable, .netResolve, .netHttpGet, .setTls, .getTls, .dlInfo, .dlopen2,
    .dlclose, .futexWait, .futexWake, .gettid, .spawn2, .ipcSend, .ipcRecv, .ipcRespond, .ipcNotify,
    .shmCreate, .shmAttach, .mprotect, .winPollMouse, .audioOpen, .audioWrite, .audioStatus,
    .audioDrain, .audioStop, .audioVolume, .audioClose, .win2Create, .win2Present, .win2Poll,
    .win2Wait, .win2SetTitle, .win2Close, .win2Screen, .win2GetPath, .win2Video, .statEx, .fsSpace,
    .openPath, .uiPrefs, .listdirEx, .clipSet, .clipGet, .rtcNow, .settingsGet, .settingsSet,
    .imageDecode, .win2VideoYuv420, .settingsAction, .passwordChange, .setAttr, .fsGeneration,
    .parInfo, .parStart, .parPoll, .parStop, .parFree, .win2VideoMap, .win2VideoCommit,
    .win2PresentRects, .devicesList, .sandbox, .systemInfo, .proclist, .netHttpStart, .netHttpPoll,
    .netHttpTake, .netHttpCancel, .socket, .bind, .listen, .accept, .connect, .send, .recv, .sendto,
    .recvfrom, .sockPoll, .sockClose, .sockName, .dnsStart, .dnsPoll, .netInfo, .shellCreate,
    .winList, .winCtl, .shellIcons, .desktopList, .desktopCtl, .notifList, .ctxList, .kmodLoad,
    .kmodUnload, .kmodList, .dlctl, .notifSend, .kernelUpdate, .win2Input, .win2Grab,
    .win2Fullscreen, .win2Resize, .fileDrop, .dragGhost, .lxshmMap, .timeUs, .cpuStats, .getcpu]

def Sys.ofNumber (nr : Nat) : Option Sys :=
  Sys.all.find? fun call => decide (call.number = nr)

def oRdonly : BitVec 64 := 1
def syscallFirst : Nat := 0x1000
def syscallCount : Nat := 64

def settingsActionNeeds (action : BitVec 64) : Caps :=
  if 1 ≤ action.toNat ∧ action.toNat ≤ 3 then capPower
  else if action = 5 then capSettings ||| capSpawn
  else if 7 ≤ action.toNat ∧ action.toNat ≤ 9 then capSettings ||| capPower
  else capSettings

def Sys.needs (r : Regs) : Sys → Caps
  | .write | .exit | .brk | .sbrk | .yield | .sleepMs | .getpid | .waitpid | .sigaction | .sigreturn
  | .mmap | .munmap | .mprotect | .threadCreate | .threadExit | .threadJoin | .timeMs | .timeUs
  | .timeUnix | .setTls | .getTls | .futexWait | .futexWake | .gettid | .getcpu | .rtcNow
  | .netAvailable | .sandbox | .fsGeneration => 0
  | .fdWrite => capFsWrite
  | .fdOpen => if r.rsi = oRdonly then capFsRead else capFsRead ||| capFsWrite
  | .readFile | .fdOpendir | .fdRead | .fdLseek | .fdReaddir | .fdClose | .stat | .statEx
  | .listdirEx | .fsSpace | .dlopen | .dlsym | .dlInfo | .dlopen2 | .dlclose | .dlctl => capFsRead
  | .writeFile | .mkdir | .unlink | .rename | .setAttr => capFsWrite
  | .netResolve | .netHttpGet | .netHttpStart | .netHttpPoll | .netHttpTake | .netHttpCancel
  | .socket | .bind | .listen | .accept | .connect | .send | .recv | .sendto | .recvfrom | .sockPoll
  | .sockClose | .sockName | .dnsStart | .dnsPoll | .netInfo => capNet
  | .spawn | .spawn2 | .kill | .openPath => capSpawn
  | .ipcSend | .ipcRecv | .ipcRespond | .ipcNotify | .shmCreate | .shmAttach => capIpc
  | .audioOpen | .audioWrite | .audioStatus | .audioDrain | .audioStop | .audioVolume
  | .audioClose => capAudio
  | .settingsGet | .settingsSet => capSettings
  | .settingsAction => settingsActionNeeds r.rdi
  | .passwordChange => capAccount
  | .devicesList => capDevices
  | .systemInfo | .proclist | .kmodList | .cpuStats => capSysinfo
  | .shellCreate | .winList | .winCtl | .shellIcons | .desktopList | .desktopCtl | .notifList
  | .ctxList => capShell
  | .notifSend => capWindow
  | .parInfo | .parStart | .parPoll | .parStop | .parFree => capCompute
  | .winCreate | .winFill | .winClear | .winDrawText | .winPollKey | .winPollMouse | .win2Create
  | .win2Present | .win2Poll | .win2Wait | .win2SetTitle | .win2Close | .win2Screen | .win2GetPath
  | .win2Video | .win2VideoYuv420 | .win2VideoMap | .win2VideoCommit | .win2PresentRects
  | .win2Input | .win2Grab | .win2Fullscreen | .win2Resize | .fileDrop | .dragGhost | .lxshmMap
  | .uiPrefs | .clipSet | .clipGet | .imageDecode => capWindow
  -- the calls nobody classified
  | .kmodLoad | .kmodUnload | .kernelUpdate => capUnknown

/-- cos_syscall_needs, with the capability lists of the calls that kernel modules have
registered. -/
def syscallNeeds (modules : Nat → Option Caps) (r : Regs) : Caps :=
  match Sys.ofNumber r.rax.toNat with
  | some call => call.needs r
  | none =>
      if syscallFirst ≤ r.rax.toNat ∧ r.rax.toNat < syscallFirst + syscallCount then
        (modules r.rax.toNat).getD capUnknown
      else capUnknown

inductive Effect
  | fileRead | fileList | library | descriptor | fileOpen (writes : Bool) | fileWrite | fileChange
  | resolve | http | socket
  | spawn | signal | openPath
  /-- A program that the desktop starts. -/
  | launch
  | message | sharedMemory
  | audio
  | settings | sleep | restart | shutDown | dhcpRenew | openTerminal | fullScan
  | formatFat32 | formatExfat | formatCancel | formatQuery
  | password | devices | statistics | shell | notify | compute
  | window | clipboard | decodeImage | linuxMemory
  | kernelModule | kernelUpdate
  | moduleCall (caps : Caps)
deriving DecidableEq

def Effect.reserved : Effect → Caps
  | .fileRead | .fileList | .library | .descriptor => capFsRead
  | .fileOpen writes => if writes then capFsRead ||| capFsWrite else capFsRead
  | .fileWrite | .fileChange => capFsWrite
  | .resolve | .http | .socket => capNet
  | .spawn | .signal | .openPath | .launch => capSpawn
  | .message | .sharedMemory => capIpc
  | .audio => capAudio
  | .settings | .dhcpRenew | .fullScan | .formatQuery => capSettings
  | .sleep | .restart | .shutDown => capPower
  | .openTerminal => capSettings ||| capSpawn
  | .formatFat32 | .formatExfat | .formatCancel => capSettings ||| capPower
  | .password => capAccount
  | .devices => capDevices
  | .statistics => capSysinfo
  | .shell => capShell
  | .notify | .window | .clipboard | .decodeImage | .linuxMemory => capWindow
  | .compute => capCompute
  | .kernelModule | .kernelUpdate => capUnknown
  | .moduleCall caps => caps

/-- `COS_SA_*`: what the desktop does for COS_WINCTL_SYSACT. -/
def systemAction (arg : Int) : List Effect :=
  if arg = 4 then [.shell, .restart]
  else if arg = 5 then [.shell, .shutDown]
  else if 6 ≤ arg ∧ arg ≤ 11 ∨ arg = 15 then [.shell, .settings]
  else if arg = 12 ∨ arg = 16 then [.shell, .launch]
  else if arg = 14 then [.shell, .audio]
  else [.shell]

/-- What the desktop does with a command that gui_shell_ctl has queued. -/
def shellCtl (action arg : Int) : List Effect :=
  if action < 1 ∨ 9 < action then []
  else if action = 6 then if arg = 1 ∨ arg = 2 then [.shell, .launch] else [.shell]
  else if action = 7 then [.shell, .launch]
  else if action = 8 then systemAction arg
  else [.shell]

/-- What the desktop does with a command that gui_desktop_ctl has queued: an icon is opened, or
dropped on a folder. -/
def desktopCtlEffects (action : Int) : List Effect :=
  if action < 1 ∨ 5 < action then []
  else if action = 1 then [.shell, .launch]
  else if action = 2 then [.shell, .fileChange]
  else [.shell]

def low (register : BitVec 64) : Int := (register.setWidth 32).toInt

/-- What the flags of cos_fd_open, a uint32_t, let the descriptor do. -/
def fdOpenEffects (flags : Nat) : List Effect :=
  match flags with
  | 1 => [.fileOpen false]
  | 2 | 3 | 4 => [.fileOpen true]
  | _ => []

def settingsActionEffects (action : Int) : List Effect :=
  match action with
  | 1 => [.sleep]
  | 2 => [.restart]
  | 3 => [.shutDown]
  | 4 => [.dhcpRenew]
  | 5 => [.openTerminal]
  | 6 => [.fullScan]
  | 7 => [.formatFat32]
  | 8 => [.formatExfat]
  | 9 => [.formatCancel]
  | 10 => [.formatQuery]
  | _ => []

/-- The window under the pointer gets the path, or the desktop copies or moves the file. -/
def fileDropEffects (copies : Bool) : List Effect :=
  if copies then [.window, .fileRead, .fileWrite] else [.window, .fileChange]

/-- What the handler of the call can do, as it decodes its arguments. -/
def Sys.effects (r : Regs) : Sys → List Effect
  | .write | .exit | .brk | .sbrk | .yield | .sleepMs | .getpid | .waitpid | .sigaction | .sigreturn
  | .mmap | .munmap | .mprotect | .threadCreate | .threadExit | .threadJoin | .timeMs | .timeUs
  | .timeUnix | .setTls | .getTls | .futexWait | .futexWake | .gettid | .getcpu | .rtcNow
  | .netAvailable | .sandbox | .fsGeneration => []
  | .readFile | .fdRead => [.fileRead]
  | .fdLseek | .fdClose => [.descriptor]
  | .fdOpendir | .fdReaddir | .stat | .statEx | .listdirEx | .fsSpace => [.fileList]
  | .dlopen | .dlsym | .dlInfo | .dlopen2 | .dlclose | .dlctl => [.library]
  | .writeFile | .fdWrite => [.fileWrite]
  | .mkdir | .unlink | .rename | .setAttr => [.fileChange]
  | .fdOpen => fdOpenEffects (r.rsi.setWidth 32).toNat
  | .netResolve | .dnsStart | .dnsPoll => [.resolve]
  | .netHttpGet | .netHttpStart | .netHttpPoll | .netHttpTake | .netHttpCancel => [.http]
  | .socket | .bind | .listen | .accept | .connect | .send | .recv | .sendto | .recvfrom | .sockPoll
  | .sockClose | .sockName | .netInfo => [.socket]
  | .spawn | .spawn2 => [.spawn]
  | .kill => [.signal]
  | .openPath => [.openPath]
  | .ipcSend | .ipcRecv | .ipcRespond | .ipcNotify => [.message]
  | .shmCreate | .shmAttach => [.sharedMemory]
  | .audioOpen | .audioWrite | .audioStatus | .audioDrain | .audioStop | .audioVolume
  | .audioClose => [.audio]
  | .settingsGet | .settingsSet => [.settings]
  -- the handler takes the action as an int
  | .settingsAction => settingsActionEffects (low r.rdi)
  | .passwordChange => [.password]
  | .devicesList => [.devices]
  | .systemInfo | .proclist | .kmodList | .cpuStats => [.statistics]
  | .winCtl => shellCtl (low r.rdi) (low r.rdx)
  | .desktopCtl => desktopCtlEffects (low r.rdi)
  | .shellCreate | .winList | .shellIcons | .desktopList | .notifList | .ctxList => [.shell]
  | .notifSend => [.notify]
  | .parInfo | .parStart | .parPoll | .parStop | .parFree => [.compute]
  | .winCreate | .winFill | .winClear | .winDrawText | .winPollKey | .winPollMouse | .win2Create
  | .win2Present | .win2Poll | .win2Wait | .win2SetTitle | .win2Close | .win2Screen | .win2GetPath
  | .win2Video | .win2VideoYuv420 | .win2VideoMap | .win2VideoCommit | .win2PresentRects
  | .win2Input | .win2Grab | .win2Fullscreen | .win2Resize | .dragGhost | .uiPrefs => [.window]
  | .lxshmMap => [.linuxMemory]
  | .fileDrop => fileDropEffects (decide (r.rsi ≠ 0))
  | .clipSet | .clipGet => [.clipboard]
  | .imageDecode => [.fileRead, .decodeImage]
  | .kmodLoad | .kmodUnload => [.kernelModule]
  | .kernelUpdate => [.kernelUpdate]

def syscallEffects (modules : Nat → Option Caps) (r : Regs) : List Effect :=
  match Sys.ofNumber r.rax.toNat with
  | some call => call.effects r
  | none =>
      if syscallFirst ≤ r.rax.toNat ∧ r.rax.toNat < syscallFirst + syscallCount then
        ((modules r.rax.toNat).map .moduleCall).toList
      else []

/-- The gate compares all of rdi with the actions that it keeps for a capability, the handler its
low half. -/
def ActionAlike (rdi : BitVec 64) : Prop :=
  rdi.toNat < 2 ^ 32 ∨ low rdi ∉ [1, 2, 3, 5, 7, 8, 9]

instance {rdi : BitVec 64} : Decidable (ActionAlike rdi) :=
  inferInstanceAs (Decidable (_ ∨ _))

/-- What the gate asks for the call covers all that its handler can do. -/
def Sys.Covered (r : Regs) : Sys → Prop
  | .settingsAction => ActionAlike r.rdi
  | .winCtl => low r.rdi ≠ 7 ∧ (low r.rdi = 6 → low r.rdx ≠ 1 ∧ low r.rdx ≠ 2) ∧
      (low r.rdi = 8 → low r.rdx < 4 ∨ low r.rdx = 13 ∨ 16 < low r.rdx)
  | .desktopCtl => low r.rdi ≠ 1 ∧ low r.rdi ≠ 2
  | .imageDecode | .fileDrop => False
  | _ => True

theorem Within.refl {caps : Caps} : Within caps caps := by
  rw [Within, BitVec.and_self]

theorem Within.trans {a b c : Caps} (first : Within a b) (second : Within b c) : Within a c := by
  rw [Within] at *
  rw [← first, BitVec.and_assoc, second]

theorem Within.and {caps mask : Caps} : Within (caps &&& mask) caps := by
  rw [Within, BitVec.and_comm caps mask, BitVec.and_assoc, BitVec.and_self]

theorem low_nat {rdi : BitVec 64} {action : Nat} (isAction : low rdi = action)
    (positive : 0 < action) : rdi.toNat % 2 ^ 32 = action := by
  rw [low, BitVec.toInt_eq_toNat_cond, BitVec.toNat_setWidth] at isAction
  split at isAction <;> omega

theorem settingsAction_needs {action : BitVec 64} (beyond : 10 < action.toNat) :
    settingsActionNeeds action = capSettings := by
  have notTerminal : action ≠ 5 := by
    rintro isFive
    rw [isFive] at beyond
    exact absurd beyond (by decide)
  rw [settingsActionNeeds, if_neg (by omega), if_neg notTerminal, if_neg (by omega)]

theorem settingsAction_settings {action : BitVec 64}
    (notPower : ¬ (1 ≤ action.toNat ∧ action.toNat ≤ 3)) :
    Within capSettings (settingsActionNeeds action) := by
  rw [settingsActionNeeds, if_neg notPower]
  split
  · decide
  · split <;> decide

theorem settingsAction_covered {rdi : BitVec 64} :
    (∀ effect ∈ settingsActionEffects (low rdi),
      Within effect.reserved (settingsActionNeeds rdi)) ↔ ActionAlike rdi := by
  constructor
  · intro agrees
    by_contra differs
    obtain ⟨large, isKept⟩ := not_or.mp differs
    rw [settingsAction_needs (by omega)] at agrees
    simp only [List.mem_cons, List.not_mem_nil, or_false, not_not] at isKept
    rcases isKept with is | is | is | is | is | is | is <;> rw [is] at agrees <;>
      exact absurd (agrees _ List.mem_cons_self) (by decide)
  · intro alike effect isEffect
    have number {action : Nat} (isAction : low rdi = action) (positive : 0 < action)
        (isKept : (action : Int) ∈ ([1, 2, 3, 5, 7, 8, 9] : List Int)) : rdi = BitVec.ofNat 64 action := by
      have lowHalf := low_nat isAction positive
      rcases alike with small | plain
      · refine BitVec.eq_of_toNat_eq ?_
        rw [BitVec.toNat_ofNat]
        omega
      · exact absurd (isAction ▸ isKept) plain
    have plain {action : Nat} (isAction : low rdi = action) (beyond : 3 < action) :
        Within capSettings (settingsActionNeeds rdi) := by
      have lowHalf := low_nat isAction (by omega)
      exact settingsAction_settings (by omega)
    unfold settingsActionEffects at isEffect
    split at isEffect
    case h_11 => cases isEffect
    case h_4 isAction | h_6 isAction | h_10 isAction =>
      obtain rfl := List.mem_singleton.mp isEffect
      exact plain isAction (by decide)
    all_goals
      next isAction =>
        obtain rfl := List.mem_singleton.mp isEffect
        rw [settingsActionNeeds, number isAction (by decide) (by decide)]
        decide

theorem systemAction_covered {arg : Int} :
    (∀ effect ∈ systemAction arg, Within effect.reserved capShell) ↔
    arg < 4 ∨ arg = 13 ∨ 16 < arg := by
  have exceeds {effects : List Effect} {effect : Effect} (member : effect ∈ effects)
      (more : ¬Within effect.reserved capShell) :
      ¬∀ effect ∈ effects, Within effect.reserved capShell :=
    fun agrees => more (agrees effect member)
  rw [systemAction]
  split_ifs with restarts shutsDown sets starts sounds
  · exact iff_of_false (@exceeds _ .restart (by decide) (by decide)) (by omega)
  · exact iff_of_false (@exceeds _ .shutDown (by decide) (by decide)) (by omega)
  · exact iff_of_false (@exceeds _ .settings (by decide) (by decide)) (by omega)
  · exact iff_of_false (@exceeds _ .launch (by decide) (by decide)) (by omega)
  · exact iff_of_false (@exceeds _ .audio (by decide) (by decide)) (by omega)
  · exact iff_of_true (by decide) (by omega)

theorem shellCtl_covered {action arg : Int} :
    (∀ effect ∈ shellCtl action arg, Within effect.reserved capShell) ↔
      action ≠ 7 ∧ (action = 6 → arg ≠ 1 ∧ arg ≠ 2) ∧
      (action = 8 → arg < 4 ∨ arg = 13 ∨ 16 < arg) := by
  have starts : ¬∀ effect ∈ [Effect.shell, .launch], Within effect.reserved capShell := by decide
  rw [shellCtl]
  split_ifs with unknown isLaunch program isApp isSystem
  · exact iff_of_true (by decide) (by omega)
  · exact iff_of_false starts (by omega)
  · exact iff_of_true (by decide) (by omega)
  · exact iff_of_false starts (by omega)
  · rw [systemAction_covered]
    omega
  · exact iff_of_true (by decide) (by omega)

theorem desktopCtl_covered {action : Int} :
    (∀ effect ∈ desktopCtlEffects action, Within effect.reserved capShell) ↔
    action ≠ 1 ∧ action ≠ 2 := by
  rw [desktopCtlEffects]
  split_ifs with unknown opens drops
  · exact iff_of_true (by decide) (by omega)
  · exact iff_of_false (by decide) (by omega)
  · exact iff_of_false (by decide) (by omega)
  · exact iff_of_true (by decide) (by omega)

theorem fdOpen_covered {rsi : BitVec 64} {effect : Effect}
    (isEffect : effect ∈ fdOpenEffects (rsi.setWidth 32).toNat) :
    Within effect.reserved (if rsi = oRdonly then capFsRead else capFsRead ||| capFsWrite) := by
  unfold fdOpenEffects at isEffect
  have writes (notRead : (rsi.setWidth 32).toNat ≠ 1) : rsi ≠ oRdonly := by
    rintro isRead
    rw [isRead] at notRead
    exact notRead rfl
  split at isEffect
  case h_1 =>
    obtain rfl := List.mem_singleton.mp isEffect
    split <;> decide
  case h_5 => cases isEffect
  all_goals
    next isFlag =>
      obtain rfl := List.mem_singleton.mp isEffect
      rw [if_neg (writes (by rw [isFlag]; decide))]
      decide

theorem settingsAction_stays {action : Int} : .launch ∉ settingsActionEffects action := by
  unfold settingsActionEffects
  split <;> decide

theorem fdOpen_stays {flags : Nat} : .launch ∉ fdOpenEffects flags := by
  unfold fdOpenEffects
  split <;> decide

theorem Sys.launch_needs {r : Regs} {call : Sys} (isEffect : .launch ∈ call.effects r) :
    call.needs r = capShell := by
  cases call
  case winCtl | desktopCtl => rfl
  case fdOpen => exact absurd isEffect fdOpen_stays
  case settingsAction => exact absurd isEffect settingsAction_stays
  case fileDrop =>
    have stays (copies : Bool) : .launch ∉ fileDropEffects copies := by cases copies <;> decide
    exact absurd isEffect (stays _)
  case imageDecode =>
    have stays : .launch ∉ [Effect.fileRead, .decodeImage] := by decide
    exact absurd isEffect stays
  all_goals
    first
    | exact absurd isEffect List.not_mem_nil
    | exact absurd (List.mem_singleton.mp isEffect) (by decide)

/-- The calls whose handlers do only what the gate asked for. -/
theorem effects_covered {r : Regs} {call : Sys} :
    (∀ effect ∈ call.effects r, Within effect.reserved (call.needs r)) ↔ call.Covered r := by
  cases call
  case settingsAction => exact settingsAction_covered
  case winCtl => exact shellCtl_covered
  case desktopCtl => exact desktopCtl_covered
  case fdOpen => exact iff_of_true (fun effect isEffect => fdOpen_covered isEffect) trivial
  case imageDecode =>
    refine ⟨fun agrees => ?_, False.elim⟩
    exact absurd (agrees .fileRead List.mem_cons_self) (show ¬Within capFsRead capWindow by decide)
  case fileDrop =>
    have changes (copies : Bool) :
        ¬∀ effect ∈ fileDropEffects copies, Within effect.reserved capWindow := by
      cases copies <;> decide
    exact iff_of_false (changes _) not_false
  all_goals
    first
    | exact iff_of_true (List.forall_mem_nil _) trivial
    | exact iff_of_true (List.forall_mem_singleton.mpr Within.refl) trivial

end Cos.Sandbox
