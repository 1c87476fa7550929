import Cos.Lib.Run
import Mathlib.Logic.Function.Basic

/-! # The requests of `dns.c`

Eight slots, one for each question that is out, and the two caches.  What runs under
`dns_state_lock` is one step.
-/

namespace Cos.Dns

open Cos.Lib

abbrev Name := List UInt8

/-- `DNS_MAX_INFLIGHT`, `DNS_MAX_NAME_LEN`, `DNS_CACHE_SIZE` and the length of `dns_cache6`. -/
def dnsMaxInflight : Nat := 8

def dnsMaxNameLen : Nat := 256

def dnsCacheSize : Nat := 16

def dnsCache6Size : Nat := 8

def dnsPort : Nat := 53

/-- A datagram as `udp_recv` and `udp6_recv` have it; `taken` says that a socket of its own is bound
to the port. -/
structure Datagram where
  v6 : Bool
  srcPort : Nat
  dstPort : Nat
  taken : Bool
  data : List UInt8
deriving DecidableEq

inductive RequestState
  | free
  | pending
  | resolved
  | failed
deriving DecidableEq

/-- Auxiliary: the question an answer was recorded for, and the datagram it was in. -/
structure Origin where
  id : Nat
  sourcePort : Nat
  hostname : Name
  reply : Datagram
deriving DecidableEq

/-- `dns_request_t`; `origin` is auxiliary: what its answer was taken from. -/
structure Request where
  id : Nat
  sourcePort : Nat
  hostname : Name
  result : List UInt8
  want6 : Bool
  result6 : List UInt8
  submittedAt : UInt32
  retries : Nat
  state : RequestState
  origin : Option Origin
deriving DecidableEq

/-- `dns_cache_entry_t`. -/
structure CacheEntry where
  name : Name
  ip : List UInt8
  ttl : UInt32
  expires : UInt32
  timestamp : UInt32
  valid : Bool
  negative : Bool
  origin : Option Origin
deriving DecidableEq

/-- `dns_cache6_t`. -/
structure CacheEntry6 where
  name : Name
  ip : List UInt8
  expires : UInt32
  valid : Bool
  origin : Option Origin
deriving DecidableEq

/-- `cos_dns_start` with `dns_async_poll`, `dns_resolve`, `dns_resolve6`. -/
inductive Kind
  | async
  | resolve
  | resolve6
deriving DecidableEq

def Kind.want6 : Kind → Bool
  | .resolve6 => true
  | _ => false

/-- Where a caller is: past the cache, in `dns_query` with a request, waiting for its answer. -/
inductive Pc
  | idle
  | asked (kind : Kind) (hostname : Name)
  | sending (kind : Kind) (hostname : Name) (id : Nat)
  | waiting (kind : Kind) (hostname : Name) (id : Nat)
deriving DecidableEq

/-- Auxiliary: an address that was handed out, and for which name. -/
structure Yield where
  hostname : Name
  want6 : Bool
  address : List UInt8
  origin : Option Origin
deriving DecidableEq

structure World where
  requests : List Request
  cache : List CacheEntry
  cache6 : List CacheEntry6
  now : UInt32
  pc : Nat → Pc
  /-- Auxiliary: what was handed out. -/
  yields : List Yield

inductive Step
  | call (t : Nat) (kind : Kind) (hostname : Name)
  /-- `candidates` and `port` are what `net_rand32` gives. -/
  | allocate (t : Nat) (candidates : List UInt16) (port : UInt32)
  /-- The eight attempts of `dns_query` to send: one went out, or none did. -/
  | sent (t : Nat) (ok : Bool)
  | pass (t : Nat)
  /-- The end of the passes of `dns_resolve`; a caller of `cos_dns_start` that goes away. -/
  | giveUp (t : Nat)
  /-- `dns_async_poll` with any number. -/
  | poll (id : UInt16)
  | receive (datagram : Datagram)
  | setServer
  | tick (now : UInt32)
deriving DecidableEq

/-- `dns_copy_name` into an array of `DNS_MAX_NAME_LEN`. -/
def dnsCopyName (name : Name) : Name := name.take (dnsMaxNameLen - 1)

def dnsLabels (name : Name) : List Name :=
  let labels := name.splitOn 46
  if labels.getLast? = some [] then labels.dropLast else labels

/-- `dns_encode_name`. -/
def dnsEncodeLabels (bufSize : Nat) : List Name → List UInt8 → Option (List UInt8)
  | [], done => if bufSize < done.length + 1 then none else some (done ++ [0])
  | label :: rest, done =>
      if label.length = 0 ∨ 63 < label.length ∨ bufSize < done.length + label.length + 2 then none
      else dnsEncodeLabels bufSize rest (done ++ UInt8.ofNat label.length :: label)

def dnsEncodeName (name : Name) : Option (List UInt8) :=
  if name = [] then none else dnsEncodeLabels (512 - 12 - 4) (dnsLabels name) []

/-- `dns_skip_name`, with so many labels to go; the result is what comes after the name. -/
def dnsSkipName : Nat → List UInt8 → Option (List UInt8)
  | _, [] => none
  | labels, len :: rest =>
      if len = 0 then some rest
      else if len &&& 0xC0 = 0xC0 then
        match rest with
        | [] => none
        | _ :: rest => some rest
      else if 63 < len ∨ rest.length < len.toNat then none
      else
        match labels with
        | 0 => none
        | labels + 1 => dnsSkipName labels (rest.drop len.toNat)

def word (data : List UInt8) (at' : Nat) : Nat :=
  (data.getD at' 0).toNat * 256 + (data.getD (at' + 1) 0).toNat

def Datagram.id (d : Datagram) : Nat := word d.data 0

def Datagram.flags (d : Datagram) : Nat := word d.data 2

def Datagram.rcode (d : Datagram) : Nat := d.flags % 16

/-- `DNS_FLAG_QR` is not set, or the code is not `DNS_RCODE_NOERROR`. -/
def Datagram.refuses (d : Datagram) : Bool := d.flags < 32768 || d.rcode != 0

def dnsSkipQuestions : Nat → List UInt8 → Option (List UInt8)
  | 0, ptr => some ptr
  | questions + 1, ptr =>
      match dnsSkipName 128 ptr with
      | none => none
      | some ptr => if ptr.length < 4 then none else dnsSkipQuestions questions (ptr.drop 4)

def dnsFindAnswer (want6 : Bool) : Nat → List UInt8 → Option (UInt32 × List UInt8)
  | 0, _ => none
  | answers + 1, ptr =>
      match dnsSkipName 128 ptr with
      | none => none
      | some ptr =>
          let rdlen := word ptr 8
          let rdata := ptr.drop 10
          if ptr.length < 10 ∨ rdata.length < rdlen then none
          else if want6 ∧ word ptr 0 = 28 ∧ word ptr 2 = 1 ∧ rdlen = 16 ∨ ¬ want6 ∧ word ptr 0 = 1 ∧ word ptr 2 = 1 ∧ rdlen = 4 then
            some (UInt32.ofNat (word ptr 4 * 65536 + word ptr 6), rdata.take rdlen)
          else dnsFindAnswer want6 answers (rdata.drop rdlen)

def Datagram.answer (d : Datagram) (want6 : Bool) : Option (UInt32 × List UInt8) :=
  match dnsSkipQuestions (word d.data 4) (d.data.drop 12) with
  | none => none
  | some ptr => dnsFindAnswer want6 (word d.data 6) ptr

/-- `dns_cache_entry_live_locked`: the entry afterwards. -/
def CacheEntry.expire (entry : CacheEntry) (now : UInt32) : CacheEntry :=
  if entry.valid ∧ entry.expires ≠ 0 ∧
    entry.expires ≤ now then { entry with valid := false, negative := false } else entry

def CacheEntry.live (entry : CacheEntry) (now : UInt32) : Bool := (entry.expire now).valid

/-- The entry that was stored first, from the entry `slot` on. -/
def dnsOldest : List CacheEntry → (at' slot : Nat) → (oldest : UInt32) → Nat
  | [], _, slot, _ => slot
  | entry :: rest, at', slot, oldest =>
      if entry.timestamp < oldest then dnsOldest rest (at' + 1) at' entry.timestamp else dnsOldest rest (at' + 1) slot oldest

def dnsCacheSlot (cache : List CacheEntry) (now : UInt32) (name : Name) : Nat :=
  match cache.findIdx? (fun entry => entry.valid && entry.name == name || !entry.live now) with
  | some slot => slot
  | none => dnsOldest (cache.drop 1) 1 0 ((cache.map CacheEntry.timestamp).headD 0)

/-- `dns_cache_store_locked`; `ip` is `none` for a name that is not there. -/
def World.cacheStore (w : World) (name : Name) (ip : Option (List UInt8)) (ttl : UInt32)
    (negative : Bool) (origin : Option Origin) : World :=
  if name = [] then w
  else
    { w with cache := w.cache.set (dnsCacheSlot w.cache w.now name) {
        name := dnsCopyName name
        ip := ip.getD [0, 0, 0, 0]
        ttl := ttl
        expires := if ttl = 0 then 0 else w.now + ttl
        timestamp := w.now
        valid := true
        negative := negative
        origin := origin } }

/-- The loop of `dns_cache_lookup` and `dns_resolve`: the entries afterwards, and the one that was
found. -/
def dnsCacheScan (now : UInt32) (hostname : Name) :
    List CacheEntry → List CacheEntry × Option CacheEntry
  | [] => ([], none)
  | entry :: rest =>
      let entry := entry.expire now
      if entry.valid ∧ entry.name = hostname then (entry :: rest, some entry)
      else ((entry :: (dnsCacheScan now hostname rest).1), (dnsCacheScan now hostname rest).2)

/-- The slot of `dns_cache6` that `dns_handle_response` takes. -/
def dnsCache6Slot (cache6 : List CacheEntry6) (now : UInt32) : Nat :=
  (cache6.findIdx? fun entry => !entry.valid || entry.expires < now).getD 0

/-- `dns_find_request_locked`. -/
def dnsFindRequest (requests : List Request) (id : Nat) : Option Nat :=
  requests.findIdx? fun r => r.state != .free && r.id == id

/-- The slot that `dns_allocate_request_locked` takes: free, or not collected for 30 s. -/
def dnsFreeSlot (requests : List Request) (now : UInt32) : Option Nat :=
  requests.findIdx? fun r => r.state == .free || 30000 < now - r.submittedAt

/-- The number that `dns_allocate_request_locked` takes. -/
def dnsDrawId (requests : List Request) (candidates : List UInt16) : Option UInt16 :=
  (candidates.take 256).find? fun cand => cand != 0 && dnsFindRequest requests cand.toNat == none

section

variable (w : World)

def World.request (i : Nat) (r : Request) : World := { w with requests := w.requests.set i r }

def World.release (id : Nat) : World :=
  match dnsFindRequest w.requests id with
  | none => w
  | some i =>
      match w.requests[i]? with
      | none => w
      | some r => w.request i { r with state := .free }

def World.goto (t : Nat) (pc : Pc) : World := { w with pc := Function.update w.pc t pc }

def World.yield (y : Yield) : World := { w with yields := y :: w.yields }

def World.call (t : Nat) (kind : Kind) (hostname : Name) : World :=
  if hostname = [] ∧ kind ≠ .async then w
  else
    match kind with
    | .resolve6 =>
        match w.cache6.find? fun entry => entry.valid && w.now ≤ entry.expires && entry.name == hostname with
        | some entry => w.yield ⟨hostname, true, entry.ip, entry.origin⟩
        | none => w.goto t (.asked kind hostname)
    | _ =>
        let scan := dnsCacheScan w.now hostname w.cache
        match scan.2 with
        | some entry =>
            if entry.negative then { w with cache := scan.1 }
            else { w with cache := scan.1 }.yield ⟨hostname, false, entry.ip, entry.origin⟩
        | none => { w with cache := scan.1 }.goto t (.asked kind hostname)

/-- `dns_allocate_request_locked`, and what `dns_query` does under the same lock. -/
def World.allocate (t : Nat) (kind : Kind) (hostname : Name) (candidates : List UInt16)
    (port : UInt32) : World :=
  match if hostname = [] then none else dnsFreeSlot w.requests w.now with
  | none => w.goto t .idle
  | some i =>
      match w.requests[i]? with
      | none => w.goto t .idle
      | some r =>
          let w := w.request i { r with state := .free }
          match dnsDrawId w.requests candidates with
          | none => w.goto t .idle
          | some id =>
              (w.request i {
                  id := id.toNat
                  sourcePort := 49152 + port.toNat % 16384
                  hostname := dnsCopyName hostname
                  result := [0, 0, 0, 0]
                  want6 := kind.want6
                  result6 := List.replicate 16 0
                  submittedAt := w.now
                  retries := 0
                  state := .pending
                  origin := none }).goto t (.sending kind hostname id.toNat)

/-- `dns_async_poll`: the resend has no effect here. -/
def World.poll (id : Nat) : World × Option Yield × Bool :=
  match dnsFindRequest w.requests id with
  | none => (w, none, true)
  | some i =>
      match w.requests[i]? with
      | none => (w, none, true)
      | some r =>
          match r.state with
          | .resolved => (w.request i { r with state := .free }, some ⟨r.hostname, r.want6, r.result, r.origin⟩, true)
          | .failed => (w.request i { r with state := .free }, none, true)
          | _ =>
              if 1500 ≤ w.now - r.submittedAt then
                if 3 ≤ r.retries then (w.request i { r with state := .free }, none, true)
                else (w.request i { r with retries := r.retries + 1, submittedAt := w.now }, none, false)
              else (w, none, false)

/-- One pass of the loops in `dns_resolve` and `dns_resolve6`. -/
def World.resolvePass (kind : Kind) (id : Nat) : World × Option Yield × Bool :=
  match dnsFindRequest w.requests id with
  | none => (w, none, true)
  | some i =>
      match w.requests[i]? with
      | none => (w, none, true)
      | some r =>
          match r.state with
          | .resolved =>
              (w.request i { r with state := .free },
                some ⟨r.hostname, r.want6, if kind.want6 then r.result6 else r.result, r.origin⟩, true)
          | .failed => (w.request i { r with state := .free }, none, true)
          | _ => (w, none, false)

def World.pass (t : Nat) (kind : Kind) (hostname : Name) (id : Nat) : World :=
  let done := if kind = .async then w.poll id else w.resolvePass kind id
  let w := if done.2.2 then done.1.goto t .idle else done.1
  match done.2.1 with
  | none => w
  | some y => w.yield { y with hostname := hostname }

def World.handleResponse (d : Datagram) : World :=
  if d.data.length < 12 then w
  else
    match dnsFindRequest w.requests d.id with
    | none => w
    | some i =>
        match w.requests[i]? with
        | none => w
        | some r =>
            if r.state ≠ .pending then w
            else if d.refuses then
              (if d.rcode = 3 then w.cacheStore r.hostname none 30000 true none else w).request i { r with state := .failed }
            else
              match d.answer r.want6 with
              | none => w.request i { r with state := .failed }
              | some (ttl, address) =>
                  let origin := some ⟨r.id, r.sourcePort, r.hostname, d⟩
                  if r.want6 then
                    { w with cache6 := w.cache6.set (dnsCache6Slot w.cache6 w.now) {
                        name := dnsCopyName r.hostname
                        ip := address
                        expires := w.now + (if 300 < ttl then 300 else ttl) * 1000
                        valid := true
                        origin := origin } }.request i { r with result6 := address, state := .resolved, origin := origin }
                  else
                    (w.cacheStore r.hostname (some address) ttl false origin).request i
                      { r with result := address, state := .resolved, origin := origin }

def World.expectsPort (port : Nat) : Bool :=
  w.requests.any fun r => r.state == .pending && r.sourcePort == port

/-- Whether `udp_recv` or `udp6_recv` hands a datagram on. -/
def World.delivers (d : Datagram) : Bool :=
  !d.taken && d.srcPort == dnsPort && (d.v6 || w.expectsPort d.dstPort)

end

def World.step (w : World) : Step → World
  | .call t kind hostname => if w.pc t = .idle then w.call t kind hostname else w
  | .allocate t candidates port =>
      match w.pc t with
      | .asked kind hostname => w.allocate t kind hostname candidates port
      | _ => w
  | .sent t ok =>
      match w.pc t with
      | .sending kind hostname id =>
          if ok ∧ (dnsEncodeName hostname).isSome then w.goto t (.waiting kind hostname id)
          else (w.release id).goto t .idle
      | _ => w
  | .pass t =>
      match w.pc t with
      | .waiting kind hostname id => w.pass t kind hostname id
      | _ => w
  | .giveUp t =>
      match w.pc t with
      | .waiting kind _ id => (if kind = .async then w else w.release id).goto t .idle
      | _ => w
  | .poll id =>
      match (w.poll id.toNat).2.1 with
      | none => (w.poll id.toNat).1
      | some y => (w.poll id.toNat).1.yield y
  | .receive d => if w.delivers d then w.handleResponse d else w
  | .setServer => { w with cache := List.replicate dnsCacheSize ⟨[], [0, 0, 0, 0], 0, 0, 0, false, false, none⟩ }
  | .tick now => { w with now := now }

def World.init : World where
  requests := List.replicate dnsMaxInflight
    ⟨0, 0, [], [0, 0, 0, 0], false, List.replicate 16 0, 0, 0, .free, none⟩
  cache := List.replicate dnsCacheSize ⟨[], [0, 0, 0, 0], 0, 0, 0, false, false, none⟩
  cache6 := List.replicate dnsCache6Size ⟨[], List.replicate 16 0, 0, false, none⟩
  now := 0
  pc := fun _ => .idle
  yields := []

def Datagram.Repeats (d : Datagram) (hostname : Name) : Prop :=
  word d.data 4 ≠ 0 ∧ ∃ name ∈ dnsEncodeName hostname, name <+: d.data.drop 12

def Origin.Matches (o : Origin) : Prop :=
  o.reply.id = o.id ∧ o.reply.dstPort = o.sourcePort ∧ o.reply.Repeats o.hostname

def Origin.Holds (o : Origin) (want6 : Bool) (address : List UInt8) : Prop :=
  ∃ ttl, o.reply.answer want6 = some (ttl, address)

structure DnsOk (w : World) : Prop where
  /-- An answer is recorded only from a reply to that request. -/
  recorded : ∀ r ∈ w.requests, r.state = .resolved →
    ∃ o ∈ r.origin, o.Matches ∧ o.id = r.id ∧ o.sourcePort = r.sourcePort ∧
      o.hostname = r.hostname ∧ o.Holds r.want6 (if r.want6 then r.result6 else r.result)
  /-- An address is handed out only from a reply to a question for that name; a question for an IPv6
  address has none of the other kind. -/
  yielded : ∀ y ∈ w.yields, ∃ o ∈ y.origin, o.Matches ∧ o.hostname = y.hostname ∧
    (o.Holds y.want6 y.address ∨ y.want6 = true ∧ y.address = [0, 0, 0, 0])

/-- A caller that has the number asks the same question with it. -/
def Pc.Shares (kind : Kind) (hostname : Name) (id : Nat) : Pc → Prop
  | .sending kind' hostname' id' | .waiting kind' hostname' id' =>
    id' = id → hostname = hostname' ∧ kind.want6 = kind'.want6
  | .idle | .asked _ _ => True

/-- The number that is drawn is not one under which somebody waits for the answer to another
question. -/
def World.DrawsApart (w : World) (kind : Kind) (hostname : Name) (candidates : List UInt16) :
    Prop :=
  ∀ i ∈ dnsFreeSlot w.requests w.now, ∀ r ∈ w.requests[i]?,
    ∀ id ∈ dnsDrawId (w.request i { r with state := .free }).requests candidates, ∀ u,
    (w.pc u).Shares kind hostname id.toNat

/-- A reply from port 53 with the number of a pending request comes to its port and repeats its
question (who knows the port was asked), or it comes over IPv4 to a port on which no request is
pending. -/
def Datagram.Expected (w : World) (d : Datagram) : Prop :=
  d.taken = false → d.srcPort = dnsPort → ¬ d.refuses →
    ∀ r ∈ w.requests, r.state = .pending → r.id = d.id → d.answer r.want6 ≠ none →
      if d.dstPort = r.sourcePort then d.Repeats r.hostname
      else d.v6 = false ∧ ∀ q ∈ w.requests, q.state = .pending → q.sourcePort ≠ d.dstPort

def Isolated (w : World) : Step → Prop
  | .call _ _ hostname => hostname.length < dnsMaxNameLen
  | .allocate t candidates _ =>
      match w.pc t with
      | .asked kind hostname => w.DrawsApart kind hostname candidates
      | _ => True
  | .receive d => d.Expected w
  | _ => True

instance (d : Datagram) (hostname : Name) : Decidable (d.Repeats hostname) :=
  inferInstanceAs (Decidable (_ ∧ _))

instance (o : Origin) : Decidable o.Matches := inferInstanceAs (Decidable (_ ∧ _))

instance (w : World) (d : Datagram) : Decidable (d.Expected w) :=
  inferInstanceAs (Decidable (d.taken = false → d.srcPort = dnsPort → ¬ d.refuses →
    ∀ r ∈ w.requests, r.state = .pending → r.id = d.id → d.answer r.want6 ≠ none →
      if d.dstPort = r.sourcePort then d.Repeats r.hostname
      else d.v6 = false ∧ ∀ q ∈ w.requests, q.state = .pending → q.sourcePort ≠ d.dstPort))

end Cos.Dns
