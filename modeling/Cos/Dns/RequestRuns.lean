import Cos.Dns.Requests

/-! # Requests over whole runs -/

namespace Cos.Dns

open Cos.Lib

variable {w : World} {r r' : Request} {t i id : Nat} {kind : Kind} {hostname : Name}

structure RequestOk (r : Request) : Prop where
  name : r.hostname.length < dnsMaxNameLen
  recorded : r.state = .resolved →
    ∃ o ∈ r.origin, o.Matches ∧ o.id = r.id ∧ o.sourcePort = r.sourcePort ∧
      o.hostname = r.hostname ∧ o.Holds r.want6 (if r.want6 then r.result6 else r.result)
  other : r.want6 = true → r.result = [0, 0, 0, 0]

def CacheEntry.Ok (entry : CacheEntry) : Prop :=
  entry.valid = true → entry.negative = false →
    ∃ o ∈ entry.origin, o.Matches ∧ o.hostname = entry.name ∧ o.Holds false entry.ip

def CacheEntry6.Ok (entry : CacheEntry6) : Prop :=
  entry.valid = true → ∃ o ∈ entry.origin, o.Matches ∧ o.hostname = entry.name ∧
    o.Holds true entry.ip

def Request.For (r : Request) (kind : Kind) (hostname : Name) (id : Nat) : Prop :=
  r.state ≠ .free → r.id = id → r.hostname = hostname ∧ r.want6 = kind.want6

def Pc.Ok (w : World) : Pc → Prop
  | .idle => True
  | .asked _ hostname => hostname.length < dnsMaxNameLen
  | .sending kind hostname id | .waiting kind hostname id =>
    ∀ r ∈ w.requests, r.For kind hostname id

def Yield.Ok (y : Yield) : Prop :=
  ∃ o ∈ y.origin, o.Matches ∧ o.hostname = y.hostname ∧
    (o.Holds y.want6 y.address ∨ y.want6 = true ∧ y.address = [0, 0, 0, 0])

structure Sound (w : World) : Prop where
  requests : ∀ r ∈ w.requests, RequestOk r
  cached : ∀ entry ∈ w.cache, entry.Ok
  cached6 : ∀ entry ∈ w.cache6, entry.Ok
  yielded : ∀ y ∈ w.yields, y.Ok
  pcs : ∀ t, (w.pc t).Ok w

structure Request.Follows (r r' : Request) : Prop where
  ok : RequestOk r'
  used : r'.state ≠ .free → r.state ≠ .free
  id : r'.id = r.id
  hostname : r'.hostname = r.hostname
  want6 : r'.want6 = r.want6

theorem Sound.request (sound : Sound w) (isR : w.requests[i]? = some r) (follows : r.Follows r') :
    Sound (w.request i r') := by
  have member : r ∈ w.requests := List.mem_of_getElem? isR
  refine { sound with requests := fun q inside => ?_, pcs := fun t => ?_ }
  · rcases List.mem_or_eq_of_mem_set inside with before | rfl
    · exact sound.requests q before
    · exact follows.ok
  · have keeps : ∀ kind hostname id, (∀ q ∈ w.requests, q.For kind hostname id) →
        ∀ q ∈ (w.request i r').requests, q.For kind hostname id := fun kind hostname id all q inside => by
      rcases List.mem_or_eq_of_mem_set inside with before | rfl
      · exact all q before
      · intro used isId
        rw [follows.hostname, follows.want6]
        exact all r member (follows.used used) (follows.id ▸ isId)
    have before := sound.pcs t
    change (w.pc t).Ok _
    cases isPc : w.pc t with
    | idle => trivial
    | asked kind hostname =>
        rw [isPc] at before
        exact before
    | sending kind hostname id =>
        rw [isPc] at before
        exact keeps kind hostname id before
    | waiting kind hostname id =>
        rw [isPc] at before
        exact keeps kind hostname id before

theorem RequestOk.freed (ok : RequestOk r) : r.Follows { r with state := .free } :=
  ⟨⟨ok.name, nofun, ok.other⟩, fun used => absurd rfl used, rfl, rfl, rfl⟩

theorem RequestOk.failed (ok : RequestOk r) (pending : r.state = .pending) :
    r.Follows { r with state := .failed } :=
  ⟨⟨ok.name, nofun, ok.other⟩, fun _ => by rw [pending]; exact nofun, rfl, rfl, rfl⟩

theorem Sound.free (sound : Sound w) (isR : w.requests[i]? = some r) :
    Sound (w.request i { r with state := .free }) :=
  sound.request isR (sound.requests r (List.mem_of_getElem? isR)).freed

theorem Sound.release (sound : Sound w) (id : Nat) : Sound (w.release id) := by
  unfold World.release
  split
  · exact sound
  · split
    · exact sound
    · next isR => exact sound.free isR

theorem Sound.goto (sound : Sound w) (t : Nat) {pc : Pc} (ok : pc.Ok w) : Sound (w.goto t pc) := by
  refine { sound with pcs := fun u => ?_ }
  simp only [World.goto, Function.update_apply]
  split
  · exact ok
  · exact sound.pcs u

theorem Sound.yield (sound : Sound w) {y : Yield} (ok : y.Ok) : Sound (w.yield y) := by
  refine { sound with yielded := fun z inside => ?_ }
  rcases List.mem_cons.mp inside with rfl | before
  · exact ok
  · exact sound.yielded z before

theorem CacheEntry.Ok.expire {entry : CacheEntry} (ok : entry.Ok) (now : UInt32) :
    (entry.expire now).Ok := by
  unfold CacheEntry.expire
  split
  · exact nofun
  · exact ok

theorem dnsCacheScan_ok {cache : List CacheEntry} (now : UInt32) (hostname : Name)
    (all : ∀ entry ∈ cache, entry.Ok) : (∀ entry ∈ (dnsCacheScan now hostname cache).1, entry.Ok) ∧
      ∀ entry ∈ (dnsCacheScan now hostname cache).2, entry.Ok ∧ entry.valid = true ∧ entry.name = hostname := by
  induction cache with
  | nil => exact ⟨nofun, nofun⟩
  | cons entry rest ih =>
      obtain ⟨first, others⟩ := List.forall_mem_cons.mp all
      obtain ⟨after, found⟩ := ih others
      unfold dnsCacheScan
      simp only
      split
      · next here =>
        refine ⟨List.forall_mem_cons.mpr ⟨first.expire now, others⟩, fun e isE => ?_⟩
        cases isE
        exact ⟨first.expire now, here⟩
      · exact ⟨List.forall_mem_cons.mpr ⟨first.expire now, after⟩, found⟩

theorem Sound.cacheStore {ip : Option (List UInt8)} {ttl : UInt32} {negative : Bool}
    {origin : Option Origin} (sound : Sound w) (name : hostname.length < dnsMaxNameLen)
    (ok : negative = false →
    ∃ o ∈ origin, o.Matches ∧ o.hostname = hostname ∧ o.Holds false (ip.getD [0, 0, 0, 0])) :
    Sound (w.cacheStore hostname ip ttl negative origin) := by
  unfold World.cacheStore
  split
  · exact sound
  · refine { sound with cached := fun entry inside => ?_ }
    rcases List.mem_or_eq_of_mem_set inside with before | rfl
    · exact sound.cached entry before
    · intro _ positive
      simp only [dnsCopyName, List.take_of_length_le (Nat.le_sub_one_of_lt name)]
      exact ok positive

theorem cacheStore_requests (name : Name) (ip : Option (List UInt8)) (ttl : UInt32)
    (negative : Bool) (origin : Option Origin) :
    (w.cacheStore name ip ttl negative origin).requests = w.requests := by
  unfold World.cacheStore
  split <;> rfl

theorem dnsFindRequest_spec {requests : List Request} (found : dnsFindRequest requests id = some i)
    (isR : requests[i]? = some r) : r.state ≠ .free ∧ r.id = id := by
  obtain ⟨bound, matched, -⟩ := List.findIdx?_eq_some_iff_getElem.mp found
  rw [List.getElem?_eq_getElem bound] at isR
  cases isR
  simpa using matched

theorem Sound.call (sound : Sound w) (name : hostname.length < dnsMaxNameLen) :
    Sound (w.call t kind hostname) := by
  have asked : ∀ kind, (Pc.asked kind hostname).Ok w := fun _ => name
  have scanned := dnsCacheScan_ok w.now hostname sound.cached
  have expired : Sound { w with cache := (dnsCacheScan w.now hostname w.cache).1 } :=
    { sound with cached := scanned.1 }
  unfold World.call
  split
  · exact sound
  · split
    · split
      · next entry found =>
        have valid := List.find?_some found
        simp only [Bool.and_eq_true, beq_iff_eq] at valid
        obtain ⟨o, isO, isMatch, isName, holds⟩ := sound.cached6 entry (List.mem_of_find?_eq_some found) valid.1.1
        exact sound.yield ⟨o, isO, isMatch, isName.trans valid.2, .inl holds⟩
      · exact sound.goto t (asked _)
    · simp only
      split
      · next entry found =>
        obtain ⟨ok, valid, isHost⟩ := scanned.2 entry found
        split
        · exact expired
        · next positive =>
          obtain ⟨o, isO, isMatch, isName, holds⟩ := ok valid (Bool.not_eq_true _ ▸ positive)
          exact expired.yield ⟨o, isO, isMatch, isName.trans isHost, .inl holds⟩
      · exact expired.goto t name

theorem dnsFindRequest_none {requests : List Request} (absent : dnsFindRequest requests id = none)
    (inside : r ∈ requests) (used : r.state ≠ .free) : r.id ≠ id := by
  have not := List.findIdx?_eq_none_iff.mp absent r inside
  simpa [used] using not

theorem Sound.newRequest (sound : Sound w) (name : hostname.length < dnsMaxNameLen)
    (isNew : r.hostname = hostname ∧ r.want6 = kind.want6 ∧ r.id = id ∧ r.state = .pending)
    (result : r.result = [0, 0, 0, 0]) (absent : dnsFindRequest w.requests id = none)
    (apart : ∀ u, (w.pc u).Shares kind hostname id) :
    Sound ((w.request i r).goto t (.sending kind hostname id)) := by
  obtain ⟨isHost, isKind, isId, pending⟩ := isNew
  have others : ∀ q ∈ (w.request i r).requests, q ∈ w.requests ∨ q = r :=
    fun q inside => List.mem_or_eq_of_mem_set inside
  have inserted : Sound (w.request i r) := by
    refine { sound with requests := fun q inside => ?_, pcs := fun u => ?_ }
    · rcases others q inside with before | rfl
      · exact sound.requests q before
      · exact ⟨isHost ▸ name, fun resolved => (by rw [pending] at resolved; cases resolved), fun _ => result⟩
    · have before := sound.pcs u
      have shares := apart u
      -- a caller that has the number has asked the question of the new request
      have keeps : ∀ kind' hostname' id', (∀ q ∈ w.requests, q.For kind' hostname' id') →
          (id' = id → hostname = hostname' ∧ kind.want6 = kind'.want6) →
          ∀ q ∈ (w.request i r).requests, q.For kind' hostname' id' := fun kind' hostname' id' all same q inside => by
        rcases others q inside with before | rfl
        · exact all q before
        · intro _ isId'
          rw [isHost, isKind]
          exact same (isId'.symm.trans isId)
      change (w.pc u).Ok _
      cases isPc : w.pc u with
      | idle => trivial
      | asked kind hostname =>
          rw [isPc] at before
          exact before
      | sending kind hostname id =>
          rw [isPc] at before shares
          exact keeps kind hostname id before shares
      | waiting kind hostname id =>
          rw [isPc] at before shares
          exact keeps kind hostname id before shares
  refine inserted.goto t fun q inside => ?_
  rcases others q inside with before | rfl
  · exact fun used same => absurd same (dnsFindRequest_none absent before used)
  · exact fun _ _ => ⟨isHost, isKind⟩

theorem Sound.allocate {candidates : List UInt16} {port : UInt32} (sound : Sound w)
    (name : hostname.length < dnsMaxNameLen) (apart : w.DrawsApart kind hostname candidates) :
    Sound (w.allocate t kind hostname candidates port) := by
  unfold World.allocate
  split
  · exact sound.goto t trivial
  · next slot isSlot =>
    split
    · exact sound.goto t trivial
    · next isR =>
      have freed := sound.free isR
      simp only
      split
      · exact freed.goto t trivial
      · next drawn =>
        have free : dnsFreeSlot w.requests w.now = some slot := by
          split at isSlot
          · cases isSlot
          · exact isSlot
        have absent := List.find?_some drawn
        simp only [Bool.and_eq_true, beq_iff_eq] at absent
        exact freed.newRequest name ⟨List.take_of_length_le (Nat.le_sub_one_of_lt name), rfl, rfl,
          rfl⟩ rfl absent.2 (apart slot free _ isR _ drawn)

/-- What a look at a number does: the slots stay in order, and an address comes from the answer that
was recorded. -/
structure Looked (w : World) (id : Nat) (kind : Kind) (done : World × Option Yield × Bool) :
    Prop where
  sound : Sound done.1
  pc : done.1.pc = w.pc
  gives : ∀ y ∈ done.2.1, ∃ i ∈ dnsFindRequest w.requests id, ∃ r ∈ w.requests[i]?, r.state =
    .resolved ∧ RequestOk r ∧ r ∈ w.requests ∧
    y = ⟨r.hostname, r.want6, if kind.want6 then r.result6 else r.result, r.origin⟩

theorem Sound.nothing (sound : Sound w) {past : Bool} : Looked w id kind (w, none, past) :=
  ⟨sound, rfl, nofun⟩

theorem Sound.collected (sound : Sound w) {past : Bool} (isR : w.requests[i]? = some r) :
    Looked w id kind (w.request i { r with state := .free }, none, past) :=
  ⟨sound.free isR, rfl, nofun⟩

theorem Sound.answered (sound : Sound w) (found : dnsFindRequest w.requests id = some i)
    (isR : w.requests[i]? = some r) (resolved : r.state = .resolved) :
    Looked w id kind (w.request i { r with state := .free },
      some ⟨r.hostname, r.want6, if kind.want6 then r.result6 else r.result, r.origin⟩, true) := by
  refine ⟨sound.free isR, rfl, fun y isY => ?_⟩
  have member : r ∈ w.requests := List.mem_of_getElem? isR
  cases isY
  exact ⟨i, found, r, isR, resolved, sound.requests r member, member, rfl⟩

theorem Sound.poll (sound : Sound w) (id : Nat) : Looked w id .async (w.poll id) := by
  unfold World.poll
  split
  · exact sound.nothing
  · next found =>
    split
    · exact sound.nothing
    · next r isR =>
      have ok := sound.requests r (List.mem_of_getElem? isR)
      split
      · next resolved => exact sound.answered found isR resolved
      · exact sound.collected isR
      · next unresolved _ =>
        split
        · split
          · exact sound.collected isR
          · exact ⟨sound.request isR ⟨⟨ok.name, ok.recorded, ok.other⟩, fun used => used, rfl, rfl, rfl⟩, rfl, nofun⟩
        · exact sound.nothing

theorem Sound.resolvePass (sound : Sound w) (kind : Kind) (id : Nat) :
    Looked w id kind (w.resolvePass kind id) := by
  unfold World.resolvePass
  split
  · exact sound.nothing
  · next found =>
    split
    · exact sound.nothing
    · next isR =>
      split
      · next resolved => exact sound.answered found isR resolved
      · exact sound.collected isR
      · exact sound.nothing

theorem RequestOk.yield (ok : RequestOk r) (resolved : r.state = .resolved)
    (asked : kind.want6 = true → r.want6 = true) :
    Yield.Ok ⟨r.hostname, r.want6, if kind.want6 then r.result6 else r.result, r.origin⟩ := by
  obtain ⟨o, isO, isMatch, -, -, isName, holds⟩ := ok.recorded resolved
  refine ⟨o, isO, isMatch, isName, ?_⟩
  cases isKind : r.want6 with
  | false =>
      rw [isKind] at holds
      have notKind : kind.want6 = false := by
        cases is : kind.want6 with
        | false => rfl
        | true => rw [asked is] at isKind; cases isKind
      rw [notKind]
      exact .inl holds
  | true =>
      rw [isKind] at holds
      cases kind.want6 with
      | false => exact .inr ⟨rfl, ok.other isKind⟩
      | true => exact .inl holds

theorem Sound.pass (sound : Sound w) (isPc : w.pc t = .waiting kind hostname id) :
    Sound (w.pass t kind hostname id) := by
  have looked : Looked w id kind (if kind = .async then w.poll id else w.resolvePass kind id) := by
    split
    · next isAsync => exact isAsync ▸ sound.poll id
    · exact sound.resolvePass kind id
  unfold World.pass
  generalize (if kind = .async then w.poll id else w.resolvePass kind id) = done at looked ⊢
  have moved : Sound (if done.2.2 then done.1.goto t .idle else done.1) := by
    split
    · exact looked.sound.goto t trivial
    · exact looked.sound
  simp only
  split
  · exact moved
  · next y isY =>
    obtain ⟨i, found, r, isR, resolved, ok, member, rfl⟩ := looked.gives y isY
    have waiting := sound.pcs t
    rw [isPc] at waiting
    have same := waiting r member (by rw [resolved]; exact nofun) (dnsFindRequest_spec found isR).2
    refine moved.yield ?_
    rw [← same.1]
    exact ok.yield resolved fun isKind => same.2.trans isKind

/-- What `udp_recv` hands on has the port of a pending request, so the reply has the port of its
own. -/
theorem Datagram.Expected.own {d : Datagram} (expected : d.Expected w)
    (delivered : w.delivers d = true) (accepted : ¬ d.refuses) (inside : r ∈ w.requests)
    (pending : r.state = .pending) (isId : r.id = d.id) (answers : d.answer r.want6 ≠ none) :
    d.dstPort = r.sourcePort ∧ d.Repeats r.hostname := by
  unfold World.delivers World.expectsPort at delivered
  simp only [Bool.and_eq_true, Bool.not_eq_true', beq_iff_eq] at delivered
  obtain ⟨⟨untaken, isSource⟩, through⟩ := delivered
  have ok := expected untaken isSource accepted r inside pending isId answers
  split at ok
  · next isPort => exact ⟨isPort, ok⟩
  · obtain ⟨isV4, nobody⟩ := ok
    simp only [isV4, Bool.false_or, List.any_eq_true, Bool.and_eq_true, beq_iff_eq] at through
    obtain ⟨q, isQ, waits, isPort⟩ := through
    exact absurd isPort (nobody q isQ waits)

theorem Sound.handleResponse {d : Datagram} (sound : Sound w)
    (delivered : w.delivers d = true) (expected : d.Expected w) :
    Sound (w.handleResponse d) := by
  unfold World.handleResponse
  split
  · exact sound
  · split
    · exact sound
    · next i found =>
      split
      · exact sound
      · next r isR =>
        have ok := sound.requests r (List.mem_of_getElem? isR)
        obtain ⟨-, isId⟩ := dnsFindRequest_spec found isR
        split
        · exact sound
        · next isPending =>
          have pending : r.state = .pending := Decidable.not_not.mp isPending
          split
          · split
            · have stored : Sound (w.cacheStore r.hostname none 30000 true none) := sound.cacheStore ok.name nofun
              refine stored.request ?_ (ok.failed pending)
              rw [cacheStore_requests]
              exact isR
            · exact sound.request isR (ok.failed pending)
          · next accepted =>
            split
            · exact sound.request isR (ok.failed pending)
            · next ttl address isAnswer =>
              have mine := expected.own delivered accepted (List.mem_of_getElem? isR) pending isId (by rw [isAnswer]; exact nofun)
              have isMatch : Origin.Matches ⟨r.id, r.sourcePort, r.hostname, d⟩ := ⟨isId.symm, mine⟩
              have used : r.state ≠ .free := by rw [pending]; exact nofun
              have shown : ∀ shown, (⟨r.id, r.sourcePort, r.hostname, d⟩ : Origin).Holds r.want6 address → shown = address →
                  ∃ o ∈ some (⟨r.id, r.sourcePort, r.hostname, d⟩ : Origin), o.Matches ∧ o.id = r.id ∧
                    o.sourcePort = r.sourcePort ∧ o.hostname = r.hostname ∧ o.Holds r.want6 shown :=
                fun shown holds same => ⟨_, rfl, isMatch, rfl, rfl, rfl, same ▸ holds⟩
              split
              · next isKind =>
                have holds : (⟨r.id, r.sourcePort, r.hostname, d⟩ : Origin).Holds true address := ⟨ttl, isKind ▸ isAnswer⟩
                refine Sound.request (r := r) { sound with cached6 := fun entry inside => ?_ } isR
                  ⟨⟨ok.name, fun _ => shown _ (isKind ▸ holds) (if_pos isKind), ok.other⟩, fun _ => used, rfl, rfl, rfl⟩
                rcases List.mem_or_eq_of_mem_set inside with before | rfl
                · exact sound.cached6 entry before
                · exact fun _ => ⟨_, rfl, isMatch, (List.take_of_length_le (Nat.le_sub_one_of_lt ok.name)).symm, holds⟩
              · next isKind =>
                have notKind : r.want6 = false := Bool.not_eq_true _ ▸ isKind
                have holds : (⟨r.id, r.sourcePort, r.hostname, d⟩ : Origin).Holds false address := ⟨ttl, notKind ▸ isAnswer⟩
                have stored : Sound (w.cacheStore r.hostname (some address) ttl false
                    (some ⟨r.id, r.sourcePort, r.hostname, d⟩)) :=
                  sound.cacheStore ok.name fun _ => ⟨_, rfl, isMatch, rfl, holds⟩
                refine stored.request ?_
                  ⟨⟨ok.name, fun _ => shown _ (notKind ▸ holds) (if_neg isKind),
                    fun is => absurd is isKind⟩, fun _ => used, rfl, rfl, rfl⟩
                rw [cacheStore_requests]
                exact isR

theorem Sound.step {label : Step} (sound : Sound w) (isolated : Isolated w label) :
    Sound (w.step label) := by
  have pcs := sound.pcs
  unfold World.step
  split
  · split
    · exact sound.call isolated
    · exact sound
  · next t candidates port =>
    split
    · next isPc =>
      have asked := pcs t
      have apart : Isolated w (.allocate t candidates port) := isolated
      rw [Isolated, isPc] at apart
      rw [isPc] at asked
      exact sound.allocate asked apart
    · exact sound
  · next t ok =>
    split
    · next isPc =>
      split
      · have sending := pcs t
        rw [isPc] at sending
        exact sound.goto t sending
      · exact (sound.release _).goto t trivial
    · exact sound
  · next t =>
    split
    · next isPc => exact sound.pass isPc
    · exact sound
  · next t =>
    split
    · refine Sound.goto ?_ t trivial
      split
      · exact sound
      · exact sound.release _
    · exact sound
  · next id =>
    have looked := sound.poll id.toNat
    split
    · exact looked.sound
    · next y isY =>
      obtain ⟨i, found, r, isR, resolved, ok, -, rfl⟩ := looked.gives y isY
      exact looked.sound.yield (ok.yield resolved nofun)
  · next d =>
    split
    · next delivered => exact sound.handleResponse delivered isolated
    · exact sound
  · refine { sound with cached := fun entry inside => ?_ }
    rw [List.eq_of_mem_replicate inside]
    exact nofun
  · exact { sound with }

theorem Sound.init : Sound World.init where
  requests r inside := by
    rw [List.eq_of_mem_replicate inside]
    exact ⟨by decide, nofun, nofun⟩
  cached entry inside := by
    rw [List.eq_of_mem_replicate inside]
    exact nofun
  cached6 entry inside := by
    rw [List.eq_of_mem_replicate inside]
    exact nofun
  yielded := nofun
  pcs _ := trivial

def replyFor (label : UInt8) (v6 : Bool) (port : Nat) : Datagram :=
  ⟨v6, 53, port, false,
    [0, 7, 129, 128, 0, 1, 0, 1, 0, 0, 0, 0, 1, label, 0, 0, 1, 0, 1, 192, 12, 0, 1, 0, 1, 0, 0, 0,
    60, 0, 4, 1, 2, 3, 4]⟩

/-- A reply of somebody who guessed the number alone is dropped; the real one is then taken. -/
def guessedRun : List Step :=
  [.call 0 .async [97], .allocate 0 [7] 5, .sent 0 true, .receive (replyFor 98 false 1000),
    .receive (replyFor 97 false 49157), .pass 0]

example : (runSteps World.step World.init guessedRun).yields.map Yield.address =
    [[1, 2, 3, 4]] := by decide

end Cos.Dns
