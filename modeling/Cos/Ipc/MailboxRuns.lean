import Cos.Ipc.Mailbox
import Cos.Lib.Tally

/-! # Mailboxes over whole runs

While a mailbox is in the table its semaphore counts its messages; once it is gone the posts of the
retirement cover the receivers in it.
-/

namespace Cos.Ipc

open Cos.Lib
open Function (update update_of_ne update_self update_apply)

variable {T : Type} [DecidableEq T] {w : World T} {t u : T} {i j : Nat} {slack slack' : Nat}
  {pc pc' : T → Pc} {p : Pc} {mb mb' : Mailbox T}

structure RingSound (mb : Mailbox T) : Prop where
  head : mb.head < ipcQueueSize
  count : mb.count ≤ ipcQueueSize
  tail : mb.tail = (mb.head + mb.count) % ipcQueueSize
  order : mb.accepted = mb.received ++ mb.queued

def Pc.awake : Pc → Nat
  | .woken _ => 1
  | _ => 0

def sumOf (mb : Mailbox T) (pc : T → Pc) (role : Pc → Nat) : Nat := ∑ t ∈ mb.inside, role (pc t)

/-- `slack` posts have not woken anyone yet. -/
structure BoxSound (slack : Nat) (pc : T → Pc) (i : Nat) (mb : Mailbox T) : Prop where
  inside : ∀ t, t ∈ mb.inside ↔ (pc t).box = some i
  refs : mb.refs = mb.inside.card
  freed : mb.freed = if mb.dead = true ∧ mb.inside = ∅ then 1 else 0
  ring : RingSound mb
  waiters : ∀ t, t ∈ mb.waiters ↔ pc t = .asleep i
  once : mb.waiters.Nodup
  items : 0 ≤ mb.items
  supply : mb.waiters ≠ [] → mb.items ≤ sumOf mb pc Pc.awake + slack
  counted : mb.dead = false → mb.items + sumOf mb pc Pc.posts + sumOf mb pc Pc.past = mb.count

def World.left (w : World T) (i : Nat) : Nat :=
  match w.tableLock with
  | none => 0
  | some t =>
      match w.pc t with
      | .retiring j left _ => if j = i then left else 0
      | _ => 0

structure WorldSound (slack : Nat → Nat) (w : World T) : Prop where
  boxes : ∀ i, BoxSound (slack i) w.pc i (w.box i)
  known : ∀ t i, (w.pc t).box = some i → i < w.next
  table : ∀ s i, w.mailboxes s = some i → i < w.next ∧ (w.box i).dead = false
  tableOnce : ∀ s s' i, w.mailboxes s = some i → w.mailboxes s' = some i → s = s'
  lock : ∀ t, w.tableLock = some t ↔ ∃ i left next, w.pc t = .retiring i left next
  retiring : ∀ t i left next, w.pc t = .retiring i left next →
    i < w.next ∧ (w.box i).dead = true ∧ (w.box i).inside ≠ ∅
  covered : ∀ i, (w.box i).dead = true → w.Covers i (w.left i)

theorem BoxSound.frame (sound : BoxSound slack pc i mb)
    (same : ∀ u, (pc u).box = some i ∨ (pc' u).box = some i → pc' u = pc u) :
    BoxSound slack pc' i mb := by
  have inside : ∀ u, u ∈ mb.inside → pc' u = pc u :=
    fun u member => same u (.inl ((sound.inside u).mp member))
  have sums : ∀ role, sumOf mb pc' role = sumOf mb pc role := fun role =>
    Finset.sum_congr rfl fun u member => by rw [inside u member]
  refine { sound with inside := fun u => ?_, waiters := fun u => ?_, supply := ?_, counted := ?_ }
  · refine (sound.inside u).trans ⟨fun here => ?_, fun here => ?_⟩
    · rw [same u (.inl here)]
      exact here
    · rw [← same u (.inr here)]
      exact here
  · refine (sound.waiters u).trans ⟨fun here => ?_, fun here => ?_⟩
    · rw [same u (.inl (by rw [here]; rfl))]
      exact here
    · rw [← same u (.inr (by rw [here]; rfl))]
      exact here
  · rw [sums]
    exact sound.supply
  · rw [sums, sums]
    exact sound.counted

theorem sumOf_move (member : t ∈ mb.inside) (others : ∀ u, u ≠ t → pc' u = pc u) (role : Pc → Nat) :
    sumOf mb pc' role + role (pc t) = sumOf mb pc role + role (pc' t) := by
  exact @sum_change T _ mb.inside t (fun u => role (pc u)) (fun u => role (pc' u)) member
    fun u _ differ => by simp only [others u differ]

theorem BoxSound.moved (sound : BoxSound slack pc i mb) (here : (pc t).box = some i)
    (others : ∀ u, u ≠ t → pc' u = pc u)
    (stays : (pc' t).box = some i)
    (same : mb'.inside = mb.inside ∧ mb'.refs = mb.refs ∧ mb'.freed = mb.freed ∧ mb'.dead = mb.dead)
    (ring : RingSound mb') (sleeps : t ∈ mb'.waiters ↔ pc' t = .asleep i)
    (waiters : ∀ u, u ≠ t → (u ∈ mb'.waiters ↔ u ∈ mb.waiters)) (once : mb'.waiters.Nodup)
    (items : 0 ≤ mb'.items)
    (supply : mb'.waiters ≠ [] →
    mb'.items + (pc t).awake ≤ sumOf mb pc Pc.awake + (pc' t).awake + slack')
    (counted : mb.dead = false → mb'.items + (sumOf mb pc Pc.posts + (pc' t).posts) + (sumOf mb pc Pc.past + (pc' t).past) =
      mb'.count + (pc t).posts + (pc t).past) : BoxSound slack' pc' i mb' := by
  have member : t ∈ mb.inside := (sound.inside t).mpr here
  have sums : ∀ role, sumOf mb' pc' role = sumOf mb pc' role := fun role => by
    rw [sumOf, same.1, sumOf]
  refine ⟨fun u => ?_, ?_, ?_, ring, fun u => ?_, once, items, fun waiting => ?_, fun alive => ?_⟩
  · rw [same.1]
    by_cases isT : u = t
    · rw [isT]
      exact ⟨fun _ => stays, fun _ => member⟩
    · rw [others u isT]
      exact sound.inside u
  · rw [same.2.1, same.1]
    exact sound.refs
  · rw [same.2.2.1, same.2.2.2, same.1]
    exact sound.freed
  · by_cases isT : u = t
    · rw [isT]
      exact sleeps
    · rw [waiters u isT, others u isT]
      exact sound.waiters u
  · have change := sumOf_move member others Pc.awake
    have enough := supply waiting
    rw [sums]
    omega
  · have posts := sumOf_move member others Pc.posts
    have past := sumOf_move member others Pc.past
    have even := counted (same.2.2.2 ▸ alive)
    rw [sums, sums]
    omega

omit [DecidableEq T] in
theorem RingSound.same (ring : RingSound mb) (entries : mb'.entries = mb.entries)
    (head : mb'.head = mb.head) (tail : mb'.tail = mb.tail) (count : mb'.count = mb.count)
    (accepted : mb'.accepted = mb.accepted) (received : mb'.received = mb.received) :
    RingSound mb' := by
  refine ⟨?_, ?_, ?_, ?_⟩
  · rw [head]
    exact ring.head
  · rw [count]
    exact ring.count
  · rw [tail, head, count]
    exact ring.tail
  · rw [accepted, received, Mailbox.queued, entries, count, head]
    exact ring.order

omit [DecidableEq T] in
theorem RingSound.put (ring : RingSound mb) (room : mb.count < ipcQueueSize) (message : Message) :
    RingSound { mb with
      entries := update mb.entries mb.tail message
      tail := (mb.tail + 1) % ipcQueueSize
      count := mb.count + 1
      totalEnqueued := mb.totalEnqueued + 1
      accepted := mb.accepted ++ [message] } := by
  refine ⟨ring.head, room, ?_, ?_⟩
  · rw [ring.tail, Nat.mod_add_mod, Nat.add_assoc]
  · have appended := @ringGet_append _ ipcQueueSize mb.entries [message] mb.head mb.count room
    have placed : ringPut ipcQueueSize [message] (mb.head + mb.count) mb.entries = update mb.entries mb.tail message := by
      rw [ring.tail]
      rfl
    rw [placed] at appended
    simp only [Mailbox.queued]
    rw [show mb.count + 1 = mb.count + [message].length from rfl, appended, ring.order, List.append_assoc]
    rfl

omit [DecidableEq T] in
theorem RingSound.take (ring : RingSound mb) (some : mb.count ≠ 0) :
    RingSound { mb with
      head := (mb.head + 1) % ipcQueueSize
      count := mb.count - 1
      totalDequeued := mb.totalDequeued + 1
      received := mb.received ++ [mb.entries mb.head] } := by
  have count := ring.count
  refine ⟨Nat.mod_lt _ (by decide), ?_, ?_, ?_⟩
  · simp only
    omega
  · simp only
    rw [ring.tail, Nat.mod_add_mod]
    congr 1
    omega
  · obtain ⟨rest, isCount⟩ : ∃ rest, mb.count = rest + 1 := ⟨mb.count - 1, by omega⟩
    have order := ring.order
    rw [Mailbox.queued, isCount, ringGet, Nat.mod_eq_of_lt ring.head] at order
    simp only [Mailbox.queued]
    rw [order, isCount, Nat.add_sub_cancel, ringGet_mod, List.append_assoc]
    rfl

theorem BoxSound.wake {first : T} {rest : List T} (sound : BoxSound 1 pc i mb)
    (waiting : mb.waiters = first :: rest) :
    BoxSound 0 (update pc first (.woken i)) i { mb with waiters := rest } := by
  have isAsleep : pc first = .asleep i := (sound.waiters first).mp (waiting ▸ List.mem_cons_self)
  have once := sound.once
  rw [waiting, List.nodup_cons] at once
  have awake : update pc first (.woken i) first = .woken i := update_self _ _ _
  refine sound.moved (t := first) (by rw [isAsleep]; rfl) (fun u differ => update_of_ne differ _ _)
    (by rw [awake]; rfl)
    ⟨rfl, rfl, rfl, rfl⟩ (sound.ring.same rfl rfl rfl rfl rfl rfl) ?_ (fun u differ => ?_) once.2
    sound.items (fun _ => ?_) (fun alive => ?_)
  · rw [awake]
    exact ⟨fun inside => absurd inside once.1, nofun⟩
  · rw [waiting, List.mem_cons]
    exact ⟨.inr, fun inside => inside.resolve_left differ⟩
  · have enough := sound.supply (by rw [waiting]; exact List.cons_ne_nil _ _)
    rw [awake, isAsleep]
    simpa [Pc.awake] using enough
  · have even := sound.counted alive
    rw [awake, isAsleep]
    simpa [Pc.posts, Pc.past] using even

theorem BoxSound.nobody (sound : BoxSound 1 pc i mb) (empty : mb.waiters = []) :
    BoxSound 0 pc i mb :=
  { sound with supply := fun waiting => absurd empty waiting }

omit [DecidableEq T] in
theorem left_same {w' : World T} (lock : w'.tableLock = w.tableLock)
    (same : ∀ u, w.tableLock = some u → w'.pc u = w.pc u) : w'.left i = w.left i := by
  unfold World.left
  rw [lock]
  cases isLock : w.tableLock with
  | none => rfl
  | some u => simp only [same u isLock]

omit [DecidableEq T] in
theorem World.Covers.mono {w' : World T} {posts posts' : Nat} (covers : w.Covers i posts)
    (sums : ∀ role : Pc → Nat, (∀ j status, role (.leaving j status) = 0) →
    w'.tally role i = w.tally role i)
    (more : (w.box i).items + posts ≤ (w'.box i).items + posts')
    (count : (w'.box i).count = (w.box i).count) : w'.Covers i posts' := by
  unfold World.Covers at covers ⊢
  rw [sums _ fun _ _ => rfl, sums _ fun _ _ => rfl, sums _ fun _ _ => rfl, sums _ fun _ _ => rfl,
    count]
  exact covers.imp_right fun enough => by omega

theorem WorldSound.within {slack : Nat → Nat} {now : Nat} (sound : WorldSound slack w)
    (here : (w.pc t).box = some i) (stays : p.box = some i)
    (same : mb'.inside = (w.box i).inside ∧ mb'.dead = (w.box i).dead)
    (box : BoxSound now (update w.pc t p) i mb') (cover : (w.box i).dead = true → p.forever ≤ (w.pc t).forever ∧ ∀ others,
      p.needs + (w.box i).items + (w.pc t).posts + min (others + (w.pc t).sends) (ipcQueueSize - (w.box i).count) ≤
        mb'.items + p.posts + (w.pc t).needs + min (others + p.sends) (ipcQueueSize - mb'.count)) :
    WorldSound (update slack i now) ((w.setBox i mb').goto t p) := by
  obtain ⟨w', isW'⟩ : ∃ w', (w.setBox i mb').goto t p = w' := ⟨_, rfl⟩
  have self : w'.pc t = p := by
    rw [← isW']
    exact update_self _ _ _
  have others : ∀ u, u ≠ t → w'.pc u = w.pc u := fun u differ => by
    rw [← isW']
    exact update_of_ne differ _ _
  have boxSelf : w'.box i = mb' := by
    rw [← isW']
    exact update_self _ _ _
  have boxOther : ∀ j, j ≠ i → w'.box j = w.box j := fun j differ => by
    rw [← isW']
    exact update_of_ne differ _ _
  have dead : ∀ j, (w'.box j).dead = (w.box j).dead := fun j => by
    by_cases isI : j = i
    · rw [isI, boxSelf, same.2]
    · rw [boxOther j isI]
  have insides : ∀ j, (w'.box j).inside = (w.box j).inside := fun j => by
    by_cases isI : j = i
    · rw [isI, boxSelf, same.1]
    · rw [boxOther j isI]
  have notRetiring : ∀ j left next, w.pc t ≠ .retiring j left next := fun j left next is => by
    rw [is] at here
    cases here
  have notRetiringAfter : ∀ j left next, w'.pc t ≠ .retiring j left next := fun j left next is => by
    rw [self.symm.trans is] at stays
    cases stays
  have retiring : ∀ u j left next, w'.pc u = .retiring j left next ↔
    w.pc u = .retiring j left next := fun u j left next => by
    by_cases isT : u = t
    · rw [isT]
      exact ⟨fun is => absurd is (notRetiringAfter j left next), fun is => absurd is (notRetiring j left next)⟩
    · rw [others u isT]
  have lock : w'.tableLock = w.tableLock := isW' ▸ rfl
  have next : w'.next = w.next := isW' ▸ rfl
  have mailboxes : w'.mailboxes = w.mailboxes := isW' ▸ rfl
  have sums : ∀ j role, (w'.tally role j : Int) = w.tally role j + if j = i
    then (role p : Int) - role (w.pc t) else 0 := by
    intro j role
    unfold World.tally
    rw [insides]
    by_cases isI : j = i
    · subst isI
      have change := sumOf_move (((sound.boxes j).inside t).mpr here) others role
      rw [self] at change
      simp only [sumOf] at change
      omega
    · rw [if_neg isI, Int.add_zero]
      congr 1
      refine Finset.sum_congr rfl fun u member => ?_
      rw [others u]
      rintro rfl
      rw [(sound.boxes j).inside, here] at member
      exact isI (Option.some.inj member).symm
  rw [isW']
  refine ⟨fun j => ?_, fun u j known => ?_, fun s j => ?_, fun s s' j => ?_, fun u => ?_,
    fun u j left next' is => ?_, fun j isDead => ?_⟩
  · by_cases isI : j = i
    · rw [isI, boxSelf, ← isW', update_self]
      exact box
    · rw [boxOther j isI, update_of_ne isI]
      refine (sound.boxes j).frame fun u inside => others u ?_
      rintro rfl
      rw [self, here, stays] at inside
      rcases inside with is | is <;> exact isI (Option.some.inj is).symm
  · rw [next]
    by_cases isT : u = t
    · rw [isT, self, stays] at known
      exact sound.known t j (here.trans known)
    · rw [others u isT] at known
      exact sound.known u j known
  · rw [mailboxes, next, dead]
    exact sound.table s j
  · rw [mailboxes]
    exact sound.tableOnce s s' j
  · rw [lock, sound.lock u]
    simp only [retiring]
  · rw [next, dead, insides]
    exact sound.retiring u j left next' ((retiring u j left next').mp is)
  · rw [dead] at isDead
    have before := sound.covered j isDead
    have left : w'.left j = w.left j := left_same lock fun u isLock => by
      refine others u ?_
      rintro rfl
      obtain ⟨k, left, n, is⟩ := (sound.lock u).mp isLock
      exact notRetiring k left n is
    unfold World.Covers at before ⊢
    have forever := sums j Pc.forever
    have needs := sums j Pc.needs
    have posts := sums j Pc.posts
    have sends := sums j Pc.sends
    by_cases isI : j = i
    · subst isI
      obtain ⟨fewer, paid⟩ := cover isDead
      have one : (w.pc t).sends ≤ w.tally Pc.sends j :=
        Finset.single_le_sum (f := fun u => (w.pc u).sends) (fun _ _ => Nat.zero_le _) (((sound.boxes j).inside t).mpr here)
      have enough := paid (w.tally Pc.sends j - (w.pc t).sends)
      rw [boxSelf]
      omega
    · rw [boxOther j isI]
      omega

abbrev Settled (w : World T) : Prop := WorldSound (fun _ => 0) w

theorem WorldSound.settled (sound : WorldSound (update (fun _ => 0) i 0) w) : Settled w := by
  rwa [Function.update_eq_self_iff.mpr rfl] at sound

theorem WorldSound.passes (sound : Settled w) (here : (w.pc t).box = some i)
    (stays : p.box = some i) (notAsleep : w.pc t ≠ .asleep i ∧ p ≠ .asleep i)
    (awake : (w.pc t).awake ≤ p.awake) (posts : p.posts = (w.pc t).posts)
    (past : (w.box i).dead = false → p.past = (w.pc t).past) (needs : p.needs ≤ (w.pc t).needs)
    (forever : p.forever ≤ (w.pc t).forever)
    (sends : (w.pc t).sends ≤ p.sends ∨ ipcQueueSize ≤ (w.box i).count) : Settled (w.goto t p) := by
  have self : update w.pc t p t = p := update_self _ _ _
  have box := sound.boxes i
  have stepped : WorldSound (update (fun _ => 0) i 0) ((w.setBox i (w.box i)).goto t p) :=
    sound.within here stays ⟨rfl, rfl⟩
    (box.moved here (fun u differ => update_of_ne differ _ _) (by rw [self]; exact stays) ⟨rfl, rfl, rfl, rfl⟩ box.ring
      (by rw [self, box.waiters]; exact iff_of_false notAsleep.1 notAsleep.2) (fun _ _ => Iff.rfl)
      box.once box.items (fun waiting => by
        have enough := box.supply waiting
        rw [self]
        omega)
      (fun alive => by
        have even := box.counted alive
        rw [self, posts, past alive]
        omega))
    (fun _ => ⟨forever, fun others => by omega⟩)
  simp only [World.setBox, Function.update_eq_self] at stepped
  exact stepped

theorem WorldSound.enqueueIn {request : Request} (sound : Settled w)
    (isPc : w.pc t = .sending i request) : Settled (w.enqueueIn t i request) := by
  have box := sound.boxes i
  have self : update w.pc t (.posting i) t = .posting i := update_self _ _ _
  unfold World.enqueueIn
  simp only
  split
  · next full =>
    exact sound.passes (p := .leaving i .queueFull) (by rw [isPc]; rfl) rfl
      ⟨by rw [isPc]; exact nofun, nofun⟩ (by rw [isPc]; exact Nat.le_refl _)
      (by rw [isPc]; rfl) (fun _ => by rw [isPc]; rfl) (by rw [isPc]; exact Nat.le_refl _)
      (by rw [isPc]; exact Nat.le_refl _) (.inr full)
  · next room =>
    have here : (w.pc t).box = some i := by rw [isPc]; rfl
    refine WorldSound.settled (i := i) (sound.within here rfl ⟨rfl, rfl⟩ (box.moved here
      (fun u differ => update_of_ne differ _ _) (by rw [self]; rfl) ⟨rfl, rfl, rfl, rfl⟩
      (box.ring.put (Nat.lt_of_not_le room) _) ?_ (fun _ _ => Iff.rfl) box.once box.items
      (fun waiting => ?_) (fun alive => ?_)) (fun _ => ?_))
    · rw [self, box.waiters, isPc]
      exact iff_of_false nofun nofun
    · have enough := box.supply waiting
      rw [self, isPc]
      simpa [Pc.awake] using enough
    · have even := box.counted alive
      rw [self, isPc]
      simp only [Pc.posts, Pc.past]
      omega
    · rw [isPc]
      refine ⟨Nat.le_refl _, fun others => ?_⟩
      simp only [Pc.needs, Pc.posts, Pc.sends]
      omega

theorem WorldSound.dequeue (sound : Settled w) (isPc : w.pc t = .taking i) :
    Settled (w.dequeue t i) := by
  have box := sound.boxes i
  have here : (w.pc t).box = some i := by rw [isPc]; rfl
  have notWaiting : t ∉ (w.box i).waiters := fun inside => by
    rw [box.waiters, isPc] at inside
    cases inside
  unfold World.dequeue
  simp only
  split
  · next none =>
    -- past the semaphore with nothing in the ring: the mailbox is retired
    refine sound.passes (p := .leaving i .timeout) here rfl ⟨by rw [isPc]; exact nofun, nofun⟩
      (by rw [isPc]; exact Nat.le_refl _) (by rw [isPc]; rfl) (fun alive => ?_) (by rw [isPc]; exact Nat.le_refl _)
      (by rw [isPc]; exact Nat.le_refl _) (.inl (by rw [isPc]; exact Nat.le_refl _))
    have even := box.counted alive
    have items := box.items
    have counts : (w.pc t).past ≤ sumOf (w.box i) w.pc Pc.past :=
      Finset.single_le_sum (f := fun u => (w.pc u).past) (fun _ _ => Nat.zero_le _) ((box.inside t).mpr here)
    rw [isPc] at counts
    simp only [Pc.past] at counts
    omega
  · next some =>
    have self : update w.pc t (.leaving i .success) t = .leaving i .success := update_self _ _ _
    refine WorldSound.settled (i := i) (sound.within here rfl ⟨rfl, rfl⟩ (box.moved here
      (fun u differ => update_of_ne differ _ _) (by rw [self]; rfl) ⟨rfl, rfl, rfl, rfl⟩ (box.ring.take some) ?_
      (fun _ _ => Iff.rfl) box.once box.items (fun waiting => ?_) (fun alive => ?_)) (fun _ => ?_))
    · rw [self]
      exact iff_of_false notWaiting nofun
    · have enough := box.supply waiting
      rw [self, isPc]
      simpa [Pc.awake] using enough
    · have even := box.counted alive
      rw [self, isPc]
      simp only [Pc.posts, Pc.past]
      omega
    · rw [isPc]
      refine ⟨Nat.le_refl _, fun others => ?_⟩
      simp only [Pc.needs, Pc.posts, Pc.sends]
      omega

theorem WorldSound.waitItem {forever late : Bool} (sound : Settled w)
    (isPc : w.pc t = .waiting i forever ∨ w.pc t = .woken i ∧ forever = true) :
    Settled (w.waitItem t i forever late) := by
  have box := sound.boxes i
  have here : (w.pc t).box = some i := by rcases isPc with is | ⟨is, -⟩ <;> rw [is] <;> rfl
  have roles : (w.pc t).needs = 1 ∧ (w.pc t).posts = 0 ∧ (w.pc t).past = 0 ∧ (w.pc t).sends = 0 ∧
      (w.pc t).awake ≤ 1 ∧ w.pc t ≠ .asleep i := by
    rcases isPc with is | ⟨is, -⟩ <;> rw [is] <;> exact ⟨rfl, rfl, rfl, rfl, by simp [Pc.awake], nofun⟩
  obtain ⟨needs, posts, past, sends, awake, notAsleep⟩ := roles
  have notWaiting : t ∉ (w.box i).waiters := fun inside => notAsleep ((box.waiters t).mp inside)
  have counts : (w.pc t).awake ≤ sumOf (w.box i) w.pc Pc.awake :=
    Finset.single_le_sum (f := fun u => (w.pc u).awake) (fun _ _ => Nat.zero_le _) ((box.inside t).mpr here)
  have items := box.items
  unfold World.waitItem
  simp only
  split
  · next some =>
    have self : update w.pc t (.taking i) t = .taking i := update_self _ _ _
    refine WorldSound.settled (i := i) (sound.within here rfl ⟨rfl, rfl⟩ (box.moved here
      (fun u differ => update_of_ne differ _ _) (by rw [self]; rfl) ⟨rfl, rfl, rfl, rfl⟩
      (box.ring.same rfl rfl rfl rfl rfl rfl) ?_ (fun _ _ => Iff.rfl) box.once ?_
      (fun waiting => ?_) (fun alive => ?_)) (fun _ => ?_))
    · rw [self]
      exact iff_of_false notWaiting nofun
    · simp only
      omega
    · have enough := box.supply waiting
      simp only [Pc.awake] at *
      omega
    · have even := box.counted alive
      rw [self, posts, past]
      simp only [Pc.posts, Pc.past]
      omega
    · refine ⟨Nat.zero_le _, fun others => ?_⟩
      rw [needs, posts, sends]
      simp only [Pc.needs, Pc.posts, Pc.sends]
      omega
  · next none =>
    split
    · next polls =>
      have self : update w.pc t (.asleep i) t = .asleep i := update_self _ _ _
      refine WorldSound.settled (i := i) (sound.within here rfl ⟨rfl, rfl⟩ (box.moved here
        (fun u differ => update_of_ne differ _ _) (by rw [self]; rfl) ⟨rfl, rfl, rfl, rfl⟩
        (box.ring.same rfl rfl rfl rfl rfl rfl) ?_ (fun u differ => ?_) ?_ items (fun _ => ?_) (fun alive => ?_)) (fun _ => ?_))
      · rw [self]
        exact iff_of_true (List.mem_append_right _ List.mem_cons_self) rfl
      · simp [differ]
      · exact List.nodup_append.mpr ⟨box.once, List.nodup_singleton t, fun a inside b last => by
          rw [List.mem_singleton.mp last]
          rintro rfl
          exact notWaiting inside⟩
      · simp only [Pc.awake] at *
        omega
      · have even := box.counted alive
        rw [self, posts, past]
        simp only [Pc.posts, Pc.past]
        omega
      · refine ⟨?_, fun others => ?_⟩
        · rcases isPc with is | ⟨is, -⟩
          · rw [is, polls]
            exact Nat.le_refl _
          · rw [is]
            exact Nat.le_refl _
        · rw [needs, posts, sends]
          simp only [Pc.needs, Pc.posts, Pc.sends]
          omega
    · next polls =>
      split
      · rcases isPc with is | ⟨-, isForever⟩
        · exact sound.passes (p := .leaving i .timeout) here rfl ⟨notAsleep, nofun⟩ (by rw [is]; exact Nat.le_refl _) posts.symm
            (fun _ => past.symm) (Nat.zero_le _) (Nat.zero_le _) (.inl (by rw [sends]; exact Nat.zero_le _))
        · exact absurd isForever polls
      · exact sound

/-- The rest of `sem_post`, once the count is up. -/
def World.wakeFirst (w : World T) (i : Nat) : World T :=
  match (w.box i).waiters with
  | [] => w
  | first :: rest => (w.setBox i { w.box i with waiters := rest }).goto first (.woken i)

theorem post_goto (notWaiting : t ∉ (w.box i).waiters) :
    (w.post i).goto t p =
      ((w.setBox i { w.box i with items := (w.box i).items + 1 }).goto t p).wakeFirst i := by
  have boxes : ((w.setBox i { w.box i with items := (w.box i).items + 1 }).goto t p).box i =
      { w.box i with items := (w.box i).items + 1 } := update_self _ _ _
  unfold World.wakeFirst World.post
  rw [boxes]
  cases waiting : (w.box i).waiters with
  | nil => rfl
  | cons first rest =>
      have differ : first ≠ t := by
        rintro rfl
        exact notWaiting (waiting ▸ List.mem_cons_self)
      simp only [World.setBox, World.goto, Function.update_idem, Function.update_comm differ]

theorem WorldSound.wakeFirst (sound : WorldSound (update (fun _ => 0) i 1) w) :
    Settled (w.wakeFirst i) := by
  have box : BoxSound 1 w.pc i (w.box i) := by
    have here := sound.boxes i
    rwa [update_self] at here
  unfold World.wakeFirst
  split
  · next empty =>
    refine { sound with boxes := fun j => ?_ }
    by_cases isI : j = i
    · rw [isI]
      exact box.nobody empty
    · have other := sound.boxes j
      rwa [update_of_ne isI] at other
  · next first rest waiting =>
    have isAsleep : w.pc first = .asleep i := (box.waiters first).mp (waiting ▸ List.mem_cons_self)
    have stepped : WorldSound (update (update (fun _ => 0) i 1) i 0)
        ((w.setBox i { w.box i with waiters := rest }).goto first (.woken i)) := by
      refine sound.within (by rw [isAsleep]; rfl) rfl ⟨rfl, rfl⟩ (box.wake waiting) fun _ => ?_
      rw [isAsleep]
      refine ⟨Nat.le_refl _, fun others => ?_⟩
      simp only [Pc.needs, Pc.posts, Pc.sends]
      omega
    rw [Function.update_idem] at stepped
    exact stepped.settled

theorem WorldSound.posted (sound : Settled w) (isPc : w.pc t = .posting i) :
    Settled ((w.post i).goto t (.leaving i .success)) := by
  have box := sound.boxes i
  have here : (w.pc t).box = some i := by rw [isPc]; rfl
  have self : update w.pc t (.leaving i .success) t = .leaving i .success := update_self _ _ _
  have notWaiting : t ∉ (w.box i).waiters := fun inside => by
    rw [box.waiters, isPc] at inside
    cases inside
  rw [post_goto notWaiting]
  refine WorldSound.wakeFirst (sound.within here rfl ⟨rfl, rfl⟩ (box.moved here
    (fun u differ => update_of_ne differ _ _) (by rw [self]; rfl) ⟨rfl, rfl, rfl, rfl⟩
    (box.ring.same rfl rfl rfl rfl rfl rfl) ?_ (fun _ _ => Iff.rfl) box.once ?_ (fun waiting => ?_)
    (fun alive => ?_)) (fun _ => ?_))
  · rw [self]
    exact iff_of_false notWaiting nofun
  · have items := box.items
    simp only
    omega
  · have enough := box.supply waiting
    rw [self, isPc]
    simp only [Pc.awake]
    omega
  · have even := box.counted alive
    rw [self, isPc]
    simp only [Pc.posts, Pc.past]
    omega
  · rw [isPc]
    refine ⟨Nat.le_refl _, fun others => ?_⟩
    simp only [Pc.needs, Pc.posts, Pc.sends]
    omega

omit [DecidableEq T] in
theorem left_self (isLock : w.tableLock = some t) {left : Nat} {next : Option (Nat × Nat × Purpose)}
    (isPc : w.pc t = .retiring i left next) : w.left j = if i = j then left else 0 := by
  unfold World.left
  simp only [isLock, isPc]

theorem WorldSound.retirePost {left : Nat} {next : Option (Nat × Nat × Purpose)} (sound : Settled w)
    (isPc : w.pc t = .retiring i (left + 1) next) :
    Settled ((w.post i).goto t (.retiring i left next)) := by
  have box := sound.boxes i
  obtain ⟨known, dead, used⟩ := sound.retiring t i (left + 1) next isPc
  have isLock : w.tableLock = some t := (sound.lock t).mpr ⟨i, left + 1, next, isPc⟩
  have notWaiting : t ∉ (w.box i).waiters := fun inside => by
    rw [box.waiters, isPc] at inside
    cases inside
  rw [post_goto notWaiting]
  refine WorldSound.wakeFirst ?_
  obtain ⟨w', isW'⟩ : ∃ w',
    (w.setBox i { w.box i with items := (w.box i).items + 1 }).goto t (.retiring i left next) =
    w' :=
    ⟨_, rfl⟩
  have self : w'.pc t = .retiring i left next := by
    rw [← isW']
    exact update_self _ _ _
  have others : ∀ u, u ≠ t → w'.pc u = w.pc u := fun u differ => by
    rw [← isW']
    exact update_of_ne differ _ _
  have boxSelf : w'.box i = { w.box i with items := (w.box i).items + 1 } := by
    rw [← isW']
    exact update_self _ _ _
  have boxOther : ∀ j, j ≠ i → w'.box j = w.box j := fun j differ => by
    rw [← isW']
    exact update_of_ne differ _ _
  have same : ∀ j, (w'.box j).dead = (w.box j).dead ∧
    (w'.box j).inside = (w.box j).inside := fun j => by
    by_cases isI : j = i
    · rw [isI, boxSelf]
      exact ⟨rfl, rfl⟩
    · rw [boxOther j isI]
      exact ⟨rfl, rfl⟩
  have frame : ∀ j, ∀ u, (w.pc u).box = some j ∨ (w'.pc u).box = some j →
    w'.pc u = w.pc u := fun j u inside => by
    refine others u ?_
    rintro rfl
    rw [self, isPc] at inside
    rcases inside with is | is <;> cases is
  have sums : ∀ j role, w'.tally role j = w.tally role j := fun j role => by
    unfold World.tally
    rw [(same j).2]
    exact Finset.sum_congr rfl fun u member => by rw [frame j u (.inl (((sound.boxes j).inside u).mp member))]
  rw [isW']
  refine ⟨fun j => ?_, fun u j inside => ?_, fun s j => ?_, fun s s' j => ?_, fun u => ?_,
    fun u j l n is => ?_, fun j isDead => ?_⟩
  · by_cases isI : j = i
    · subst isI
      rw [boxSelf, update_self]
      have framed := box.frame (frame j)
      refine ⟨framed.inside, framed.refs, framed.freed, box.ring.same rfl rfl rfl rfl rfl rfl,
        framed.waiters, framed.once, ?_, fun waiting => ?_, fun alive => ?_⟩
      · have items := box.items
        simp only
        omega
      · have enough := framed.supply waiting
        simp only [sumOf] at enough ⊢
        omega
      · have alive' : (w.box j).dead = false := alive
        rw [dead] at alive'
        cases alive'
    · rw [boxOther j isI, update_of_ne isI]
      exact (sound.boxes j).frame (frame j)
  · rw [frame j u (.inr inside)] at inside
    exact isW' ▸ sound.known u j inside
  · rw [(same j).1]
    exact isW' ▸ sound.table s j
  · exact isW' ▸ sound.tableOnce s s' j
  · rw [show w'.tableLock = w.tableLock from isW' ▸ rfl]
    by_cases isT : u = t
    · rw [isT, self, isLock]
      exact ⟨fun _ => ⟨i, left, next, rfl⟩, fun _ => rfl⟩
    · rw [others u isT]
      exact sound.lock u
  · rw [(same j).1, (same j).2, show w'.next = w.next from isW' ▸ rfl]
    by_cases isT : u = t
    · rw [isT, self] at is
      cases is
      exact ⟨known, dead, used⟩
    · rw [others u isT] at is
      exact sound.retiring u j l n is
  · rw [(same j).1] at isDead
    have before := sound.covered j isDead
    rw [left_self isLock isPc] at before
    rw [left_self (show w'.tableLock = some t from isW' ▸ isLock) self]
    refine before.mono (fun role _ => sums j role) ?_ ?_
    · by_cases isI : i = j
      · subst isI
        rw [boxSelf, if_pos rfl, if_pos rfl]
        simp only
        omega
      · rw [boxOther j (Ne.symm isI), if_neg isI, if_neg isI]
    · by_cases isI : i = j
      · subst isI
        rw [boxSelf]
      · rw [boxOther j (Ne.symm isI)]

theorem WorldSound.outside (sound : Settled w) (isPc : w.pc t = .out) (status : Status) :
    Settled (w.return t status) := by
  have same : update w.pc t .out = w.pc := by
    rw [← isPc, Function.update_eq_self]
  have unchanged : w.return t status = { w with status := update w.status t status } := by
    unfold World.return World.goto
    simp only [same]
  rw [unchanged]
  exact ⟨sound.boxes, sound.known, sound.table, sound.tableOnce, sound.lock, sound.retiring,
    sound.covered⟩

theorem WorldSound.put {status : Status} (sound : Settled w) (isPc : w.pc t = .leaving i status)
    (free : w.tableLock = none) : Settled (w.put t i status) := by
  have box := sound.boxes i
  have member : t ∈ (w.box i).inside := (box.inside t).mpr (by rw [isPc]; rfl)
  have nobody : ∀ u j l n, w.pc u ≠ .retiring j l n := fun u j l n is => by
    have isLock := (sound.lock u).mpr ⟨j, l, n, is⟩
    rw [free] at isLock
    cases isLock
  obtain ⟨w', isW'⟩ : ∃ w', w.put t i status = w' := ⟨_, rfl⟩
  have self : w'.pc t = .out := by
    rw [← isW']
    exact update_self _ _ _
  have others : ∀ u, u ≠ t → w'.pc u = w.pc u := fun u differ => by
    rw [← isW']
    exact update_of_ne differ _ _
  have boxSelf : w'.box i = { w.box i with
      refs := (w.box i).refs - 1
      inside := (w.box i).inside.erase t
      freed := (w.box i).freed + if (w.box i).refs = 1 ∧ (w.box i).dead then 1 else 0 } := by
    rw [← isW']
    exact update_self _ _ _
  have boxOther : ∀ j, j ≠ i → w'.box j = w.box j := fun j differ => by
    rw [← isW']
    exact update_of_ne differ _ _
  have dead : ∀ j, (w'.box j).dead = (w.box j).dead := fun j => by
    by_cases isI : j = i
    · rw [isI, boxSelf]
    · rw [boxOther j isI]
  have notHere : ∀ j, j ≠ i → ∀ u, (w.pc u).box = some j ∨ (w'.pc u).box = some j → u ≠ t := by
    rintro j isI u inside rfl
    rw [self, isPc] at inside
    rcases inside with is | is
    · exact isI (Option.some.inj is).symm
    · cases is
  have sums : ∀ j role, role (w.pc t) = 0 →
    w'.tally role j = w.tally role j := fun j role silent => by
    unfold World.tally
    by_cases isI : j = i
    · subst isI
      rw [boxSelf, ← Finset.add_sum_erase _ _ member, silent, Nat.zero_add]
      exact Finset.sum_congr rfl fun u inside => by rw [others u (Finset.ne_of_mem_erase inside)]
    · rw [boxOther j isI]
      refine Finset.sum_congr rfl fun u inside => ?_
      rw [others u (notHere j isI u (.inl (((sound.boxes j).inside u).mp inside)))]
  have boxSums : ∀ role, role (w.pc t) = 0 →
    sumOf (w'.box i) w'.pc role = sumOf (w.box i) w.pc role :=
    fun role silent => sums i role silent
  have roles : (w.pc t).needs = 0 ∧ (w.pc t).posts = 0 ∧ (w.pc t).past = 0 ∧
    (w.pc t).awake = 0 := by
    rw [isPc]
    exact ⟨rfl, rfl, rfl, rfl⟩
  obtain ⟨needs, posts, past, awake⟩ := roles
  rw [isW']
  refine ⟨fun j => ?_, fun u j inside => ?_, fun s j => ?_, fun s s' j => ?_, fun u => ?_,
    fun u j l n is => ?_, fun j isDead => ?_⟩
  · by_cases isI : j = i
    · subst isI
      refine ⟨fun u => ?_, ?_, ?_, ?_, fun u => ?_, ?_, ?_, fun waiting => ?_, fun alive => ?_⟩
      · rw [boxSelf]
        by_cases isT : u = t
        · rw [isT, self]
          exact ⟨fun inside => absurd rfl (Finset.ne_of_mem_erase inside), nofun⟩
        · rw [others u isT, ← box.inside u]
          exact ⟨Finset.mem_of_mem_erase, Finset.mem_erase_of_ne_of_mem isT⟩
      · rw [boxSelf]
        simp only [Finset.card_erase_of_mem member, box.refs]
      · have used : ¬ ((w.box j).dead = true ∧ (w.box j).inside = ∅) := fun both =>
          Finset.ne_empty_of_mem member both.2
        have last : (w.box j).inside.erase t = ∅ ↔ (w.box j).refs = 1 := by
          rw [box.refs, ← Finset.card_eq_zero, Finset.card_erase_of_mem member]
          have some : 0 < (w.box j).inside.card := Finset.card_pos.mpr ⟨t, member⟩
          omega
        have unfreed := box.freed
        rw [if_neg used] at unfreed
        rw [boxSelf]
        simp only [unfreed, Nat.zero_add, last]
        exact if_congr and_comm rfl rfl
      · rw [boxSelf]
        exact box.ring.same rfl rfl rfl rfl rfl rfl
      · rw [boxSelf]
        by_cases isT : u = t
        · rw [isT, self]
          refine ⟨fun inside => ?_, nofun⟩
          rw [box.waiters, isPc] at inside
          cases inside
        · rw [others u isT]
          exact box.waiters u
      · rw [boxSelf]
        exact box.once
      · rw [boxSelf]
        exact box.items
      · rw [boxSums _ awake]
        rw [boxSelf] at waiting ⊢
        exact box.supply waiting
      · rw [boxSums _ posts, boxSums _ past]
        rw [boxSelf] at alive ⊢
        exact box.counted alive
    · rw [boxOther j isI]
      exact (sound.boxes j).frame fun u inside => others u (notHere j isI u inside)
  · have differ : u ≠ t := by
      rintro rfl
      rw [self] at inside
      cases inside
    rw [others u differ] at inside
    exact isW' ▸ sound.known u j inside
  · rw [dead]
    exact isW' ▸ sound.table s j
  · exact isW' ▸ sound.tableOnce s s' j
  · rw [show w'.tableLock = w.tableLock from isW' ▸ rfl, free]
    refine ⟨nofun, fun ⟨j, l, n, is⟩ => ?_⟩
    by_cases isT : u = t
    · rw [isT, self] at is
      cases is
    · rw [others u isT] at is
      exact absurd is (nobody u j l n)
  · by_cases isT : u = t
    · rw [isT, self] at is
      cases is
    · rw [others u isT] at is
      exact absurd is (nobody u j l n)
  · rw [dead] at isDead
    have before := sound.covered j isDead
    have left : w'.left j = w.left j :=
      left_same (isW' ▸ rfl) fun u isLock => by rw [free] at isLock; cases isLock
    have same : (w'.box j).items = (w.box j).items ∧ (w'.box j).count = (w.box j).count := by
      by_cases isI : j = i
      · rw [isI, boxSelf]
        exact ⟨rfl, rfl⟩
      · rw [boxOther j isI]
        exact ⟨rfl, rfl⟩
    rw [left]
    exact before.mono (fun role silent => sums j role (by rw [isPc]; exact silent i status)) (by rw [same.1]) same.2

structure Entered (w w' : World T) (t : T) (i : Nat) (purpose : Purpose) : Prop where
  pcs : w'.pc = update w.pc t (purpose.start i)
  others : ∀ j, j ≠ i → w'.box j = w.box j
  box : BoxSound 0 w'.pc i (w'.box i)
  alive : (w'.box i).dead = false
  lock : w'.tableLock = none
  next : w.next ≤ w'.next ∧ i < w'.next
  table : ∀ s j, w'.mailboxes s = some j → j = i ∨ w.mailboxes s = some j
  tableOnce : ∀ s s' j, w'.mailboxes s = some j → w'.mailboxes s' = some j → s = s'

omit [DecidableEq T] in
theorem start_box (purpose : Purpose) : (purpose.start i).box = some i := by
  cases purpose <;> rfl

omit [DecidableEq T] in
theorem start_roles (purpose : Purpose) :
    (purpose.start i).awake = 0 ∧ (purpose.start i).posts = 0 ∧ (purpose.start i).past = 0 ∧
    ∀ j, purpose.start i ≠ .asleep j := by
  cases purpose <;> exact ⟨rfl, rfl, rfl, nofun⟩

theorem WorldSound.entered {w' : World T} (purpose : Purpose) (sound : Settled w)
    (isPc : w.pc t = .out) (free : w.tableLock = none) (entered : Entered w w' t i purpose) :
    Settled w' := by
  have self : w'.pc t = purpose.start i := by rw [entered.pcs, update_self]
  have others : ∀ u, u ≠ t → w'.pc u = w.pc u := fun u differ => by
    rw [entered.pcs, update_of_ne differ]
  have notHere : ∀ j, j ≠ i → ∀ u, (w.pc u).box = some j ∨ (w'.pc u).box = some j → u ≠ t := by
    rintro j isI u inside rfl
    rw [self, isPc, start_box] at inside
    rcases inside with is | is
    · cases is
    · exact isI (Option.some.inj is).symm
  have nobody : ∀ u j l n, w'.pc u ≠ .retiring j l n := fun u j l n is => by
    by_cases isT : u = t
    · rw [isT, self] at is
      cases purpose <;> cases is
    · rw [others u isT] at is
      have isLock := (sound.lock u).mpr ⟨j, l, n, is⟩
      rw [free] at isLock
      cases isLock
  refine ⟨fun j => ?_, fun u j inside => ?_, fun s j inTable => ?_, entered.tableOnce, fun u => ?_,
    fun u j l n is => absurd is (nobody u j l n), fun j isDead => ?_⟩
  · by_cases isI : j = i
    · exact isI ▸ entered.box
    · rw [entered.others j isI]
      exact (sound.boxes j).frame fun u inside => others u (notHere j isI u inside)
  · by_cases isT : u = t
    · rw [isT, self, start_box] at inside
      exact Option.some.inj inside ▸ entered.next.2
    · rw [others u isT] at inside
      exact Nat.lt_of_lt_of_le (sound.known u j inside) entered.next.1
  · by_cases isI : j = i
    · exact isI ▸ ⟨entered.next.2, entered.alive⟩
    · have before := sound.table s j ((entered.table s j inTable).resolve_left isI)
      rw [entered.others j isI]
      exact ⟨Nat.lt_of_lt_of_le before.1 entered.next.1, before.2⟩
  · rw [entered.lock]
    exact ⟨nofun, fun ⟨j, l, n, is⟩ => absurd is (nobody u j l n)⟩
  · by_cases isI : j = i
    · rw [isI, entered.alive] at isDead
      cases isDead
    · rw [entered.others j isI] at isDead
      have before := sound.covered j isDead
      have sums : ∀ role, w'.tally role j = w.tally role j := fun role => by
        unfold World.tally
        rw [entered.others j isI]
        refine Finset.sum_congr rfl fun u inside => ?_
        rw [others u (notHere j isI u (.inl (((sound.boxes j).inside u).mp inside)))]
      have left : w'.left j = w.left j := by
        unfold World.left
        rw [entered.lock, free]
      rw [left]
      exact before.mono (fun role _ => sums role) (by rw [entered.others j isI]) (by rw [entered.others j isI])

theorem WorldSound.create {pid slot : Nat} {purpose : Purpose} {memory : Bool} (sound : Settled w)
    (isPc : w.pc t = .out) (free : w.tableLock = none) :
    Settled (w.create t pid slot purpose memory) := by
  unfold World.create
  split
  · obtain ⟨awake, posts, past, notAsleep⟩ := start_roles (i := w.next) purpose
    have self : update w.pc t (purpose.start w.next) t = purpose.start w.next := update_self _ _ _
    have inside : ∀ u, (update w.pc t (purpose.start w.next) u).box = some w.next ↔ u = t := fun u => by
      by_cases isT : u = t
      · rw [isT, self, start_box]
        exact iff_of_true rfl rfl
      · rw [update_of_ne isT]
        exact iff_of_false (fun is => absurd (sound.known u w.next is) (Nat.lt_irrefl _)) isT
    refine sound.entered (i := w.next) purpose isPc free ⟨rfl, fun j differ => update_of_ne differ _ _, ?_, ?_, free,
      ⟨Nat.le_succ _, Nat.lt_succ_self _⟩, fun s j inTable => ?_, fun s s' j inTable inTable' => ?_⟩
    · simp only [World.goto, update_self]
      refine ⟨fun u => ?_, rfl, rfl,
        ⟨Nat.zero_lt_succ 63, Nat.zero_le _, rfl, rfl⟩, fun u => ?_, List.nodup_nil, Int.le_refl _,
        fun waiting => absurd rfl waiting, fun _ => ?_⟩
      · rw [inside u]
        exact Finset.mem_singleton
      · refine iff_of_false nofun fun is => ?_
        have isT := (inside u).mp (by rw [is]; rfl)
        rw [isT, self] at is
        exact notAsleep _ is
      · simp [sumOf, Mailbox.fresh, posts, past]
    · simp only [World.goto, update_self]
      rfl
    · simp only [World.goto, update_apply] at inTable
      split at inTable
      · exact .inl (Option.some.inj inTable).symm
      · exact .inr inTable
    · have old : ∀ s, w.mailboxes s ≠ some w.next := fun s is => absurd (sound.table s w.next is).1 (Nat.lt_irrefl _)
      simp only [World.goto, update_apply] at inTable inTable'
      split at inTable <;> split at inTable'
      · next here there => rw [here, there]
      · exact absurd (inTable'.trans inTable.symm) (old s')
      · exact absurd (inTable.trans inTable'.symm) (old s)
      · exact sound.tableOnce s s' j inTable inTable'
  · exact sound.outside isPc _

theorem WorldSound.join {slot : Nat} {purpose : Purpose} (sound : Settled w) (isPc : w.pc t = .out)
    (free : w.tableLock = none) (inTable : w.mailboxes slot = some i) :
    Settled ((w.setBox i { w.box i with refs := (w.box i).refs + 1, inside := insert t (w.box i).inside }).goto t
      (purpose.start i)) := by
  have box := sound.boxes i
  obtain ⟨known, alive⟩ := sound.table slot i inTable
  obtain ⟨awake, posts, past, notAsleep⟩ := start_roles (i := i) purpose
  have self : update w.pc t (purpose.start i) t = purpose.start i := update_self _ _ _
  have outside : t ∉ (w.box i).inside := fun inside => by
    rw [box.inside, isPc] at inside
    cases inside
  have sums : ∀ role : Pc → Nat, role (purpose.start i) = 0 →
      ∑ u ∈ insert t (w.box i).inside, role (update w.pc t (purpose.start i) u) =
        ∑ u ∈ (w.box i).inside, role (w.pc u) := fun role silent => by
    rw [Finset.sum_insert outside, self, silent, Nat.zero_add]
    refine Finset.sum_congr rfl fun u inside => ?_
    rw [update_of_ne (by rintro rfl; exact outside inside)]
  refine sound.entered (i := i) purpose isPc free ⟨rfl, fun j differ => update_of_ne differ _ _, ?_,
    ?_, free, ⟨Nat.le_refl _, known⟩, fun s j is => .inr is, sound.tableOnce⟩
  · simp only [World.goto, World.setBox, update_self]
    refine ⟨fun u => ?_, ?_, ?_, box.ring.same rfl rfl rfl rfl rfl rfl, fun u => ?_, box.once,
      box.items, fun waiting => ?_, fun _ => ?_⟩
    · rw [Finset.mem_insert]
      by_cases isT : u = t
      · rw [isT, self, start_box]
        exact iff_of_true (.inl rfl) rfl
      · rw [Function.update_of_ne isT, ← box.inside u]
        exact ⟨fun inside => inside.resolve_left isT, .inr⟩
    · rw [Finset.card_insert_of_notMem outside, box.refs]
    · have unfreed := box.freed
      rw [if_neg (by simp [alive])] at unfreed
      rw [if_neg (by simp [alive])]
      exact unfreed
    · by_cases isT : u = t
      · rw [isT, self]
        refine iff_of_false (fun inside => ?_) (notAsleep i)
        rw [box.waiters, isPc] at inside
        cases inside
      · rw [Function.update_of_ne isT]
        exact box.waiters u
    · have enough := box.supply waiting
      simp only [sumOf] at enough ⊢
      rw [sums _ awake]
      exact enough
    · have even := box.counted alive
      simp only [sumOf] at even ⊢
      rw [sums _ posts, sums _ past]
      exact even
  · simp only [World.goto, World.setBox, Function.update_self]
    exact alive

theorem BoxSound.retired (sound : BoxSound 0 pc i mb) (alive : mb.dead = false) :
    BoxSound 0 pc i { mb with dead := true, freed := mb.freed + if mb.refs = 0 then 1 else 0 } := by
  have unfreed := sound.freed
  rw [if_neg (by simp [alive])] at unfreed
  refine { sound with freed := ?_, ring := sound.ring.same rfl rfl rfl rfl rfl rfl, counted := nofun }
  simp only [unfreed, Nat.zero_add, true_and, sound.refs, Finset.card_eq_zero]

theorem retire_table {s slot : Nat} (sound : Settled w) (inTable : w.mailboxes slot = some i)
    (is : (w.retire i slot).mailboxes s = some j) : j ≠ i ∧ w.mailboxes s = some j := by
  simp only [World.retire, World.setBox, update_apply] at is
  split at is
  · cases is
  · next other =>
    refine ⟨?_, is⟩
    rintro rfl
    exact other (sound.tableOnce s slot j is inTable)

omit [DecidableEq T] in
theorem retire_boxes (slot : Nat) : (w.retire i slot).box i =
    { w.box i with dead := true, freed := (w.box i).freed + if (w.box i).refs = 0 then 1 else 0 } :=
  update_self _ _ _

omit [DecidableEq T] in
theorem retire_others (slot : Nat) (differ : j ≠ i) : (w.retire i slot).box j = w.box j :=
  update_of_ne differ _ _

omit [DecidableEq T] in
theorem retire_tally (slot : Nat) (role : Pc → Nat) :
    (w.retire i slot).tally role j = w.tally role j := by
  unfold World.tally
  by_cases isI : j = i
  · rw [isI, retire_boxes]
    rfl
  · rw [retire_others slot isI]
    rfl

theorem WorldSound.retireUnused {slot : Nat} (sound : Settled w) (free : w.tableLock = none)
    (inTable : w.mailboxes slot = some i) (unused : (w.box i).refs = 0) :
    Settled (w.retire i slot) := by
  have nobody : ∀ u j l n, w.pc u ≠ .retiring j l n := fun u j l n is => by
    have isLock := (sound.lock u).mpr ⟨j, l, n, is⟩
    rw [free] at isLock
    cases isLock
  have left : ∀ j, (w.retire i slot).left j = w.left j := fun j => left_same rfl fun _ _ => rfl
  refine ⟨fun j => ?_, sound.known, fun s j is => ?_, fun s s' j is is' => ?_, sound.lock,
    fun u j l n is => absurd is (nobody u j l n), fun j isDead => ?_⟩
  · by_cases isI : j = i
    · rw [isI, retire_boxes]
      exact (sound.boxes i).retired (sound.table slot i inTable).2
    · rw [retire_others slot isI]
      exact sound.boxes j
  · obtain ⟨differ, before⟩ := retire_table sound inTable is
    rw [retire_others slot differ]
    exact sound.table s j before
  · exact sound.tableOnce s s' j (retire_table sound inTable is).2 (retire_table sound inTable is').2
  · by_cases isI : j = i
    · have empty : (w.box i).inside = ∅ := Finset.card_eq_zero.mp ((sound.boxes i).refs ▸ unused)
      refine Or.inl ?_
      rw [retire_tally, isI, World.tally, empty]
      rfl
    · rw [retire_others slot isI] at isDead
      rw [left]
      exact (sound.covered j isDead).mono (fun role _ => retire_tally slot role)
        (by rw [retire_others slot isI]) (by rw [retire_others slot isI])

theorem WorldSound.retireUsed {slot : Nat} {next : Option (Nat × Nat × Purpose)} (sound : Settled w)
    (isPc : w.pc t = .out) (free : w.tableLock = none) (inTable : w.mailboxes slot = some i)
    (used : (w.box i).refs ≠ 0) (covers : w.Covers i 8) :
    Settled ({ w.retire i slot with tableLock := some t }.goto t (.retiring i 8 next)) := by
  obtain ⟨known, alive⟩ := sound.table slot i inTable
  obtain ⟨w', isW'⟩ : ∃ w',
    { w.retire i slot with tableLock := some t }.goto t (.retiring i 8 next) = w' := ⟨_, rfl⟩
  have self : w'.pc t = .retiring i 8 next := by
    rw [← isW']
    exact update_self _ _ _
  have others : ∀ u, u ≠ t → w'.pc u = w.pc u := fun u differ => by
    rw [← isW']
    exact update_of_ne differ _ _
  have boxes : w'.box = (w.retire i slot).box := isW' ▸ rfl
  have lock : w'.tableLock = some t := isW' ▸ rfl
  have nobody : ∀ u j l n, w.pc u ≠ .retiring j l n := fun u j l n is => by
    have isLock := (sound.lock u).mpr ⟨j, l, n, is⟩
    rw [free] at isLock
    cases isLock
  have neverHere : ∀ j u, (w.pc u).box = some j ∨ (w'.pc u).box = some j → u ≠ t := by
    rintro j u inside rfl
    rw [self, isPc] at inside
    rcases inside with is | is <;> cases is
  have sums : ∀ role j, w'.tally role j = w.tally role j := fun role j => by
    have same : (w'.box j).inside = (w.box j).inside := by
      rw [boxes]
      by_cases isI : j = i
      · rw [isI, retire_boxes]
      · rw [retire_others slot isI]
    unfold World.tally
    rw [same]
    refine Finset.sum_congr rfl fun u inside => ?_
    rw [others u (neverHere j u (.inl (((sound.boxes j).inside u).mp inside)))]
  rw [isW']
  refine ⟨fun j => ?_, fun u j inside => ?_, fun s j is => ?_, fun s s' j is is' => ?_, fun u => ?_,
    fun u j l n is => ?_, fun j isDead => ?_⟩
  · refine (?_ : BoxSound 0 w.pc j _).frame fun u inside => others u (neverHere j u inside)
    rw [boxes]
    by_cases isI : j = i
    · rw [isI, retire_boxes]
      exact (sound.boxes i).retired alive
    · rw [retire_others slot isI]
      exact sound.boxes j
  · rw [others u (neverHere j u (.inr inside))] at inside
    exact isW' ▸ sound.known u j inside
  · subst isW'
    obtain ⟨differ, before⟩ := retire_table sound inTable is
    rw [boxes, retire_others slot differ]
    exact sound.table s j before
  · subst isW'
    exact sound.tableOnce s s' j (retire_table sound inTable is).2 (retire_table sound inTable is').2
  · rw [lock]
    by_cases isT : u = t
    · rw [isT, self]
      exact ⟨fun _ => ⟨i, 8, next, rfl⟩, fun _ => rfl⟩
    · rw [others u isT]
      exact ⟨fun is => absurd (Option.some.inj is).symm isT, fun ⟨j, l, n, is⟩ => absurd is (nobody u j l n)⟩
  · by_cases isT : u = t
    · rw [isT, self] at is
      cases is
      rw [boxes, retire_boxes]
      refine ⟨isW' ▸ known, rfl, fun empty => used ?_⟩
      rw [(sound.boxes i).refs, empty]
      rfl
    · rw [others u isT] at is
      exact absurd is (nobody u j l n)
  · rw [left_self lock self]
    by_cases isI : j = i
    · subst isI
      rw [if_pos rfl]
      exact covers.mono (fun role _ => sums role j) (by rw [boxes, retire_boxes]) (by rw [boxes, retire_boxes])
    · rw [boxes, retire_others slot isI] at isDead
      have before := sound.covered j isDead
      unfold World.left at before
      rw [free] at before
      rw [if_neg (Ne.symm isI)]
      exact before.mono (fun role _ => sums role j) (by rw [boxes, retire_others slot isI])
        (by rw [boxes, retire_others slot isI])

theorem WorldSound.unlock {next : Option (Nat × Nat × Purpose)} (sound : Settled w)
    (isPc : w.pc t = .retiring i 0 next) : Settled ({ w with tableLock := none }.goto t .out) := by
  have isLock : w.tableLock = some t := (sound.lock t).mpr ⟨i, 0, next, isPc⟩
  obtain ⟨w', isW'⟩ : ∃ w', { w with tableLock := none }.goto t .out = w' := ⟨_, rfl⟩
  have self : w'.pc t = .out := by
    rw [← isW']
    exact update_self _ _ _
  have others : ∀ u, u ≠ t → w'.pc u = w.pc u := fun u differ => by
    rw [← isW']
    exact update_of_ne differ _ _
  have box : w'.box = w.box := isW' ▸ rfl
  have lock : w'.tableLock = none := isW' ▸ rfl
  have neverHere : ∀ j u, (w.pc u).box = some j ∨ (w'.pc u).box = some j → u ≠ t := by
    rintro j u inside rfl
    rw [self, isPc] at inside
    rcases inside with is | is <;> cases is
  have nobody : ∀ u j l n, w'.pc u ≠ .retiring j l n := fun u j l n is => by
    by_cases isT : u = t
    · rw [isT, self] at is
      cases is
    · rw [others u isT] at is
      have other := (sound.lock u).mpr ⟨j, l, n, is⟩
      rw [isLock] at other
      exact isT (Option.some.inj other).symm
  rw [isW']
  refine ⟨fun j => ?_, fun u j inside => ?_, fun s j => ?_, isW' ▸ sound.tableOnce, fun u => ?_,
    fun u j l n is => absurd is (nobody u j l n), fun j isDead => ?_⟩
  · rw [box]
    exact (sound.boxes j).frame fun u inside => others u (neverHere j u inside)
  · rw [others u (neverHere j u (.inr inside))] at inside
    exact isW' ▸ sound.known u j inside
  · exact isW' ▸ sound.table s j
  · rw [lock]
    exact ⟨nofun, fun ⟨j, l, n, is⟩ => absurd is (nobody u j l n)⟩
  · rw [box] at isDead
    have before := sound.covered j isDead
    have none : w.left j = 0 := by
      rw [left_self isLock isPc]
      exact ite_self 0
    have noneAfter : w'.left j = 0 := by
      unfold World.left
      rw [lock]
    rw [none] at before
    rw [noneAfter]
    refine before.mono (fun role _ => ?_) (by rw [box]) (by rw [box])
    unfold World.tally
    rw [box]
    refine Finset.sum_congr rfl fun u inside => ?_
    rw [others u (neverHere j u (.inl (((sound.boxes j).inside u).mp inside)))]

theorem create_goto {pid slot : Nat} {purpose : Purpose} {memory : Bool} :
    (w.goto t p).create t pid slot purpose memory = w.create t pid slot purpose memory := by
  unfold World.create World.return World.goto
  simp only [Function.update_idem]

theorem WorldSound.getOrCreate {pid : Nat} {slot : Option Nat} {purpose : Purpose} {memory : Bool}
    (sound : Settled w) (isPc : w.pc t = .out) (free : w.tableLock = none)
    (covers : ∀ s i, slot = some s → w.mailboxes s = some i → (w.box i).ownerPid ≠ pid →
    w.Covers i 8) : Settled (w.getOrCreate t pid slot purpose memory) := by
  unfold World.getOrCreate
  split
  · exact sound.outside isPc _
  · next slot =>
    split
    · exact sound.create isPc free
    · next i inTable =>
      split
      · exact sound.join isPc free inTable
      · next other =>
        split
        · next unused => exact (sound.retireUnused free inTable unused).create isPc free
        · next used => exact sound.retireUsed isPc free inTable used (covers slot i rfl inTable other)

theorem WorldSound.releaseOwner {pid : Nat} {slot : Option Nat} (sound : Settled w)
    (isPc : w.pc t = .out) (free : w.tableLock = none)
    (covers : ∀ s i, slot = some s → w.mailboxes s = some i → (w.box i).ownerPid = pid →
    w.Covers i 8) : Settled (w.releaseOwner t pid slot) := by
  unfold World.releaseOwner
  split
  · exact sound
  · next slot =>
    split
    · exact sound
    · next i inTable =>
      split
      · next isOwner =>
        split
        · next unused => exact sound.retireUnused free inTable unused
        · next used => exact sound.retireUsed isPc free inTable used (covers slot i rfl inTable isOwner)
      · exact sound

theorem WorldSound.go {memory late : Bool} (sound : Settled w) : Settled (w.go t memory late) := by
  unfold World.go
  split
  · exact sound
  · exact sound
  · next isPc => exact sound.enqueueIn isPc
  · next isPc => exact sound.posted isPc
  · next isPc => exact sound.waitItem (.inl isPc)
  · next isPc => exact sound.waitItem (.inr ⟨isPc, rfl⟩)
  · next isPc => exact sound.dequeue isPc
  · next isPc =>
    split
    · next free => exact sound.put isPc free
    · exact sound
  · next isPc => exact sound.retirePost isPc
  · next isPc => exact sound.unlock isPc
  · next isPc =>
    have unlocked := sound.unlock isPc
    rw [← create_goto]
    exact unlocked.create (update_self _ _ _) rfl

theorem WorldSound.step {label : Step T} (sound : Settled w) (covers : RetireCovers w label) :
    Settled (w.step label) := by
  cases label with
  | enqueue t slot memory request =>
      simp only [World.step]
      split
      · next idle =>
        split
        · exact sound.outside idle.1 _
        · next fits =>
          split
          · exact sound.outside idle.1 _
          · next notNone =>
            refine sound.getOrCreate idle.1 idle.2 fun s i isSlot inTable other => covers i ?_
            rw [isSlot]
            simp [World.retires, inTable, Nat.le_of_not_lt fits, notNone, other]
      · exact sound
  | receive t pid slot memory forever =>
      simp only [World.step]
      split
      · next idle =>
        refine sound.getOrCreate idle.1 idle.2 fun s i isSlot inTable other => covers i ?_
        rw [isSlot]
        simp [World.retires, inTable, other]
      · exact sound
  | releaseOwner t pid slot =>
      simp only [World.step]
      split
      · next idle =>
        refine sound.releaseOwner idle.1 idle.2 fun s i isSlot inTable isOwner => covers i ?_
        rw [isSlot]
        simp [World.retires, inTable, isOwner]
      · exact sound
  | go t memory late => exact sound.go

theorem WorldSound.init [Inhabited T] : Settled (World.init : World T) where
  boxes _ := ⟨fun u => iff_of_false (Finset.notMem_empty u) nofun, rfl, rfl,
    ⟨Nat.zero_lt_succ 63, Nat.zero_le _, rfl, rfl⟩,
    fun _ => iff_of_false nofun nofun, List.nodup_nil, Int.le_refl _, fun waiting =>
    absurd rfl waiting, fun _ => rfl⟩
  known := nofun
  table := nofun
  tableOnce := nofun
  lock _ := ⟨nofun, nofun⟩
  retiring := nofun
  covered := nofun

theorem WorldSound.notStranded (sound : Settled w) : ¬ w.Stranded i := by
  rintro ⟨isDead, ⟨t, isAsleep⟩, only⟩
  have box := sound.boxes i
  have member : t ∈ (w.box i).inside := (box.inside t).mpr (by rw [isAsleep]; rfl)
  have asleep : ∀ u ∈ (w.box i).inside, w.pc u = .asleep i :=
    fun u inside => (only u).1 ((box.inside u).mp inside)
  have sums : ∀ role, w.tally role i = (w.box i).inside.card * role (.asleep i) := fun role => by
    exact Finset.sum_const_nat fun u inside => by rw [asleep u inside]
  have some : 0 < (w.box i).inside.card := Finset.card_pos.mpr ⟨t, member⟩
  have nobody : sumOf (w.box i) w.pc Pc.awake = 0 := sums Pc.awake
  have supply := box.supply (List.ne_nil_of_mem ((box.waiters t).mpr isAsleep))
  have left : w.left i = 0 := by
    unfold World.left
    split
    · rfl
    · split
      · next j left next isPc =>
        split
        · next isI => exact absurd (isI ▸ isPc) ((only _).2 left next)
        · rfl
      · rfl
  have covers := sound.covered i isDead
  unfold World.Covers at covers
  simp only [sums, left, Pc.forever, Pc.needs, Pc.posts, Pc.sends] at covers
  omega

theorem WorldSound.ok (sound : Settled w) : MailboxesOk w where
  inOrder i := (sound.boxes i).ring.order
  users i t := (sound.boxes i).inside t
  counted i alive := by
    have even := (sound.boxes i).counted alive
    simp only [sumOf] at even
    unfold World.tally
    omega
  freedOnce i := (sound.boxes i).freed
  returns i := sound.notStranded

def nineReceivers : List (Step (Fin 10)) :=
  (List.range 9).flatMap
    (fun t => [.receive (Fin.ofNat 10 t) 1 (some 0) true true, .go (Fin.ofNat 10 t) true false]) ++
    .releaseOwner 9 1 (some 0) :: List.replicate 9 (.go 9 true false) ++
      (List.range 8).flatMap fun t => List.replicate 3 (.go (Fin.ofNat 10 t) true false)

theorem nineReceivers_stranded : (runSteps World.step World.init nineReceivers).Stranded 0 := by
  refine ⟨by decide, ⟨8, by decide⟩, fun t => ⟨?_, ?_⟩⟩
  · revert t
    decide
  · have outside : ∀ t, (runSteps World.step World.init nineReceivers).pc t = .out ∨
        (runSteps World.step World.init nineReceivers).pc t = .asleep 0 := by decide
    rcases outside t with is | is <;> rw [is] <;> exact nofun

end Cos.Ipc
