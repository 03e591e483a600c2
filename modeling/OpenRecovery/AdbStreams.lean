import OpenRecovery.AdbSockets
import OpenRecovery.StopAndWait
import Mathlib

/-!
# What holds of the streams

The invariant speaks about one end, `near`, and the packets that are on their way to it.
It holds of both ends, so that every fact about what is sent over the connection is
needed in one direction only.
-/

namespace OpenRecovery.Adb

open StopAndWait

/-! ## Changes of one end -/

namespace Party

variable (party : Party) (id : Nat) (socket : Asocket)

@[simp] theorem setSocket_sockets :
    (party.setSocket id socket).sockets = Function.update party.sockets id (some socket) := rfl

@[simp] theorem setSocket_closing : (party.setSocket id socket).closing = party.closing := rfl

@[simp] theorem setSocket_logs : (party.setSocket id socket).logs = party.logs := rfl

@[simp] theorem setSocket_nextId : (party.setSocket id socket).nextId = party.nextId := rfl

@[simp] theorem setClosing_sockets : (party.setClosing id socket).sockets = party.sockets := rfl

@[simp] theorem setClosing_closing :
    (party.setClosing id socket).closing = Function.update party.closing id (some socket) := rfl

@[simp] theorem setClosing_logs : (party.setClosing id socket).logs = party.logs := rfl

@[simp] theorem setClosing_nextId : (party.setClosing id socket).nextId = party.nextId := rfl

@[simp] theorem destroy_sockets :
    (party.destroy id).sockets = Function.update party.sockets id none := rfl

@[simp] theorem destroy_closing :
    (party.destroy id).closing = Function.update party.closing id none := rfl

@[simp] theorem destroy_logs : (party.destroy id).logs = party.logs := rfl

@[simp] theorem destroy_nextId : (party.destroy id).nextId = party.nextId := rfl

variable (data : Bytes)

@[simp] theorem gotRead_sockets : (party.gotRead id data).sockets = party.sockets := rfl

@[simp] theorem gotRead_closing : (party.gotRead id data).closing = party.closing := rfl

@[simp] theorem gotRead_nextId : (party.gotRead id data).nextId = party.nextId := rfl

@[simp] theorem gotRead_logs :
    (party.gotRead id data).logs = Function.update party.logs id
      { party.logs id with read := (party.logs id).read ++ data } := rfl

@[simp] theorem gotWritten_sockets : (party.gotWritten id data).sockets = party.sockets := rfl

@[simp] theorem gotWritten_closing : (party.gotWritten id data).closing = party.closing := rfl

@[simp] theorem gotWritten_nextId : (party.gotWritten id data).nextId = party.nextId := rfl

@[simp] theorem gotWritten_logs :
    (party.gotWritten id data).logs = Function.update party.logs id
      { party.logs id with written := (party.logs id).written ++ data } := rfl

/-- The socket at the other end, once it is known. -/
def peerOf : Option Nat := (party.logs id).peer

end Party

/-- Only one socket changes, and neither does it get another peer nor is it opened
again. -/
structure Party.Changes (id : Nat) (before after : Party) : Prop where
  nextId : after.nextId = before.nextId
  peer : after.peerOf id = before.peerOf id
  stays : before.sockets id = none → after.sockets id = none
  others : ∀ other, other ≠ id →
    after.sockets other = before.sockets other ∧ after.closing other = before.closing other ∧
      after.logs other = before.logs other

namespace Party.Changes

variable {id : Nat} {before middle after : Party}

theorem trans
    (hfirst : Changes id before middle) (hsecond : Changes id middle after) :
    Changes id before after where
  nextId := hsecond.nextId.trans hfirst.nextId
  peer := hsecond.peer.trans hfirst.peer
  stays := fun hnone => hsecond.stays (hfirst.stays hnone)
  others := fun other hother =>
    ⟨(hsecond.others other hother).1.trans (hfirst.others other hother).1,
      (hsecond.others other hother).2.1.trans (hfirst.others other hother).2.1,
      (hsecond.others other hother).2.2.trans (hfirst.others other hother).2.2⟩

theorem peerOf (hchanges : Changes id before after) (other : Nat) :
    after.peerOf other = before.peerOf other := by
  by_cases hother : other = id
  · rw [hother]
    exact hchanges.peer
  · simp only [Party.peerOf, (hchanges.others other hother).2.2]

theorem refl : Changes id before before := by
  constructor <;> simp

theorem gotRead (data : Bytes) : Changes id before (before.gotRead id data) := by
  constructor <;> simp +contextual [Party.peerOf]

theorem gotWritten (data : Bytes) : Changes id before (before.gotWritten id data) := by
  constructor <;> simp +contextual [Party.peerOf]

theorem destroy : Changes id before (before.destroy id) := by
  constructor <;> simp +contextual [Party.peerOf]

theorem setClosing (socket : Asocket) : Changes id before (before.setClosing id socket) := by
  constructor <;> simp +contextual [Party.peerOf]

theorem setSocket
    {old : Asocket} (hold : before.sockets id = some old) (socket : Asocket) :
    Changes id before (before.setSocket id socket) := by
  constructor <;> simp +contextual [Party.peerOf, hold]

end Party.Changes

/-! ## Sockets -/

/-- An open socket: it asks for `FDE_WRITE` exactly if packets are waiting, it has a peer
once the other end answered, and does nothing before that. -/
structure Asocket.Sound (socket : Asocket) (peer : Option Nat) : Prop where
  remote : socket.peer = peer.elim .null .remote
  write : socket.state.write = true ↔ socket.pkts ≠ []
  events_read : socket.events.read = true → socket.state.read = true
  events_write : socket.events.write = true → socket.state.write = true
  idle : peer = none → socket.state.read = false ∧ socket.pkts = []

/-- A socket on `local_socket_closing_list`. -/
structure Asocket.Leaving (socket : Asocket) (peer : Option Nat) : Prop where
  freed : socket.peer = .freed
  pkts : socket.pkts ≠ []
  known : peer ≠ none

structure Party.Sound (party : Party) : Prop where
  fresh : ∀ id, party.nextId ≤ id →
    party.sockets id = none ∧ party.closing id = none ∧ party.logs id = .empty
  sockets : ∀ id socket, party.sockets id = some socket →
    party.closing id = none ∧ socket.Sound (party.peerOf id)
  closing : ∀ id socket, party.closing id = some socket →
    party.sockets id = none ∧ socket.Leaving (party.peerOf id)
  silent : ∀ id, party.peerOf id = none →
    (party.logs id).read = [] ∧ (party.logs id).written = []

namespace Party.Sound

variable {party : Party}

theorem lt_nextId
    (hsound : party.Sound) {id : Nat}
    (hid : party.sockets id ≠ none ∨ party.peerOf id ≠ none) :
    id < party.nextId := by
  by_contra hge
  have hfresh := hsound.fresh id (by omega)
  simp [hfresh, Party.peerOf, Log.empty] at hid

/-- What is to be shown if one socket changes. -/
theorem changes
    (hsound : party.Sound) {id : Nat} {after : Party} (hchanges : Changes id party after)
    (hid : id < party.nextId)
    (hsockets : ∀ socket, after.sockets id = some socket →
      after.closing id = none ∧ socket.Sound (party.peerOf id))
    (hclosing : ∀ socket, after.closing id = some socket →
      after.sockets id = none ∧ socket.Leaving (party.peerOf id))
    (hsilent : party.peerOf id = none →
      (after.logs id).read = [] ∧ (after.logs id).written = []) :
    after.Sound where
  fresh := by
    intro other hother
    rw [hchanges.nextId] at hother
    obtain ⟨hsocket, hclose, hlog⟩ := hchanges.others other (by omega)
    rw [hsocket, hclose, hlog]
    exact hsound.fresh other hother
  sockets := by
    intro other socket hsocket
    by_cases hother : other = id
    · subst hother
      rw [hchanges.peer]
      exact hsockets socket hsocket
    · rw [(hchanges.others other hother).1] at hsocket
      rw [(hchanges.others other hother).2.1, hchanges.peerOf]
      exact hsound.sockets other socket hsocket
  closing := by
    intro other socket hsocket
    by_cases hother : other = id
    · subst hother
      rw [hchanges.peer]
      exact hclosing socket hsocket
    · rw [(hchanges.others other hother).2.1] at hsocket
      rw [(hchanges.others other hother).1, hchanges.peerOf]
      exact hsound.closing other socket hsocket
  silent := by
    intro other hpeer
    rw [hchanges.peerOf] at hpeer
    by_cases hother : other = id
    · subst hother
      exact hsilent hpeer
    · rw [(hchanges.others other hother).2.2]
      exact hsound.silent other hpeer

end Party.Sound

/-! ## Packets on their way -/

/-- The socket a packet is for. -/
def Packet.target : Packet → Option Nat
  | .open _ _ => none
  | .okay _ target => some target
  | .clse _ target => some target
  | .wrte _ target _ => some target

/-- The sockets that a packet claims to connect. -/
def Packet.ends : Packet → Option (Nat × Nat)
  | .open _ _ => none
  | .okay source target => some (source, target)
  | .clse _ _ => none
  | .wrte source target _ => some (source, target)

def Packet.opened : Packet → Option Nat
  | .open source _ => some source
  | _ => none

def Packet.dataOf (source target : Nat) : Packet → Option Bytes
  | .wrte from' to' data => if from' = source ∧ to' = target then some data else none
  | _ => none

/-- The packets for a socket. -/
def addressed (packets : List Packet) (target : Nat) : List Packet :=
  packets.filter fun packet => packet.target = some target

/-- The data on its way from one socket to another one. -/
def messages (packets : List Packet) (source target : Nat) : List Bytes :=
  packets.filterMap (Packet.dataOf source target)

/-- The acknowledgements on their way from one socket to another one. -/
def readies (packets : List Packet) (source target : Nat) : Nat :=
  packets.count (.okay source target)

/-- The sockets are the two ends of a stream. -/
def Linked (near far : Party) (x y : Nat) : Prop :=
  near.peerOf x = some y ∨ far.peerOf y = some x

theorem Linked.symm
    {near far : Party} {x y : Nat} (hlinked : Linked near far x y) : Linked far near y x :=
  Or.symm hlinked

/-- The packets on their way to `near`, where `outbox` are those on their way back. -/
structure Mail (near far : Party) (inbox outbox : List Packet) : Prop where
  known : ∀ x y, far.peerOf y = some x → x < near.nextId
  paired : ∀ x y, far.peerOf y = some x → near.peerOf x = none ∨ near.peerOf x = some y
  distinct : ∀ x y y', far.peerOf y = some x → far.peerOf y' = some x → y = y'
  ends : ∀ packet ∈ inbox, ∀ x y, packet.ends = some (y, x) → far.peerOf y = some x
  clse : ∀ x source, .clse source x ∈ inbox →
    x < near.nextId ∧ (∀ y, Linked near far x y → far.sockets y = none) ∧
      ∀ destination, .open x destination ∉ outbox
  last : inbox.Pairwise fun packet later =>
    ∀ x source, packet = .clse source x → later.target ≠ some x
  opening : ∀ y destination, .open y destination ∈ inbox →
    far.sockets y ≠ none ∧ far.peerOf y = none ∧ (∀ x, near.peerOf x ≠ some y) ∧
      addressed outbox y = []
  once : (inbox.filterMap Packet.opened).Nodup
  greeting : ∀ x y, far.peerOf y = some x → near.peerOf x = none →
    near.sockets x ≠ none ∧ ∃ rest, addressed inbox x = .okay y x :: rest

/-- What is still to be written of the data that came for a socket that is closing. -/
def Party.unwritten (party : Party) (id : Nat) : Bytes :=
  (party.closing id).elim [] fun socket => socket.pkts.flatten

/-- The data that goes from `y` to `x`. -/
structure Stream (near far : Party) (inbox outbox : List Packet) (x y : Nat) : Prop where
  running : ∀ socket, near.sockets x = some socket →
    ∃ ready, (∀ sender, far.sockets y = some sender → sender.state.read = ready) ∧
      Flow ready (messages inbox y x) socket.pkts (readies outbox x y) (far.logs y).read
        (near.logs x).written
  ended : near.sockets x = none →
    (near.logs x).written ++ near.unwritten x <+: (far.logs y).read

/-- What holds of one end. -/
structure Half (near far : Party) (inbox outbox : List Packet) : Prop where
  sound : near.Sound
  mail : Mail near far inbox outbox
  streams : ∀ x y, Linked near far x y → Stream near far inbox outbox x y

/-- What holds of both ends. -/
structure Both (near far : Party) (inbox outbox : List Packet) : Prop where
  here : Half near far inbox outbox
  there : Half far near outbox inbox

/-! ## Lists of packets -/

section Packets

variable (packet : Packet) (packets others : List Packet) (source target : Nat)

@[simp] theorem addressed_append :
    addressed (packets ++ others) target = addressed packets target ++ addressed others target :=
  List.filter_append ..

@[simp] theorem messages_append :
    messages (packets ++ others) source target =
      messages packets source target ++ messages others source target :=
  List.filterMap_append

@[simp] theorem readies_append :
    readies (packets ++ others) source target =
      readies packets source target + readies others source target :=
  List.count_append

variable {packet packets source target}

theorem addressed_cons_of_ne
    (hpacket : packet.target ≠ some target) :
    addressed (packet :: packets) target = addressed packets target := by
  simp [addressed, hpacket]

theorem mem_addressed : packet ∈ addressed packets target ↔
    packet ∈ packets ∧ packet.target = some target := by
  simp [addressed]

theorem messages_cons_of_ne
    (hpacket : packet.ends ≠ some (source, target)) :
    messages (packet :: packets) source target = messages packets source target := by
  have hnone : packet.dataOf source target = none := by
    cases packet with
    | wrte source' target' data => simpa [Packet.dataOf, Packet.ends] using hpacket
    | _ => rfl
  simp [messages, hnone]

theorem readies_cons_of_ne
    (hpacket : packet.ends ≠ some (source, target)) :
    readies (packet :: packets) source target = readies packets source target := by
  apply List.count_cons_of_ne
  rintro rfl
  exact hpacket rfl

theorem messages_singleton_of_ne
    (hpacket : packet.ends ≠ some (source, target)) : messages [packet] source target = [] :=
  messages_cons_of_ne hpacket

theorem readies_singleton_of_ne
    (hpacket : packet.ends ≠ some (source, target)) : readies [packet] source target = 0 :=
  readies_cons_of_ne hpacket

theorem messages_eq_nil
    (hpackets : ∀ packet ∈ packets, packet.ends ≠ some (source, target)) :
    messages packets source target = [] := by
  induction packets with
  | nil => rfl
  | cons packet packets ih =>
      rw [messages_cons_of_ne (hpackets packet (by simp))]
      exact ih fun other hother => hpackets other (by simp [hother])

theorem readies_eq_zero
    (hpackets : ∀ packet ∈ packets, packet.ends ≠ some (source, target)) :
    readies packets source target = 0 := by
  apply List.count_eq_zero.2
  intro hmem
  exact hpackets _ hmem rfl

@[simp] theorem messages_okay :
    messages (.okay source target :: packets) source target = messages packets source target := rfl

@[simp] theorem messages_wrte (data : Bytes) :
    messages (.wrte source target data :: packets) source target =
      data :: messages packets source target := by
  simp [messages, Packet.dataOf]

@[simp] theorem readies_okay :
    readies (.okay source target :: packets) source target =
      readies packets source target + 1 := by
  simp [readies]

@[simp] theorem readies_wrte (data : Bytes) :
    readies (.wrte source target data :: packets) source target =
      readies packets source target := by
  simp [readies]

@[simp] theorem messages_nil : messages [] source target = [] := rfl

@[simp] theorem readies_nil : readies [] source target = 0 := rfl

end Packets

/-! ## What becomes of the packets -/

namespace Mail

variable {near far after : Party} {inbox outbox : List Packet} {packet : Packet} {id : Nat}

theorem link_unique
    (hmail : Mail near far inbox outbox) {x y y' : Nat}
    (hlinked : Linked near far x y) (hlinked' : Linked near far x y') :
    y = y' := by
  rcases hlinked with hnear | hfar
  · rcases hlinked' with hnear' | hfar'
    · simpa [hnear] using hnear'
    · have := hmail.paired x y' hfar'
      simpa [hnear] using this
  · rcases hlinked' with hnear' | hfar'
    · have := hmail.paired x y hfar
      simpa [hnear', eq_comm] using this
    · exact hmail.distinct x y y' hfar hfar'

/-- A packet is taken from the inbox. -/
theorem pop
    (hmail : Mail near far (packet :: inbox) outbox)
    (hsettled : ∀ x, packet.target = some x →
      ∀ y, far.peerOf y = some x → near.peerOf x ≠ none) :
    Mail near far inbox outbox where
  known := hmail.known
  paired := hmail.paired
  distinct := hmail.distinct
  ends := fun other hother => hmail.ends other (List.mem_cons_of_mem _ hother)
  clse := fun x source hclse => hmail.clse x source (List.mem_cons_of_mem _ hclse)
  last := (List.pairwise_cons.1 hmail.last).2
  opening := fun y destination hopen =>
    hmail.opening y destination (List.mem_cons_of_mem _ hopen)
  once := hmail.once.sublist ((List.sublist_cons_self _ _).filterMap _)
  greeting := by
    intro x y hfar hnear
    have hgreeting := hmail.greeting x y hfar hnear
    rwa [addressed_cons_of_ne fun htarget => hsettled x htarget y hfar hnear] at hgreeting

/-- A packet is taken from the inbox of the other end. -/
theorem popBack
    (hmail : Mail near far inbox (packet :: outbox)) : Mail near far inbox outbox where
  known := hmail.known
  paired := hmail.paired
  distinct := hmail.distinct
  ends := hmail.ends
  clse := by
    intro x source hclse
    obtain ⟨hlt, hclosed, hopen⟩ := hmail.clse x source hclse
    exact ⟨hlt, hclosed, fun destination hmem =>
      hopen destination (List.mem_cons_of_mem _ hmem)⟩
  last := hmail.last
  opening := by
    intro y destination hopen
    obtain ⟨hsocket, hpeer, hnone, hempty⟩ := hmail.opening y destination hopen
    refine ⟨hsocket, hpeer, hnone, ?_⟩
    rw [addressed, List.filter_cons] at hempty
    split at hempty
    · simp at hempty
    · exact hempty
  once := hmail.once
  greeting := hmail.greeting

theorem changes
    (hmail : Mail near far inbox outbox) (hchanges : Party.Changes id near after)
    (hsettled : ∀ y, far.peerOf y = some id → near.peerOf id ≠ none) :
    Mail after far inbox outbox where
  known := by
    rw [hchanges.nextId]
    exact hmail.known
  paired := by
    intro x y hfar
    rw [hchanges.peerOf]
    exact hmail.paired x y hfar
  distinct := hmail.distinct
  ends := hmail.ends
  clse := by
    intro x source hclse
    rw [hchanges.nextId]
    obtain ⟨hlt, hclosed, hopen⟩ := hmail.clse x source hclse
    refine ⟨hlt, fun y hlinked => hclosed y ?_, hopen⟩
    rwa [Linked, hchanges.peerOf] at hlinked
  last := hmail.last
  opening := by
    intro y destination hopen
    simp only [hchanges.peerOf]
    exact hmail.opening y destination hopen
  once := hmail.once
  greeting := by
    intro x y hfar hnear
    rw [hchanges.peerOf] at hnear
    have hother : x ≠ id := by
      rintro rfl
      exact hsettled y hfar hnear
    rw [(hchanges.others x hother).1]
    exact hmail.greeting x y hfar hnear

theorem changesBack
    (hmail : Mail far near outbox inbox) (hchanges : Party.Changes id near after)
    (hopening : ∀ destination, .open id destination ∉ outbox) :
    Mail far after outbox inbox where
  known := by
    intro x y hnear
    rw [hchanges.peerOf] at hnear
    exact hmail.known x y hnear
  paired := by
    intro x y hnear
    rw [hchanges.peerOf] at hnear
    exact hmail.paired x y hnear
  distinct := by
    intro x y y' hnear hnear'
    rw [hchanges.peerOf] at hnear hnear'
    exact hmail.distinct x y y' hnear hnear'
  ends := by
    intro other hother x y hends
    rw [hchanges.peerOf]
    exact hmail.ends other hother x y hends
  clse := by
    intro x source hclse
    obtain ⟨hlt, hclosed, hopen⟩ := hmail.clse x source hclse
    refine ⟨hlt, fun y hlinked => ?_, hopen⟩
    rw [Linked, hchanges.peerOf] at hlinked
    have hnone := hclosed y hlinked
    by_cases hother : y = id
    · subst hother
      exact hchanges.stays hnone
    · rw [(hchanges.others y hother).1]
      exact hnone
  last := hmail.last
  opening := by
    intro y destination hopen
    have hother : y ≠ id := by
      rintro rfl
      exact hopening destination hopen
    rw [(hchanges.others y hother).1, hchanges.peerOf]
    exact hmail.opening y destination hopen
  once := hmail.once
  greeting := by
    intro x y hnear hfar
    rw [hchanges.peerOf] at hnear
    exact hmail.greeting x y hnear hfar

/-- A packet other than `A_OPEN` is sent to this end. -/
theorem push
    (hmail : Mail near far inbox outbox) (hopened : packet.opened = none)
    (hends : ∀ x y, packet.ends = some (y, x) → far.peerOf y = some x)
    (hclse : ∀ x source, packet = .clse source x →
      x < near.nextId ∧ (∀ y, Linked near far x y → far.sockets y = none) ∧
        ∀ destination, .open x destination ∉ outbox)
    (hlast : ∀ x, packet.target = some x → ∀ source, .clse source x ∉ inbox) :
    Mail near far (inbox ++ [packet]) outbox where
  known := hmail.known
  paired := hmail.paired
  distinct := hmail.distinct
  ends := by
    intro other hother x y hother'
    rcases List.mem_append.1 hother with hmem | hmem
    · exact hmail.ends other hmem x y hother'
    · obtain rfl := List.mem_singleton.1 hmem
      exact hends x y hother'
  clse := by
    intro x source hmem
    rcases List.mem_append.1 hmem with hmem | hmem
    · exact hmail.clse x source hmem
    · exact hclse x source (List.mem_singleton.1 hmem).symm
  last := by
    refine List.pairwise_append.2 ⟨hmail.last, List.pairwise_singleton _ _, ?_⟩
    intro other hother later hlater x source hclose htarget
    obtain rfl := List.mem_singleton.1 hlater
    exact hlast x htarget source (hclose ▸ hother)
  opening := by
    intro y destination hmem
    rcases List.mem_append.1 hmem with hmem | hmem
    · exact hmail.opening y destination hmem
    · obtain rfl := List.mem_singleton.1 hmem
      simp [Packet.opened] at hopened
  once := by
    simpa [List.filterMap_append, hopened] using hmail.once
  greeting := by
    intro x y hfar hnear
    obtain ⟨hsocket, rest, hrest⟩ := hmail.greeting x y hfar hnear
    exact ⟨hsocket, rest ++ addressed [packet] x, by simp [hrest]⟩

/-- A packet other than `A_OPEN` is sent by this end. -/
theorem pushBack
    (hmail : Mail near far inbox outbox) (hopened : packet.opened = none)
    (hopening : ∀ y, packet.target = some y → ∀ destination, .open y destination ∉ inbox) :
    Mail near far inbox (outbox ++ [packet]) where
  known := hmail.known
  paired := hmail.paired
  distinct := hmail.distinct
  ends := hmail.ends
  clse := by
    intro x source hclse
    obtain ⟨hlt, hclosed, hopen⟩ := hmail.clse x source hclse
    refine ⟨hlt, hclosed, fun destination hmem => ?_⟩
    rcases List.mem_append.1 hmem with hmem | hmem
    · exact hopen destination hmem
    · obtain rfl := List.mem_singleton.1 hmem
      simp [Packet.opened] at hopened
  last := hmail.last
  opening := by
    intro y destination hopen
    obtain ⟨hsocket, hpeer, hnone, hempty⟩ := hmail.opening y destination hopen
    refine ⟨hsocket, hpeer, hnone, ?_⟩
    rw [addressed_append, hempty, List.nil_append, addressed_cons_of_ne]
    · rfl
    · exact fun htarget => hopening y htarget destination hopen
  once := hmail.once
  greeting := hmail.greeting

end Mail

end OpenRecovery.Adb
