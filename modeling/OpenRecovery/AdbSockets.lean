import OpenRecovery.System
import OpenRecovery.BsPatch
import Mathlib

/-!
# `sockets.c`: streams over a connection

Both ends of a connection keep a list of local sockets, each of them bound to a file
descriptor and, once it is connected, to a remote socket that stands for the local
socket of the other end.  Packets arrive in the order in which they were sent, and the
events of the file descriptors in any order.

A socket is named by its id for as long as it exists, also after `remove_socket` has
cleared its field.  The connection is up, and fewer than 2^32 sockets are opened.
-/

namespace OpenRecovery.Adb

def maxPayload : Nat := 4096

/-- `apacket`. -/
inductive Packet where
  | open (arg0 : Nat) (data : Bytes)
  | okay (arg0 arg1 : Nat)
  | clse (arg0 arg1 : Nat)
  | wrte (arg0 arg1 : Nat) (data : Bytes)
deriving DecidableEq

/-! ## Events -/

/-- A set of events of a file descriptor. -/
structure Events where
  read : Bool
  write : Bool
deriving DecidableEq

def Events.none : Events := ⟨false, false⟩

/-- `events & ~others`. -/
def Events.without (events others : Events) : Events :=
  ⟨events.read && !others.read, events.write && !others.write⟩

/-- `events | others`. -/
def Events.union (events others : Events) : Events :=
  ⟨events.read || others.read, events.write || others.write⟩

/-- The field `peer` of a local socket. -/
inductive Peer where
  | null
  | remote (id : Nat)
  | freed
deriving DecidableEq

/-- A local `asocket` with its `fdevent`: `state` are the events that are asked for, and
`events` those that are waiting for the callback. -/
structure Asocket where
  peer : Peer
  state : Events
  events : Events
  pkts : List Bytes
deriving DecidableEq

/-- `fdevent_set`. -/
def Asocket.fdeventSet (socket : Asocket) (events : Events) : Asocket :=
  if socket.state = events then socket
  else { socket with state := events, events := socket.events.without events }

/-- `fdevent_add`. -/
def Asocket.fdeventAdd (socket : Asocket) (events : Events) : Asocket :=
  socket.fdeventSet (socket.state.union events)

/-- `fdevent_del`. -/
def Asocket.fdeventDel (socket : Asocket) (events : Events) : Asocket :=
  socket.fdeventSet (socket.state.without events)

def fdeRead : Events := ⟨true, false⟩

def fdeWrite : Events := ⟨false, true⟩

/-! ## The lists of sockets -/

/-- What went through the file descriptor of a socket, and the id of the socket at the
other end. -/
structure Log where
  peer : Option Nat
  read : Bytes
  written : Bytes
deriving DecidableEq

def Log.empty : Log := ⟨none, [], []⟩

/-- One end of the connection: `local_socket_list` and `local_socket_closing_list` by the
ids of the sockets. -/
structure Party where
  nextId : Nat
  sockets : Nat → Option Asocket
  closing : Nat → Option Asocket
  logs : Nat → Log

def Party.initial : Party where
  nextId := 1
  sockets := fun _ => none
  closing := fun _ => none
  logs := fun _ => .empty

def Party.setSocket (party : Party) (id : Nat) (socket : Asocket) : Party :=
  { party with sockets := Function.update party.sockets id (some socket) }

def Party.setClosing (party : Party) (id : Nat) (socket : Asocket) : Party :=
  { party with closing := Function.update party.closing id (some socket) }

/-- `local_socket_destroy`. -/
def Party.destroy (party : Party) (id : Nat) : Party :=
  { party with
    sockets := Function.update party.sockets id none,
    closing := Function.update party.closing id none }

def Party.modifyLog (party : Party) (id : Nat) (change : Log → Log) : Party :=
  { party with logs := Function.update party.logs id (change (party.logs id)) }

def Party.gotRead (party : Party) (id : Nat) (data : Bytes) : Party :=
  party.modifyLog id fun log => { log with read := log.read ++ data }

def Party.gotWritten (party : Party) (id : Nat) (data : Bytes) : Party :=
  party.modifyLog id fun log => { log with written := log.written ++ data }

/-- `create_local_socket`: a new socket without a peer. -/
def Party.createLocalSocket (party : Party) : Party :=
  { party.setSocket party.nextId ⟨.null, .none, .none, []⟩ with nextId := party.nextId + 1 }

/-- The remote socket that is created for a local one. -/
def Party.connect (party : Party) (id : Nat) (socket : Asocket) (peer : Nat) : Party :=
  (party.setSocket id { socket with peer := .remote peer }).modifyLog id fun log =>
    { log with peer := some peer }

/-! ## Local sockets -/

/-- The state and the packets that were sent. -/
abbrev Reply := Except Stuck (Party × List Packet)

/-- The second half of `local_socket_close_locked`. -/
def Party.leave (party : Party) (id : Nat) (socket : Asocket) (closing : Bool) : Party :=
  if closing ∨ socket.pkts = [] then party.destroy id
  else (party.destroy id).setClosing id (socket.fdeventDel fdeRead)

/-- `local_socket_close`.  The remote socket is freed, but `peer` is not cleared. -/
def Party.localSocketClose (party : Party) (id : Nat) (socket : Asocket) (closing : Bool) :
    Reply :=
  match socket.peer with
  | .null => .ok (party.leave id socket closing, [])
  | .remote peer => .ok (party.leave id { socket with peer := .freed } closing, [.clse 0 peer])
  | .freed => .error .freedMemory

/-- What the file descriptors answer: `took` bytes can be written before the next write
would block or, if `failed`, fails. -/
structure Answer where
  took : Nat
  failed : Bool

/-- `local_socket_enqueue` and what `handle_packet` does with its result; `arg0` is the
sender of the packet. -/
def Party.localSocketEnqueue
    (party : Party) (id : Nat) (socket : Asocket) (arg0 : Nat) (data : Bytes) (answer : Answer) :
    Reply :=
  if socket.pkts ≠ [] then
    .ok (party.setSocket id
      { socket.fdeventAdd fdeWrite with pkts := socket.pkts ++ [data] }, [])
  else if data.length ≤ answer.took then
    .ok (party.gotWritten id data, [.okay id arg0])
  else if answer.failed then
    (party.gotWritten id (data.take answer.took)).localSocketClose id socket false
  else
    .ok ((party.gotWritten id (data.take answer.took)).setSocket id
      { socket.fdeventAdd fdeWrite with pkts := [data.drop answer.took] }, [])

/-- The packets that are left after `took` bytes were written. -/
def drain : List Bytes → Nat → List Bytes
  | [], _ => []
  | pkt :: rest, took =>
      if pkt.length ≤ took then drain rest (took - pkt.length) else pkt.drop took :: rest

/-- How the first half of `local_socket_event_func` ends: it returns, or it goes on with
the socket. -/
inductive Written where
  | returned (party : Party) (sent : List Packet)
  | goesOn (party : Party) (socket : Asocket) (sent : List Packet)

def Written.ofReply (reply : Reply) : Except Stuck Written :=
  reply.map fun result => .returned result.1 result.2

def Party.keep (party : Party) (id : Nat) (socket : Asocket) (closing : Bool) : Party :=
  if closing then party.setClosing id socket else party.setSocket id socket

/-- The half of `local_socket_event_func` for `FDE_WRITE`. -/
def Party.eventWrite
    (party : Party) (id : Nat) (socket : Asocket) (closing : Bool) (answer : Answer) :
    Except Stuck Written :=
  let left := drain socket.pkts answer.took
  let party := party.gotWritten id (socket.pkts.flatten.take answer.took)
  let socket := { socket with pkts := left }
  if left ≠ [] ∧ answer.failed = false then
    .ok (.returned (party.keep id socket closing) [])
  else if left ≠ [] ∨ closing then
    Written.ofReply (party.localSocketClose id socket closing)
  else
    match socket.peer with
    | .null => .error .outOfBounds
    | .freed => .error .freedMemory
    | .remote peer =>
        let socket := socket.fdeventDel fdeWrite
        .ok (.goesOn (party.setSocket id socket) socket [.okay id peer])

/-- The half of `local_socket_event_func` for `FDE_READ`: the bytes that were read, and
whether the end of the file was met. -/
def Party.eventRead
    (party : Party) (id : Nat) (socket : Asocket) (closing : Bool) (data : Bytes) (eof : Bool) :
    Reply :=
  let party := party.gotRead id data
  if data = [] ∨ socket.peer = .null then
    if eof then party.localSocketClose id socket closing
    else .ok (party.keep id socket closing, [])
  else
    match socket.peer with
    | .null => .error .outOfBounds
    | .freed => .error .freedMemory
    | .remote peer =>
        let socket := socket.fdeventDel fdeRead
        let party := party.keep id socket closing
        if eof then
          (party.localSocketClose id socket closing).map fun result =>
            (result.1, .wrte id peer data :: result.2)
        else .ok (party, [.wrte id peer data])

/-- What the file descriptor of a socket has to offer to its callback. -/
structure FdAnswer where
  write : Answer
  data : Bytes
  eof : Bool

/-- `local_socket_event_func`. -/
def Party.eventFunc
    (party : Party) (id : Nat) (socket : Asocket) (closing : Bool) (ev : Events)
    (answer : FdAnswer) : Reply :=
  if ev.write then do
    match ← party.eventWrite id socket closing answer.write with
    | .returned party sent => .ok (party, sent)
    | .goesOn party socket sent =>
        if ev.read then
          (party.eventRead id socket closing answer.data answer.eof).map fun result =>
            (result.1, sent ++ result.2)
        else .ok (party, sent)
  else if ev.read then party.eventRead id socket closing answer.data answer.eof
  else .ok (party.keep id socket closing, [])

/-! ## Packets -/

/-- `handle_packet`; `found` says whether there is a service of the name. -/
def Party.handlePacket (party : Party) (packet : Packet) (found : Bool) (answer : Answer) : Reply :=
  match packet with
  | .open arg0 _ =>
      if found then
        let id := party.nextId
        let party := party.createLocalSocket
        let socket : Asocket := ⟨.null, .none, .none, []⟩
        .ok (party.connect id (socket.fdeventAdd fdeRead) arg0, [.okay id arg0])
      else .ok (party, [.clse 0 arg0])
  | .okay arg0 arg1 =>
      match party.sockets arg1 with
      | none => .ok (party, [])
      | some socket =>
          let socket' := socket.fdeventAdd fdeRead
          if socket.peer = .null then .ok (party.connect arg1 socket' arg0, [])
          else .ok (party.setSocket arg1 socket', [])
  | .clse _ arg1 =>
      match party.sockets arg1 with
      | none => .ok (party, [])
      | some socket => party.localSocketClose arg1 socket false
  | .wrte arg0 arg1 data =>
      match party.sockets arg1 with
      | none => .ok (party, [])
      | some socket => party.localSocketEnqueue arg1 socket arg0 data answer

/-! ## The connection -/

/-- What can happen at one end. -/
inductive Act where
  | connect (destination : Bytes)
  | packet (found : Bool) (answer : Answer)
  | poll (id : Nat) (events : Events)
  | callback (id : Nat) (closing : Bool) (answer : FdAnswer)

/-- Some of the events that a socket asks for occur. -/
def Asocket.poll (socket : Asocket) (events : Events) : Asocket :=
  { socket with
    events := socket.events.union
      ⟨events.read && socket.state.read, events.write && socket.state.write⟩ }

/-- What the end does: the packets that are left in its inbox, its state and the packets
that it sends; nothing if it cannot do that. -/
def Party.act (party : Party) (inbox : List Packet) :
    Act → Option (Except Stuck (List Packet × Party × List Packet))
  | .connect destination =>
      -- `fatal` ends the process for an oversized destination
      if maxPayload - 1 < destination.length + 1 then none
      else some (.ok (inbox, party.createLocalSocket, [.open party.nextId (destination ++ [0])]))
  | .packet found answer =>
      match inbox with
      | [] => none
      | packet :: rest =>
          some ((party.handlePacket packet found answer).map fun result => (rest, result))
  | .poll id events =>
      match party.sockets id, party.closing id with
      | some socket, _ => some (.ok (inbox, party.setSocket id (socket.poll events), []))
      | none, some socket => some (.ok (inbox, party.setClosing id (socket.poll events), []))
      | none, none => none
  | .callback id closing answer =>
      match (if closing then party.closing id else party.sockets id) with
      | none => none
      | some socket =>
          if socket.events = .none ∨ maxPayload < answer.data.length then none
          else
            some ((party.eventFunc id { socket with events := .none } closing socket.events
              answer).map fun result => (inbox, result))

inductive Side where
  | host
  | device
deriving DecidableEq

/-- Both ends, and the packets on their way to each of them. -/
structure Connection where
  host : Party
  device : Party
  toHost : List Packet
  toDevice : List Packet

def Connection.initial : Connection where
  host := .initial
  device := .initial
  toHost := []
  toDevice := []

/-- A step of one end. -/
def Connection.step (connection : Connection) (side : Side) (act : Act) :
    Option (Except Stuck Connection) :=
  match side with
  | .host =>
      (connection.host.act connection.toHost act).map fun outcome =>
        outcome.map fun result =>
          { connection with
            toHost := result.1, host := result.2.1,
            toDevice := connection.toDevice ++ result.2.2 }
  | .device =>
      (connection.device.act connection.toDevice act).map fun outcome =>
        outcome.map fun result =>
          { connection with
            toDevice := result.1, device := result.2.1,
            toHost := connection.toHost ++ result.2.2 }

/-- The states that can be reached. -/
inductive Connection.Reachable : Connection → Prop
  | initial : Reachable .initial
  | step {connection next : Connection} (side : Side) (act : Act)
      (hreachable : Reachable connection) (hstep : connection.step side act = some (.ok next)) :
      Reachable next

end OpenRecovery.Adb
