import OpenRecovery.AdbRuns
import Mathlib

/-!
# What both ends of a connection can rely on

Whatever the order of packets and events is, no data is lost, doubled or reordered, no
stream stalls, and a socket is only closed after all that was sent to it has arrived.
-/

namespace OpenRecovery.Adb

def Side.other : Side → Side
  | .host => .device
  | .device => .host

namespace Connection

variable (connection : Connection)

def party : Side → Party
  | .host => connection.host
  | .device => connection.device

/-- The packets on their way to an end. -/
def inbox : Side → List Packet
  | .host => connection.toHost
  | .device => connection.toDevice

/-- The local socket `x` of one end and the local socket `y` of the other one. -/
def Stream (side : Side) (x y : Nat) : Prop :=
  Linked (connection.party side) (connection.party side.other) x y

variable {connection}

theorem Sound.at
    (hsound : connection.Sound) (side : Side) :
    Both (connection.party side) (connection.party side.other) (connection.inbox side)
      (connection.inbox side.other) := by
  cases side with
  | host => exact hsound
  | device => exact ⟨hsound.there, hsound.here⟩

/-- Steps one after the other. -/
def run (connection : Connection) : List (Side × Act) → Option (Except Stuck Connection)
  | [] => some (.ok connection)
  | (side, act) :: rest =>
      match connection.step side act with
      | some (.ok next) => next.run rest
      | outcome => outcome

theorem Reachable.run
    {steps : List (Side × Act)} {next : Connection} (hreachable : connection.Reachable)
    (hrun : connection.run steps = some (.ok next)) : next.Reachable := by
  induction steps generalizing connection with
  | nil =>
      obtain rfl : connection = next := by simpa [Connection.run] using hrun
      exact hreachable
  | cons first rest ih =>
      obtain ⟨side, act⟩ := first
      simp only [Connection.run] at hrun
      split at hrun
      · rename_i middle hstep
        exact ih (.step side act hreachable hstep) hrun
      · rename_i outcome hnot
        exact absurd hrun (hnot next)

/-- The device sends three bytes, of which the host writes one; with `eof`, it closes its
socket right after that. -/
def sampleSteps (eof : Bool) : List (Side × Act) :=
  [(.host, .connect [120]),
    (.device, .packet true ⟨0, false⟩),
    (.host, .packet true ⟨0, false⟩),
    (.device, .poll 1 fdeRead),
    (.device, .callback 1 false ⟨⟨0, false⟩, [1, 2, 3], eof⟩),
    (.host, .packet true ⟨1, false⟩)]

def sample (eof : Bool) : Connection :=
  match Connection.initial.run (sampleSteps eof) with
  | some (.ok connection) => connection
  | _ => .initial

theorem sample_reachable (eof : Bool) : (sample eof).Reachable := by
  have hrun : Connection.initial.run (sampleSteps eof) = some (.ok (sample eof)) := by
    cases eof <;> rfl
  exact Reachable.initial.run hrun

theorem sample_stream (eof : Bool) : (sample eof).Stream .host 1 1 := by
  cases eof <;> exact Or.inl rfl

/-- What a file descriptor was given is the beginning of what came from the one at the
other end of the stream. -/
theorem Reachable.written_prefix_read
    (hreachable : connection.Reachable) (side : Side) {x y : Nat}
    (hstream : connection.Stream side x y) :
    ((connection.party side).logs x).written <+:
      ((connection.party side.other).logs y).read := by
  have hdata := (hreachable.sound.at side).here.streams x y hstream
  cases hsocket : (connection.party side).sockets x with
  | none => exact (List.prefix_append _ _).trans (hdata.ended hsocket)
  | some socket =>
      obtain ⟨ready, -, hflow⟩ := hdata.running socket hsocket
      exact (List.prefix_append _ _).trans hflow.written_prefix

theorem written_prefix_read_sample :
    [1] = ((sample true).host.logs 1).written ∧
      ((sample true).host.logs 1).written <+: ((sample true).device.logs 1).read :=
  ⟨rfl, (sample_reachable true).written_prefix_read .host (sample_stream true)⟩

/-- All that was read is written, waiting or on its way, and the permission to read more
is in exactly one place. -/
theorem Reachable.one_permission
    (hreachable : connection.Reachable) (side : Side) {x y : Nat}
    (hstream : connection.Stream side x y) {receiver sender : Asocket}
    (hreceiver : (connection.party side).sockets x = some receiver)
    (hsender : (connection.party side.other).sockets y = some sender) :
    ((connection.party side.other).logs y).read =
        ((connection.party side).logs x).written ++
          (receiver.pkts.flatten ++ (messages (connection.inbox side) y x).flatten) ∧
      sender.state.read.toNat + (messages (connection.inbox side) y x).length +
        receiver.pkts.length + readies (connection.inbox side.other) x y = 1 := by
  obtain ⟨ready, hready, hflow⟩ :=
    ((hreachable.sound.at side).here.streams x y hstream).running receiver hreceiver
  rw [hready sender hsender]
  exact ⟨hflow.read_eq, hflow.count⟩

theorem one_permission_sample :
    ((sample false).device.logs 1).read = ((sample false).host.logs 1).written ++ ([2, 3] ++ []) ∧
      false.toNat + 0 + 1 + 0 = 1 :=
  (sample_reachable false).one_permission .host (sample_stream false) rfl rfl

/-- A stream of which nothing is on its way goes on: either the next data is asked for, or
the write event that leads to the next acknowledgement is. -/
theorem Reachable.stream_goes_on
    (hreachable : connection.Reachable) (side : Side) {x y : Nat}
    (hstream : connection.Stream side x y) {receiver sender : Asocket}
    (hreceiver : (connection.party side).sockets x = some receiver)
    (hsender : (connection.party side.other).sockets y = some sender)
    (hmessages : messages (connection.inbox side) y x = [])
    (hreadies : readies (connection.inbox side.other) x y = 0) :
    sender.state.read = !receiver.state.write := by
  obtain ⟨-, hcount⟩ := hreachable.one_permission side hstream hreceiver hsender
  obtain ⟨-, hsound⟩ := (hreachable.sound.at side).here.sound.sockets x receiver hreceiver
  have hwrite := hsound.write
  rw [hmessages, hreadies] at hcount
  cases hread : sender.state.read <;> cases hpkts : receiver.pkts <;> simp_all

theorem stream_goes_on_sample :
    false = !((sample false).host.sockets 1).any fun socket => socket.state.write :=
  (sample_reachable false).stream_goes_on .host (sample_stream false) rfl rfl rfl rfl

/-- When an end learns that a stream is closed, all that was read for it at the other end
has arrived. -/
theorem Reachable.arrived_before_clse
    (hreachable : connection.Reachable) (side : Side) {x y source : Nat}
    (hstream : connection.Stream side x y) {socket : Asocket} {rest : List Packet}
    (hsocket : (connection.party side).sockets x = some socket)
    (hinbox : connection.inbox side = .clse source x :: rest) :
    ((connection.party side.other).logs y).read =
      ((connection.party side).logs x).written ++ socket.pkts.flatten := by
  have hboth := hreachable.sound.at side
  obtain ⟨ready, -, hflow⟩ := (hboth.here.streams x y hstream).running socket hsocket
  have hlast := hboth.here.mail.last
  rw [hinbox, List.pairwise_cons] at hlast
  have hnothing : messages (connection.inbox side) y x = [] := by
    apply messages_eq_nil
    intro packet hpacket hends
    rw [hinbox] at hpacket
    rcases List.mem_cons.1 hpacket with rfl | hmem
    · simp [Packet.ends] at hends
    · have := hlast.1 packet hmem x source rfl
      cases packet <;> simp_all [Packet.ends, Packet.target]
  rw [hflow.read_eq, hnothing, List.flatten_nil, List.append_nil]

theorem arrived_before_clse_sample :
    ((sample true).device.logs 1).read = ((sample true).host.logs 1).written ++ [2, 3] :=
  (sample_reachable true).arrived_before_clse .host (sample_stream true) rfl rfl

/-- In a run, freed memory is used exactly by a socket that is closing and comes to its
end. -/
theorem Reachable.step_stuck_iff
    (hreachable : connection.Reachable) (side : Side) (act : Act) (stuck : Stuck) :
    connection.step side act = some (.error stuck) ↔
      stuck = .freedMemory ∧ ∃ id answer socket, act = .callback id true answer ∧
        (connection.party side).closing id = some socket ∧ socket.events ≠ .none ∧
        answer.data.length ≤ maxPayload ∧ endsClosing socket.events socket.pkts answer := by
  rw [← (hreachable.sound.at side).act_error_iff]
  have hmap : ∀ {α β : Type} (outcome : Option (Except Stuck α)) (change : α → β),
      (outcome.map fun result => result.map change) = some (.error stuck) ↔
        outcome = some (.error stuck) := by
    intro α β outcome change
    rcases outcome with _ | _ | _ <;> simp [Except.map]
  cases side with
  | host => exact hmap _ _
  | device => exact hmap _ _

/-- The host learns that the device closed its socket, and gets to write the other two
bytes. -/
def sampleClosing : Connection :=
  match (sample true).run [(.host, .packet true ⟨0, false⟩), (.host, .poll 1 fdeWrite)] with
  | some (.ok connection) => connection
  | _ => .initial

theorem step_stuck_iff_sample :
    sampleClosing.step .host (.callback 1 true ⟨⟨2, false⟩, [], false⟩) =
      some (.error .freedMemory) := by
  have hrun : (sample true).run
      [(.host, .packet true ⟨0, false⟩), (.host, .poll 1 fdeWrite)] =
        some (.ok sampleClosing) := rfl
  have hreachable : sampleClosing.Reachable := (sample_reachable true).run hrun
  refine (hreachable.step_stuck_iff .host _ .freedMemory).2
    ⟨rfl, 1, _, _, rfl, rfl, ?_, by decide, Or.inl (by decide)⟩
  decide

end Connection

end OpenRecovery.Adb
