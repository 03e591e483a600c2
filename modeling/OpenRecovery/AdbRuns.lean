import OpenRecovery.AdbOpening
import Mathlib

/-!
# Runs of a connection

Each end acts on a packet, on an event or on its own, in any order.  Every step keeps the
invariant, and the only steps that use freed memory are those of sockets that are closing.
-/

namespace OpenRecovery.Adb

open StopAndWait

variable {near far next : Party} {inbox outbox sent : List Packet} {id : Nat}

/-! ## Sockets that are closing -/

/-- A socket that is closing writes some of what is left. -/
theorem Both.leaving
    {old new : Asocket} {data : Bytes} (hboth : Both near far inbox outbox)
    (hold : near.closing id = some old) (hfreed : new.peer = .freed) (hpkts : new.pkts ≠ [])
    (hdata : data ++ new.pkts.flatten = old.pkts.flatten) :
    Both ((near.gotWritten id data).setClosing id new) far inbox outbox := by
  obtain ⟨hsocket, hleaving⟩ := hboth.here.sound.closing id old hold
  obtain ⟨peer, hpeer⟩ := Option.ne_none_iff_exists'.1 hleaving.known
  have hhere := hboth.here.streams id peer (Or.inl hpeer)
  have hthere := hboth.there.streams peer id (Or.inr hpeer)
  have hchanges : Party.Changes id near ((near.gotWritten id data).setClosing id new) :=
    (Party.Changes.gotWritten data).trans (.setClosing new)
  have hresult := hboth.changes hchanges (.nothing inbox) .nothing hpeer (by simp)
  rw [List.append_nil] at hresult
  apply hresult
  · apply hboth.here.sound.changes hchanges
      (hboth.here.sound.lt_nextId (Or.inr (by simp [hpeer])))
    · simp [hsocket]
    · intro socket hnew
      obtain rfl : new = socket := by simpa using hnew
      exact ⟨by simpa using hsocket, hfreed, hpkts, hleaving.known⟩
    · simp [hpeer]
  · refine ⟨by simp [hsocket], fun _ => ?_⟩
    have hended := hhere.ended hsocket
    rw [Party.unwritten, hold] at hended
    simpa [Party.unwritten, hdata] using hended
  · exact hthere.frame rfl rfl rfl rfl (by simp) rfl rfl

theorem Both.setClosing_sound
    {old : Asocket} (hboth : Both near far inbox outbox) (hold : near.closing id = some old)
    (events : Events) :
    Both (near.setClosing id { old with events := events }) far inbox outbox := by
  obtain ⟨-, hleaving⟩ := hboth.here.sound.closing id old hold
  have hresult : Both ((near.gotWritten id []).setClosing id { old with events := events }) far
      inbox outbox := hboth.leaving hold hleaving.freed hleaving.pkts rfl
  rwa [Party.gotWritten_nil] at hresult

/-- The callback of a socket that is closing. -/
theorem Both.callback_closing
    {old : Asocket} {answer : FdAnswer} (hboth : Both near far inbox outbox)
    (hold : near.closing id = some old)
    (hresult : near.eventFunc id { old with events := .none } true old.events answer =
      .ok (next, sent)) :
    Both next far inbox (outbox ++ sent) := by
  obtain ⟨-, hleaving⟩ := hboth.here.sound.closing id old hold
  have hfreed := hleaving.freed
  unfold Party.eventFunc at hresult
  split at hresult
  · obtain ⟨written, hwritten, hrest⟩ := bind_eq_ok.1 hresult
    unfold Party.eventWrite at hwritten
    simp only [or_true, if_true] at hwritten
    split at hwritten
    · rename_i hleft
      obtain rfl := Except.ok.inj hwritten
      simp only [Except.ok.injEq, Prod.mk.injEq] at hrest
      obtain ⟨rfl, rfl⟩ := hrest
      rw [List.append_nil]
      exact hboth.leaving hold hfreed hleft.1 (drain_flatten _ _)
    · simp [Written.ofReply, Party.localSocketClose, hfreed, Except.map] at hwritten
  · have hkeep := hboth.setClosing_sound hold .none
    split at hresult
    · unfold Party.eventRead at hresult
      split at hresult
      · split at hresult
        · simp [Party.localSocketClose, hfreed] at hresult
        · rename_i hdata _
          have hdata : answer.data = [] := by simpa [hfreed] using hdata
          simp only [hdata, Party.gotRead_nil, Except.ok.injEq, Prod.mk.injEq] at hresult
          obtain ⟨rfl, rfl⟩ := hresult
          simpa [Party.keep] using hkeep
      · simp [hfreed] at hresult
    · simp only [Except.ok.injEq, Prod.mk.injEq] at hresult
      obtain ⟨rfl, rfl⟩ := hresult
      simpa [Party.keep] using hkeep

/-! ## Sockets that are open -/

theorem Asocket.Sound.poll
    {socket : Asocket} {peer : Option Nat} (hsound : socket.Sound peer) (events : Events) :
    (socket.poll events).Sound peer where
  remote := hsound.remote
  write := hsound.write
  events_read := by
    intro hread
    simp only [Asocket.poll, Events.union, Bool.or_eq_true, Bool.and_eq_true] at hread
    exact hread.elim hsound.events_read And.right
  events_write := by
    intro hwrite
    simp only [Asocket.poll, Events.union, Bool.or_eq_true, Bool.and_eq_true] at hwrite
    exact hwrite.elim hsound.events_write And.right
  idle := hsound.idle

theorem Both.poll
    {old : Asocket} (hboth : Both near far inbox outbox) (hold : near.sockets id = some old)
    (events : Events) : Both (near.setSocket id (old.poll events)) far inbox outbox := by
  obtain ⟨hclosing, hsound⟩ := hboth.here.sound.sockets id old hold
  cases hpeer : near.peerOf id with
  | none =>
      obtain ⟨hread, hpkts⟩ := hsound.idle hpeer
      have hwrite : old.state.write = false := by
        simpa [hpkts] using hsound.write
      have hpoll : old.poll events = old := by
        simp [Asocket.poll, hread, hwrite, Events.union]
      rwa [hpoll, Party.setSocket_self _ _ hold]
  | some peer =>
      rw [hpeer] at hsound
      have hresult := hboth.stays hpeer (by simp [hold]) (.setSocket hold (old.poll events))
        (.nothing inbox) .nothing (Function.update_self ..) hclosing (hsound.poll events)
      rw [List.append_nil] at hresult
      apply hresult
      · exact (hboth.here.streams id peer (Or.inl hpeer)).running old hold
      · exact (hboth.there.streams peer id (Or.inr hpeer)).sender hold (Function.update_self ..)
          rfl rfl rfl rfl

/-- The callback of a socket that is open. -/
theorem Both.callback
    {old : Asocket} {answer : FdAnswer} (hboth : Both near far inbox outbox)
    (hold : near.sockets id = some old) (hevents : old.events ≠ .none)
    (hresult : near.eventFunc id { old with events := .none } false old.events answer =
      .ok (next, sent)) :
    Both next far inbox (outbox ++ sent) := by
  obtain ⟨hclosing, hsound⟩ := hboth.here.sound.sockets id old hold
  unfold Party.eventFunc at hresult
  split at hresult
  · rename_i hwrite
    obtain ⟨written, hwritten, hrest⟩ := bind_eq_ok.1 hresult
    have hspec := hboth.eventWrite hold hwrite hwritten
    cases written with
    | returned party sent' =>
        simp only [Except.ok.injEq, Prod.mk.injEq] at hrest
        obtain ⟨rfl, rfl⟩ := hrest
        exact hspec
    | goesOn party socket sent' =>
        obtain ⟨hboth', hsocket, hnone, hstate⟩ := hspec
        simp only at hrest
        split at hrest
        · rename_i hread
          obtain ⟨⟨party', sent''⟩, hafter, hrest⟩ := map_eq_ok.1 hrest
          simp only [Prod.mk.injEq] at hrest
          obtain ⟨rfl, rfl⟩ := hrest
          rw [← List.append_assoc]
          exact hboth'.eventRead hsocket (hstate.trans (hsound.events_read hread))
            (by rw [← hnone]) hafter
        · simp only [Except.ok.injEq, Prod.mk.injEq] at hrest
          obtain ⟨rfl, rfl⟩ := hrest
          exact hboth'
  · rename_i hwrite
    split at hresult
    · rename_i hread
      exact hboth.eventRead hold (hsound.events_read hread) rfl hresult
    · rename_i hread
      apply absurd _ hevents
      cases hcases : old.events
      simp_all [Events.none]

/-- `handle_packet`. -/
theorem Both.handlePacket
    {packet : Packet} {found : Bool} {answer : Answer}
    (hboth : Both near far (packet :: inbox) outbox)
    (hresult : near.handlePacket packet found answer = .ok (next, sent)) :
    Both next far inbox (outbox ++ sent) := by
  cases packet with
  | «open» source destination =>
      obtain ⟨hboth, hunknown⟩ := hboth.takeOpen
      simp only [Party.handlePacket] at hresult
      split at hresult
      · simp only [Except.ok.injEq, Prod.mk.injEq] at hresult
        obtain ⟨rfl, rfl⟩ := hresult
        exact hboth.create.accept hboth.unknown_nextId
          ⟨hunknown.socket, hunknown.peer, hunknown.peers, hunknown.addressed, hunknown.opening⟩
          (Function.update_self ..)
      · simp only [Except.ok.injEq, Prod.mk.injEq] at hresult
        obtain ⟨rfl, rfl⟩ := hresult
        exact hboth.refuse hunknown
  | okay source target =>
      simp only [Party.handlePacket] at hresult
      split at hresult
      · rename_i hnone
        simp only [Except.ok.injEq, Prod.mk.injEq] at hresult
        obtain ⟨rfl, rfl⟩ := hresult
        simpa using hboth.drop rfl hnone
      · rename_i socket hsocket
        obtain ⟨-, hsound⟩ := hboth.here.sound.sockets target socket hsocket
        have hremote := hsound.remote
        split at hresult
        · rename_i hnull
          simp only [Except.ok.injEq, Prod.mk.injEq] at hresult
          obtain ⟨rfl, rfl⟩ := hresult
          have hnone : near.peerOf target = none := by
            cases hpeer : near.peerOf target with
            | none => rfl
            | some peer => simp [hpeer, hnull] at hremote
          simpa using hboth.greet hsocket hnone
        · rename_i hnull
          simp only [Except.ok.injEq, Prod.mk.injEq] at hresult
          obtain ⟨rfl, rfl⟩ := hresult
          have hpeer : near.peerOf target = some source := by
            rcases hboth.spoken rfl with hpeer | ⟨hnone, -⟩
            · exact hpeer
            · exact absurd (by simpa [hnone] using hremote) hnull
          simpa using hboth.ready hsocket hpeer
  | clse source target =>
      simp only [Party.handlePacket] at hresult
      split at hresult
      · rename_i hnone
        simp only [Except.ok.injEq, Prod.mk.injEq] at hresult
        obtain ⟨rfl, rfl⟩ := hresult
        simpa using hboth.drop rfl hnone
      · rename_i socket hsocket
        exact hboth.closed hsocket hresult
  | wrte source target data =>
      simp only [Party.handlePacket] at hresult
      split at hresult
      · rename_i hnone
        simp only [Except.ok.injEq, Prod.mk.injEq] at hresult
        obtain ⟨rfl, rfl⟩ := hresult
        simpa using hboth.drop rfl hnone
      · rename_i socket hsocket
        exact hboth.enqueue hsocket hresult

/-! ## Steps and runs -/

/-- Whatever one end does, the invariant holds afterwards. -/
theorem Both.act
    {act : Act} {rest : List Packet} (hboth : Both near far inbox outbox)
    (hact : near.act inbox act = some (.ok (rest, next, sent))) :
    Both next far rest (outbox ++ sent) := by
  cases act with
  | connect destination =>
      simp only [Party.act] at hact
      split at hact
      · simp at hact
      · simp only [Option.some.injEq, Except.ok.injEq, Prod.mk.injEq] at hact
        obtain ⟨rfl, rfl, rfl⟩ := hact
        exact hboth.connect (destination ++ [0])
  | packet found answer =>
      simp only [Party.act] at hact
      split at hact
      · simp at hact
      · obtain ⟨⟨party, packets⟩, hpacket, hact⟩ := map_eq_ok.1 (Option.some.inj hact)
        simp only [Prod.mk.injEq] at hact
        obtain ⟨rfl, rfl, rfl⟩ := hact
        exact hboth.handlePacket hpacket
  | poll id events =>
      simp only [Party.act] at hact
      split at hact
      · rename_i socket _ hsocket
        simp only [Option.some.injEq, Except.ok.injEq, Prod.mk.injEq] at hact
        obtain ⟨rfl, rfl, rfl⟩ := hact
        simpa using hboth.poll hsocket events
      · rename_i socket hnone hsocket
        simp only [Option.some.injEq, Except.ok.injEq, Prod.mk.injEq] at hact
        obtain ⟨rfl, rfl, rfl⟩ := hact
        simpa [Asocket.poll] using hboth.setClosing_sound hsocket _
      · simp at hact
  | callback id closing answer =>
      simp only [Party.act] at hact
      split at hact
      · simp at hact
      · rename_i socket hsocket
        split at hact
        · simp at hact
        · rename_i hevents
          obtain ⟨⟨party, packets⟩, hevent, hact⟩ := map_eq_ok.1 (Option.some.inj hact)
          simp only [Prod.mk.injEq] at hact
          obtain ⟨rfl, rfl, rfl⟩ := hact
          cases closing with
          | false => exact hboth.callback hsocket (fun hnone => hevents (Or.inl hnone)) hevent
          | true => exact hboth.callback_closing hsocket hevent

namespace Connection

def Sound (connection : Connection) : Prop :=
  Both connection.host connection.device connection.toHost connection.toDevice

theorem sound_initial : Sound .initial := by
  have hhalf : Half .initial .initial [] [] := by
    refine ⟨?_, ?_, ?_⟩
    · constructor <;> simp [Party.initial, Party.peerOf, Log.empty]
    · constructor <;> simp [Party.initial, Party.peerOf, Log.empty]
    · simp [Linked, Party.initial, Party.peerOf, Log.empty]
  exact ⟨hhalf, hhalf⟩

theorem Sound.step
    {connection next : Connection} (hsound : connection.Sound) {side : Side} {act : Act}
    (hstep : connection.step side act = some (.ok next)) :
    next.Sound := by
  cases side with
  | host =>
      obtain ⟨outcome, hact, houtcome⟩ := Option.map_eq_some_iff.1 hstep
      obtain ⟨⟨rest, party, sent⟩, rfl, rfl⟩ := map_eq_ok.1 houtcome
      exact Both.act hsound hact
  | device =>
      obtain ⟨outcome, hact, houtcome⟩ := Option.map_eq_some_iff.1 hstep
      obtain ⟨⟨rest, party, sent⟩, rfl, rfl⟩ := map_eq_ok.1 houtcome
      obtain ⟨hthere, hhere⟩ := Both.act ⟨hsound.there, hsound.here⟩ hact
      exact ⟨hhere, hthere⟩

theorem Reachable.sound
    {connection : Connection} (hreachable : connection.Reachable) : connection.Sound := by
  induction hreachable with
  | initial => exact sound_initial
  | step side act _ hstep ih => exact ih.step hstep

end Connection

/-! ## Freed memory -/

theorem drain_eq_nil_iff (pkts : List Bytes) (took : Nat) :
    drain pkts took = [] ↔ pkts.flatten.length ≤ took := by
  induction pkts generalizing took with
  | nil => simp [drain]
  | cons pkt rest ih =>
      unfold drain
      split
      · rw [ih, List.flatten_cons, List.length_append]
        omega
      · simp only [reduceCtorEq, List.flatten_cons, List.length_append, false_iff]
        omega

section Remote

variable {party : Party} {socket : Asocket} {peer : Nat}

theorem localSocketClose_ok
    (hsocket : socket.peer ≠ .freed) (closing : Bool) :
    ∃ result, party.localSocketClose id socket closing = .ok result := by
  unfold Party.localSocketClose
  cases hpeer : socket.peer with
  | null => exact ⟨_, rfl⟩
  | remote peer => exact ⟨_, rfl⟩
  | freed => exact absurd hpeer hsocket

theorem localSocketEnqueue_ok
    (hsocket : socket.peer ≠ .freed) (source : Nat) (data : Bytes) (answer : Answer) :
    ∃ result, party.localSocketEnqueue id socket source data answer = .ok result := by
  unfold Party.localSocketEnqueue
  split
  · exact ⟨_, rfl⟩
  · split
    · exact ⟨_, rfl⟩
    · split
      · exact localSocketClose_ok hsocket false
      · exact ⟨_, rfl⟩

theorem eventWrite_ok
    (hsocket : socket.peer = .remote peer) (closing : Bool) (answer : Answer) :
    (∃ party' sent, party.eventWrite id socket closing answer = .ok (.returned party' sent)) ∨
      ∃ party' socket' sent, party.eventWrite id socket closing answer =
        .ok (.goesOn party' socket' sent) ∧ socket'.peer = .remote peer := by
  unfold Party.eventWrite
  simp only
  split
  · exact Or.inl ⟨_, _, rfl⟩
  · split
    · left
      obtain ⟨result, hresult⟩ :
          ∃ result, (party.gotWritten id (socket.pkts.flatten.take answer.took)).localSocketClose id
            { socket with pkts := drain socket.pkts answer.took } closing = .ok result :=
        localSocketClose_ok (by simp [hsocket]) closing
      exact ⟨result.1, result.2, by rw [hresult]; rfl⟩
    · right
      simp only [hsocket]
      exact ⟨_, _, _, rfl, by simp [Asocket.fdeventDel]⟩

theorem eventRead_ok
    (hsocket : socket.peer = .remote peer) (closing : Bool) (data : Bytes) (eof : Bool) :
    ∃ result, party.eventRead id socket closing data eof = .ok result := by
  unfold Party.eventRead
  simp only [hsocket]
  split
  · split
    · exact localSocketClose_ok (by simp [hsocket]) closing
    · exact ⟨_, rfl⟩
  · split
    · obtain ⟨result, hresult⟩ :
          ∃ result, ((party.gotRead id data).keep id (socket.fdeventDel fdeRead)
            closing).localSocketClose id (socket.fdeventDel fdeRead) closing = .ok result :=
        localSocketClose_ok (by simp [Asocket.fdeventDel, hsocket]) closing
      exact ⟨_, by rw [hresult]; rfl⟩
    · exact ⟨_, rfl⟩

theorem eventFunc_ok
    (hsocket : socket.peer = .remote peer) (closing : Bool) (ev : Events) (answer : FdAnswer) :
    ∃ result, party.eventFunc id socket closing ev answer = .ok result := by
  unfold Party.eventFunc
  split
  · obtain ⟨party', sent, hwrite⟩ | ⟨party', socket', sent, hwrite, hsocket'⟩ :
        (∃ party' sent, party.eventWrite id socket closing answer.write =
          .ok (.returned party' sent)) ∨
        ∃ party' socket' sent, party.eventWrite id socket closing answer.write =
          .ok (.goesOn party' socket' sent) ∧ socket'.peer = .remote peer :=
      eventWrite_ok hsocket closing answer.write
    · exact ⟨_, by rw [hwrite]; rfl⟩
    · rw [hwrite]
      simp only [bind, Except.bind]
      split
      · obtain ⟨result, hresult⟩ :
            ∃ result, party'.eventRead id socket' closing answer.data answer.eof = .ok result :=
          eventRead_ok hsocket' closing answer.data answer.eof
        exact ⟨_, by rw [hresult]; rfl⟩
      · exact ⟨_, rfl⟩
  · split
    · exact eventRead_ok hsocket closing answer.data answer.eof
    · exact ⟨_, rfl⟩

end Remote

/-- What brings `local_socket_event_func` to the end of a socket that is closing: its last
packet is written, the file descriptor fails, or there was a read event from before. -/
def endsClosing (ev : Events) (pkts : List Bytes) (answer : FdAnswer) : Prop :=
  if ev.write then pkts.flatten.length ≤ answer.write.took ∨ answer.write.failed = true
  else ev.read = true ∧ (answer.data ≠ [] ∨ answer.eof = true)

/-- The memory of the peer is used once the socket comes to its end. -/
theorem eventFunc_closing
    {party : Party} {socket : Asocket} (hsocket : socket.peer = .freed)
    (ev : Events) (answer : FdAnswer) (stuck : Stuck) :
    party.eventFunc id socket true ev answer = .error stuck ↔
      stuck = .freedMemory ∧ endsClosing ev socket.pkts answer := by
  unfold Party.eventFunc endsClosing
  by_cases hwrite : ev.write = true
  · simp only [hwrite, if_true, Party.eventWrite, ← drain_eq_nil_iff]
    by_cases hleft : drain socket.pkts answer.write.took = []
    · simp [hleft, Written.ofReply, Party.localSocketClose, hsocket, Except.map, bind, Except.bind]
      exact eq_comm
    · cases hfailed : answer.write.failed with
      | true =>
          simp [hleft, Written.ofReply, Party.localSocketClose, hsocket, Except.map, bind,
            Except.bind]
          exact eq_comm
      | false => simp [hleft, bind, Except.bind]
  · by_cases hread : ev.read = true
    · simp only [hwrite, hread, if_false, if_true, Bool.false_eq_true, Party.eventRead]
      by_cases hdata : answer.data = []
      · cases heof : answer.eof with
        | true =>
            simp [hdata, Party.localSocketClose, hsocket]
            exact eq_comm
        | false => simp [hdata]
      · simp [hdata, hsocket]
        exact eq_comm
    · simp [hwrite, hread]

/-- Nothing but a socket that is closing and comes to its end uses freed memory. -/
theorem Both.act_error_iff
    {act : Act} {stuck : Stuck} (hboth : Both near far inbox outbox) :
    near.act inbox act = some (.error stuck) ↔
      stuck = .freedMemory ∧ ∃ id answer socket, act = .callback id true answer ∧
        near.closing id = some socket ∧ socket.events ≠ .none ∧
        answer.data.length ≤ maxPayload ∧ endsClosing socket.events socket.pkts answer := by
  have hopen : ∀ id socket, near.sockets id = some socket → socket.peer ≠ .freed := by
    intro id socket hsocket
    rw [(hboth.here.sound.sockets id socket hsocket).2.remote]
    cases near.peerOf id <;> simp
  cases act with
  | connect destination =>
      simp only [Party.act]
      split <;> simp
  | poll id events =>
      simp only [Party.act]
      split <;> simp
  | packet found answer =>
      suffices hok : ∀ packet, packet ∈ inbox →
          ∃ result, near.handlePacket packet found answer = .ok result by
        cases inbox with
        | nil => simp [Party.act]
        | cons packet rest =>
            obtain ⟨result, hresult⟩ := hok packet (by simp)
            simp [Party.act, hresult, Except.map]
      intro packet _
      cases packet with
      | «open» source destination =>
          simp only [Party.handlePacket]
          split <;> exact ⟨_, rfl⟩
      | okay source target =>
          simp only [Party.handlePacket]
          split
          · exact ⟨_, rfl⟩
          · split <;> exact ⟨_, rfl⟩
      | clse source target =>
          simp only [Party.handlePacket]
          split
          · exact ⟨_, rfl⟩
          · rename_i socket hsocket
            exact localSocketClose_ok (hopen target socket hsocket) false
      | wrte source target data =>
          simp only [Party.handlePacket]
          split
          · exact ⟨_, rfl⟩
          · rename_i socket hsocket
            exact localSocketEnqueue_ok (hopen target socket hsocket) source data answer
  | callback id closing answer =>
      cases closing with
      | false =>
          simp only [Party.act, Bool.false_eq_true, if_false, Act.callback.injEq, false_and,
            and_false, exists_false, iff_false]
          split
          · simp
          · rename_i socket hsocket
            split
            · simp
            · rename_i hevents
              obtain ⟨-, hsound⟩ := hboth.here.sound.sockets id socket hsocket
              obtain ⟨peer, hpeer⟩ : ∃ peer, near.peerOf id = some peer := by
                apply Option.ne_none_iff_exists'.1
                intro hnone
                apply hevents
                left
                obtain ⟨hread, hpkts⟩ := hsound.idle hnone
                have hread' := hsound.events_read
                have hwrite' := hsound.events_write
                have hwrite := hsound.write
                cases hcases : socket.events
                simp_all [Events.none]
              have hremote : Asocket.peer { socket with events := .none } = .remote peer := by
                rw [hsound.remote, hpeer]
                rfl
              obtain ⟨result, hresult⟩ : ∃ result,
                  near.eventFunc id { socket with events := .none } false socket.events answer =
                    .ok result := eventFunc_ok hremote false socket.events answer
              simp [hresult, Except.map]
      | true =>
          simp only [Party.act, if_true]
          constructor
          · intro hact
            split at hact
            · simp at hact
            · rename_i socket hsocket
              obtain ⟨-, hleaving⟩ := hboth.here.sound.closing id socket hsocket
              have hfreed : Asocket.peer { socket with events := .none } = .freed :=
                hleaving.freed
              split at hact
              · simp at hact
              · rename_i hevents
                rcases hcases : near.eventFunc id { socket with events := .none } true
                    socket.events answer with failure | result
                · obtain rfl : failure = stuck := by simpa [hcases, Except.map] using hact
                  obtain ⟨rfl, hends⟩ := (eventFunc_closing hfreed _ _ _).1 hcases
                  exact ⟨rfl, id, answer, socket, rfl, hsocket,
                    fun hnone => hevents (Or.inl hnone),
                    Nat.not_lt.1 fun hlt => hevents (Or.inr hlt), hends⟩
                · simp [hcases, Except.map] at hact
          · rintro ⟨rfl, id', answer', socket, hact, hsocket, hevents, hdata, hends⟩
            obtain ⟨rfl, -, rfl⟩ := Act.callback.inj hact
            obtain ⟨-, hleaving⟩ := hboth.here.sound.closing id socket hsocket
            have hfreed : Asocket.peer { socket with events := .none } = .freed := hleaving.freed
            rw [hsocket]
            simp only
            rw [if_neg (by simp [hevents, hdata]),
              (eventFunc_closing hfreed socket.events answer .freedMemory).2 ⟨rfl, hends⟩]
            rfl

end OpenRecovery.Adb
