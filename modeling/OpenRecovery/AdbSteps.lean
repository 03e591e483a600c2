import OpenRecovery.AdbStreams
import OpenRecovery.FallibleRuns
import Mathlib

/-!
# Steps of one socket

Every step of a socket that has its peer takes at most one packet for it from the inbox,
and sends at most one packet to the peer.  Of all streams, only its own one is concerned.
-/

namespace OpenRecovery.Adb

open StopAndWait

variable {near far after : Party} {taken inbox outbox : List Packet} {id peer : Nat}

theorem Stream.frame
    {near' far' : Party} {inbox' outbox' : List Packet} {x y : Nat}
    (hstream : Stream near far inbox outbox x y)
    (hsocket : near'.sockets x = near.sockets x) (hclosing : near'.closing x = near.closing x)
    (hlog : near'.logs x = near.logs x) (hsender : far'.sockets y = far.sockets y)
    (hsent : (far'.logs y).read = (far.logs y).read)
    (hmessages : messages inbox' y x = messages inbox y x)
    (hreadies : readies outbox' x y = readies outbox x y) :
    Stream near' far' inbox' outbox' x y where
  running := by
    rw [hsocket, hlog, hsender, hsent, hmessages, hreadies]
    exact hstream.running
  ended := by
    rw [hsocket, hlog, hsent, Party.unwritten, hclosing]
    exact hstream.ended

/-- The packets of the inbox that a step takes. -/
inductive Takes (id : Nat) : List Packet → List Packet → Prop
  | nothing (inbox : List Packet) : Takes id inbox inbox
  | packet {packet : Packet} (inbox : List Packet) (htarget : packet.target = some id) :
      Takes id (packet :: inbox) inbox

/-- The packets that a socket sends to its peer in a step. -/
inductive Sends (after : Party) (id peer : Nat) : List Packet → Prop
  | nothing : Sends after id peer []
  | okay : Sends after id peer [.okay id peer]
  | wrte (data : Bytes) : Sends after id peer [.wrte id peer data]
  | clse (hclosed : after.sockets id = none) : Sends after id peer [.clse 0 peer]

theorem Takes.ends
    (htakes : Takes id taken inbox) {x y : Nat} (hother : x ≠ id) :
    messages taken y x = messages inbox y x ∧ readies taken y x = readies inbox y x := by
  cases htakes with
  | nothing => exact ⟨rfl, rfl⟩
  | @packet packet _ htarget =>
      have hends : packet.ends ≠ some (y, x) := by
        intro hends
        cases packet <;> simp_all [Packet.ends, Packet.target]
      exact ⟨messages_cons_of_ne hends, readies_cons_of_ne hends⟩

theorem Sends.ends
    {sent : List Packet} (hsends : Sends after id peer sent) {x y : Nat} (hother : x ≠ id) :
    messages sent x y = [] ∧ readies sent x y = 0 := by
  have hpackets : ∀ packet ∈ sent, packet.ends ≠ some (x, y) := by
    intro packet hmem hends
    cases hsends <;> simp_all [Packet.ends]
  exact ⟨messages_eq_nil hpackets, readies_eq_zero hpackets⟩

theorem Mail.takes
    (hmail : Mail near far taken outbox) (htakes : Takes id taken inbox)
    (hsettled : ∀ y, far.peerOf y = some id → near.peerOf id ≠ none) :
    Mail near far inbox outbox := by
  cases htakes with
  | nothing => exact hmail
  | packet _ htarget =>
      apply hmail.pop
      intro x hx y hfar
      obtain rfl : id = x := by simpa [htarget] using hx
      exact hsettled y hfar

theorem Mail.takesBack
    (hmail : Mail far near outbox taken) (htakes : Takes id taken inbox) :
    Mail far near outbox inbox := by
  cases htakes with
  | nothing => exact hmail
  | packet => exact hmail.popBack

theorem Mail.sends
    {sent : List Packet} (hmail : Mail far after outbox inbox)
    (hsends : Sends after id peer sent) (hpeer : after.peerOf id = some peer)
    (hlast : ∀ source, .clse source peer ∉ outbox)
    (hopening : ∀ destination, .open peer destination ∉ inbox) :
    Mail far after (outbox ++ sent) inbox := by
  cases hsends with
  | nothing => simpa using hmail
  | clse hclosed =>
      refine hmail.push rfl (by simp [Packet.ends]) ?_ (by simpa [Packet.target] using hlast)
      rintro x source hclse
      obtain ⟨-, rfl⟩ := Packet.clse.inj hclse
      refine ⟨hmail.known _ _ hpeer, fun y hlinked => ?_, hopening⟩
      rwa [hmail.link_unique hlinked (Or.inr hpeer)]
  | _ =>
      refine hmail.push rfl ?_ (by simp) (by simpa [Packet.target] using hlast)
      intro x y hends
      obtain ⟨rfl, rfl⟩ : _ ∧ _ := by simpa [Packet.ends] using hends
      exact hpeer

theorem Mail.sendsBack
    {sent : List Packet} (hmail : Mail after far inbox outbox)
    (hsends : Sends after id peer sent)
    (hopening : ∀ destination, .open peer destination ∉ inbox) :
    Mail after far inbox (outbox ++ sent) := by
  cases hsends with
  | nothing => simpa using hmail
  | _ => exact hmail.pushBack rfl (by simpa [Packet.target] using hopening)

/-- A step of a socket that has its peer. -/
theorem Both.changes
    {sent : List Packet} (hboth : Both near far taken outbox)
    (hchanges : Party.Changes id near after) (htakes : Takes id taken inbox)
    (hsends : Sends after id peer sent) (hpeer : near.peerOf id = some peer)
    (hopen : sent ≠ [] → near.sockets id ≠ none)
    (hsound : after.Sound)
    (hhere : Stream after far inbox (outbox ++ sent) id peer)
    (hthere : Stream far after (outbox ++ sent) inbox peer id) :
    Both after far inbox (outbox ++ sent) := by
  have hlinked : Linked near far id peer := Or.inl hpeer
  have hsettled : ∀ y, far.peerOf y = some id → near.peerOf id ≠ none := by
    simp [hpeer]
  have hopening : ∀ destination, .open id destination ∉ outbox := by
    intro destination hmem
    have := (hboth.there.mail.opening _ _ hmem).2.1
    simp [hpeer] at this
  have hopening' : ∀ destination, .open peer destination ∉ inbox := by
    intro destination hmem
    have hmem' : Packet.open peer destination ∈ taken := by
      cases htakes with
      | nothing => exact hmem
      | packet => exact List.mem_cons_of_mem _ hmem
    exact (hboth.here.mail.opening _ _ hmem').2.2.1 id hpeer
  have hmail := (hboth.here.mail.takes htakes hsettled).changes hchanges hsettled
  have hmail' := (hboth.there.mail.takesBack htakes).changesBack hchanges hopening
  have hpeer' : after.peerOf id = some peer := by rw [hchanges.peer, hpeer]
  have hlast : sent ≠ [] → ∀ source, .clse source peer ∉ outbox := by
    intro hsent source hmem
    exact hopen hsent ((hboth.there.mail.clse _ _ hmem).2.1 id hlinked.symm)
  constructor
  · refine ⟨hsound, hmail.sendsBack hsends hopening', ?_⟩
    intro x y hxy
    have hxy' : Linked near far x y := by rwa [Linked, hchanges.peerOf] at hxy
    by_cases hx : x = id
    · subst hx
      rwa [hboth.here.mail.link_unique hxy' hlinked]
    · obtain ⟨hsocket, hclosing, hlog⟩ := hchanges.others x hx
      refine (hboth.here.streams x y hxy').frame hsocket hclosing hlog rfl rfl
        (htakes.ends hx).1.symm ?_
      rw [readies_append, (hsends.ends hx).2, Nat.add_zero]
  · refine ⟨hboth.there.sound, ?_, ?_⟩
    · by_cases hsent : sent = []
      · simpa [hsent] using hmail'
      · exact hmail'.sends hsends hpeer' (hlast hsent) hopening'
    · intro y x hyx
      have hxy' : Linked near far x y := by
        rw [Linked, hchanges.peerOf] at hyx
        exact Linked.symm hyx
      by_cases hx : x = id
      · subst hx
        rwa [hboth.here.mail.link_unique hxy' hlinked]
      · obtain ⟨hsocket, -, hlog⟩ := hchanges.others x hx
        refine (hboth.there.streams y x hxy'.symm).frame rfl rfl rfl hsocket
          (congrArg Log.read hlog) ?_
          (htakes.ends hx).2.symm
        rw [messages_append, (hsends.ends hx).1, List.append_nil]

/-- A step of a socket that has no peer and is not spoken to. -/
theorem Both.changes_unlinked
    (hboth : Both near far taken outbox)
    (hchanges : Party.Changes id near after) (htakes : Takes id taken inbox)
    (hsettled : ∀ y, ¬ Linked near far id y)
    (hopening : ∀ destination, .open id destination ∉ outbox)
    (hsound : after.Sound) :
    Both after far inbox outbox := by
  have hsettled' : ∀ y, far.peerOf y = some id → near.peerOf id ≠ none :=
    fun y hfar => absurd (Or.inr hfar) (hsettled y)
  constructor
  · refine ⟨hsound, (hboth.here.mail.takes htakes hsettled').changes hchanges hsettled', ?_⟩
    intro x y hxy
    have hxy' : Linked near far x y := by rwa [Linked, hchanges.peerOf] at hxy
    have hx : x ≠ id := by
      rintro rfl
      exact hsettled y hxy'
    obtain ⟨hsocket, hclosing, hlog⟩ := hchanges.others x hx
    exact (hboth.here.streams x y hxy').frame hsocket hclosing hlog rfl rfl
      (htakes.ends hx).1.symm rfl
  · refine ⟨hboth.there.sound,
      (hboth.there.mail.takesBack htakes).changesBack hchanges hopening, ?_⟩
    intro y x hyx
    have hxy' : Linked near far x y := by
      rw [Linked, hchanges.peerOf] at hyx
      exact Linked.symm hyx
    have hx : x ≠ id := by
      rintro rfl
      exact hsettled y hxy'
    obtain ⟨hsocket, -, hlog⟩ := hchanges.others x hx
    exact (hboth.there.streams y x hxy'.symm).frame rfl rfl rfl hsocket
      (congrArg Log.read hlog) rfl
      (htakes.ends hx).2.symm

/-! ## Events of a socket -/

namespace Asocket

variable (socket : Asocket) (events : Events)

@[simp] theorem fdeventSet_peer : (socket.fdeventSet events).peer = socket.peer := by
  unfold fdeventSet
  split <;> rfl

@[simp] theorem fdeventSet_pkts : (socket.fdeventSet events).pkts = socket.pkts := by
  unfold fdeventSet
  split <;> rfl

@[simp] theorem fdeventSet_state : (socket.fdeventSet events).state = events := by
  unfold fdeventSet
  split
  · assumption
  · rfl

variable {socket events}

theorem events_read_of_fdeventSet
    (hread : (socket.fdeventSet events).events.read = true) : socket.events.read = true := by
  unfold fdeventSet at hread
  split at hread
  · exact hread
  · simp only [Events.without, Bool.and_eq_true] at hread
    exact hread.1

theorem events_write_of_fdeventSet
    (hwrite : (socket.fdeventSet events).events.write = true) : socket.events.write = true := by
  unfold fdeventSet at hwrite
  split at hwrite
  · exact hwrite
  · simp only [Events.without, Bool.and_eq_true] at hwrite
    exact hwrite.1

@[simp] theorem fdeventSet_none
    (hnone : socket.events = .none) : (socket.fdeventSet events).events = .none := by
  unfold fdeventSet
  split
  · exact hnone
  · simp [hnone, Events.without, Events.none]

/-- The read interest of a socket that has its peer. -/
theorem Sound.fdeventAdd_read
    {peer : Option Nat} (hsound : socket.Sound peer) (hpeer : peer ≠ none) :
    (socket.fdeventAdd fdeRead).Sound peer where
  remote := by
    rw [fdeventAdd, fdeventSet_peer]
    exact hsound.remote
  write := by
    simp only [fdeventAdd, fdeventSet_state, fdeventSet_pkts, Events.union, fdeRead, Bool.or_false]
    exact hsound.write
  events_read := by
    simp [fdeventAdd, Events.union, fdeRead]
  events_write := by
    intro hwrite
    have := hsound.events_write (events_write_of_fdeventSet hwrite)
    simp [fdeventAdd, Events.union, this]
  idle := fun hnone => absurd hnone hpeer

end Asocket

/-! ## Packets for a socket -/

/-- The packets of a stream reach a socket that knows its peer, but for the first one. -/
theorem Both.spoken
    {packet : Packet} (hboth : Both near far (packet :: inbox) outbox)
    (hends : packet.ends = some (peer, id)) :
    near.peerOf id = some peer ∨
      near.peerOf id = none ∧ far.peerOf peer = some id ∧ packet = .okay peer id := by
  have hfar := hboth.here.mail.ends packet (by simp) id peer hends
  rcases hboth.here.mail.paired id peer hfar with hnone | hsome
  · right
    obtain ⟨-, rest, hrest⟩ := hboth.here.mail.greeting id peer hfar hnone
    have htarget : packet.target = some id := by
      cases packet <;> simp_all [Packet.ends, Packet.target]
    simp only [addressed, List.filter_cons, htarget, decide_true, if_true, List.cons.injEq] at hrest
    exact ⟨hnone, hfar, hrest.1⟩
  · exact Or.inl hsome

/-- An acknowledgement was received. -/
theorem Stream.acknowledged
    (hstream : Stream far near outbox (.okay peer id :: inbox) peer id)
    (hlog : (after.logs id).read = (near.logs id).read)
    (hready : ∀ socket, after.sockets id = some socket → socket.state.read = true) :
    Stream far after outbox inbox peer id where
  running := by
    intro socket hsocket
    obtain ⟨ready, -, hflow⟩ := hstream.running socket hsocket
    rw [readies_okay] at hflow
    rw [hlog]
    exact ⟨true, hready, hflow.acknowledge⟩
  ended := by
    rw [hlog]
    exact hstream.ended

/-- Packets for a socket that does not exist are dropped. -/
theorem Both.drop
    {packet : Packet} (hboth : Both near far (packet :: inbox) outbox)
    (htarget : packet.target = some id) (hnone : near.sockets id = none) :
    Both near far inbox outbox := by
  cases hpeer : near.peerOf id with
  | none =>
      refine hboth.changes_unlinked .refl (.packet inbox htarget) ?_ ?_ hboth.here.sound
      · intro y hlinked
        rcases hlinked with hnear | hfar
        · simp [hpeer] at hnear
        · exact (hboth.here.mail.greeting id y hfar hpeer).1 hnone
      · intro destination hmem
        exact (hboth.there.mail.opening id destination hmem).1 hnone
  | some peer =>
      have hhere := hboth.here.streams id peer (Or.inl hpeer)
      have hthere := hboth.there.streams peer id (Or.inr hpeer)
      have hresult := hboth.changes .refl (.packet inbox htarget) .nothing hpeer (by simp)
        hboth.here.sound ⟨by simp [hnone], by simpa using hhere.ended⟩
      rw [List.append_nil] at hresult
      apply hresult
      by_cases hokay : packet = .okay peer id
      · subst hokay
        exact hthere.acknowledged rfl (by simp [hnone])
      · refine hthere.frame rfl rfl rfl rfl rfl rfl ?_
        rw [readies, readies, List.count_cons_of_ne hokay]

/-- The socket at the other end goes on as before with what it sends. -/
theorem Stream.sender
    {taken' outbox' : List Packet} {old socket : Asocket}
    (hstream : Stream far near outbox taken peer id)
    (hold : near.sockets id = some old) (hsocket : after.sockets id = some socket)
    (hread : socket.state.read = old.state.read)
    (hlog : (after.logs id).read = (near.logs id).read)
    (hmessages : messages outbox' id peer = messages outbox id peer)
    (hreadies : readies taken' peer id = readies taken peer id) :
    Stream far after outbox' taken' peer id where
  running := by
    intro receiver hreceiver
    obtain ⟨ready, hready, hflow⟩ := hstream.running receiver hreceiver
    rw [hlog, hmessages, hreadies]
    refine ⟨ready, ?_, hflow⟩
    intro sender hsender
    obtain rfl : socket = sender := by simpa [hsocket] using hsender
    rw [hread]
    exact hready old hold
  ended := by
    rw [hlog]
    exact hstream.ended

/-- A step after which the socket is still open. -/
theorem Both.stays
    {sent : List Packet} {socket : Asocket} (hboth : Both near far taken outbox)
    (hpeer : near.peerOf id = some peer) (hopen : near.sockets id ≠ none)
    (hchanges : Party.Changes id near after) (htakes : Takes id taken inbox)
    (hsends : Sends after id peer sent)
    (hsocket : after.sockets id = some socket) (hclosing : after.closing id = none)
    (hsound : socket.Sound (some peer))
    (hhere : ∃ ready,
      (∀ sender, far.sockets peer = some sender → sender.state.read = ready) ∧
        Flow ready (messages inbox peer id) socket.pkts (readies (outbox ++ sent) id peer)
          (far.logs peer).read (after.logs id).written)
    (hthere : Stream far after (outbox ++ sent) inbox peer id) :
    Both after far inbox (outbox ++ sent) := by
  refine hboth.changes hchanges htakes hsends hpeer (fun _ => hopen) ?_ ?_ hthere
  · apply hboth.here.sound.changes hchanges
      (hboth.here.sound.lt_nextId (Or.inr (by simp [hpeer])))
    · intro new hnew
      obtain rfl : socket = new := by simpa [hsocket] using hnew
      rw [hpeer]
      exact ⟨hclosing, hsound⟩
    · simp [hclosing]
    · simp [hpeer]
  · refine ⟨?_, by simp [hsocket]⟩
    intro new hnew
    obtain rfl : socket = new := by simpa [hsocket] using hnew
    exact hhere

/-- `A_OKAY` for a socket that has its peer. -/
theorem Both.ready
    {socket : Asocket} (hboth : Both near far (.okay peer id :: inbox) outbox)
    (hsocket : near.sockets id = some socket) (hpeer : near.peerOf id = some peer) :
    Both (near.setSocket id (socket.fdeventAdd fdeRead)) far inbox outbox := by
  have hhere := hboth.here.streams id peer (Or.inl hpeer)
  have hthere := hboth.there.streams peer id (Or.inr hpeer)
  obtain ⟨hclosing, hsound⟩ := hboth.here.sound.sockets id socket hsocket
  have hchanges := Party.Changes.setSocket hsocket (socket.fdeventAdd fdeRead)
  have hresult := hboth.stays hpeer (by simp [hsocket]) hchanges (.packet inbox rfl) .nothing
    (by simp) hclosing
    (hpeer ▸ hsound.fdeventAdd_read (by simp [hpeer]))
  rw [List.append_nil] at hresult
  apply hresult
  · simpa [Asocket.fdeventAdd] using hhere.running socket hsocket
  · refine hthere.acknowledged rfl ?_
    intro new hnew
    obtain rfl : socket.fdeventAdd fdeRead = new := by simpa using hnew
    simp [Asocket.fdeventAdd, Events.union, fdeRead]

/-! ## Closing -/

theorem leave_sockets
    (party : Party) (socket : Asocket) (closing : Bool) :
    (party.leave id socket closing).sockets id = none := by
  unfold Party.leave
  split <;> simp

theorem leave_closing
    (party : Party) (socket : Asocket) :
    (party.leave id socket false).closing id =
      if socket.pkts = [] then none else some (socket.fdeventDel fdeRead) := by
  unfold Party.leave
  by_cases hempty : socket.pkts = []
  · simp [hempty]
  · simp [hempty]

theorem leave_logs
    (party : Party) (socket : Asocket) (closing : Bool) :
    (party.leave id socket closing).logs = party.logs := by
  unfold Party.leave
  split <;> rfl

theorem Party.Changes.leave
    (party : Party) (socket : Asocket) (closing : Bool) :
    Changes id party (party.leave id socket closing) := by
  unfold Party.leave
  split
  · exact .destroy
  · exact Changes.destroy.trans (.setClosing _)

theorem unwritten_leave
    (party : Party) (socket : Asocket) :
    (party.leave id socket false).unwritten id = socket.pkts.flatten := by
  rw [Party.unwritten, leave_closing]
  split
  · simp [*]
  · simp [Asocket.fdeventDel]

/-- A socket is closed; `party` is the state of its end right before that. -/
theorem Both.close
    {party next : Party} {socket : Asocket} {sent : List Packet}
    (hboth : Both near far taken outbox) (htakes : Takes id taken inbox)
    (hreadies : readies inbox peer id = readies taken peer id)
    (hpeer : near.peerOf id = some peer) (hopen : near.sockets id ≠ none)
    (hchanges : Party.Changes id near party)
    (hlog : (party.logs id).read = (near.logs id).read)
    (hremote : socket.peer = .remote peer)
    (hwritten : (party.logs id).written ++ socket.pkts.flatten <+: (far.logs peer).read)
    (hresult : party.localSocketClose id socket false = .ok (next, sent)) :
    Both next far inbox (outbox ++ sent) := by
  simp only [Party.localSocketClose, hremote, Except.ok.injEq, Prod.mk.injEq] at hresult
  obtain ⟨rfl, rfl⟩ := hresult
  have hthere := hboth.there.streams peer id (Or.inr hpeer)
  have hafter := hchanges.trans (.leave party { socket with peer := .freed } false)
  have hnone : (party.leave id { socket with peer := .freed } false).sockets id = none :=
    leave_sockets ..
  refine hboth.changes hafter htakes (.clse hnone) hpeer (fun _ => hopen) ?_ ?_ ?_
  · apply hboth.here.sound.changes hafter
      (hboth.here.sound.lt_nextId (Or.inr (by simp [hpeer])))
    · simp [hnone]
    · intro leaving hleaving
      rw [leave_closing] at hleaving
      split at hleaving
      · simp at hleaving
      · rename_i hpkts
        obtain rfl := Option.some.inj hleaving
        exact ⟨hnone, by simp [Asocket.fdeventDel], by simpa [Asocket.fdeventDel] using hpkts,
          by simp [hpeer]⟩
    · simp [hpeer]
  · refine ⟨by simp [hnone], fun _ => ?_⟩
    rw [leave_logs, unwritten_leave]
    exact hwritten
  · constructor
    · intro receiver hreceiver
      obtain ⟨ready, -, hflow⟩ := hthere.running receiver hreceiver
      refine ⟨ready, by simp [hnone], ?_⟩
      rw [leave_logs, hlog, hreadies, messages_append,
        messages_singleton_of_ne (by simp [Packet.ends]), List.append_nil]
      exact hflow
    · rw [leave_logs, hlog]
      exact hthere.ended

/-- `A_CLSE`. -/
theorem Both.closed
    {source : Nat} {socket : Asocket} {next : Party} {sent : List Packet}
    (hboth : Both near far (.clse source id :: inbox) outbox)
    (hsocket : near.sockets id = some socket)
    (hresult : near.localSocketClose id socket false = .ok (next, sent)) :
    Both next far inbox (outbox ++ sent) := by
  obtain ⟨hclosing, hsound⟩ := hboth.here.sound.sockets id socket hsocket
  cases hpeer : near.peerOf id with
  | none =>
      have hnull : socket.peer = .null := by rw [hsound.remote, hpeer]; rfl
      simp only [Party.localSocketClose, hnull, Except.ok.injEq, Prod.mk.injEq] at hresult
      obtain ⟨rfl, rfl⟩ := hresult
      have hchanges : Party.Changes id near (near.leave id socket false) := .leave ..
      rw [List.append_nil]
      refine hboth.changes_unlinked hchanges (.packet inbox rfl) ?_ ?_ ?_
      · intro y hlinked
        rcases hlinked with hnear | hfar
        · simp [hpeer] at hnear
        · obtain ⟨-, rest, hrest⟩ := hboth.here.mail.greeting id y hfar hpeer
          simp [addressed, Packet.target] at hrest
      · exact (hboth.here.mail.clse id source (by simp)).2.2
      · apply hboth.here.sound.changes hchanges
          (hboth.here.sound.lt_nextId (Or.inl (by simp [hsocket])))
        · simp [leave_sockets]
        · simp [leave_closing, (hsound.idle hpeer).2]
        · rw [leave_logs]
          exact hboth.here.sound.silent id
  | some peer =>
      obtain ⟨ready, -, hflow⟩ :=
        (hboth.here.streams id peer (Or.inl hpeer)).running socket hsocket
      refine hboth.close (.packet inbox rfl) ?_ hpeer (by simp [hsocket]) .refl rfl ?_
        hflow.written_prefix hresult
      · rw [readies_cons_of_ne (by simp [Packet.ends])]
      · rw [hsound.remote, hpeer]
        rfl

/-! ## Data -/

theorem Asocket.Sound.quiet
    {socket : Asocket} (hremote : socket.peer = .remote peer)
    (hwrite : socket.state.write = true ↔ socket.pkts ≠ []) (hevents : socket.events = .none) :
    socket.Sound (some peer) where
  remote := hremote
  write := hwrite
  events_read := by simp [hevents, Events.none]
  events_write := by simp [hevents, Events.none]
  idle := by simp

theorem Asocket.Sound.enqueue
    {socket : Asocket} (hsound : socket.Sound (some peer)) {pkts : List Bytes}
    (hpkts : pkts ≠ []) :
    Asocket.Sound { socket.fdeventAdd fdeWrite with pkts := pkts } (some peer) where
  remote := by
    rw [fdeventAdd, fdeventSet_peer]
    exact hsound.remote
  write := by
    simp [fdeventAdd, Events.union, fdeWrite, hpkts]
  events_read := by
    intro hread
    have := hsound.events_read (events_read_of_fdeventSet hread)
    simp [fdeventAdd, Events.union, this]
  events_write := by
    simp [fdeventAdd, Events.union, fdeWrite]
  idle := by simp

/-- `A_WRTE`. -/
theorem Both.enqueue
    {socket : Asocket} {data : Bytes} {answer : Answer} {next : Party} {sent : List Packet}
    (hboth : Both near far (.wrte peer id data :: inbox) outbox)
    (hsocket : near.sockets id = some socket)
    (hresult : near.localSocketEnqueue id socket peer data answer = .ok (next, sent)) :
    Both next far inbox (outbox ++ sent) := by
  have hpeer : near.peerOf id = some peer := by
    rcases hboth.spoken rfl with hpeer | ⟨-, -, hokay⟩
    · exact hpeer
    · simp at hokay
  obtain ⟨hclosing, hsound⟩ := hboth.here.sound.sockets id socket hsocket
  rw [hpeer] at hsound
  have hthere := hboth.there.streams peer id (Or.inr hpeer)
  obtain ⟨ready, hready, hflow⟩ :=
    (hboth.here.streams id peer (Or.inl hpeer)).running socket hsocket
  rw [messages_wrte] at hflow
  obtain ⟨-, -, hpkts, -, hread⟩ := hflow.receive
  have hreadies : readies inbox peer id = readies (.wrte peer id data :: inbox) peer id :=
    (readies_wrte data).symm
  unfold Party.localSocketEnqueue at hresult
  rw [if_neg (by simp [hpkts])] at hresult
  split at hresult
  · simp only [Except.ok.injEq, Prod.mk.injEq] at hresult
    obtain ⟨rfl, rfl⟩ := hresult
    refine hboth.stays hpeer (by simp [hsocket]) (.gotWritten data) (.packet inbox rfl) .okay
      (by simpa using hsocket) hclosing hsound ?_ ?_
    · refine ⟨ready, hready, ?_⟩
      simpa using hflow.write_all
    · exact hthere.sender hsocket (by simpa using hsocket) rfl (by simp) (by simp) hreadies
  · split at hresult
    · -- the rest of the packet is lost, together with the socket
      refine hboth.close (.packet inbox rfl) hreadies hpeer (by simp [hsocket])
        (.gotWritten _) (by simp) hsound.remote ?_ hresult
      simp only [Party.gotWritten_logs, Function.update_self, hpkts, List.flatten_nil,
        List.append_nil, hread]
      exact (List.prefix_append_right_inj _).2 (List.take_prefix _ _)
    · simp only [Except.ok.injEq, Prod.mk.injEq] at hresult
      obtain ⟨rfl, rfl⟩ := hresult
      have hchanges := (Party.Changes.gotWritten (data.take answer.took)).trans
        (.setSocket (by simpa using hsocket)
          { socket.fdeventAdd fdeWrite with pkts := [data.drop answer.took] })
      refine hboth.stays hpeer (by simp [hsocket]) hchanges (.packet inbox rfl) .nothing
        (Function.update_self ..) hclosing
        (hsound.enqueue (List.cons_ne_nil (data.drop answer.took) [])) ?_ ?_
      · refine ⟨ready, hready, ?_⟩
        simpa using hflow.write_some answer.took
      · exact hthere.sender hsocket (Function.update_self ..)
          (by simp [Asocket.fdeventAdd, Events.union, fdeWrite]) (by simp) (by simp) hreadies

/-- What was written and what is left are the packets. -/
theorem drain_flatten (pkts : List Bytes) (took : Nat) :
    pkts.flatten.take took ++ (drain pkts took).flatten = pkts.flatten := by
  induction pkts generalizing took with
  | nil => simp [drain]
  | cons pkt rest ih =>
      unfold drain
      split
      · rename_i hle
        rw [List.flatten_cons, List.take_append, List.take_of_length_le hle, List.append_assoc, ih]
      · rename_i hle
        rw [List.flatten_cons, List.flatten_cons, List.take_append,
          Nat.sub_eq_zero_of_le (by omega), List.take_zero, List.append_nil, ← List.append_assoc,
          List.take_append_drop]

/-- The half of `local_socket_event_func` for `FDE_WRITE`. -/
theorem Both.eventWrite
    {old : Asocket} {answer : Answer} {written : Written}
    (hboth : Both near far inbox outbox) (hold : near.sockets id = some old)
    (hevent : old.events.write = true)
    (hresult : near.eventWrite id { old with events := .none } false answer = .ok written) :
    match written with
    | .returned party sent => Both party far inbox (outbox ++ sent)
    | .goesOn party socket sent =>
        Both party far inbox (outbox ++ sent) ∧ party.sockets id = some socket ∧
          socket.events = .none ∧ socket.state.read = old.state.read := by
  obtain ⟨hclosing, hsound⟩ := hboth.here.sound.sockets id old hold
  have hpkts := hsound.write.1 (hsound.events_write hevent)
  obtain ⟨peer, hpeer⟩ : ∃ peer, near.peerOf id = some peer :=
    Option.ne_none_iff_exists'.1 fun hnone => hpkts (hsound.idle hnone).2
  rw [hpeer] at hsound
  have hremote : old.peer = .remote peer := hsound.remote
  have hhere := hboth.here.streams id peer (Or.inl hpeer)
  have hthere := hboth.there.streams peer id (Or.inr hpeer)
  obtain ⟨ready, hready, hflow⟩ := hhere.running old hold
  obtain ⟨message, hmessage⟩ : ∃ message, old.pkts = [message] := by
    cases hcases : old.pkts with
    | nil => exact absurd hcases hpkts
    | cons message rest =>
        rw [hcases] at hflow
        exact ⟨message, by rw [hflow.wait.2.2.1]⟩
  rw [hmessage] at hflow
  have hdrain : drain [message] answer.took =
      if message.length ≤ answer.took then [] else [message.drop answer.took] := by
    simp [drain]
  simp only [Party.eventWrite, hmessage, hdrain, List.flatten_singleton] at hresult
  by_cases hall : message.length ≤ answer.took
  · simp only [hall, if_true, ne_eq, not_true_eq_false, false_and, false_or, Bool.false_eq_true,
      if_false, hremote, Except.ok.injEq] at hresult
    rw [List.take_of_length_le hall] at hresult
    subst hresult
    refine ⟨?_, by simp, by simp [Asocket.fdeventDel], by
      simp [Asocket.fdeventDel, Events.without, fdeWrite]⟩
    refine hboth.stays hpeer (by simp [hold])
      ((Party.Changes.gotWritten message).trans (.setSocket (by simpa using hold) _))
      (.nothing inbox) .okay (Function.update_self ..) hclosing
      (.quiet (by simp [Asocket.fdeventDel]) ?_ (by simp [Asocket.fdeventDel])) ?_ ?_
    · simp [Asocket.fdeventDel, Events.without, fdeWrite]
    · refine ⟨ready, hready, ?_⟩
      simpa [Asocket.fdeventDel] using hflow.drain_all
    · exact hthere.sender hold (Function.update_self ..)
        (by simp [Asocket.fdeventDel, Events.without, fdeWrite]) (by simp) (by simp) rfl
  · simp only [hall, if_false] at hresult
    split at hresult
    · obtain rfl := Except.ok.inj hresult
      have hresult := hboth.stays hpeer (by simp [hold])
        ((Party.Changes.gotWritten (message.take answer.took)).trans
          (.setSocket (by simpa using hold)
            { old with events := .none, pkts := [message.drop answer.took] }))
        (.nothing inbox) .nothing (Function.update_self ..) hclosing
        (.quiet hremote ?_ rfl) ?_ ?_
      · simpa [Party.keep] using hresult
      · simpa [hmessage] using hsound.write
      · refine ⟨ready, hready, ?_⟩
        simpa using hflow.drain_some answer.took
      · exact hthere.sender hold (Function.update_self ..) rfl (by simp) (by simp) rfl
    · rw [if_pos (Or.inl (List.cons_ne_nil _ _))] at hresult
      obtain ⟨⟨party, sent⟩, hclose, rfl⟩ := map_eq_ok.1 hresult
      have hremote' :
          Asocket.peer { old with events := .none, pkts := [message.drop answer.took] } =
            .remote peer := hremote
      refine hboth.close (.nothing inbox) rfl hpeer (by simp [hold]) (.gotWritten _) (by simp)
        hremote' ?_ hclose
      simpa [List.append_assoc, hmessage] using hflow.written_prefix

/-- The half of `local_socket_event_func` for `FDE_READ`. -/
theorem Both.eventRead
    {socket : Asocket} {data : Bytes} {eof : Bool} {next : Party} {sent : List Packet}
    {old : Asocket} (hboth : Both near far inbox outbox) (hold : near.sockets id = some old)
    (hread : old.state.read = true) (hsocket : socket = { old with events := .none })
    (hresult : near.eventRead id socket false data eof = .ok (next, sent)) :
    Both next far inbox (outbox ++ sent) := by
  obtain ⟨hclosing, hsound⟩ := hboth.here.sound.sockets id old hold
  obtain ⟨peer, hpeer⟩ : ∃ peer, near.peerOf id = some peer := by
    apply Option.ne_none_iff_exists'.1
    intro hnone
    simp [(hsound.idle hnone).1] at hread
  rw [hpeer] at hsound
  have hremote : socket.peer = .remote peer := by
    rw [hsocket]
    exact hsound.remote
  have hwrite : socket.state.write = true ↔ socket.pkts ≠ [] := by
    rw [hsocket]
    exact hsound.write
  have hhere := hboth.here.streams id peer (Or.inl hpeer)
  have hthere := hboth.there.streams peer id (Or.inr hpeer)
  obtain ⟨ready, hready, hflow⟩ := hhere.running old hold
  have hpkts : socket.pkts = old.pkts := by rw [hsocket]
  unfold Party.eventRead at hresult
  by_cases hdata : data = []
  · subst hdata
    rw [if_pos (Or.inl rfl)] at hresult
    split at hresult
    · refine hboth.close (.nothing inbox) rfl hpeer (by simp [hold]) (.gotRead []) (by simp)
        hremote ?_ hresult
      simpa [hpkts] using hflow.written_prefix
    · simp only [Except.ok.injEq, Prod.mk.injEq] at hresult
      obtain ⟨rfl, rfl⟩ := hresult
      refine hboth.stays hpeer (by simp [hold])
        ((Party.Changes.gotRead []).trans (.setSocket (by simpa using hold) socket))
        (.nothing inbox) .nothing (Function.update_self ..) hclosing
        (.quiet hremote hwrite (by simp [hsocket])) ?_ ?_
      · refine ⟨ready, hready, ?_⟩
        simpa [Party.keep, hpkts] using hflow
      · exact hthere.sender hold (Function.update_self ..) (by simp [hsocket])
          (by simp [Party.keep]) (by simp) rfl
  · rw [if_neg (by simp [hdata, hremote])] at hresult
    simp only [hremote] at hresult
    have hsent : Both ((near.gotRead id data).keep id (socket.fdeventDel fdeRead) false) far
        inbox (outbox ++ [.wrte id peer data]) := by
      refine hboth.stays hpeer (by simp [hold])
        ((Party.Changes.gotRead data).trans (.setSocket (by simpa using hold) _))
        (.nothing inbox) (.wrte data) (Function.update_self ..) hclosing
        (.quiet (by simpa [Asocket.fdeventDel] using hremote) ?_
          (by simp [Asocket.fdeventDel, hsocket])) ?_ ?_
      · simpa [Asocket.fdeventDel, Events.without, fdeRead] using hwrite
      · refine ⟨ready, hready, ?_⟩
        simpa [Party.keep, Asocket.fdeventDel, hpkts] using hflow
      · constructor
        · intro receiver hreceiver
          obtain ⟨ready', hready', hflow'⟩ := hthere.running receiver hreceiver
          obtain rfl : true = ready' := by rw [← hready' old hold, hread]
          refine ⟨false, ?_, ?_⟩
          · intro sender hsender
            obtain rfl : socket.fdeventDel fdeRead = sender := by simpa [Party.keep] using hsender
            simp [Asocket.fdeventDel, Events.without, fdeRead]
          · simpa [Party.keep] using hflow'.send data
        · intro hnone
          refine (hthere.ended hnone).trans ?_
          simp [Party.keep]
    split at hresult
    · obtain ⟨⟨party, rest⟩, hclose, hresult⟩ := map_eq_ok.1 hresult
      simp only [Prod.mk.injEq] at hresult
      obtain ⟨rfl, rfl⟩ := hresult
      have hpeer' : ((near.gotRead id data).keep id (socket.fdeventDel fdeRead) false).peerOf id =
          some peer := by
        simpa [Party.peerOf, Party.keep] using hpeer
      have hlast := hsent.close (.nothing inbox) rfl hpeer' (by simp [Party.keep]) .refl rfl
        (by simpa [Asocket.fdeventDel] using hremote)
        (by simpa [Party.keep, Asocket.fdeventDel, hpkts] using hflow.written_prefix) hclose
      simpa using hlast
    · simp only [Except.ok.injEq, Prod.mk.injEq] at hresult
      obtain ⟨rfl, rfl⟩ := hresult
      exact hsent

end OpenRecovery.Adb
