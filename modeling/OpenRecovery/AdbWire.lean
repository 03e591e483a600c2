import OpenRecovery.AdbSafety
import OpenRecovery.AdbPackets
import Mathlib

/-!
# Packets on the wire

The packets of a connection arrive as bytes.  What one end sends is, byte by byte, what
the other end takes for the same packets.
-/

namespace OpenRecovery.Adb

/-! ## Streams of packets -/

theorem toNat_ofNat32
    {value : Nat} (hlt : value < 2 ^ 32) : (BitVec.ofNat 32 value).toNat = value := by
  rw [BitVec.toNat_ofNat, Nat.mod_eq_of_lt hlt]

theorem remoteRead_lt
    {stream data rest : Bytes} {msg : Amessage}
    (hread : remoteRead stream = some ((msg, data), rest)) : rest.length < stream.length := by
  obtain ⟨rfl, -⟩ := (remoteRead_eq_some_iff stream msg data rest).1 hread
  simp only [remoteWrite, List.length_append, Amessage.bytes_length, Amessage.size]
  omega

/-- `output_thread`: the packets that are read until `remote_read` fails. -/
def outputThread (stream : Bytes) : List (Amessage × Bytes) :=
  match hread : remoteRead stream with
  | none => []
  | some (packet, rest) =>
      have : rest.length < stream.length := remoteRead_lt hread
      packet :: outputThread rest
termination_by stream.length

/-- The ids and the data of a packet have a place in the header. -/
def Packet.Fits : Packet → Prop
  | .open arg0 data => arg0 < 2 ^ 32 ∧ data.length ≤ maxPayload
  | .okay arg0 arg1 => arg0 < 2 ^ 32 ∧ arg1 < 2 ^ 32
  | .clse arg0 arg1 => arg0 < 2 ^ 32 ∧ arg1 < 2 ^ 32
  | .wrte arg0 arg1 data => arg0 < 2 ^ 32 ∧ arg1 < 2 ^ 32 ∧ data.length ≤ maxPayload

theorem Packet.remoteRead_wire
    {packet : Packet} (hfits : packet.Fits) (rest : Bytes) :
    remoteRead (packet.wire ++ rest) =
      some ((sendPacket packet.message.1 packet.message.2, packet.message.2), rest) := by
  refine (remoteRead_eq_some_iff _ _ _ _).2 ⟨rfl, rfl, ?_, ?_⟩
  · cases packet with
    | «open» arg0 data =>
        have := hfits.2
        exact toNat_ofNat32 (by unfold maxPayload at this; omega)
    | okay => rfl
    | clse => rfl
    | wrte arg0 arg1 data =>
        have := hfits.2.2
        exact toNat_ofNat32 (by unfold maxPayload at this; omega)
  · cases packet with
    | «open» => exact hfits.2
    | okay => exact Nat.zero_le _
    | clse => exact Nat.zero_le _
    | wrte => exact hfits.2.2

theorem Packet.ofMessage_message
    {packet : Packet} (hfits : packet.Fits) :
    Packet.ofMessage (sendPacket packet.message.1 packet.message.2) packet.message.2 =
      some packet := by
  have hword : ∀ {id : Nat}, id < 2 ^ 32 → (BitVec.ofNat 32 id).toNat = id :=
    toNat_ofNat32
  cases packet with
  | «open» arg0 data => simp [ofMessage, sendPacket, message, hword hfits.1]
  | okay arg0 arg1 =>
      simp [ofMessage, sendPacket, message, hword hfits.1, hword hfits.2, aOkay, aOpen]
  | clse arg0 arg1 =>
      simp [ofMessage, sendPacket, message, hword hfits.1, hword hfits.2, aClse, aOkay, aOpen]
  | wrte arg0 arg1 data =>
      simp [ofMessage, sendPacket, message, hword hfits.1, hword hfits.2.1, aWrte, aClse, aOkay,
        aOpen]

/-- The packets that `handle_packet` gets. -/
def arriving (stream : Bytes) : List Packet :=
  (outputThread stream).filterMap fun packet => Packet.ofMessage packet.1 packet.2

theorem arriving_wire
    {packets : List Packet} (hfits : ∀ packet ∈ packets, packet.Fits) :
    arriving (packets.flatMap Packet.wire) = packets := by
  induction packets with
  | nil =>
      unfold arriving outputThread
      rfl
  | cons packet packets ih =>
      have hpacket := hfits packet (by simp)
      have hread := Packet.remoteRead_wire hpacket (packets.flatMap Packet.wire)
      have hthread : outputThread ((packet :: packets).flatMap Packet.wire) =
          (sendPacket packet.message.1 packet.message.2, packet.message.2) ::
            outputThread (packets.flatMap Packet.wire) := by
        rw [outputThread]
        split
        · rename_i hnone
          simp [List.flatMap_cons, hread] at hnone
        · rename_i first rest hsome
          rw [List.flatMap_cons, hread] at hsome
          simp only [Option.some.injEq, Prod.mk.injEq] at hsome
          obtain ⟨rfl, rfl⟩ := hsome
          rfl
      have hrest : arriving (packets.flatMap Packet.wire) = packets :=
        ih fun other hother => hfits other (by simp [hother])
      unfold arriving at hrest ⊢
      rw [hthread, List.filterMap_cons, Packet.ofMessage_message hpacket, hrest]

/-! ## The packets of a connection -/

/-- What the ends see to themselves: the data is no longer than a packet, and `A_CLSE`
comes from no socket. -/
def Packet.Short : Packet → Prop
  | .open _ data => data.length ≤ maxPayload
  | .okay _ _ => True
  | .clse arg0 _ => arg0 = 0
  | .wrte _ _ data => data.length ≤ maxPayload

/-- The packets that the first half of a callback sends. -/
def Written.sent : Written → List Packet
  | .returned _ sent => sent
  | .goesOn _ _ sent => sent

section Short

variable {party next : Party} {id : Nat} {socket : Asocket} {sent : List Packet}

theorem localSocketClose_short
    {closing : Bool} (hresult : party.localSocketClose id socket closing = .ok (next, sent)) :
    ∀ packet ∈ sent, packet.Short := by
  unfold Party.localSocketClose at hresult
  split at hresult <;> simp only [Except.ok.injEq, Prod.mk.injEq, reduceCtorEq] at hresult
  · simp [← hresult.2]
  · simp [← hresult.2, Packet.Short]

theorem localSocketEnqueue_short
    {source : Nat} {data : Bytes} {answer : Answer}
    (hresult : party.localSocketEnqueue id socket source data answer = .ok (next, sent)) :
    ∀ packet ∈ sent, packet.Short := by
  unfold Party.localSocketEnqueue at hresult
  split at hresult
  · simp only [Except.ok.injEq, Prod.mk.injEq] at hresult
    simp [← hresult.2]
  · split at hresult
    · simp only [Except.ok.injEq, Prod.mk.injEq] at hresult
      simp [← hresult.2, Packet.Short]
    · split at hresult
      · exact localSocketClose_short hresult
      · simp only [Except.ok.injEq, Prod.mk.injEq] at hresult
        simp [← hresult.2]

theorem eventWrite_short
    {closing : Bool} {answer : Answer} {written : Written}
    (hresult : party.eventWrite id socket closing answer = .ok written) :
    ∀ packet ∈ written.sent, packet.Short := by
  unfold Party.eventWrite at hresult
  simp only at hresult
  split at hresult
  · obtain rfl := Except.ok.inj hresult
    simp [Written.sent]
  · split at hresult
    · obtain ⟨⟨party', sent'⟩, hclose, rfl⟩ := map_eq_ok.1 hresult
      exact localSocketClose_short hclose
    · split at hresult <;> simp only [Except.ok.injEq, reduceCtorEq] at hresult
      subst hresult
      simp [Written.sent, Packet.Short]

theorem eventRead_short
    {closing : Bool} {data : Bytes} {eof : Bool} (hdata : data.length ≤ maxPayload)
    (hresult : party.eventRead id socket closing data eof = .ok (next, sent)) :
    ∀ packet ∈ sent, packet.Short := by
  unfold Party.eventRead at hresult
  simp only at hresult
  split at hresult
  · split at hresult
    · exact localSocketClose_short hresult
    · simp only [Except.ok.injEq, Prod.mk.injEq] at hresult
      simp [← hresult.2]
  · split at hresult <;> try simp only [reduceCtorEq] at hresult
    split at hresult
    · obtain ⟨⟨party', sent'⟩, hclose, hresult⟩ := map_eq_ok.1 hresult
      simp only [Prod.mk.injEq] at hresult
      rw [← hresult.2]
      intro packet hpacket
      rcases List.mem_cons.1 hpacket with rfl | hmem
      · exact hdata
      · exact localSocketClose_short hclose packet hmem
    · simp only [Except.ok.injEq, Prod.mk.injEq] at hresult
      simpa [← hresult.2, Packet.Short] using hdata

theorem eventFunc_short
    {closing : Bool} {ev : Events} {answer : FdAnswer}
    (hdata : answer.data.length ≤ maxPayload)
    (hresult : party.eventFunc id socket closing ev answer = .ok (next, sent)) :
    ∀ packet ∈ sent, packet.Short := by
  unfold Party.eventFunc at hresult
  split at hresult
  · obtain ⟨written, hwritten, hrest⟩ := bind_eq_ok.1 hresult
    have hshort := eventWrite_short hwritten
    cases written with
    | returned party' sent' =>
        simp only [Except.ok.injEq, Prod.mk.injEq] at hrest
        rw [← hrest.2]
        exact hshort
    | goesOn party' socket' sent' =>
        simp only at hrest
        split at hrest
        · obtain ⟨⟨party'', sent''⟩, hread, hrest⟩ := map_eq_ok.1 hrest
          simp only [Prod.mk.injEq] at hrest
          rw [← hrest.2]
          intro packet hpacket
          rcases List.mem_append.1 hpacket with hmem | hmem
          · exact hshort packet hmem
          · exact eventRead_short hdata hread packet hmem
        · simp only [Except.ok.injEq, Prod.mk.injEq] at hrest
          rw [← hrest.2]
          exact hshort
  · split at hresult
    · exact eventRead_short hdata hresult
    · simp only [Except.ok.injEq, Prod.mk.injEq] at hresult
      simp [← hresult.2]

theorem handlePacket_short
    {packet : Packet} {found : Bool} {answer : Answer}
    (hresult : party.handlePacket packet found answer = .ok (next, sent)) :
    ∀ packet ∈ sent, packet.Short := by
  unfold Party.handlePacket at hresult
  split at hresult
  · split at hresult <;> simp only [Except.ok.injEq, Prod.mk.injEq] at hresult <;>
      simp [← hresult.2, Packet.Short]
  · split at hresult
    · simp only [Except.ok.injEq, Prod.mk.injEq] at hresult
      simp [← hresult.2]
    · simp only at hresult
      split at hresult <;> simp only [Except.ok.injEq, Prod.mk.injEq] at hresult <;>
        simp [← hresult.2]
  · split at hresult
    · simp only [Except.ok.injEq, Prod.mk.injEq] at hresult
      simp [← hresult.2]
    · exact localSocketClose_short hresult
  · split at hresult
    · simp only [Except.ok.injEq, Prod.mk.injEq] at hresult
      simp [← hresult.2]
    · exact localSocketEnqueue_short hresult

/-- No end sends a packet that is too long. -/
theorem act_short
    {inbox rest : List Packet} {act : Act}
    (hact : party.act inbox act = some (.ok (rest, next, sent))) :
    (∀ packet ∈ rest, packet ∈ inbox) ∧ ∀ packet ∈ sent, packet.Short := by
  cases act with
  | connect destination =>
      simp only [Party.act] at hact
      split at hact
      · simp at hact
      · rename_i hlength
        simp only [Option.some.injEq, Except.ok.injEq, Prod.mk.injEq] at hact
        obtain ⟨rfl, rfl, rfl⟩ := hact
        refine ⟨fun _ => id, ?_⟩
        simp only [List.mem_singleton, forall_eq, Packet.Short, List.length_append,
          List.length_singleton]
        omega
  | packet found answer =>
      simp only [Party.act] at hact
      split at hact
      · simp at hact
      · obtain ⟨⟨party', sent'⟩, hpacket, hact⟩ := map_eq_ok.1 (Option.some.inj hact)
        simp only [Prod.mk.injEq] at hact
        obtain ⟨rfl, rfl, rfl⟩ := hact
        exact ⟨fun _ => List.mem_cons_of_mem _, handlePacket_short hpacket⟩
  | poll id events =>
      simp only [Party.act] at hact
      split at hact <;> simp only [Option.some.injEq, Except.ok.injEq, Prod.mk.injEq,
        reduceCtorEq] at hact
      · obtain ⟨rfl, rfl, rfl⟩ := hact
        exact ⟨fun _ hmem => hmem, by simp⟩
      · obtain ⟨rfl, rfl, rfl⟩ := hact
        exact ⟨fun _ hmem => hmem, by simp⟩
  | callback id closing answer =>
      simp only [Party.act] at hact
      split at hact
      · simp at hact
      · split at hact
        · simp at hact
        · rename_i hlength
          obtain ⟨⟨party', sent'⟩, hevent, hact⟩ := map_eq_ok.1 (Option.some.inj hact)
          simp only [Prod.mk.injEq] at hact
          obtain ⟨rfl, rfl, rfl⟩ := hact
          exact ⟨fun _ hmem => hmem,
            eventFunc_short (Nat.not_lt.1 fun hlt => hlength (Or.inr hlt)) hevent⟩

end Short

namespace Connection

variable {connection : Connection}

theorem Reachable.short
    (hreachable : connection.Reachable) :
    (∀ packet ∈ connection.toHost, packet.Short) ∧
      ∀ packet ∈ connection.toDevice, packet.Short := by
  induction hreachable with
  | initial => exact ⟨by simp [Connection.initial], by simp [Connection.initial]⟩
  | step side act _ hstep ih =>
      cases side with
      | host =>
          obtain ⟨outcome, hact, houtcome⟩ := Option.map_eq_some_iff.1 hstep
          obtain ⟨⟨rest, party, sent⟩, rfl, rfl⟩ := map_eq_ok.1 houtcome
          obtain ⟨hrest, hsent⟩ := act_short hact
          exact ⟨fun packet hmem => ih.1 packet (hrest packet hmem),
            List.forall_mem_append.2 ⟨ih.2, hsent⟩⟩
      | device =>
          obtain ⟨outcome, hact, houtcome⟩ := Option.map_eq_some_iff.1 hstep
          obtain ⟨⟨rest, party, sent⟩, rfl, rfl⟩ := map_eq_ok.1 houtcome
          obtain ⟨hrest, hsent⟩ := act_short hact
          exact ⟨List.forall_mem_append.2 ⟨ih.1, hsent⟩,
            fun packet hmem => ih.2 packet (hrest packet hmem)⟩

/-- As long as the ids are words, the bytes on the wire are as good as the packets. -/
theorem Reachable.arriving_inbox
    (hreachable : connection.Reachable)
    (hids : ∀ side, (connection.party side).nextId ≤ 2 ^ 32) (side : Side) :
    arriving ((connection.inbox side).flatMap Packet.wire) = connection.inbox side := by
  apply arriving_wire
  intro packet hpacket
  have hboth := hreachable.sound.at side
  have hshort : packet.Short := by
    cases side with
    | host => exact hreachable.short.1 packet hpacket
    | device => exact hreachable.short.2 packet hpacket
  have hends : ∀ x y, packet.ends = some (y, x) → y < 2 ^ 32 ∧ x < 2 ^ 32 := by
    intro x y hends
    have hpeer := hboth.here.mail.ends packet hpacket x y hends
    exact ⟨(hboth.there.sound.lt_nextId (Or.inr (by simp [hpeer]))).trans_le (hids side.other),
      (hboth.here.mail.known x y hpeer).trans_le (hids side)⟩
  cases packet with
  | «open» source data =>
      have hopening := hboth.here.mail.opening source data hpacket
      exact ⟨(hboth.there.sound.lt_nextId (Or.inl hopening.1)).trans_le (hids side.other), hshort⟩
  | okay source target => exact hends target source rfl
  | clse source target =>
      obtain rfl : source = 0 := hshort
      exact ⟨by norm_num, (hboth.here.mail.clse target 0 hpacket).1.trans_le (hids side)⟩
  | wrte source target data =>
      exact ⟨(hends target source rfl).1, (hends target source rfl).2, hshort⟩

theorem arriving_inbox_sample :
    arriving (((sample true).inbox .host).flatMap Packet.wire) = [.clse 0 1] := by
  refine (sample_reachable true).arriving_inbox ?_ .host
  intro side
  cases side <;> decide

end Connection

end OpenRecovery.Adb
