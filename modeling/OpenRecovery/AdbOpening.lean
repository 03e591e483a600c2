import OpenRecovery.AdbSteps
import Mathlib

/-!
# How streams begin and end

`A_OPEN`, the two answers to it, and the sockets on `local_socket_closing_list`.
-/

namespace OpenRecovery.Adb

open StopAndWait

variable {near far : Party} {inbox outbox : List Packet} {id peer : Nat}

/-! ## New sockets -/

namespace Party

variable (party : Party) (id : Nat) (socket : Asocket) (peer : Nat)

@[simp] theorem createLocalSocket_sockets :
    party.createLocalSocket.sockets =
      Function.update party.sockets party.nextId (some ⟨.null, .none, .none, []⟩) := rfl

@[simp] theorem createLocalSocket_closing :
    party.createLocalSocket.closing = party.closing := rfl

@[simp] theorem createLocalSocket_logs : party.createLocalSocket.logs = party.logs := rfl

@[simp] theorem createLocalSocket_peerOf : party.createLocalSocket.peerOf = party.peerOf := rfl

@[simp] theorem createLocalSocket_nextId :
    party.createLocalSocket.nextId = party.nextId + 1 := rfl

@[simp] theorem connect_sockets :
    (party.connect id socket peer).sockets =
      Function.update party.sockets id (some { socket with peer := .remote peer }) := rfl

@[simp] theorem connect_closing : (party.connect id socket peer).closing = party.closing := rfl

@[simp] theorem connect_nextId : (party.connect id socket peer).nextId = party.nextId := rfl

@[simp] theorem connect_logs :
    (party.connect id socket peer).logs =
      Function.update party.logs id { party.logs id with peer := some peer } := rfl

theorem connect_peerOf (other : Nat) :
    (party.connect id socket peer).peerOf other =
      if other = id then some peer else party.peerOf other := by
  by_cases hother : other = id
  · subst hother
    simp [peerOf]
  · simp [peerOf, hother]

theorem gotRead_nil : party.gotRead id [] = party := by
  simp [gotRead, modifyLog]

theorem gotWritten_nil : party.gotWritten id [] = party := by
  simp [gotWritten, modifyLog]

theorem setSocket_self
    {socket : Asocket} (hsocket : party.sockets id = some socket) :
    party.setSocket id socket = party := by
  simp [setSocket, ← hsocket]

end Party

@[simp] theorem addressed_open (source : Nat) (destination : Bytes) (target : Nat) :
    addressed [.open source destination] target = [] := by
  simp [addressed, Packet.target]

theorem Party.Sound.peerOf_nextId
    (hsound : near.Sound) : near.peerOf near.nextId = none := by
  rw [Party.peerOf, (hsound.fresh near.nextId le_rfl).2.2]
  rfl

theorem Mail.target_lt
    (hmail : Mail near far inbox outbox) {packet : Packet} (hpacket : packet ∈ inbox)
    {x : Nat} (htarget : packet.target = some x) :
    x < near.nextId := by
  cases packet with
  | «open» => simp [Packet.target] at htarget
  | clse source target =>
      obtain rfl : target = x := by simpa [Packet.target] using htarget
      exact (hmail.clse target source hpacket).1
  | okay source target =>
      obtain rfl : target = x := by simpa [Packet.target] using htarget
      exact hmail.known target source (hmail.ends _ hpacket target source rfl)
  | wrte source target data =>
      obtain rfl : target = x := by simpa [Packet.target] using htarget
      exact hmail.known target source (hmail.ends _ hpacket target source rfl)

theorem Mail.linked_lt
    (hmail : Mail near far inbox outbox) (hsound : near.Sound) {x y : Nat}
    (hlinked : Linked near far x y) : x < near.nextId := by
  rcases hlinked with hnear | hfar
  · exact hsound.lt_nextId (Or.inr (by simp [hnear]))
  · exact hmail.known x y hfar

/-- A socket of this end that is yet to be opened is not spoken to. -/
theorem Mail.addressed_nextId
    (hmail : Mail near far inbox outbox) : addressed inbox near.nextId = [] := by
  apply List.filter_eq_nil_iff.2
  intro packet hpacket htarget
  have := hmail.target_lt hpacket (by simpa using htarget)
  omega

theorem Party.Sound.createLocalSocket
    (hsound : near.Sound) : near.createLocalSocket.Sound where
  fresh := by
    intro other hother
    simp only [Party.createLocalSocket_nextId] at hother
    simpa [Function.update_of_ne (show other ≠ near.nextId by omega)] using
      hsound.fresh other (by omega)
  sockets := by
    intro other socket hsocket
    by_cases hother : other = near.nextId
    · subst hother
      obtain rfl : (⟨.null, .none, .none, []⟩ : Asocket) = socket := by simpa using hsocket
      rw [Party.createLocalSocket_peerOf, hsound.peerOf_nextId]
      refine ⟨(hsound.fresh near.nextId le_rfl).2.1, ?_⟩
      constructor <;> simp [Events.none]
    · exact hsound.sockets other socket (by simpa [hother] using hsocket)
  closing := by
    intro other socket hsocket
    have hother : other ≠ near.nextId := by
      rintro rfl
      simp [(hsound.fresh near.nextId le_rfl).2.1] at hsocket
    simpa [hother] using hsound.closing other socket hsocket
  silent := hsound.silent

/-- `create_local_socket`. -/
theorem Both.create
    (hboth : Both near far inbox outbox) : Both near.createLocalSocket far inbox outbox := by
  have hmail := hboth.here.mail
  have hmail' := hboth.there.mail
  have hother : ∀ x, (∃ y, Linked near far x y) → x ≠ near.nextId := by
    rintro x ⟨y, hlinked⟩
    have := hmail.linked_lt hboth.here.sound hlinked
    omega
  refine ⟨⟨hboth.here.sound.createLocalSocket, ?_, ?_⟩, ⟨hboth.there.sound, ?_, ?_⟩⟩
  · refine ⟨fun x y hfar => (hmail.known x y hfar).trans (Nat.lt_succ_self _), hmail.paired,
      hmail.distinct, hmail.ends, ?_, hmail.last, hmail.opening, hmail.once, ?_⟩
    · intro x source hclse
      obtain ⟨hlt, hrest⟩ := hmail.clse x source hclse
      exact ⟨hlt.trans (Nat.lt_succ_self _), hrest⟩
    · intro x y hfar hnear
      obtain ⟨hsocket, hrest⟩ := hmail.greeting x y hfar hnear
      exact ⟨by simpa [hother x ⟨y, Or.inr hfar⟩] using hsocket, hrest⟩
  · intro x y hlinked
    exact (hboth.here.streams x y hlinked).frame (by simp [hother x ⟨y, hlinked⟩])
      rfl rfl rfl rfl rfl rfl
  · refine ⟨hmail'.known, hmail'.paired, hmail'.distinct, hmail'.ends, ?_, hmail'.last, ?_,
      hmail'.once, hmail'.greeting⟩
    · intro y source hclse
      obtain ⟨hlt, hclosed, hopen⟩ := hmail'.clse y source hclse
      refine ⟨hlt, fun x hlinked => ?_, hopen⟩
      simpa [hother x ⟨y, Linked.symm hlinked⟩] using hclosed x hlinked
    · intro x destination hopen
      obtain ⟨hsocket, hrest⟩ := hmail'.opening x destination hopen
      have hx : x ≠ near.nextId := by
        have := hboth.here.sound.lt_nextId (Or.inl hsocket)
        omega
      exact ⟨by simpa [hx] using hsocket, hrest⟩
  · intro y x hlinked
    exact (hboth.there.streams y x hlinked).frame rfl rfl rfl
      (by simp [hother x ⟨y, Linked.symm hlinked⟩]) rfl rfl rfl

/-- A socket that nothing is known of yet at the other end. -/
structure Unknown (near far : Party) (inbox outbox : List Packet) (id : Nat) : Prop where
  socket : near.sockets id ≠ none
  peer : near.peerOf id = none
  peers : ∀ y, far.peerOf y ≠ some id
  addressed : addressed inbox id = []
  opening : ∀ destination, .open id destination ∉ outbox

theorem Unknown.not_mem
    (hunknown : Unknown near far inbox outbox id) {packet : Packet}
    (htarget : packet.target = some id) : packet ∉ inbox := by
  intro hmem
  have : packet ∈ Adb.addressed inbox id := mem_addressed.2 ⟨hmem, htarget⟩
  simp [hunknown.addressed] at this

theorem Both.unknown_nextId
    (hboth : Both near far inbox outbox) :
    Unknown near.createLocalSocket far inbox outbox near.nextId where
  socket := by simp
  peer := hboth.here.sound.peerOf_nextId
  peers := by
    intro y hfar
    have := hboth.here.mail.known _ y hfar
    omega
  addressed := hboth.here.mail.addressed_nextId
  opening := by
    intro destination hmem
    have := hboth.here.sound.lt_nextId (Or.inl (hboth.there.mail.opening _ _ hmem).1)
    omega

/-- `A_OPEN` is sent. -/
theorem Both.sendOpen
    (hboth : Both near far inbox outbox) (hunknown : Unknown near far inbox outbox id)
    (destination : Bytes) :
    Both near far inbox (outbox ++ [.open id destination]) := by
  have hmail := hboth.here.mail
  have hmail' := hboth.there.mail
  refine ⟨⟨hboth.here.sound, ?_, ?_⟩, ⟨hboth.there.sound, ?_, ?_⟩⟩
  · refine ⟨hmail.known, hmail.paired, hmail.distinct, hmail.ends, ?_, hmail.last, ?_,
      hmail.once, hmail.greeting⟩
    · intro x source hclse
      obtain ⟨hlt, hclosed, hopen⟩ := hmail.clse x source hclse
      refine ⟨hlt, hclosed, ?_⟩
      intro other hmem
      rcases List.mem_append.1 hmem with hmem | hmem
      · exact hopen other hmem
      · simp only [List.mem_singleton, Packet.open.injEq] at hmem
        obtain ⟨rfl, rfl⟩ := hmem
        exact hunknown.not_mem rfl hclse
    · intro y other hopen
      obtain ⟨hsocket, hpeer, hnone, hempty⟩ := hmail.opening y other hopen
      exact ⟨hsocket, hpeer, hnone, by simp [hempty]⟩
  · intro x y hlinked
    exact (hboth.here.streams x y hlinked).frame rfl rfl rfl rfl rfl
      rfl (by rw [readies_append, readies_singleton_of_ne (by simp [Packet.ends]), Nat.add_zero])
  · refine ⟨hmail'.known, hmail'.paired, hmail'.distinct, ?_, ?_, ?_, ?_, ?_, ?_⟩
    · intro packet hpacket x y hends
      rcases List.mem_append.1 hpacket with hmem | hmem
      · exact hmail'.ends packet hmem x y hends
      · obtain rfl := List.mem_singleton.1 hmem
        simp [Packet.ends] at hends
    · intro y source hclse
      exact hmail'.clse y source (by simpa using hclse)
    · refine List.pairwise_append.2 ⟨hmail'.last, List.pairwise_singleton _ _, ?_⟩
      intro packet _ later hlater x source _
      obtain rfl := List.mem_singleton.1 hlater
      simp [Packet.target]
    · intro x other hopen
      rcases List.mem_append.1 hopen with hmem | hmem
      · exact hmail'.opening x other hmem
      · simp only [List.mem_singleton, Packet.open.injEq] at hmem
        obtain ⟨rfl, rfl⟩ := hmem
        exact ⟨hunknown.socket, hunknown.peer, hunknown.peers, hunknown.addressed⟩
    · rw [List.filterMap_append]
      refine List.Nodup.append hmail'.once (by simp [Packet.opened]) ?_
      intro x hx hx'
      obtain rfl : x = id := by simpa [Packet.opened] using hx'
      obtain ⟨packet, hpacket, hopened⟩ := List.mem_filterMap.1 hx
      cases packet with
      | «open» source other =>
          obtain rfl : source = x := by simpa [Packet.opened] using hopened
          exact hunknown.opening other hpacket
      | _ => simp [Packet.opened] at hopened
    · intro y x hnear hfar
      obtain ⟨hsocket, rest, hrest⟩ := hmail'.greeting y x hnear hfar
      exact ⟨hsocket, rest, by simp [hrest]⟩
  · intro y x hlinked
    refine (hboth.there.streams y x hlinked).frame rfl rfl rfl rfl rfl ?_ rfl
    rw [messages_append, messages_singleton_of_ne (by simp [Packet.ends]), List.append_nil]

/-- `connect_to_remote` for a new socket. -/
theorem Both.connect
    (hboth : Both near far inbox outbox) (destination : Bytes) :
    Both near.createLocalSocket far inbox (outbox ++ [.open near.nextId destination]) :=
  hboth.create.sendOpen hboth.unknown_nextId destination

/-- `A_OPEN` is taken from the inbox. -/
theorem Both.takeOpen
    {source : Nat} {destination : Bytes}
    (hboth : Both near far (.open source destination :: inbox) outbox) :
    Both near far inbox outbox ∧ Unknown far near outbox inbox source := by
  obtain ⟨hsocket, hpeer, hpeers, haddressed⟩ :=
    hboth.here.mail.opening source destination (by simp)
  refine ⟨⟨⟨hboth.here.sound, hboth.here.mail.pop (by simp [Packet.target]), ?_⟩,
    ⟨hboth.there.sound, hboth.there.mail.popBack, ?_⟩⟩,
    ⟨hsocket, hpeer, hpeers, haddressed, ?_⟩⟩
  · intro x y hlinked
    exact (hboth.here.streams x y hlinked).frame rfl rfl rfl rfl rfl
      (messages_cons_of_ne (by simp [Packet.ends])).symm rfl
  · intro y x hlinked
    exact (hboth.there.streams y x hlinked).frame rfl rfl rfl rfl rfl rfl
      (readies_cons_of_ne (by simp [Packet.ends])).symm
  · intro other hmem
    have honce := hboth.here.mail.once
    simp only [List.filterMap_cons, Packet.opened, List.nodup_cons] at honce
    exact honce.1 (List.mem_filterMap.2 ⟨_, hmem, rfl⟩)

/-- `send_close` for a service that does not exist. -/
theorem Both.refuse
    (hboth : Both near far inbox outbox) (hunknown : Unknown far near outbox inbox peer) :
    Both near far inbox (outbox ++ [.clse 0 peer]) := by
  refine ⟨⟨hboth.here.sound, hboth.here.mail.pushBack rfl ?_, ?_⟩,
    ⟨hboth.there.sound, hboth.there.mail.push rfl (by simp [Packet.ends]) ?_ ?_, ?_⟩⟩
  · intro y htarget destination
    obtain rfl : peer = y := by simpa [Packet.target] using htarget
    exact hunknown.opening destination
  · intro x y hlinked
    refine (hboth.here.streams x y hlinked).frame rfl rfl rfl rfl rfl rfl ?_
    rw [readies_append, readies_singleton_of_ne (by simp [Packet.ends]), Nat.add_zero]
  · intro y source hclse
    obtain ⟨-, rfl⟩ := Packet.clse.inj hclse
    refine ⟨hboth.there.sound.lt_nextId (Or.inl hunknown.socket), ?_, hunknown.opening⟩
    intro x hlinked
    rcases hlinked with hfar | hnear
    · simp [hunknown.peer] at hfar
    · exact absurd hnear (hunknown.peers x)
  · intro y htarget source
    obtain rfl : peer = y := by simpa [Packet.target] using htarget
    exact hunknown.not_mem rfl
  · intro y x hlinked
    refine (hboth.there.streams y x hlinked).frame rfl rfl rfl rfl rfl ?_ rfl
    rw [messages_append, messages_singleton_of_ne (by simp [Packet.ends]), List.append_nil]

/-! ## Peers -/

theorem Takes.mem
    {taken : List Packet} (htakes : Takes id taken inbox) {packet : Packet}
    (hpacket : packet ∈ inbox) : packet ∈ taken := by
  cases htakes with
  | nothing => exact hpacket
  | packet => exact List.mem_cons_of_mem _ hpacket

theorem Takes.sublist
    {taken : List Packet} (htakes : Takes id taken inbox) : inbox.Sublist taken := by
  cases htakes with
  | nothing => exact List.Sublist.refl _
  | packet => exact List.sublist_cons_self _ _

theorem Takes.addressed
    {taken : List Packet} (htakes : Takes id taken inbox) {x : Nat} (hx : x ≠ id) :
    addressed inbox x = addressed taken x := by
  cases htakes with
  | nothing => rfl
  | packet _ htarget => rw [addressed_cons_of_ne (by simpa [htarget, eq_comm] using hx)]

theorem Party.Sound.connect
    {old : Asocket} (hsound : near.Sound) (hold : near.sockets id = some old)
    (hnone : near.peerOf id = none) :
    (near.connect id (old.fdeventAdd fdeRead) peer).Sound where
  fresh := by
    intro other hother
    have hid : other ≠ id := by
      have hlt : id < near.nextId := hsound.lt_nextId (Or.inl (by simp [hold]))
      simp only [Party.connect_nextId] at hother
      omega
    simpa [hid] using hsound.fresh other hother
  sockets := by
    intro other socket hsocket
    rw [Party.connect_peerOf, Party.connect_closing]
    by_cases hother : other = id
    · subst hother
      rw [Party.connect_sockets, Function.update_self] at hsocket
      obtain rfl := Option.some.inj hsocket
      obtain ⟨hclosing, hopen⟩ := hsound.sockets other old hold
      rw [if_pos rfl]
      refine ⟨hclosing, rfl, ?_, ?_, ?_, by simp⟩
      · simpa [Asocket.fdeventAdd, Events.union, fdeRead] using hopen.write
      · simp [Asocket.fdeventAdd, Events.union, fdeRead]
      · intro hwrite
        have := hopen.events_write (Asocket.events_write_of_fdeventSet hwrite)
        simp [Asocket.fdeventAdd, Events.union, this]
    · rw [if_neg hother]
      exact hsound.sockets other socket (by simpa [hother] using hsocket)
  closing := by
    intro other socket hsocket
    have hother : other ≠ id := by
      rintro rfl
      have := (hsound.closing other socket hsocket).1
      simp [hold] at this
    rw [Party.connect_peerOf, if_neg hother]
    simpa [hother] using hsound.closing other socket hsocket
  silent := by
    intro other hpeer
    rw [Party.connect_peerOf] at hpeer
    split at hpeer
    · simp at hpeer
    · rename_i hother
      simpa [hother] using hsound.silent other hpeer

section Link

variable {taken sent : List Packet} (socket : Asocket)

theorem Mail.link
    (hmail : Mail near far taken outbox) (htakes : Takes id taken inbox)
    (hnone : near.peerOf id = none)
    (hpaired : ∀ y, far.peerOf y = some id → y = peer)
    (hclse : ∀ source, .clse source id ∈ taken → far.sockets peer = none)
    (hopening : ∀ destination, .open peer destination ∉ taken)
    (hsent : sent = [] ∨ sent = [.okay id peer]) :
    Mail (near.connect id socket peer) far inbox (outbox ++ sent) where
  known := hmail.known
  paired := by
    intro x y hfar
    rw [Party.connect_peerOf]
    by_cases hx : x = id
    · subst hx
      simp [hpaired y hfar]
    · rw [if_neg hx]
      exact hmail.paired x y hfar
  distinct := hmail.distinct
  ends := fun packet hpacket => hmail.ends packet (htakes.mem hpacket)
  clse := by
    intro x source hmem
    obtain ⟨hlt, hclosed, hopen⟩ := hmail.clse x source (htakes.mem hmem)
    refine ⟨hlt, ?_, ?_⟩
    · intro y hlinked
      rw [Linked, Party.connect_peerOf] at hlinked
      by_cases hx : x = id
      · subst hx
        rw [if_pos rfl] at hlinked
        have hy : y = peer := by
          rcases hlinked with hnear | hfar
          · exact (Option.some.inj hnear).symm
          · exact hpaired y hfar
        rw [hy]
        exact hclse source (htakes.mem hmem)
      · rw [if_neg hx] at hlinked
        exact hclosed y hlinked
    · rcases hsent with rfl | rfl <;> simpa using hopen
  last := hmail.last.sublist htakes.sublist
  opening := by
    intro y destination hmem
    have hy : y ≠ peer := by
      rintro rfl
      exact hopening destination (htakes.mem hmem)
    obtain ⟨hsocket, hpeer, hpeers, hempty⟩ := hmail.opening y destination (htakes.mem hmem)
    refine ⟨hsocket, hpeer, ?_, ?_⟩
    · intro x
      rw [Party.connect_peerOf]
      split
      · simpa [eq_comm] using hy
      · exact hpeers x
    · rcases hsent with rfl | rfl
      · simpa using hempty
      · rw [addressed_append, hempty, List.nil_append,
          addressed_cons_of_ne (by simpa [Packet.target, eq_comm] using hy)]
        rfl
  once := hmail.once.sublist (htakes.sublist.filterMap _)
  greeting := by
    intro x y hfar hnear
    rw [Party.connect_peerOf] at hnear
    split at hnear
    · simp at hnear
    · rename_i hx
      obtain ⟨hsocket, rest, hrest⟩ := hmail.greeting x y hfar hnear
      exact ⟨by simpa [hx] using hsocket, rest, by rw [htakes.addressed hx, hrest]⟩

theorem Mail.linkBack
    (hmail : Mail far near outbox taken) (htakes : Takes id taken inbox)
    (hnone : near.peerOf id = none) (hlt : peer < far.nextId)
    (hpaired : far.peerOf peer = none ∨ far.peerOf peer = some id)
    (hpeers : ∀ y, far.peerOf y = some id → y = peer)
    (hdistinct : ∀ x, near.peerOf x ≠ some peer)
    (hclse : ∀ source, .clse source peer ∉ outbox)
    (hopening : ∀ destination, .open id destination ∉ outbox)
    (hgreeting : far.peerOf peer = none →
      far.sockets peer ≠ none ∧ ∃ rest, addressed (outbox ++ sent) peer = .okay id peer :: rest)
    (hsent : sent = [] ∨ sent = [.okay id peer]) :
    Mail far (near.connect id socket peer) (outbox ++ sent) inbox where
  known := by
    intro y x hnear
    rw [Party.connect_peerOf] at hnear
    split at hnear
    · obtain rfl := Option.some.inj hnear
      exact hlt
    · exact hmail.known y x hnear
  paired := by
    intro y x hnear
    rw [Party.connect_peerOf] at hnear
    split at hnear
    · obtain rfl := Option.some.inj hnear
      subst x
      exact hpaired
    · exact hmail.paired y x hnear
  distinct := by
    intro y x x' hnear hnear'
    rw [Party.connect_peerOf] at hnear hnear'
    split at hnear
    · obtain rfl := Option.some.inj hnear
      split at hnear'
      · simp [*]
      · exact absurd hnear' (hdistinct x')
    · split at hnear'
      · obtain rfl := Option.some.inj hnear'
        exact absurd hnear (hdistinct x)
      · exact hmail.distinct y x x' hnear hnear'
  ends := by
    intro packet hpacket y x hends
    rw [Party.connect_peerOf]
    have hcases : packet ∈ outbox ∨ packet = .okay id peer := by
      rcases hsent with rfl | rfl
      · exact Or.inl (by simpa using hpacket)
      · simpa using hpacket
    rcases hcases with hmem | rfl
    · have hnear := hmail.ends packet hmem y x hends
      rw [if_neg]
      · exact hnear
      · rintro rfl
        simp [hnone] at hnear
    · obtain ⟨rfl, rfl⟩ : _ ∧ _ := by simpa [Packet.ends] using hends
      simp
  clse := by
    intro y source hmem
    have hmem' : Packet.clse source y ∈ outbox := by
      rcases hsent with rfl | rfl <;> simpa using hmem
    obtain ⟨hy, hclosed, hopen⟩ := hmail.clse y source hmem'
    refine ⟨hy, ?_, fun destination hmem => hopen destination (htakes.mem hmem)⟩
    intro x hlinked
    have hlinked' : Linked far near y x ∧ x ≠ id := by
      have hpeer : y ≠ peer := by
        rintro rfl
        exact hclse source hmem'
      rcases hlinked with hfar | hnear
      · refine ⟨Or.inl hfar, ?_⟩
        rintro rfl
        exact hpeer (hpeers y hfar)
      · rw [Party.connect_peerOf] at hnear
        split at hnear
        · exact absurd (Option.some.inj hnear).symm hpeer
        · exact ⟨Or.inr hnear, by assumption⟩
    simpa [hlinked'.2] using hclosed x hlinked'.1
  last := by
    rcases hsent with rfl | rfl
    · simpa using hmail.last
    · refine List.pairwise_append.2 ⟨hmail.last, List.pairwise_singleton _ _, ?_⟩
      intro packet hpacket later hlater y source hclose
      obtain rfl := List.mem_singleton.1 hlater
      rintro htarget
      obtain rfl : peer = y := by simpa [Packet.target] using htarget
      exact hclse source (hclose ▸ hpacket)
  opening := by
    intro x destination hmem
    have hmem' : Packet.open x destination ∈ outbox := by
      rcases hsent with rfl | rfl <;> simpa using hmem
    have hx : x ≠ id := by
      rintro rfl
      exact hopening destination hmem'
    obtain ⟨hsocket, hpeer, hpeers, hempty⟩ := hmail.opening x destination hmem'
    rw [Party.connect_peerOf, if_neg hx, htakes.addressed hx]
    exact ⟨by simpa [hx] using hsocket, hpeer, hpeers, hempty⟩
  once := by
    rcases hsent with rfl | rfl
    · simpa using hmail.once
    · have hnone : [Packet.okay id peer].filterMap Packet.opened = [] := rfl
      rw [List.filterMap_append, hnone, List.append_nil]
      exact hmail.once
  greeting := by
    intro y x hnear hfar
    rw [Party.connect_peerOf] at hnear
    split at hnear
    · obtain rfl := Option.some.inj hnear
      subst x
      exact hgreeting hfar
    · obtain ⟨hsocket, rest, hrest⟩ := hmail.greeting y x hnear hfar
      exact ⟨hsocket, rest ++ addressed sent y, by simp [hrest]⟩

theorem Both.link
    (hboth : Both near far taken outbox) (htakes : Takes id taken inbox)
    {old : Asocket} (hold : near.sockets id = some old) (hnone : near.peerOf id = none)
    (hsent : sent = [] ∨ sent = [.okay id peer])
    (hmail : Mail (near.connect id (old.fdeventAdd fdeRead) peer) far inbox (outbox ++ sent))
    (hmail' : Mail far (near.connect id (old.fdeventAdd fdeRead) peer) (outbox ++ sent) inbox)
    (hhere : Stream (near.connect id (old.fdeventAdd fdeRead) peer) far inbox (outbox ++ sent)
      id peer)
    (hthere : Stream far (near.connect id (old.fdeventAdd fdeRead) peer) (outbox ++ sent) inbox
      peer id) :
    Both (near.connect id (old.fdeventAdd fdeRead) peer) far inbox (outbox ++ sent) := by
  have hlinked : Linked (near.connect id (old.fdeventAdd fdeRead) peer) far id peer := by
    simp [Linked, Party.connect_peerOf]
  have hothers : ∀ x y, Linked (near.connect id (old.fdeventAdd fdeRead) peer) far x y →
      x ≠ id → Linked near far x y := by
    intro x y hxy hx
    rwa [Linked, Party.connect_peerOf, if_neg hx] at hxy
  have hends : ∀ x y, x ≠ id → messages sent x y = [] ∧ readies sent x y = 0 := by
    intro x y hx
    rcases hsent with rfl | rfl
    · exact ⟨rfl, rfl⟩
    · exact ⟨messages_singleton_of_ne (by simp [Packet.ends, Ne.symm hx]),
        readies_singleton_of_ne (by simp [Packet.ends, Ne.symm hx])⟩
  refine ⟨⟨hboth.here.sound.connect hold hnone, hmail, ?_⟩, ⟨hboth.there.sound, hmail', ?_⟩⟩
  · intro x y hxy
    by_cases hx : x = id
    · subst hx
      rwa [hmail.link_unique hxy hlinked]
    · refine (hboth.here.streams x y (hothers x y hxy hx)).frame (by simp [hx]) rfl (by simp [hx])
        rfl rfl (htakes.ends hx).1.symm ?_
      rw [readies_append, (hends x y hx).2, Nat.add_zero]
  · intro y x hyx
    by_cases hx : x = id
    · subst hx
      rwa [hmail.link_unique (Linked.symm hyx) hlinked]
    · refine (hboth.there.streams y x (hothers x y (Linked.symm hyx) hx).symm).frame rfl rfl rfl
        (by simp [hx]) (by simp [hx]) ?_ (htakes.ends hx).2.symm
      rw [messages_append, (hends x y hx).1, List.append_nil]

end Link

/-- `A_OPEN` for a service that exists. -/
theorem Both.accept
    (hboth : Both near far inbox outbox) (hnear : Unknown near far inbox outbox id)
    (hfar : Unknown far near outbox inbox peer) {old : Asocket}
    (hold : near.sockets id = some old) :
    Both (near.connect id (old.fdeventAdd fdeRead) peer) far inbox (outbox ++ [.okay id peer]) := by
  have hmail := hboth.here.mail.link (old.fdeventAdd fdeRead) (.nothing inbox) hnear.peer
    (fun y hy => absurd hy (hnear.peers y)) (fun source hmem => absurd hmem (hnear.not_mem rfl))
    hfar.opening (Or.inr rfl)
  have hmail' := hboth.there.mail.linkBack (old.fdeventAdd fdeRead) (.nothing inbox) hnear.peer
    (hboth.there.sound.lt_nextId (Or.inl hfar.socket)) (Or.inl hfar.peer)
    (fun y hy => absurd hy (hnear.peers y)) hfar.peers
    (fun source => hfar.not_mem rfl) hnear.opening
    (fun _ => ⟨hfar.socket, [], by
      rw [addressed_append, hfar.addressed, List.nil_append]
      simp [addressed, Packet.target]⟩) (Or.inr rfl)
  have hidle := (hboth.here.sound.sockets id old hold).2.idle hnear.peer
  obtain ⟨hread, hwritten⟩ := hboth.here.sound.silent id hnear.peer
  obtain ⟨hread', hwritten'⟩ := hboth.there.sound.silent peer hfar.peer
  have hnothing : ∀ packet ∈ inbox, packet.ends ≠ some (peer, id) := by
    intro packet hpacket hends
    exact hnear.peers peer (hboth.here.mail.ends packet hpacket id peer hends)
  have hnothing' : ∀ packet ∈ outbox, packet.ends ≠ some (id, peer) := by
    intro packet hpacket hends
    exact hfar.peers id (hboth.there.mail.ends packet hpacket peer id hends)
  refine hboth.link (.nothing inbox) hold hnear.peer (Or.inr rfl) hmail hmail' ?_ ?_
  · refine ⟨?_, by simp⟩
    intro socket hsocket
    rw [Party.connect_sockets, Function.update_self] at hsocket
    obtain rfl := Option.some.inj hsocket
    refine ⟨false, ?_, ?_⟩
    · intro sender hsender
      exact ((hboth.there.sound.sockets peer sender hsender).2.idle hfar.peer).1
    · simpa [messages_eq_nil hnothing, readies_eq_zero hnothing', hread', hwritten,
        Asocket.fdeventAdd, hidle.2] using Flow.acknowledged []
  · refine ⟨?_, by simp [hfar.socket]⟩
    intro receiver hreceiver
    have hpkts := ((hboth.there.sound.sockets peer receiver hreceiver).2.idle hfar.peer).2
    refine ⟨true, ?_, ?_⟩
    · intro sender hsender
      rw [Party.connect_sockets, Function.update_self] at hsender
      obtain rfl := Option.some.inj hsender
      simp [Asocket.fdeventAdd, Events.union, fdeRead]
    · simpa [messages_eq_nil hnothing', readies_eq_zero hnothing, hread, hwritten', hpkts] using
        Flow.atSender []

/-- The first `A_OKAY` for a socket. -/
theorem Both.greet
    {old : Asocket} (hboth : Both near far (.okay peer id :: inbox) outbox)
    (hold : near.sockets id = some old) (hnone : near.peerOf id = none) :
    Both (near.connect id (old.fdeventAdd fdeRead) peer) far inbox outbox := by
  have hfar := hboth.here.mail.ends _ List.mem_cons_self id peer rfl
  have hlinked : Linked near far id peer := Or.inr hfar
  have hpeers : ∀ y, far.peerOf y = some id → y = peer :=
    fun y hy => hboth.here.mail.distinct id y peer hy hfar
  have hdistinct : ∀ x, near.peerOf x ≠ some peer := by
    intro x hx
    rcases hboth.there.mail.paired peer x hx with hpeer | hpeer
    · simp [hfar] at hpeer
    · obtain rfl : id = x := by simpa [hfar] using hpeer
      simp [hnone] at hx
  have hmail := hboth.here.mail.link (old.fdeventAdd fdeRead)
    (.packet inbox rfl) hnone hpeers
    (fun source hmem => (hboth.here.mail.clse id source hmem).2.1 peer hlinked)
    (fun destination hmem => by simp [(hboth.here.mail.opening peer _ hmem).2.1] at hfar)
    (Or.inl rfl)
  have hmail' := hboth.there.mail.linkBack (old.fdeventAdd fdeRead)
    (.packet inbox rfl) hnone (hboth.there.sound.lt_nextId (Or.inr (by simp [hfar])))
    (Or.inr hfar) hpeers hdistinct
    (fun source hmem => by
      simp [(hboth.there.mail.clse peer source hmem).2.1 id hlinked.symm] at hold)
    (fun destination hmem => (hboth.there.mail.opening id _ hmem).2.2.1 peer hfar)
    (by simp [hfar]) (Or.inl rfl)
  have hresult := hboth.link (.packet inbox rfl) hold hnone (Or.inl rfl) hmail hmail'
  rw [List.append_nil] at hresult
  apply hresult
  · refine ⟨?_, by simp⟩
    intro socket hsocket
    rw [Party.connect_sockets, Function.update_self] at hsocket
    obtain rfl := Option.some.inj hsocket
    simpa [Asocket.fdeventAdd] using (hboth.here.streams id peer hlinked).running old hold
  · apply (hboth.there.streams peer id hlinked.symm).acknowledged
    · simp
    · intro socket hsocket
      rw [Party.connect_sockets, Function.update_self] at hsocket
      obtain rfl := Option.some.inj hsocket
      simp [Asocket.fdeventAdd, Events.union, fdeRead]

end OpenRecovery.Adb
