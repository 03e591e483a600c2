import OpenRecovery.AdbSockets
import OpenRecovery.Words
import Mathlib

/-!
# `transport.c`: packets as bytes

A packet is sent as a header of six words, followed by its data.  The header repeats the
command for a check, and carries the sum of the data.
-/

namespace OpenRecovery.Adb

open Words

/-! ## Headers -/

/-- `amessage`. -/
structure Amessage where
  command : BitVec 32
  arg0 : BitVec 32
  arg1 : BitVec 32
  dataLength : BitVec 32
  dataCheck : BitVec 32
  magic : BitVec 32
deriving DecidableEq

def aOpen : BitVec 32 := 0x4e45504f

def aOkay : BitVec 32 := 0x59414b4f

def aClse : BitVec 32 := 0x45534c43

def aWrte : BitVec 32 := 0x45545257

/-- The sum of the data, as `send_packet` and `check_data` compute it. -/
def dataSum : Bytes → BitVec 32 → BitVec 32
  | [], sum => sum
  | x :: rest, sum => dataSum rest (sum + x.toBitVec.zeroExtend 32)

/-- `send_packet`: the header that goes to the transport; `data` has the length that the
header says. -/
def sendPacket (msg : Amessage) (data : Bytes) : Amessage :=
  { msg with magic := msg.command ^^^ 0xffffffff, dataCheck := dataSum data 0 }

/-- `check_header` returns 0. -/
def checkHeader (msg : Amessage) : Bool :=
  msg.magic = msg.command ^^^ 0xffffffff ∧ ¬ maxPayload < msg.dataLength.toNat

/-- `check_data` returns 0. -/
def checkData (msg : Amessage) (data : Bytes) : Bool :=
  dataSum data 0 = msg.dataCheck

/-! ## Bytes -/

def wordBytes (word : BitVec 32) : Bytes :=
  leBytes 4 word.toNat

/-- The word at an offset of a header. -/
def wordAt (bytes : Bytes) (offset : Nat) : BitVec 32 :=
  BitVec.ofNat 32 (leNat ((bytes.drop offset).take 4))

/-- A header in memory. -/
def Amessage.bytes (msg : Amessage) : Bytes :=
  wordBytes msg.command ++ (wordBytes msg.arg0 ++ (wordBytes msg.arg1 ++
    (wordBytes msg.dataLength ++ (wordBytes msg.dataCheck ++ wordBytes msg.magic))))

def Amessage.ofBytes (bytes : Bytes) : Amessage where
  command := wordAt bytes 0
  arg0 := wordAt bytes 4
  arg1 := wordAt bytes 8
  dataLength := wordAt bytes 12
  dataCheck := wordAt bytes 16
  magic := wordAt bytes 20

def Amessage.size : Nat := 24

/-- `remote_write`. -/
def remoteWrite (msg : Amessage) (data : Bytes) : Bytes :=
  msg.bytes ++ data

/-- `readx`: the bytes and what comes after them, if there are enough. -/
def readx (stream : Bytes) (len : Nat) : Option (Bytes × Bytes) :=
  if stream.length < len then none else some (stream.take len, stream.drop len)

/-- `remote_read`: a packet and what comes after it; nothing if it returns -1. -/
def remoteRead (stream : Bytes) : Option ((Amessage × Bytes) × Bytes) := do
  let (header, stream) ← readx stream Amessage.size
  let msg := Amessage.ofBytes header
  if !checkHeader msg then none
  else
    let (data, stream) ← readx stream msg.dataLength.toNat
    if !checkData msg data then none else some ((msg, data), stream)

/-! ## What the header says -/

/-- The header and the data of the packet that `connect_to_remote`, `send_ready`,
`send_close` and the remote sockets make. -/
def Packet.message : Packet → Amessage × Bytes
  | .open arg0 data => (⟨aOpen, .ofNat 32 arg0, 0, .ofNat 32 data.length, 0, 0⟩, data)
  | .okay arg0 arg1 => (⟨aOkay, .ofNat 32 arg0, .ofNat 32 arg1, 0, 0, 0⟩, [])
  | .clse arg0 arg1 => (⟨aClse, .ofNat 32 arg0, .ofNat 32 arg1, 0, 0, 0⟩, [])
  | .wrte arg0 arg1 data =>
      (⟨aWrte, .ofNat 32 arg0, .ofNat 32 arg1, .ofNat 32 data.length, 0, 0⟩, data)

/-- What `handle_packet` sees in a packet, if it is one of the four. -/
def Packet.ofMessage (msg : Amessage) (data : Bytes) : Option Packet :=
  if msg.command = aOpen then some (.open msg.arg0.toNat data)
  else if msg.command = aOkay then some (.okay msg.arg0.toNat msg.arg1.toNat)
  else if msg.command = aClse then some (.clse msg.arg0.toNat msg.arg1.toNat)
  else if msg.command = aWrte then some (.wrte msg.arg0.toNat msg.arg1.toNat data)
  else none

/-- The bytes of a packet on the wire. -/
def Packet.wire (packet : Packet) : Bytes :=
  remoteWrite (sendPacket packet.message.1 packet.message.2) packet.message.2

/-! ## Words -/

@[simp] theorem wordBytes_length (word : BitVec 32) : (wordBytes word).length = 4 := by
  simp [wordBytes]

theorem wordAt_wordBytes
    (before : Bytes) (word : BitVec 32) (after : Bytes) {offset : Nat}
    (hoffset : before.length = offset) :
    wordAt (before ++ (wordBytes word ++ after)) offset = word := by
  unfold wordAt
  rw [List.drop_left' hoffset, List.take_left' (wordBytes_length word), wordBytes,
    leNat_leBytes_of_lt word.isLt, BitVec.ofNat_toNat, BitVec.setWidth_eq]

theorem leBytes_leNat (bytes : Bytes) : leBytes bytes.length (leNat bytes) = bytes := by
  induction bytes with
  | nil => rfl
  | cons byte bytes ih =>
      have hdiv : (byte.toNat + 256 * leNat bytes) / 256 = leNat bytes := by
        have := byte.toNat_lt
        omega
      have hbyte : UInt8.ofNat (byte.toNat + 256 * leNat bytes) = byte := by
        apply UInt8.toNat_inj.1
        have := byte.toNat_lt
        rw [UInt8.toNat_ofNat']
        omega
      rw [List.length_cons, leBytes, leNat, hdiv, hbyte, ih]

theorem wordBytes_wordAt
    (bytes : Bytes) (offset : Nat) (hlength : offset + 4 ≤ bytes.length) :
    wordBytes (wordAt bytes offset) = (bytes.drop offset).take 4 := by
  have hfour : ((bytes.drop offset).take 4).length = 4 := by
    rw [List.length_take, List.length_drop]
    omega
  have hlt := leNat_lt ((bytes.drop offset).take 4)
  rw [hfour] at hlt
  unfold wordBytes wordAt
  rw [BitVec.toNat_ofNat, Nat.mod_eq_of_lt (by omega)]
  simpa [hfour] using leBytes_leNat ((bytes.drop offset).take 4)

/-! ## Headers and their bytes -/

@[simp] theorem Amessage.bytes_length (msg : Amessage) : msg.bytes.length = Amessage.size := by
  simp [Amessage.bytes, Amessage.size]

theorem Amessage.ofBytes_bytes (msg : Amessage) : Amessage.ofBytes msg.bytes = msg := by
  have hcommand : wordAt msg.bytes 0 = msg.command :=
    wordAt_wordBytes [] _ _ rfl
  have harg0 : wordAt msg.bytes 4 = msg.arg0 :=
    wordAt_wordBytes (wordBytes msg.command) _ _ (by simp)
  have harg1 : wordAt msg.bytes 8 = msg.arg1 := by
    simpa [Amessage.bytes] using wordAt_wordBytes
      (wordBytes msg.command ++ wordBytes msg.arg0) msg.arg1
      (wordBytes msg.dataLength ++ (wordBytes msg.dataCheck ++ wordBytes msg.magic)) rfl
  have hlength : wordAt msg.bytes 12 = msg.dataLength := by
    simpa [Amessage.bytes] using wordAt_wordBytes
      (wordBytes msg.command ++ (wordBytes msg.arg0 ++ wordBytes msg.arg1)) msg.dataLength
      (wordBytes msg.dataCheck ++ wordBytes msg.magic) rfl
  have hcheck : wordAt msg.bytes 16 = msg.dataCheck := by
    simpa [Amessage.bytes] using wordAt_wordBytes
      (wordBytes msg.command ++ (wordBytes msg.arg0 ++ (wordBytes msg.arg1 ++
        wordBytes msg.dataLength))) msg.dataCheck (wordBytes msg.magic) rfl
  have hmagic : wordAt msg.bytes 20 = msg.magic := by
    simpa [Amessage.bytes] using wordAt_wordBytes
      (wordBytes msg.command ++ (wordBytes msg.arg0 ++ (wordBytes msg.arg1 ++
        (wordBytes msg.dataLength ++ wordBytes msg.dataCheck)))) msg.magic [] rfl
  unfold Amessage.ofBytes
  rw [hcommand, harg0, harg1, hlength, hcheck, hmagic]

theorem Amessage.bytes_ofBytes
    {header : Bytes} (hlength : header.length = Amessage.size) :
    (Amessage.ofBytes header).bytes = header := by
  unfold Amessage.size at hlength
  have hslice : ∀ offset, (header.drop offset).take 4 ++ header.drop (offset + 4) =
      header.drop offset := by
    intro offset
    rw [← List.drop_drop, List.take_append_drop]
  have hlast : (header.drop 20).take 4 = header.drop 20 := by
    apply List.take_of_length_le
    rw [List.length_drop]
    omega
  simp only [Amessage.bytes, Amessage.ofBytes]
  rw [wordBytes_wordAt header 0 (by omega), wordBytes_wordAt header 4 (by omega),
    wordBytes_wordAt header 8 (by omega), wordBytes_wordAt header 12 (by omega),
    wordBytes_wordAt header 16 (by omega), wordBytes_wordAt header 20 (by omega), hlast,
    hslice 16, hslice 12, hslice 8, hslice 4, hslice 0, List.drop_zero]

/-! ## Packets and their bytes -/

theorem readx_append
    (bytes rest : Bytes) {len : Nat} (hlen : bytes.length = len) :
    readx (bytes ++ rest) len = some (bytes, rest) := by
  unfold readx
  rw [if_neg (by simp [← hlen]), List.take_left' hlen, List.drop_left' hlen]

theorem readx_eq_some
    {stream bytes rest : Bytes} {len : Nat} (hread : readx stream len = some (bytes, rest)) :
    stream = bytes ++ rest ∧ bytes.length = len := by
  unfold readx at hread
  split at hread
  · simp at hread
  · simp only [Option.some.injEq, Prod.mk.injEq] at hread
    obtain ⟨rfl, rfl⟩ := hread
    refine ⟨(List.take_append_drop _ _).symm, ?_⟩
    rw [List.length_take]
    omega

/-- `remote_read` accepts exactly what `send_packet` and `remote_write` make of some
packet whose data is no longer than `MAX_PAYLOAD`. -/
theorem remoteRead_eq_some_iff
    (stream : Bytes) (msg : Amessage) (data rest : Bytes) :
    remoteRead stream = some ((msg, data), rest) ↔
      stream = remoteWrite msg data ++ rest ∧ msg = sendPacket msg data ∧
        msg.dataLength.toNat = data.length ∧ data.length ≤ maxPayload := by
  constructor
  · intro hread
    unfold remoteRead at hread
    simp only [Option.bind_eq_bind, Option.bind_eq_some_iff, Prod.exists] at hread
    obtain ⟨header, stream', hheader, hread⟩ := hread
    obtain ⟨rfl, hlength⟩ := readx_eq_some hheader
    split at hread
    · simp at hread
    · rename_i hcheck
      simp only [Option.bind_eq_some_iff, Prod.exists] at hread
      obtain ⟨data', stream'', hdata, hread⟩ := hread
      obtain ⟨rfl, hlength'⟩ := readx_eq_some hdata
      split at hread
      · simp at hread
      · rename_i hsum
        simp only [Option.some.injEq, Prod.mk.injEq] at hread
        obtain ⟨⟨rfl, rfl⟩, rfl⟩ := hread
        simp only [checkHeader, Bool.not_eq_true', Bool.not_eq_false, decide_eq_true_eq] at hcheck
        simp only [checkData, Bool.not_eq_true', Bool.not_eq_false, decide_eq_true_eq] at hsum
        refine ⟨?_, ?_, hlength'.symm, by omega⟩
        · rw [remoteWrite, Amessage.bytes_ofBytes hlength, List.append_assoc]
        · unfold sendPacket
          rw [hsum, ← hcheck.1]
  · rintro ⟨rfl, hmsg, hlength, hdata⟩
    have hmagic : msg.magic = msg.command ^^^ 0xffffffff := congrArg Amessage.magic hmsg
    have hcheck : msg.dataCheck = dataSum data 0 := congrArg Amessage.dataCheck hmsg
    have hheader : checkHeader msg = true := by
      simp only [checkHeader, decide_eq_true_eq]
      exact ⟨hmagic, by omega⟩
    have hsum : checkData msg data = true := by
      simp [checkData, hcheck]
    unfold remoteRead
    rw [remoteWrite, List.append_assoc, readx_append _ _ msg.bytes_length]
    simp only [Option.bind_eq_bind, Option.bind_some, Amessage.ofBytes_bytes, hheader,
      Bool.not_true, Bool.false_eq_true, if_false]
    rw [readx_append data rest hlength.symm]
    simp [hsum]

end OpenRecovery.Adb
