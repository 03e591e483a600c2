import OpenRecovery.Updater
import Mathlib

/-!
# Hashes as text

`ParseSha1` reads forty hexadecimal digits of a string and puts two of them together to a byte
of the digest.  Reading behind the terminator and writing behind the digest are faults.
-/

namespace OpenRecovery.Sha1Text

open Effects

/-! ## The decoder -/

inductive Fault where
  | textRead
  | digestWrite
  deriving DecidableEq

def digitOf (c : UInt8) : Option UInt8 :=
  if 48 ≤ c ∧ c ≤ 57 then some (c - 48)
  else if 97 ≤ c ∧ c ≤ 102 then some (c - 97 + 10)
  else if 65 ≤ c ∧ c ≤ 70 then some (c - 65 + 10)
  else none

/-- The first digit of a byte replaces it, the second one is added. -/
def putDigit (digest : Bytes) (i : Nat) (digit : UInt8) : Except Fault Bytes :=
  match digest[i / 2]? with
  | none => .error .digestWrite
  | some byte => .ok (digest.set (i / 2) (if i % 2 = 0 then digit <<< 4 else byte ||| digit))

/-- The loop from digit `i` on, with what it returns and the digest it leaves. -/
def parseFrom (memory : Bytes) : (left i : Nat) → (digest : Bytes) → Except Fault (Int × Bytes)
  | left, i, digest =>
      match memory[i]? with
      | none => .error .textRead
      | some c =>
          match left with
          | 0 => .ok (if c ≠ 0 then -1 else 0, digest)
          | left + 1 =>
              match digitOf c with
              | none => .ok (-1, digest)
              | some digit => do
                  let digest ← putDigit digest i digit
                  parseFrom memory left (i + 1) digest

/-- `ParseSha1` of the string at the start of a memory area. -/
def parseSha1 (memory digest : Bytes) : Except Fault (Int × Bytes) :=
  parseFrom memory 40 0 digest

def alphabet : Bytes :=
  ascii "0123456789abcdef"

/-- `PrintSha1`, without the terminator. -/
def printSha1 (digest : Digest) : Bytes :=
  digest.toList.flatMap fun (byte : UInt8) =>
    [(byte >>> 4) &&& 0xF, byte &&& 0xF].map fun digit => alphabet.getD digit.toNat 0

/-! ## Texts of digests -/

/-- Digits, of either case, and the bytes that each two of them denote. -/
inductive Denotes : Bytes → Bytes → Prop where
  | nil : Denotes [] []
  | pair {high low highDigit lowDigit : UInt8} {digits bytes : Bytes}
      (hhigh : digitOf high = some highDigit) (hlow : digitOf low = some lowDigit)
      (hrest : Denotes digits bytes) :
      Denotes (high :: low :: digits) ((16 * highDigit + lowDigit) :: bytes)

def colon : UInt8 := 58

/-- `<digest>` or `<digest>:<anything>`. -/
def IsDigestText (text digest : Bytes) : Prop :=
  ∃ digits rest, text = digits ++ rest ∧ Denotes digits digest ∧ digest.length = 20 ∧
    (rest = [] ∨ rest.head? = some colon)

/-- A string without its terminator. -/
abbrev CText := { text : Bytes // ∀ c ∈ text, c ≠ 0 }

/-- A string is read up to its terminator at most, it is accepted if it is the text of a digest
and no other string is, and the digest is stored then. -/
def MeetsContract (text : CText) : Prop :=
  ∀ before : List.Vector UInt8 20, ∃ code digest,
    parseSha1 (text.val ++ [0]) before.toList = .ok (code, digest) ∧
      (code = 0 ↔ ∃ bytes, IsDigestText text.val bytes) ∧
      ∀ bytes, IsDigestText text.val bytes → digest = bytes

section Denoting

theorem Denotes.length {digits bytes : Bytes} (hdenotes : Denotes digits bytes) :
    digits.length = 2 * bytes.length := by
  induction hdenotes with
  | nil => rfl
  | pair hhigh hlow hrest ih =>
      rw [List.length_cons, List.length_cons, List.length_cons, ih]
      omega

theorem Denotes.unique {digits bytes bytes' : Bytes} (hdenotes : Denotes digits bytes)
    (hdenotes' : Denotes digits bytes') : bytes = bytes' := by
  induction hdenotes generalizing bytes' with
  | nil =>
      cases hdenotes'
      rfl
  | pair hhigh hlow hrest ih =>
      cases hdenotes' with
      | pair hhigh' hlow' hrest' =>
          cases hhigh.symm.trans hhigh'
          cases hlow.symm.trans hlow'
          rw [ih hrest']

theorem digitOf_lt {c digit : UInt8} (hdigit : digitOf c = some digit) : digit < 16 := by
  unfold digitOf at hdigit
  split_ifs at hdigit with hdecimal hlower hupper
  all_goals
    cases hdigit
    grind

/-- Two digits in a byte. -/
theorem shift_or_digit {high low : UInt8} (hhigh : high < 16) (hlow : low < 16) :
    high <<< 4 ||| low = 16 * high + low := by
  have hlow' : low.toNat < 2 ^ 4 := hlow
  have hfits : high.toNat <<< 4 < 2 ^ 8 := by
    have hhigh' : high.toNat < 16 := hhigh
    rw [Nat.shiftLeft_eq]
    omega
  have hdisjoint := Nat.shiftLeft_add_eq_or_of_lt hlow' high.toNat
  rw [← UInt8.toNat_inj, UInt8.toNat_or, UInt8.toNat_shiftLeft, UInt8.toNat_add, UInt8.toNat_mul]
  change high.toNat <<< 4 % 2 ^ 8 ||| low.toNat = _
  rw [Nat.mod_eq_of_lt hfits, ← hdisjoint, Nat.shiftLeft_eq]
  simp only [UInt8.toNat_ofNat]
  omega

end Denoting

/-! ## The loop -/

section Loop

variable {memory digest : Bytes} {i left : Nat} {c : UInt8}

theorem parseFrom_end (hc : memory[i]? = some c) :
    parseFrom memory 0 i digest = .ok (if c ≠ 0 then -1 else 0, digest) := by
  rw [parseFrom, hc]

theorem parseFrom_stop (hc : memory[i]? = some c) (hdigit : digitOf c = none) :
    parseFrom memory (left + 1) i digest = .ok (-1, digest) := by
  rw [parseFrom, hc]
  dsimp only
  rw [hdigit]

theorem parseFrom_digit {digit : UInt8} {next : Bytes} (hc : memory[i]? = some c)
    (hdigit : digitOf c = some digit) (hput : putDigit digest i digit = .ok next) :
    parseFrom memory (left + 1) i digest = parseFrom memory left (i + 1) next := by
  rw [parseFrom, hc]
  dsimp only
  rw [hdigit]
  dsimp only
  rw [hput]
  rfl

theorem putDigit_first {done old : Bytes} {byte : UInt8} (hi : i = 2 * done.length)
    (digit : UInt8) :
    putDigit (done ++ byte :: old) i digit = .ok (done ++ (digit <<< 4) :: old) := by
  have hplace : i / 2 = done.length := by omega
  rw [putDigit, hplace, List.getElem?_append_right le_rfl, Nat.sub_self, List.getElem?_cons_zero]
  dsimp only
  rw [if_pos (by omega), List.set_append_right _ _ le_rfl, Nat.sub_self, List.set_cons_zero]

theorem putDigit_second {done old : Bytes} {byte : UInt8} (hi : i = 2 * done.length + 1)
    (digit : UInt8) :
    putDigit (done ++ byte :: old) i digit = .ok (done ++ (byte ||| digit) :: old) := by
  have hplace : i / 2 = done.length := by omega
  rw [putDigit, hplace, List.getElem?_append_right le_rfl, Nat.sub_self, List.getElem?_cons_zero]
  dsimp only
  rw [if_neg (by omega), List.set_append_right _ _ le_rfl, Nat.sub_self, List.set_cons_zero]

/-- The text starts with the digits of some bytes. -/
def StartsWithBytes (count : Nat) (text bytes rest : Bytes) : Prop :=
  ∃ digits, text = digits ++ rest ∧ bytes.length = count ∧ Denotes digits bytes

theorem StartsWithBytes.pair {count : Nat} {first second : UInt8} {text bytes rest : Bytes}
    (hstarts : StartsWithBytes (count + 1) (first :: second :: text) bytes rest) :
    ∃ highDigit lowDigit more, digitOf first = some highDigit ∧ digitOf second = some lowDigit ∧
      bytes = (16 * highDigit + lowDigit) :: more ∧ StartsWithBytes count text more rest := by
  obtain ⟨digits, hsplit, hlength, hdenotes⟩ := hstarts
  cases hdenotes with
  | nil => cases hlength
  | pair hhigh hlow hrest =>
      simp only [List.cons_append, List.cons.injEq] at hsplit
      obtain ⟨rfl, rfl, hsplit⟩ := hsplit
      exact ⟨_, _, _, hhigh, hlow, rfl, _, hsplit, Nat.succ.inj hlength, hrest⟩

theorem StartsWithBytes.two_le {count : Nat} {text bytes rest : Bytes}
    (hstarts : StartsWithBytes (count + 1) text bytes rest) : 2 ≤ text.length := by
  obtain ⟨digits, hsplit, hlength, hdenotes⟩ := hstarts
  rw [hsplit, List.length_append, hdenotes.length]
  omega

theorem text_at {front : Bytes} {start : Nat} (hfront : front.length = start) (text : Bytes)
    (k : Nat) : (front ++ text)[start + k]? = text[k]? := by
  rw [List.getElem?_append_right (by omega), hfront, Nat.add_sub_cancel_left]

/-- The loop over the digits of as many bytes as the digest still needs: it goes on to the
digits' end, or stops with an error at the first character that is none. -/
theorem parseFrom_spec {count : Nat} {front text done old : Bytes}
    (htext : ∀ c ∈ text, c ≠ 0) (hfront : front.length = 2 * done.length)
    (hold : old.length = count) :
    (∃ bytes rest, StartsWithBytes count text bytes rest ∧
      parseFrom (front ++ (text ++ [0])) (2 * count) (2 * done.length) (done ++ old) =
        .ok (if rest = [] then 0 else -1, done ++ bytes)) ∨
    (¬∃ bytes rest, StartsWithBytes count text bytes rest) ∧ ∃ digest,
      parseFrom (front ++ (text ++ [0])) (2 * count) (2 * done.length) (done ++ old) =
        .ok (-1, digest) := by
  induction count generalizing front text done old with
  | zero =>
      refine .inl ⟨[], text, ⟨[], rfl, rfl, .nil⟩, ?_⟩
      rw [List.length_eq_zero_iff.mp hold]
      have hfirst := text_at hfront (text ++ [0]) 0
      rw [Nat.add_zero] at hfirst
      cases text with
      | nil => exact parseFrom_end hfirst
      | cons c text =>
          rw [if_neg nofun, Nat.mul_zero, parseFrom_end hfirst,
            if_pos (htext c List.mem_cons_self)]
  | succ count ih =>
      obtain ⟨byte, old, rfl⟩ := List.exists_cons_of_length_eq_add_one hold
      have hold' : old.length = count := Nat.succ.inj hold
      have hfirst := text_at hfront (text ++ [0]) 0
      have hsecond := text_at hfront (text ++ [0]) 1
      cases text with
      | nil =>
          refine .inr ⟨fun ⟨_, _, hstarts⟩ => absurd hstarts.two_le (by decide),
            done ++ byte :: old, ?_⟩
          exact parseFrom_stop hfirst (by decide)
      | cons first text =>
          cases hhigh : digitOf first with
          | none =>
              refine .inr ⟨?_, _, parseFrom_stop hfirst hhigh⟩
              rintro ⟨bytes, rest, hstarts⟩
              cases text with
              | nil => exact absurd hstarts.two_le (by simp)
              | cons second text =>
                  obtain ⟨_, _, _, hdigit, -⟩ := hstarts.pair
                  rw [hhigh] at hdigit
                  cases hdigit
          | some high =>
              have hput := @putDigit_first (2 * done.length) done old byte rfl high
              have hgo : parseFrom (front ++ (first :: text ++ [0])) (2 * (count + 1))
                    (2 * done.length) (done ++ byte :: old) =
                  parseFrom (front ++ (first :: text ++ [0])) (2 * count + 1)
                    (2 * done.length + 1) (done ++ (high <<< 4) :: old) :=
                parseFrom_digit hfirst hhigh hput
              rw [hgo]
              cases text with
              | nil =>
                  refine .inr ⟨fun ⟨_, _, hstarts⟩ => absurd hstarts.two_le (by simp),
                    done ++ (high <<< 4) :: old, ?_⟩
                  exact parseFrom_stop hsecond (by decide)
              | cons second text =>
                  cases hlow : digitOf second with
                  | none =>
                      refine .inr ⟨?_, _, parseFrom_stop hsecond hlow⟩
                      rintro ⟨bytes, rest, hstarts⟩
                      obtain ⟨_, _, _, -, hdigit, -⟩ := hstarts.pair
                      rw [hlow] at hdigit
                      cases hdigit
                  | some low =>
                      have hput' := @putDigit_second (2 * done.length + 1) done old (high <<< 4)
                        rfl low
                      rw [parseFrom_digit hsecond hlow hput',
                        shift_or_digit (digitOf_lt hhigh) (digitOf_lt hlow)]
                      obtain ⟨value, hvalue⟩ : ∃ value, value = 16 * high + low := ⟨_, rfl⟩
                      have htext' : ∀ c ∈ text, c ≠ 0 := fun c hc =>
                        htext c (List.mem_cons_of_mem _ (List.mem_cons_of_mem _ hc))
                      have hlength : (done ++ [value]).length = done.length + 1 :=
                        List.length_append
                      have hfront' : (front ++ [first, second]).length =
                          2 * (done ++ [value]).length := by
                        rw [List.length_append, hfront, hlength]
                        rfl
                      have hmemory : front ++ [first, second] ++ (text ++ [0]) =
                          front ++ (first :: second :: text ++ [0]) := by
                        simp only [List.append_assoc, List.cons_append, List.nil_append]
                      have hmore := ih htext' hfront' hold'
                      rw [hmemory, hlength, List.append_assoc, List.singleton_append] at hmore
                      rw [← hvalue]
                      rcases hmore with ⟨bytes, rest, hstarts, hresult⟩ | ⟨hnone, hresult⟩
                      · refine .inl ⟨value :: bytes, rest, ?_, ?_⟩
                        · obtain ⟨digits, hsplit, hbytes, hdenotes⟩ := hstarts
                          refine ⟨first :: second :: digits, by rw [hsplit]; rfl,
                            congrArg Nat.succ hbytes, ?_⟩
                          rw [hvalue]
                          exact .pair hhigh hlow hdenotes
                        · rw [List.append_assoc] at hresult
                          exact hresult
                      · refine .inr ⟨?_, hresult⟩
                        rintro ⟨bytes, rest, hstarts⟩
                        obtain ⟨_, _, more, -, -, -, hmore⟩ := hstarts.pair
                        exact hnone ⟨more, rest, hmore⟩

end Loop

/-! ## Strings of digests -/

/-- A digest with a colon behind it. -/
def HasSuffix (text : Bytes) : Prop :=
  ∃ bytes rest, StartsWithBytes 20 text bytes (colon :: rest)

/-- What a string gives: a digest if the whole string is one, and an error otherwise. -/
theorem parseSha1_spec (text : CText) (before : List.Vector UInt8 20) :
    (∃ bytes rest, StartsWithBytes 20 text.val bytes rest ∧
      parseSha1 (text.val ++ [0]) before.toList = .ok (if rest = [] then 0 else -1, bytes)) ∨
    (¬∃ bytes rest, StartsWithBytes 20 text.val bytes rest) ∧ ∃ digest,
      parseSha1 (text.val ++ [0]) before.toList = .ok (-1, digest) :=
  @parseFrom_spec 20 [] text.val [] before.toList text.property rfl before.toList_length

/-- A text has one digest and one rest. -/
theorem StartsWithBytes.unique {count : Nat} {text bytes bytes' rest rest' : Bytes}
    (hstarts : StartsWithBytes count text bytes rest)
    (hstarts' : StartsWithBytes count text bytes' rest') : bytes = bytes' ∧ rest = rest' := by
  obtain ⟨digits, hsplit, hlength, hdenotes⟩ := hstarts
  obtain ⟨digits', hsplit', hlength', hdenotes'⟩ := hstarts'
  obtain ⟨rfl, rfl⟩ := List.append_inj (hsplit.symm.trans hsplit')
    (by rw [hdenotes.length, hdenotes'.length, hlength, hlength'])
  exact ⟨hdenotes.unique hdenotes', rfl⟩

theorem StartsWithBytes.isDigestText {text bytes rest : Bytes}
    (hstarts : StartsWithBytes 20 text bytes rest) (hrest : rest = [] ∨ rest.head? = some colon) :
    IsDigestText text bytes := by
  obtain ⟨digits, hsplit, hlength, hdenotes⟩ := hstarts
  exact ⟨digits, rest, hsplit, hdenotes, hlength, hrest⟩

theorem IsDigestText.eq {text bytes bytes' rest : Bytes} (htext : IsDigestText text bytes')
    (hstarts : StartsWithBytes 20 text bytes rest) :
    bytes = bytes' ∧ (rest = [] ∨ rest.head? = some colon) := by
  obtain ⟨digits, rest', hsplit, hdenotes, hlength, hrest⟩ := htext
  obtain ⟨hbytes, hsame⟩ := hstarts.unique ⟨digits, hsplit, hlength, hdenotes⟩
  exact ⟨hbytes, hsame ▸ hrest⟩

/-- The contract is kept exactly on the strings that are no digest with a suffix. -/
theorem meetsContract_iff_not_hasSuffix (text : CText) :
    MeetsContract text ↔ ¬HasSuffix text.val := by
  constructor
  · rintro hmeets ⟨bytes, rest, hstarts⟩
    obtain ⟨code, digest, hparse, hcode, -⟩ := hmeets (List.Vector.replicate 20 0)
    have hzero : code = 0 := hcode.mpr ⟨bytes, hstarts.isDigestText (.inr rfl)⟩
    rcases parseSha1_spec text (List.Vector.replicate 20 0) with
      ⟨bytes', rest', hstarts', hresult⟩ | ⟨hnone, -⟩
    · rw [hresult, ← (hstarts.unique hstarts').2, if_neg nofun] at hparse
      cases hparse
      exact absurd hzero (by decide)
    · exact hnone ⟨bytes, _, hstarts⟩
  · intro hsuffix before
    rcases parseSha1_spec text before with ⟨bytes, rest, hstarts, hresult⟩ | ⟨hnone, digest, hresult⟩
    · refine ⟨_, bytes, hresult, ?_, fun bytes' htext => (htext.eq hstarts).1⟩
      cases rest with
      | nil =>
          rw [if_pos rfl]
          exact iff_of_true rfl ⟨bytes, hstarts.isDigestText (.inl rfl)⟩
      | cons c rest =>
          rw [if_neg nofun]
          refine iff_of_false (by decide) ?_
          rintro ⟨bytes', htext⟩
          rcases (htext.eq hstarts).2 with hnil | hcolon
          · cases hnil
          · cases hcolon
            exact hsuffix ⟨bytes, rest, hstarts⟩
    · have hno : ∀ bytes, ¬IsDigestText text.val bytes := by
        rintro bytes ⟨digits, rest, hsplit, hdenotes, hlength, -⟩
        exact hnone ⟨bytes, rest, digits, hsplit, hlength, hdenotes⟩
      exact ⟨-1, digest, hresult, iff_of_false (by decide) fun ⟨bytes, htext⟩ => hno bytes htext,
        fun bytes htext => absurd htext (hno bytes)⟩

/-! ## Printed digests -/

theorem highDigit_eq (byte : UInt8) : (byte >>> 4) &&& 0xF = byte / 16 := by
  rw [← UInt8.toNat_inj, UInt8.toNat_and, UInt8.toNat_shiftRight, UInt8.toNat_div]
  change byte.toNat >>> 4 &&& 2 ^ 4 - 1 = byte.toNat / 16
  rw [Nat.and_two_pow_sub_one_eq_mod, Nat.shiftRight_eq_div_pow]
  have hlt := byte.toNat_lt
  omega

theorem lowDigit_eq (byte : UInt8) : byte &&& 0xF = byte % 16 := by
  rw [← UInt8.toNat_inj, UInt8.toNat_and, UInt8.toNat_mod]
  exact Nat.and_two_pow_sub_one_eq_mod byte.toNat 4

theorem alphabet_digit {digit : UInt8} (hdigit : digit < 16) :
    digitOf (alphabet.getD digit.toNat 0) = some digit ∧
      alphabet.getD digit.toNat 0 = if digit < 10 then 48 + digit else 87 + digit := by
  have hall : ∀ n : Fin 16, digitOf (alphabet.getD n 0) = some (UInt8.ofNat n) ∧
      alphabet.getD n 0 = if UInt8.ofNat n < 10 then 48 + UInt8.ofNat n else 87 + UInt8.ofNat n := by
    decide
  have hn := hall ⟨digit.toNat, hdigit⟩
  rwa [UInt8.ofNat_toNat] at hn

/-- The digits of a byte, and those of the hash functions of the scripts. -/
theorem alphabet_digits (byte : UInt8) :
    digitOf (alphabet.getD ((byte >>> 4) &&& 0xF).toNat 0) = some (byte / 16) ∧
      digitOf (alphabet.getD (byte &&& 0xF).toNat 0) = some (byte % 16) ∧
      16 * (byte / 16) + byte % 16 = byte ∧
      [(byte >>> 4) &&& 0xF, byte &&& 0xF].map (fun digit => alphabet.getD digit.toNat 0) =
        [byte / 16, byte % 16].map fun digit => if digit < 10 then 48 + digit else 87 + digit := by
  obtain ⟨hhigh, hhigh'⟩ := @alphabet_digit (byte / 16) (by grind)
  obtain ⟨hlow, hlow'⟩ := @alphabet_digit (byte % 16) (by grind)
  rw [highDigit_eq, lowDigit_eq]
  refine ⟨hhigh, hlow, by grind, ?_⟩
  rw [List.map_cons, List.map_singleton, hhigh', hlow']
  rfl

theorem printSha1_eq (digest : Digest) : printSha1 digest = Edify.printSha1 digest :=
  List.flatMap_congr fun byte _ => (alphabet_digits byte).2.2.2

theorem denotes_printSha1 (digest : Digest) : Denotes (printSha1 digest) digest.toList := by
  rw [printSha1]
  generalize digest.toList = bytes
  induction bytes with
  | nil => exact .nil
  | cons byte bytes ih =>
      obtain ⟨hhigh, hlow, hbyte, -⟩ := alphabet_digits byte
      have hpair := Denotes.pair hhigh hlow ih
      rw [hbyte] at hpair
      exact hpair

theorem printSha1_ne_zero (digest : Digest) : ∀ c ∈ printSha1 digest, c ≠ 0 := by
  have hdenotes := denotes_printSha1 digest
  generalize printSha1 digest = text at hdenotes ⊢
  generalize digest.toList = bytes at hdenotes
  induction hdenotes with
  | nil => exact List.forall_mem_nil _
  | pair hhigh hlow hrest ih =>
      have hzero : digitOf 0 = none := by decide
      rw [List.forall_mem_cons, List.forall_mem_cons]
      refine ⟨?_, ?_, ih⟩
      · rintro rfl
        rw [hzero] at hhigh
        cases hhigh
      · rintro rfl
        rw [hzero] at hlow
        cases hlow

/-- A string that is a digest and nothing else. -/
theorem parseSha1_whole {text : CText} {bytes : Bytes}
    (hstarts : StartsWithBytes 20 text.val bytes []) (before : List.Vector UInt8 20) :
    parseSha1 (text.val ++ [0]) before.toList = .ok (0, bytes) := by
  rcases parseSha1_spec text before with ⟨bytes', rest, hstarts', hresult⟩ | ⟨hnone, -⟩
  · obtain ⟨rfl, rfl⟩ := hstarts.unique hstarts'
    rw [hresult, if_pos rfl]
  · exact absurd ⟨bytes, [], hstarts⟩ hnone

/-- A printed digest is read back. -/
theorem parseSha1_printSha1 (digest : Digest) (before : List.Vector UInt8 20) :
    parseSha1 (printSha1 digest ++ [0]) before.toList = .ok (0, digest.toList) :=
  @parseSha1_whole ⟨printSha1 digest, printSha1_ne_zero digest⟩ _
    ⟨printSha1 digest, (List.append_nil _).symm, digest.toList_length, denotes_printSha1 digest⟩
    before

/-! ## The decoder of the patch functions -/

theorem hexDigit_ofNat (c : UInt8) :
    hexDigit (Char.ofNat c.toNat) = (digitOf c).map UInt8.toNat := by
  have hvalid : c.toNat.isValidChar := .inl (by have := c.toNat_lt; omega)
  have hval : (Char.ofNat c.toNat).toNat = c.toNat := by
    rw [Char.toNat_ofNat, if_pos hvalid]
  have hle (low high : Char) : low ≤ Char.ofNat c.toNat ∧ Char.ofNat c.toNat ≤ high ↔
      low.toNat ≤ c.toNat ∧ c.toNat ≤ high.toNat := by
    conv_rhs => rw [← hval]
    exact Iff.rfl
  have hsub (base : UInt8) (hbase : base.toNat ≤ c.toNat) :
      (c - base).toNat = c.toNat - base.toNat :=
    UInt8.toNat_sub_of_le c base (UInt8.le_iff_toNat_le.mpr hbase)
  unfold hexDigit digitOf
  simp only [hle, hval, UInt8.le_iff_toNat_le, Char.reduceToNat, UInt8.reduceToNat]
  split_ifs with hdecimal hlower hupper
  · rw [Option.map_some, hsub 48 hdecimal.1]
    rfl
  · have hlt : c.toNat - 97 + 10 < 2 ^ 8 := by omega
    rw [Option.map_some, UInt8.toNat_add, hsub 97 hlower.1]
    exact congrArg some (Nat.mod_eq_of_lt hlt).symm
  · have hlt : c.toNat - 65 + 10 < 2 ^ 8 := by omega
    rw [Option.map_some, UInt8.toNat_add, hsub 65 hupper.1]
    exact congrArg some (Nat.mod_eq_of_lt hlt).symm
  · rfl

theorem startsWithBytes_of_parsePairs {count : Nat} {text : Bytes}
    {digest : List.Vector UInt8 count} {left : CString}
    (hparse : parsePairs count (Edify.pathOf text) = some (digest, left)) :
    ∃ rest, left = Edify.pathOf rest ∧ StartsWithBytes count text digest.toList rest := by
  induction count generalizing text left with
  | zero =>
      cases hparse
      exact ⟨text, rfl, [], rfl, rfl, .nil⟩
  | succ count ih =>
      match text with
      | [] => cases hparse
      | [_] => cases hparse
      | high :: low :: text =>
          simp only [Edify.pathOf, List.map_cons, parsePairs, hexDigit_ofNat,
            Option.bind_eq_bind, Option.bind_eq_some_iff, Option.map_eq_some_iff,
            Option.some.injEq, Prod.mk.injEq] at hparse
          obtain ⟨_, ⟨highDigit, hhigh, rfl⟩, _, ⟨lowDigit, hlow, rfl⟩, ⟨more, left'⟩, hmore,
            rfl, rfl⟩ := hparse
          obtain ⟨rest, hleft, digits, rfl, hlength, hdenotes⟩ := ih hmore
          have hvalue : UInt8.ofNat (16 * highDigit.toNat + lowDigit.toNat) =
              16 * highDigit + lowDigit := by
            rw [UInt8.ofNat_add, UInt8.ofNat_mul, UInt8.ofNat_toNat, UInt8.ofNat_toNat]
            rfl
          refine ⟨rest, hleft, high :: low :: digits, rfl, congrArg Nat.succ hlength, ?_⟩
          rw [hvalue]
          exact .pair hhigh hlow hdenotes

/-- What the patch functions take for a digest, the decoder accepts with that digest. -/
theorem parseSha1_of_patch {text : CText} {digest : Digest}
    (hparse : OpenRecovery.parseSha1 (Edify.pathOf text.val) = some digest)
    (before : List.Vector UInt8 20) :
    parseSha1 (text.val ++ [0]) before.toList = .ok (0, digest.toList) := by
  rw [OpenRecovery.parseSha1] at hparse
  split at hparse
  · rename_i digest' hpairs
    cases hparse
    obtain ⟨rest, hrest, hstarts⟩ := startsWithBytes_of_parsePairs hpairs
    have hnil : rest = [] := List.map_eq_nil_iff.mp hrest.symm
    rw [hnil] at hstarts
    exact parseSha1_whole hstarts before
  · cases hparse

/-- The decoder keeps its contract exactly on the strings that are no digest with a suffix, and
it restores every printed digest. -/
theorem parseSha1_contract_iff (text : CText) :
    (MeetsContract text ↔ ¬HasSuffix text.val) ∧
      ∀ (digest : Digest) (before : List.Vector UInt8 20),
        parseSha1 (printSha1 digest ++ [0]) before.toList = .ok (0, digest.toList) :=
  ⟨meetsContract_iff_not_hasSuffix text, parseSha1_printSha1⟩

set_option maxRecDepth 2000 in
/-- A digest with a colon behind it is rejected. -/
theorem suffixed_digest_rejected :
    ¬MeetsContract ⟨ascii "0000000000000000000000000000000000000000:", by decide⟩ := by
  rw [meetsContract_iff_not_hasSuffix, not_not]
  refine ⟨(List.Vector.replicate 20 0).toList, [], printSha1 (List.Vector.replicate 20 0), ?_, rfl,
    denotes_printSha1 _⟩
  decide

end OpenRecovery.Sha1Text
