import OpenRecovery.EdifyPrinting
import Mathlib

/-!
# Scanning a part of a script

No rule of the scanner looks further ahead than it has to: when a rule takes a text, it
takes the same text whatever is cut off behind it.  So the text from the start of one token
to the end of another is scanned to the tokens between them.
-/

namespace OpenRecovery.Edify

/-! ## The scanner at another place -/

def Lexeme.move (offset : Nat) (lexeme : Lexeme) : Lexeme :=
  ⟨lexeme.token, lexeme.start + offset, lexeme.stop + offset⟩

def Step.move (offset : Nat) : Step → Step
  | .done => .done
  | .overrun => .overrun
  | .skip pos rest => .skip (pos + offset) rest
  | .lexeme found pos rest => .lexeme (found.move offset) (pos + offset) rest

section Moving

variable (offset pos : Nat)

theorem advance_move (token : Token) (length : Nat) (rest : Bytes) :
    Step.advance token (pos + offset) length rest =
      (Step.advance token pos length rest).move offset := by
  have hstop : pos + offset + length = pos + length + offset := by omega
  rw [Step.advance, Step.advance, Step.move, Lexeme.move, hstop]

theorem closeString_move (scan : StringScan) :
    closeString (pos + offset) scan = (closeString pos scan).move offset := by
  rw [closeString, closeString]
  cases scan.rest with
  | none =>
      dsimp only
      split
      · rfl
      · rfl
  | some rest =>
      dsimp only
      split
      · exact advance_move offset pos _ _ _
      · rfl

theorem operatorStep_move (byte : UInt8) (rest : Bytes) :
    operatorStep (pos + offset) byte rest = (operatorStep pos byte rest).move offset := by
  unfold operatorStep
  split
  all_goals first
    | exact advance_move offset pos _ _ _
    | rfl

theorem scanStep_move (input : Bytes) :
    scanStep (pos + offset) input = (scanStep pos input).move offset := by
  cases input with
  | nil => rfl
  | cons byte rest =>
      have hskip : ∀ length rest, Step.skip (pos + offset + length) rest =
          (Step.skip (pos + length) rest).move offset := by
        intro length rest
        have hstop : pos + offset + length = pos + length + offset := by omega
        rw [Step.move, hstop]
      rw [scanStep, scanStep]
      split
      · exact closeString_move offset pos _
      split
      · exact advance_move offset pos _ _ _
      split
      · exact hskip _ _
      split
      · exact hskip 1 rest
      split
      · have hstop : pos + offset + (rest.takeWhile (· ≠ newline)).length + 2 =
            pos + (rest.takeWhile (· ≠ newline)).length + 2 + offset := by omega
        dsimp only
        rw [Step.move, hstop]
      · exact operatorStep_move offset pos byte rest

theorem scan_move (input : Bytes) :
    scan (pos + offset) input = (scan pos input).map (List.map (Lexeme.move offset)) := by
  induction hlength : input.length using Nat.strong_induction_on generalizing pos input with
  | _ length ih =>
      subst hlength
      have hmove := scanStep_move offset pos input
      have hshortens := scanStep_shortens pos input
      cases hstep : scanStep pos input with
      | done =>
          rw [hstep] at hmove
          rw [scan_done hstep, scan_done hmove]
          rfl
      | overrun =>
          rw [hstep] at hmove
          rw [scan, scanLoop, hmove, scan, scanLoop, hstep]
          rfl
      | skip pos' rest =>
          rw [hstep] at hmove hshortens
          rw [scan_skip hstep, scan_skip hmove]
          exact ih rest.length hshortens pos' rest rfl
      | lexeme lexeme pos' rest =>
          rw [hstep] at hmove hshortens
          rw [scan_lexeme hstep, scan_lexeme hmove, ih rest.length hshortens pos' rest rfl]
          cases scan pos' rest with
          | error stuck => rfl
          | ok lexemes => rfl

end Moving

/-! ## What a rule takes -/

/-- The step that takes a word and gives a token, or none. -/
def Step.over (token : Option Token) (pos : Nat) (word rest : Bytes) : Step :=
  match token with
  | none => .skip (pos + word.length) rest
  | some token => .advance token pos word.length rest

/-- The scanner takes the word, whatever is cut off behind it. -/
structure Takes (token : Option Token) (word rest : Bytes) : Prop where
  ne_nil : word ≠ []
  step : ∀ pos rest', rest' <+: rest → scanStep pos (word ++ rest') = Step.over token pos word rest'

/-- What follows the accepted bytes does not begin with one. -/
theorem not_accepted_of_begins {accepts : UInt8 → Bool} {text rest' : Bytes}
    (hbegins : rest' <+: text.dropWhile accepts) : ∀ byte ∈ rest'.head?, ¬accepts byte := by
  intro byte hbyte haccepts
  obtain ⟨more, hmore⟩ := hbegins
  obtain ⟨rest'', rfl⟩ := List.head?_eq_some_iff.mp hbyte
  have hnot := List.head?_dropWhile_not accepts text
  rw [← hmore] at hnot
  cases haccepts.symm.trans hnot

/-- Nothing else is accepted of the bytes and what follows them. -/
theorem takeWhile_append_of_not {accepts : UInt8 → Bool} {word rest' : Bytes}
    (hword : ∀ byte ∈ word, accepts byte) (hrest : ∀ byte ∈ rest'.head?, ¬accepts byte) :
    (word ++ rest').takeWhile accepts = word := by
  rw [List.takeWhile_append_of_pos hword]
  cases rest' with
  | nil => exact List.append_nil _
  | cons byte rest' => rw [List.takeWhile_cons_of_neg (hrest byte rfl), List.append_nil]

/-- A backslash before the text stands for itself. -/
structure PlainBackslash (text : Bytes) : Prop where
  noEscape : ∀ byte ∈ text.head?, byte ≠ 110 ∧ byte ≠ 116 ∧ byte ≠ 34 ∧ byte ≠ 92
  noHex : ∀ high low rest, text = 120 :: high :: low :: rest → hexByte high low = none

theorem scanString_backslash {text : Bytes} (hplain : PlainBackslash text) :
    scanString (92 :: text) = (scanString text).push 92 1 := by
  rw [scanString.eq_def]
  change (if (92 : UInt8) = 34 then _ else _ : StringScan) = _
  rw [if_neg (by decide)]
  rw [if_pos rfl]
  split
  · exact absurd rfl (hplain.noEscape 110 rfl).1
  · exact absurd rfl (hplain.noEscape 116 rfl).2.1
  · exact absurd rfl (hplain.noEscape 34 rfl).2.2.1
  · exact absurd rfl (hplain.noEscape 92 rfl).2.2.2
  · rw [hplain.noHex _ _ _ rfl]
  · rfl

theorem hexByte_quote (high : UInt8) : hexByte high 34 = none := by
  rw [hexByte]
  cases hexValue high with
  | none => rfl
  | some value => rfl

/-- What follows a string does not change the meaning of a backslash in it. -/
theorem PlainBackslash.cut
    {inside tail tail' : Bytes} (hplain : PlainBackslash (inside ++ 34 :: tail)) :
    PlainBackslash (inside ++ 34 :: tail') := by
  cases inside with
  | nil => exact absurd rfl (hplain.noEscape 34 rfl).2.2.1
  | cons first inside =>
      refine ⟨hplain.noEscape, ?_⟩
      intro high low rest htext
      obtain ⟨hfirst, hsecond⟩ := List.cons.inj htext
      subst hfirst
      cases inside with
      | nil =>
          obtain ⟨hhigh, -⟩ := List.cons.inj hsecond
          subst hhigh
          rfl
      | cons second inside =>
          obtain ⟨hhigh, hthird⟩ := List.cons.inj hsecond
          subst hhigh
          cases inside with
          | nil =>
              obtain ⟨hlow, -⟩ := List.cons.inj hthird
              subst hlow
              exact hexByte_quote second
          | cons third inside =>
              obtain ⟨hlow, -⟩ := List.cons.inj hthird
              subst hlow
              exact hplain.noHex second third (inside ++ 34 :: tail) rfl

theorem scanString_quote (text : Bytes) : scanString (34 :: text) = ⟨[], 1, some text⟩ := by
  rw [scanString.eq_def]
  rfl

theorem scanString_plain {byte : UInt8} (text : Bytes) (hquote : byte ≠ 34)
    (hbackslash : byte ≠ 92) : scanString (byte :: text) = (scanString text).push byte 1 := by
  rw [scanString.eq_def]
  change (if byte = 34 then _ else _ : StringScan) = _
  rw [if_neg hquote]
  rw [if_neg hbackslash]

theorem scanString_hex {high low value : UInt8} (text : Bytes)
    (hvalue : hexByte high low = some value) :
    scanString (92 :: 120 :: high :: low :: text) = (scanString text).push value 4 := by
  rw [scanString.eq_def]
  simp [hvalue]

/-- A closed string is closed whatever is cut off behind it. -/
theorem scanString_closed {input tail : Bytes} (htail : (scanString input).rest = some tail) :
    ∃ inside, input = inside ++ 34 :: tail ∧ ∀ tail', scanString (inside ++ 34 :: tail') =
      ⟨(scanString input).stored, inside.length + 1, some tail'⟩ := by
  -- A rule takes some bytes, stores one, and leaves the rest of the string.
  have hrule : ∀ {taken : Bytes} {rest : Bytes} {byte : UInt8},
      (∃ inside, rest = inside ++ 34 :: tail ∧ ∀ tail', scanString (inside ++ 34 :: tail') =
        ⟨(scanString rest).stored, inside.length + 1, some tail'⟩) →
      (∀ inside, rest = inside ++ 34 :: tail → ∀ tail',
        scanString (taken ++ (inside ++ 34 :: tail')) =
          (scanString (inside ++ 34 :: tail')).push byte taken.length) →
        ∃ inside, taken ++ rest = inside ++ 34 :: tail ∧
          ∀ tail', scanString (inside ++ 34 :: tail') =
            ⟨((scanString rest).push byte taken.length).stored, inside.length + 1, some tail'⟩ := by
    rintro taken rest byte ⟨inside, hrest, hinside⟩ hpush
    refine ⟨taken ++ inside, ?_, fun tail' => ?_⟩
    · rw [hrest, List.append_assoc]
    · rw [List.append_assoc, hpush inside hrest tail', hinside tail', List.length_append, Nat.add_assoc]
      rfl
  induction input using scanString.induct with
  | case1 => cases htail
  | case2 rest =>
      rw [scanString_quote] at htail ⊢
      obtain rfl := Option.some.inj htail
      exact ⟨[], rfl, fun tail' => scanString_quote tail'⟩
  | case3 rest hquote ih =>
      exact @hrule [92, 110] rest 10 (ih htail) fun _ _ _ => rfl
  | case4 rest hquote ih =>
      exact @hrule [92, 116] rest 9 (ih htail) fun _ _ _ => rfl
  | case5 rest hquote ih =>
      exact @hrule [92, 34] rest 34 (ih htail) fun _ _ _ => rfl
  | case6 rest hquote ih =>
      exact @hrule [92, 92] rest 92 (ih htail) fun _ _ _ => rfl
  | case7 high low rest value hvalue hquote ih =>
      rw [scanString_hex rest hvalue] at htail ⊢
      exact @hrule [92, 120, high, low] rest value (ih htail) fun inside _ tail' =>
        scanString_hex (inside ++ 34 :: tail') hvalue
  | case8 high low rest hnone hquote ih =>
      have hplain : PlainBackslash (120 :: high :: low :: rest) := by
        refine ⟨?_, ?_⟩
        · intro byte hbyte
          obtain rfl := Option.some.inj hbyte
          decide
        · intro high' low' rest' htext
          obtain ⟨-, hsecond⟩ := List.cons.inj htext
          obtain ⟨hhigh, hthird⟩ := List.cons.inj hsecond
          obtain ⟨hlow, -⟩ := List.cons.inj hthird
          rwa [← hhigh, ← hlow]
      rw [scanString_backslash hplain] at htail ⊢
      refine @hrule [92] _ 92 (ih htail) fun inside hrest tail' => ?_
      rw [hrest] at hplain
      exact scanString_backslash hplain.cut
  | case9 rest hn ht hq hb hx hquote ih =>
      have hplain : PlainBackslash rest := by
        refine ⟨?_, fun high low rest' htext => (hx high low rest' htext).elim⟩
        intro byte hbyte
        obtain ⟨rest', rfl⟩ := List.head?_eq_some_iff.mp hbyte
        refine ⟨?_, ?_, ?_, ?_⟩
        · rintro rfl
          exact hn rest' rfl
        · rintro rfl
          exact ht rest' rfl
        · rintro rfl
          exact hq rest' rfl
        · rintro rfl
          exact hb rest' rfl
      rw [scanString_backslash hplain] at htail ⊢
      refine @hrule [92] _ 92 (ih htail) fun inside hrest tail' => ?_
      rw [hrest] at hplain
      exact scanString_backslash hplain.cut
  | case10 byte rest hquote hbackslash ih =>
      rw [scanString_plain rest hquote hbackslash] at htail ⊢
      exact @hrule [byte] rest byte (ih htail) fun inside _ tail' =>
        scanString_plain (inside ++ 34 :: tail') hquote hbackslash

theorem takes_quoted
    {input tail : Bytes} (htail : (scanString input).rest = some tail)
    (hfits : (scanString input).stored.length < maxStringLen) :
    ∃ word, 34 :: input = word ++ tail ∧
      Takes (some (.string (cString (scanString input).stored))) word tail := by
  obtain ⟨inside, hinput, hclosed⟩ := scanString_closed htail
  have hword : ∀ tail' : Bytes, 34 :: inside ++ [34] ++ tail' = 34 :: (inside ++ 34 :: tail') := by
    intro tail'
    rw [List.append_assoc]
    rfl
  refine ⟨34 :: inside ++ [34], ?_, nofun, fun pos tail' hbegins => ?_⟩
  · rw [hword, ← hinput]
  · have hlength : (34 :: inside ++ [34]).length = inside.length + 1 + 1 := by simp
    rw [hword, scanStep, if_pos rfl, hclosed tail', closeString, Step.over, hlength]
    exact if_pos hfits

theorem takes_word {byte : UInt8} {rest : Bytes} (hbyte : isWordByte byte) :
    Takes (some (wordToken ((byte :: rest).takeWhile isWordByte)))
      ((byte :: rest).takeWhile isWordByte) ((byte :: rest).dropWhile isWordByte) := by
  have hne : (byte :: rest).takeWhile isWordByte ≠ [] := by
    rw [List.takeWhile_cons_of_pos hbyte]
    nofun
  refine ⟨hne, fun pos rest' hbegins => ?_⟩
  exact scanStep_word pos hne (fun other hother => List.mem_takeWhile_imp hother)
    (not_accepted_of_begins hbegins)

theorem takes_blanks {byte : UInt8} {rest : Bytes} (hbyte : isBlank byte) :
    Takes none ((byte :: rest).takeWhile isBlank) ((byte :: rest).dropWhile isBlank) := by
  rw [List.takeWhile_cons_of_pos hbyte, List.dropWhile_cons_of_pos hbyte]
  refine ⟨nofun, fun pos rest' hbegins => ?_⟩
  have htake : (rest.takeWhile isBlank ++ rest').takeWhile isBlank = rest.takeWhile isBlank :=
    takeWhile_append_of_not (fun other hother => List.mem_takeWhile_imp hother)
      (not_accepted_of_begins hbegins)
  have hdrop : (rest.takeWhile isBlank ++ rest').dropWhile isBlank = rest' := by
    rw [← drop_length_takeWhile, htake, List.drop_left]
  rw [List.cons_append, scanStep_blank pos _ hbyte, htake, hdrop, Step.over, List.length_cons,
    Nat.add_assoc, Nat.add_comm 1]

theorem takes_comment {rest : Bytes} (hnewline : newline ∈ rest) :
    ∃ word tail, 35 :: rest = word ++ tail ∧ Takes none word tail := by
  obtain ⟨comment, tail, rfl, hfirst⟩ := List.eq_append_cons_of_mem hnewline
  have hword : ∀ tail' : Bytes,
      35 :: comment ++ [newline] ++ tail' = 35 :: (comment ++ newline :: tail') := by
    intro tail'
    rw [List.append_assoc]
    rfl
  refine ⟨35 :: comment ++ [newline], tail, (hword tail).symm, nofun, fun pos tail' hbegins => ?_⟩
  have htake : (comment ++ newline :: tail').takeWhile (· ≠ newline) = comment := by
    refine takeWhile_append_of_not (fun byte hbyte => ?_) fun byte hbyte hne => ?_
    · exact decide_eq_true fun heq => hfirst (heq ▸ hbyte)
    · exact of_decide_eq_true hne (Option.some.inj hbyte).symm
  have hmem : newline ∈ comment ++ newline :: tail' := by
    rw [List.mem_append]
    exact .inr List.mem_cons_self
  have hdrop : (comment ++ newline :: tail').drop (comment.length + 1) = tail' := by
    rw [← List.drop_drop, List.drop_left]
    rfl
  rw [hword, scanStep, if_neg (by decide), if_neg (by decide), if_neg (by decide),
    if_neg (by decide), if_pos ⟨rfl, hmem⟩, htake]
  dsimp only
  rw [hdrop, Step.over]
  have hlength : (35 :: comment ++ [newline]).length = comment.length + 2 := by simp
  rw [hlength, Nat.add_assoc]

theorem takes_bang {rest : Bytes} (hne : ∀ byte ∈ rest.head?, byte ≠ 61) :
    Takes (some .not) [33] rest := by
  refine ⟨nofun, fun pos rest' hbegins => ?_⟩
  obtain ⟨more, rfl⟩ := hbegins
  cases rest' with
  | nil => rfl
  | cons byte rest' =>
      have hbyte := hne byte rfl
      change operatorStep pos 33 (byte :: rest') = _
      unfold operatorStep
      split
      all_goals first
        | rfl
        | simp_all

/-- A step ends the scan, meets a byte that begins no token, or takes a word. -/
inductive Scanned (pos : Nat) (input : Bytes) : Prop where
  | done (hstep : scanStep pos input = .done)
  | overrun (hstep : scanStep pos input = .overrun)
  | bad (rest : Bytes) (hstep : scanStep pos input = .lexeme ⟨.bad, pos, pos⟩ pos rest)
  | takes (token : Option Token) (word rest : Bytes) (hinput : input = word ++ rest)
      (htakes : Takes token word rest)

theorem operatorStep_scanned
    {pos : Nat} {byte : UInt8} {rest : Bytes}
    (hstep : scanStep pos (byte :: rest) = operatorStep pos byte rest) :
    Scanned pos (byte :: rest) := by
  unfold operatorStep at hstep
  split at hstep
  · rename_i rest
    exact .takes (some .and) [38, 38] rest rfl ⟨nofun, fun _ _ _ => rfl⟩
  · rename_i rest
    exact .takes (some .or) [124, 124] rest rfl ⟨nofun, fun _ _ _ => rfl⟩
  · rename_i rest
    exact .takes (some .eq) [61, 61] rest rfl ⟨nofun, fun _ _ _ => rfl⟩
  · rename_i rest
    exact .takes (some .ne) [33, 61] rest rfl ⟨nofun, fun _ _ _ => rfl⟩
  · exact .takes (some .plus) [43] _ rfl ⟨nofun, fun _ _ _ => rfl⟩
  · exact .takes (some .lparen) [40] _ rfl ⟨nofun, fun _ _ _ => rfl⟩
  · exact .takes (some .rparen) [41] _ rfl ⟨nofun, fun _ _ _ => rfl⟩
  · exact .takes (some .comma) [44] _ rfl ⟨nofun, fun _ _ _ => rfl⟩
  · rename_i hne
    refine .takes (some .not) [33] _ rfl (takes_bang fun other hother => ?_)
    rintro rfl
    obtain ⟨rest', rfl⟩ := List.head?_eq_some_iff.mp hother
    exact hne rest' rfl
  · exact .takes (some .semicolon) [59] _ rfl ⟨nofun, fun _ _ _ => rfl⟩
  · exact .bad _ hstep

theorem scanStep_scanned (pos : Nat) (input : Bytes) : Scanned pos input := by
  cases input with
  | nil => exact .done rfl
  | cons byte rest =>
      by_cases hquote : byte = 34
      · subst hquote
        have hclose : scanStep pos (34 :: rest) = closeString pos (scanString rest) := by
          rw [scanStep, if_pos rfl]
        rw [closeString] at hclose
        cases htail : (scanString rest).rest with
        | none =>
            rw [htail] at hclose
            dsimp only at hclose
            split at hclose
            · exact .done hclose
            · exact .overrun hclose
        | some tail =>
            rw [htail] at hclose
            dsimp only at hclose
            split at hclose
            · rename_i hfits
              obtain ⟨word, hword, htakes⟩ := takes_quoted htail hfits
              exact .takes _ word tail hword htakes
            · exact .overrun hclose
      by_cases hword : isWordByte byte
      · exact .takes _ _ _ (List.takeWhile_append_dropWhile ..).symm (takes_word hword)
      by_cases hblank : isBlank byte
      · exact .takes _ _ _ (List.takeWhile_append_dropWhile ..).symm (takes_blanks hblank)
      by_cases hnewline : byte = newline
      · subst hnewline
        exact .takes none [newline] rest rfl ⟨(by simp), fun _ _ _ => rfl⟩
      by_cases hcomment : byte = 35 ∧ newline ∈ rest
      · obtain ⟨rfl, hmem⟩ := hcomment
        obtain ⟨word, tail, hinput, htakes⟩ := takes_comment hmem
        exact .takes none word tail hinput htakes
      · refine operatorStep_scanned ?_
        rw [scanStep, if_neg hquote, if_neg hword, if_neg hblank, if_neg hnewline, if_neg hcomment]

/-! ## Slices of a script -/

section Slices

variable {pos : Nat} {input : Bytes} {lexemes : List Lexeme}

/-- A scan takes its first word and goes on behind it. -/
theorem Takes.scan
    {token : Option Token} {word rest : Bytes} (htakes : Takes token word rest) (pos : Nat)
    {rest' : Bytes} (hbegins : rest' <+: rest) :
    scan pos (word ++ rest') = (scan (pos + word.length) rest').map
      (token.toList.map (fun token => ⟨token, pos, pos + word.length⟩) ++ ·) := by
  have hstep := htakes.step pos rest' hbegins
  cases token with
  | none =>
      rw [scan_skip hstep]
      cases Edify.scan (pos + word.length) rest' with
      | error stuck => rfl
      | ok lexemes => rfl
  | some token => exact scan_lexeme hstep

/-- A scan that meets no byte that begins no token, word by word. -/
inductive Reads : Nat → Bytes → List Lexeme → Prop where
  | done {pos : Nat} {input : Bytes} (hstep : scanStep pos input = .done) : Reads pos input []
  | skip {pos : Nat} {word rest : Bytes} {lexemes : List Lexeme} (htakes : Takes none word rest)
      (hrest : Reads (pos + word.length) rest lexemes) : Reads pos (word ++ rest) lexemes
  | token {pos : Nat} {token : Token} {word rest : Bytes} {lexemes : List Lexeme}
      (htakes : Takes (some token) word rest) (hrest : Reads (pos + word.length) rest lexemes) :
      Reads pos (word ++ rest) (⟨token, pos, pos + word.length⟩ :: lexemes)

theorem map_ok {α β : Type} {f : α → β} {result : Except Stuck α} {value : β}
    (hmap : result.map f = .ok value) : ∃ first, result = .ok first ∧ f first = value := by
  cases result with
  | error stuck => cases hmap
  | ok first => exact ⟨first, rfl, Except.ok.inj hmap⟩

theorem reads_of_scan
    (hscan : scan pos input = .ok lexemes) (hgood : ∀ lexeme ∈ lexemes, lexeme.token ≠ .bad) :
    Reads pos input lexemes := by
  induction hlength : input.length using Nat.strong_induction_on
    generalizing pos input lexemes with
  | _ length ih =>
      subst hlength
      cases scanStep_scanned pos input with
      | done hstep =>
          rw [scan_done hstep] at hscan
          obtain rfl := Except.ok.inj hscan
          exact .done hstep
      | overrun hstep =>
          rw [scan, scanLoop, hstep] at hscan
          cases hscan
      | bad rest hstep =>
          rw [scan_lexeme hstep] at hscan
          obtain ⟨others, -, rfl⟩ := map_ok hscan
          exact absurd rfl (hgood _ List.mem_cons_self)
      | takes token word rest hinput htakes =>
          subst hinput
          have hshort : rest.length < (word ++ rest).length := by
            have hpos := List.length_pos_iff.mpr htakes.ne_nil
            rw [List.length_append]
            omega
          rw [htakes.scan pos (List.prefix_refl rest)] at hscan
          obtain ⟨others, hrest, rfl⟩ := map_ok hscan
          have hreads := ih rest.length hshort hrest
            (fun lexeme hlexeme => hgood lexeme (List.mem_append_right _ hlexeme)) rfl
          cases token with
          | none => exact .skip htakes hreads
          | some token => exact .token htakes hreads

/-- The tokens behind a first part of the tokens are those of the rest of the script. -/
theorem Reads.drop
    {before after : List Lexeme} {first : Lexeme}
    (hreads : Reads pos input (before ++ first :: after)) :
    ∃ gap text, input = gap ++ text ∧ first.start = pos + gap.length ∧
      Reads first.start text (first :: after) := by
  generalize hlexemes : before ++ first :: after = lexemes at hreads
  induction hreads generalizing before with
  | done hstep => exact absurd hlexemes (by simp)
  | @skip pos word rest lexemes htakes hrest ih =>
      obtain ⟨gap, text, rfl, hstart, htext⟩ := ih hlexemes
      refine ⟨word ++ gap, text, (List.append_assoc ..).symm, ?_, htext⟩
      rw [hstart, List.length_append, Nat.add_assoc]
  | @token pos token word rest lexemes htakes hrest ih =>
      cases before with
      | nil =>
          obtain ⟨rfl, rfl⟩ := List.cons.inj hlexemes
          exact ⟨[], word ++ rest, rfl, rfl, .token htakes hrest⟩
      | cons head before =>
          obtain ⟨gap, text, rfl, hstart, htext⟩ := ih (List.cons.inj hlexemes).2
          refine ⟨word ++ gap, text, (List.append_assoc ..).symm, ?_, htext⟩
          rw [hstart, List.length_append, Nat.add_assoc]

/-- A first part of the tokens is scanned from the text up to its end. -/
theorem Reads.take
    {before after : List Lexeme} {last : Lexeme}
    (hreads : Reads pos input (before ++ last :: after)) :
    ∃ text rest, input = text ++ rest ∧ last.stop = pos + text.length ∧
      scan pos text = .ok (before ++ [last]) := by
  generalize hlexemes : before ++ last :: after = lexemes at hreads
  induction hreads generalizing before with
  | done hstep => exact absurd hlexemes (by simp)
  | @skip pos word rest lexemes htakes hrest ih =>
      obtain ⟨text, tail, rfl, hstop, htext⟩ := ih hlexemes
      refine ⟨word ++ text, tail, (List.append_assoc ..).symm, ?_, ?_⟩
      · rw [hstop, List.length_append, Nat.add_assoc]
      · rw [htakes.scan pos (List.prefix_append text tail), htext]
        rfl
  | @token pos token word rest lexemes htakes hrest ih =>
      cases before with
      | nil =>
          obtain ⟨rfl, rfl⟩ := List.cons.inj hlexemes
          refine ⟨word, rest, rfl, rfl, ?_⟩
          have hscan := htakes.scan pos (List.nil_prefix (l := rest))
          rw [List.append_nil] at hscan
          rw [hscan]
          rfl
      | cons head before =>
          obtain ⟨rfl, htail⟩ := List.cons.inj hlexemes
          obtain ⟨text, tail, rfl, hstop, htext⟩ := ih htail
          refine ⟨word ++ text, tail, (List.append_assoc ..).symm, ?_, ?_⟩
          · rw [hstop, List.length_append, Nat.add_assoc]
          · rw [htakes.scan pos (List.prefix_append text tail), htext]
            rfl

/-- The text between the ends of some tokens is scanned to these tokens. -/
theorem scan_slice
    {script : Bytes} {before part after : List Lexeme} {first last : Lexeme}
    (hscan : scan 0 script = .ok (before ++ part ++ after))
    (hgood : ∀ lexeme ∈ before ++ part ++ after, lexeme.token ≠ .bad)
    (hfirst : part.head? = some first) (hlast : part.getLast? = some last) :
    ∃ gap text rest, script = gap ++ text ++ rest ∧ gap.length = first.start ∧
      gap.length + text.length = last.stop ∧
      ∃ alone, scan 0 text = .ok alone ∧ alone.map (Lexeme.move first.start) = part := by
  obtain ⟨others, hothers⟩ := List.head?_eq_some_iff.mp hfirst
  obtain ⟨init, hinit⟩ := List.getLast?_eq_some_iff.mp hlast
  have hreads := reads_of_scan hscan hgood
  rw [hothers, List.append_assoc] at hreads
  obtain ⟨gap, behind, rfl, hstart, hbehind⟩ := hreads.drop
  have hpart : first :: (others ++ after) = init ++ last :: after := by
    rw [← List.cons_append, ← hothers, hinit, List.append_assoc]
    rfl
  change Reads first.start behind (first :: (others ++ after)) at hbehind
  rw [hpart] at hbehind
  obtain ⟨text, rest, rfl, hstop, htext⟩ := hbehind.take
  rw [Nat.zero_add] at hstart
  refine ⟨gap, text, rest, (List.append_assoc ..).symm, hstart.symm, ?_, ?_⟩
  · rw [hstop, hstart]
  · rw [← Nat.zero_add first.start, scan_move] at htext
    obtain ⟨alone, halone, hmove⟩ := map_ok htext
    exact ⟨alone, halone, by rw [hmove, hinit]⟩

end Slices

end OpenRecovery.Edify
