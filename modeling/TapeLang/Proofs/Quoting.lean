import Mathlib.Tactic.IntervalCases
import TapeLang.Proofs.Pieces
import TapeLang.Text.Quoted

/-! Quoted text reads back. Reading is followed from escape to escape: each one adds the bytes that
it was written for, whatever was read before and whatever follows. -/
namespace TapeLang.Quoted
open Printable (isPrintable)
open Utf8 (Piece Cut encodeChar replacement)

theorem digit?_digitChar {d : Nat} (h : d < 16) : digit? 16 (Nat.digitChar d) = some d := by
  interval_cases d <;> rfl

/-- All digits of a number but the last ones are added to the value read so far. -/
theorem unquoteFrom_hex {width n : Nat} (hn : n < 16 ^ width) (acc : Bytes) (target : Target)
    {left : Nat} (hleft : 0 < left) (value : Nat) (rest : List Char) :
    unquoteFrom acc (.digits target 16 (left + width) value) (hex width n ++ rest) =
      unquoteFrom acc (.digits target 16 left (value * 16 ^ width + n)) rest := by
  induction width generalizing n left rest with
  | zero =>
    have hzero : n = 0 := by omega
    rw [hzero, pow_zero, Nat.mul_one]
    rfl
  | succ width ih =>
    have hfront : n / 16 < 16 ^ width := by
      rw [pow_succ] at hn
      omega
    have hlast : digit? 16 (Nat.digitChar (n % 16)) = some (n % 16) :=
      digit?_digitChar (Nat.mod_lt n (by decide))
    have hvalue : (value * 16 ^ width + n / 16) * 16 + n % 16 = value * 16 ^ (width + 1) + n := by
      rw [pow_succ, Nat.add_mul, Nat.mul_assoc]
      omega
    have hmore : ¬ left + 1 ≤ 1 := by omega
    have hstep := ih hfront (Nat.succ_pos left) (Nat.digitChar (n % 16) :: rest)
    rw [hex, List.append_assoc, List.singleton_append, ← Nat.add_assoc, Nat.add_right_comm, hstep,
      unquoteFrom, hlast]
    dsimp only
    rw [if_neg hmore, hvalue]
    rfl

/-- A number written with a fixed width is read as what it denotes. -/
theorem unquoteFrom_number {width n : Nat} (hn : n < 16 ^ (width + 1)) {target : Target}
    {bs : Bytes} (hbs : target.bytes? n = some bs) (acc : Bytes) (rest : List Char) :
    unquoteFrom acc (.digits target 16 (width + 1) 0) (hex (width + 1) n ++ rest) =
      unquoteFrom (bs.reverse ++ acc) .text rest := by
  have hfront : n / 16 < 16 ^ width := by
    rw [pow_succ] at hn
    omega
  have hlast : digit? 16 (Nat.digitChar (n % 16)) = some (n % 16) :=
    digit?_digitChar (Nat.mod_lt n (by decide))
  have hvalue : (0 * 16 ^ width + n / 16) * 16 + n % 16 = n := by omega
  have hstep := unquoteFrom_hex hfront acc target Nat.one_pos 0 (Nat.digitChar (n % 16) :: rest)
  rw [hex, List.append_assoc, List.singleton_append, Nat.add_comm width 1, hstep, unquoteFrom,
    hlast]
  dsimp only
  rw [if_pos (Nat.le_refl 1), hvalue, hbs]

theorem unquoteFrom_backslash (acc : Bytes) (rest : List Char) :
    unquoteFrom acc .text ('\\' :: rest) = unquoteFrom acc .escape rest := by
  have hmark : ¬ '\\' = '"' := by decide
  have hfeed : ¬ '\\' = '\n' := by decide
  rw [unquoteFrom, if_neg hmark, if_neg hfeed, if_pos rfl]

/-- An escape of one letter is a byte. -/
theorem unquoteFrom_letter {c : Char} {b : UInt8} (h : afterBackslash? c = some (.inl b))
    (acc : Bytes) (rest : List Char) :
    unquoteFrom acc .text ('\\' :: c :: rest) = unquoteFrom (b :: acc) .text rest := by
  rw [unquoteFrom_backslash, unquoteFrom, h]

/-- An escape by number is read on in its own mode. -/
theorem unquoteFrom_mode {c : Char} {m : Mode} (h : afterBackslash? c = some (.inr m))
    (acc : Bytes) (rest : List Char) :
    unquoteFrom acc .text ('\\' :: c :: rest) = unquoteFrom acc m rest := by
  rw [unquoteFrom_backslash, unquoteFrom, h]

theorem unquoteFrom_byteEscape (b : UInt8) (acc : Bytes) (rest : List Char) :
    unquoteFrom acc .text (byteEscape b.toNat ++ rest) = unquoteFrom (b :: acc) .text rest := by
  have hlt : b.toNat < 16 ^ (1 + 1) := b.toNat_lt
  have hbytes : Target.byte.bytes? b.toNat = some [b] := by
    rw [Target.bytes?, if_pos b.toNat_lt, UInt8.ofNat_toNat]
  have hx : afterBackslash? 'x' = some (.inr (.digits .byte 16 2 0)) := rfl
  rw [byteEscape, List.cons_append, List.cons_append, unquoteFrom_mode hx,
    unquoteFrom_number hlt hbytes]
  rfl

/-- A character by its number, behind the letter that tells how many digits there are. -/
theorem unquoteFrom_charNumber {c mark : Char} {width : Nat}
    (hmark : afterBackslash? mark = some (.inr (.digits .char 16 (width + 1) 0)))
    (hc : c.toNat < 16 ^ (width + 1)) (acc : Bytes) (rest : List Char) :
    unquoteFrom acc .text ('\\' :: mark :: hex (width + 1) c.toNat ++ rest) =
      unquoteFrom ((encodeChar c).reverse ++ acc) .text rest := by
  have hvalid : c.toNat.isValidChar := c.valid
  have hbytes : Target.char.bytes? c.toNat = some (encodeChar c) := by
    rw [Target.bytes?, if_pos hvalid, Char.ofNat_toNat]
  rw [List.cons_append, List.cons_append, unquoteFrom_mode hmark, unquoteFrom_number hc hbytes]

/-- The letter that stands for a control character is read as that character. -/
theorem afterBackslash?_of_letter? {c l : Char} (h : letter? c = some l) :
    ∃ b, afterBackslash? l = some (.inl b) ∧ encodeChar c = [b] := by
  have hc (n : Nat) (hn : c.toNat = n) (hascii : n < 0x80) : encodeChar c = [UInt8.ofNat n] := by
    rw [Utf8.encodeChar_ascii (hn ▸ hascii), hn]
  unfold letter? at h
  split at h
  case h_1 hn | h_2 hn | h_3 hn | h_4 hn | h_5 hn | h_6 hn | h_7 hn =>
    cases h
    exact ⟨_, rfl, hc _ hn (by decide)⟩
  case h_8 => cases h

/-- A character reads back however it is written: as itself, as a letter or by its number. -/
theorem unquoteFrom_escape (c : Char) (acc : Bytes) (rest : List Char) :
    unquoteFrom acc .text (escape '"' c ++ rest) =
      unquoteFrom ((encodeChar c).reverse ++ acc) .text rest := by
  unfold escape
  by_cases hspecial : c = '"' ∨ c = '\\'
  · rw [if_pos hspecial]
    rcases hspecial with hmark | hslash
    · rw [hmark]
      exact unquoteFrom_letter rfl acc rest
    · rw [hslash]
      exact unquoteFrom_letter rfl acc rest
  rw [if_neg hspecial]
  by_cases hprintable : isPrintable c = true
  · have hfeed : c ≠ '\n' := by
      intro hc
      rw [hc] at hprintable
      revert hprintable
      decide
    rw [not_or] at hspecial
    rw [if_pos hprintable, List.singleton_append, unquoteFrom, if_neg hspecial.1, if_neg hfeed,
      if_neg hspecial.2]
  rw [if_neg hprintable]
  cases hl : letter? c with
  | some l =>
    obtain ⟨b, hb, hc⟩ := afterBackslash?_of_letter? hl
    rw [hc]
    exact unquoteFrom_letter hb acc rest
  | none =>
    have hmax := Utf8.toNat_char_lt c
    dsimp only
    split_ifs with hascii hmiddle
    · have hsmall : c.toNat < 256 := by omega
      have hb : (UInt8.ofNat c.toNat).toNat = c.toNat := UInt8.toNat_ofNat_of_lt' hsmall
      have hbyte := unquoteFrom_byteEscape (UInt8.ofNat c.toNat) acc rest
      rw [hb] at hbyte
      rw [Utf8.encodeChar_ascii hascii]
      exact hbyte
    · have hwidth : c.toNat < 16 ^ (3 + 1) := hmiddle
      exact unquoteFrom_charNumber rfl hwidth acc rest
    · have hwidth : c.toNat < 16 ^ (7 + 1) := by omega
      exact unquoteFrom_charNumber rfl hwidth acc rest

/-- All pieces of a byte string, one after the other. -/
theorem unquoteFrom_pieces {ps : List Piece} (h : Cut ps) (acc : Bytes) (rest : List Char) :
    unquoteFrom acc .text (ps.flatMap escapePiece ++ rest) =
      unquoteFrom ((ps.flatMap Piece.bytes).reverse ++ acc) .text rest := by
  induction h generalizing acc with
  | nil => rfl
  | @char c ps _ ih =>
    have hpiece : escapePiece ⟨c, encodeChar c⟩ = escape '"' c := by
      simp [escapePiece, Piece.faithful]
    rw [List.flatMap_cons, List.append_assoc, hpiece, unquoteFrom_escape, ih, List.flatMap_cons,
      List.reverse_append, List.append_assoc]
  | @invalid b ps _ _ ih =>
    -- The replacement character is spelled by three bytes, so a single one is not faithful.
    have hone : ¬ [b] = encodeChar replacement := by simp [encodeChar, replacement]
    have hpiece : escapePiece ⟨replacement, [b]⟩ = byteEscape b.toNat := by
      simp [escapePiece, Piece.faithful, hone]
    rw [List.flatMap_cons, List.append_assoc, hpiece, unquoteFrom_byteEscape, ih, List.flatMap_cons,
      List.reverse_append, List.append_assoc]
    rfl

/-- Every byte string is what its quoted form is read as. -/
theorem unquote?_quote (bs : Bytes) : unquote? (quote bs) = some bs := by
  obtain ⟨hcut, hbytes⟩ := Utf8.pieces_spec bs
  have hread := unquoteFrom_pieces hcut [] ['"']
  rw [hbytes, List.append_nil] at hread
  have hclose : unquoteFrom bs.reverse .text ['"'] = some bs := by
    rw [unquoteFrom, if_pos rfl, if_pos List.isEmpty_nil, List.reverse_reverse]
  exact hread.trans hclose

end TapeLang.Quoted
