import TapeLang.Proofs.Pieces
import TapeLang.Server.Serve

/-! Reading frames: what stands before a payload is read as its length, whatever other headers there
are and whatever comes behind it. -/
namespace TapeLang

namespace Decimal

theorem encodeChar_digit {c : Char} (h : c.isDigit) :
    Utf8.encodeChar c = [UInt8.ofNat c.toNat] ∧ (UInt8.ofNat c.toNat).toNat = c.toNat ∧
      0x30 ≤ c.toNat ∧ c.toNat ≤ 0x39 := by
  obtain ⟨hlo, hhi⟩ := Char.isDigit_iff_toNat.mp h
  have hhi : c.toNat ≤ 0x39 := hhi
  have hsize : UInt8.size = 256 := rfl
  exact ⟨Utf8.encodeChar_ascii (by omega), UInt8.toNat_ofNat_of_lt' (by omega), hlo, hhi⟩

/-- The digits of a number that fits a word are read as that number. -/
theorem magnitude_digits {ds : List Char} (hds : ∀ c ∈ ds, c.isDigit) {acc : Nat}
    (hfits : Nat.ofDigitChars 10 ds acc < Word.count) :
    magnitude acc (Utf8.encode ds) = .ok (Nat.ofDigitChars 10 ds acc) := by
  induction ds generalizing acc with
  | nil => rfl
  | cons c ds ih =>
    obtain ⟨hcode, hbyte, hlo, hhi⟩ := encodeChar_digit (hds c List.mem_cons_self)
    have hzero : '0'.toNat = 0x30 := rfl
    rw [Nat.ofDigitChars_cons, hzero, Nat.mul_comm] at hfits ⊢
    have hle : acc * 10 + (c.toNat - 0x30) ≤
        Nat.ofDigitChars 10 ds (acc * 10 + (c.toNat - 0x30)) := by
      rw [Nat.ofDigitChars_eq_ofDigitChars_zero]
      have hpow : 1 ≤ 10 ^ ds.length := Nat.one_le_pow _ _ (by decide)
      have hmul := Nat.mul_le_mul_right (acc * 10 + (c.toNat - 0x30)) hpow
      omega
    rw [Utf8.encode, List.flatMap_cons, hcode, List.singleton_append, magnitude, hbyte,
      if_neg (by omega), if_neg (by omega)]
    exact ih (fun x hx => hds x (List.mem_cons_of_mem c hx)) hfits

-- The test is a variable here, because the kernel cannot compute with the bounds of a word.
private theorem bind_inRange {ε : Type} {e : ε} {x : Except ε Nat} {n : Nat} (hx : x = .ok n)
    {inRange : Int → Bool} (hn : inRange n = true) :
    (x >>= fun k => (pure (k : Int) : Except ε Int) >>= fun i =>
      if inRange i = true then .ok i else .error e) = .ok (n : Int) := by
  subst hx
  simp only [bind, Except.bind, pure, Except.pure, hn, if_true]

theorem read_unsigned {bs : Bytes} {n : Nat} (h : unsigned bs = .ok n) (hn : n < Word.bound)
    (hminus : bs.head? ≠ some 0x2D) (hplus : bs.head? ≠ some 0x2B) : read bs = .ok n := by
  have hsigned : Word.isSigned n = true := by
    simp only [Word.isSigned, Bool.and_eq_true, decide_eq_true_eq]
    omega
  unfold read
  split
  · exact absurd rfl hminus
  · exact absurd rfl hplus
  · exact bind_inRange h hsigned

/-- A number is read back from its decimal text. -/
theorem read_toDigits {n : Nat} (h : n < Word.bound) :
    read (Utf8.encode (Nat.toDigits 10 n)) = .ok n := by
  have hds (c : Char) (hc : c ∈ Nat.toDigits 10 n) : c.isDigit :=
    Nat.isDigit_of_mem_toDigits (by decide) (by decide) hc
  have hcount : Word.bound ≤ Word.count := by decide
  have hvalue : Nat.ofDigitChars 10 (Nat.toDigits 10 n) 0 = n := Nat.ofDigitChars_ten_toDigits
  have hmag := magnitude_digits hds (hvalue.trans_lt (by omega))
  rw [hvalue] at hmag
  obtain ⟨c, ds, hcons⟩ := List.exists_cons_of_ne_nil (Nat.toDigits_ne_nil (n := n) (b := 10))
  obtain ⟨hcode, hbyte, hlo, hhi⟩ :=
    encodeChar_digit (hds c (by rw [hcons]; exact List.mem_cons_self))
  rw [hcons, Utf8.encode, List.flatMap_cons, hcode, List.singleton_append] at hmag ⊢
  -- A digit is no sign.
  have hhead {x : UInt8} (hx : x.toNat < 0x30) : some (UInt8.ofNat c.toNat) ≠ some x := by
    intro he
    rw [← Option.some.inj he] at hx
    omega
  exact read_unsigned hmag h (hhead (by decide)) (hhead (by decide))

end Decimal

namespace Server

/-- The name of the length header, in upper or lower case and with any white space around it. -/
def IsLengthName (name : Bytes) : Prop :=
  (White.trim (Utf8.decode name)).map Char.toUpper = "CONTENT-LENGTH".toList

/-- A header line besides the length, without its line end. It is not empty or all carriage
returns, and what comes before its colon, if it has one, is another name. -/
structure OtherHeader (line : Bytes) : Prop where
  noFeed : 0x0A ∉ line
  visible : ∃ b ∈ line, b ≠ 0x0D
  otherName : 0x3A ∈ line → ¬ IsLengthName (line.takeWhile (· != 0x3A))

def lineEnd : Bytes := [0x0D, 0x0A]

def lengthHeader (n : Nat) : Bytes := Bytes.ofString s!"Content-Length: {n}\r\n"

theorem map_toUpper_of_foldCase {cs : List Char}
    (h : cs.map Json.foldCase = "Content-Length".toList.map Json.foldCase) :
    cs.map Char.toUpper = "CONTENT-LENGTH".toList := by
  have hupper : "Content-Length".toList.map Json.foldCase = "CONTENT-LENGTH".toList := by decide
  have hother : ∀ d ∈ "CONTENT-LENGTH".toList, d ≠ 'S' ∧ d ≠ 'K' := by simp
  rw [hupper] at h
  rw [← h]
  apply List.map_congr_left
  intro c hc
  have hne := hother (Json.foldCase c) (h ▸ List.mem_map_of_mem hc)
  unfold Json.foldCase at hne ⊢
  split_ifs at hne ⊢
  · exact absurd rfl hne.1
  · exact absurd rfl hne.2
  · rfl

/-- Only a length header is read as one. -/
theorem of_lengthText?_eq_some {line value : Bytes} (h : lengthText? line = some value) :
    0x3A ∈ line ∧ IsLengthName (line.takeWhile (· != 0x3A)) := by
  unfold lengthText? at h
  split at h
  · cases h
  · next b rest hdrop =>
    have hcolon : 0x3A ∈ line := by
      by_contra hno
      have hnil : line.dropWhile (· != 0x3A) = [] := by
        rw [List.dropWhile_eq_nil_iff]
        intro x hx
        simpa using fun he : x = 0x3A => hno (he ▸ hx)
      rw [hdrop] at hnil
      cases hnil
    dsimp only at h
    split_ifs at h with hname
    refine ⟨hcolon, ?_⟩
    rw [IsLengthName, ← White.decode_trimBytes]
    exact map_toUpper_of_foldCase (beq_iff_eq.mp hname)

theorem readHeaders_append {line : Bytes} (hline : 0x0A ∉ line) (n : Int) (acc rest : Bytes) :
    readHeaders n acc (line ++ rest) = readHeaders n (line.reverse ++ acc) rest := by
  induction line generalizing acc with
  | nil => rfl
  | cons b line ih =>
    have hb : (b != 0x0A) = true := by
      simpa using fun he : b = 0x0A => hline (he ▸ List.mem_cons_self)
    rw [List.cons_append, readHeaders, if_pos hb, ih (fun h => hline (List.mem_cons_of_mem b h))]
    simp

/-- A line is read without its end. -/
theorem readHeaders_line {line : Bytes} (hline : 0x0A ∉ line) (n : Int) (rest : Bytes) :
    ∃ acc, readHeaders n [] (line ++ lineEnd ++ rest) = readHeaders n acc (0x0A :: rest) ∧
      White.dropEnd isLineEnd acc.reverse = White.dropEnd isLineEnd line := by
  have hreturn : 0x0A ∉ line ++ [0x0D] := by simpa using hline
  have hsplit : line ++ lineEnd ++ rest = (line ++ [0x0D]) ++ 0x0A :: rest := by simp [lineEnd]
  refine ⟨(line ++ [0x0D]).reverse, ?_, ?_⟩
  · rw [hsplit, readHeaders_append hreturn, List.append_nil]
  · simp [White.dropEnd, isLineEnd]

theorem readHeaders_end (n : Int) (rest : Bytes) :
    readHeaders n [] (lineEnd ++ rest) = .complete n rest := rfl

/-- Other headers are passed over. -/
theorem OtherHeader.readHeaders_eq {line : Bytes} (h : OtherHeader line) (n : Int) (rest : Bytes) :
    readHeaders n [] (line ++ lineEnd ++ rest) = readHeaders n [] rest := by
  obtain ⟨acc, hread, hacc⟩ := readHeaders_line h.noFeed n rest
  have hline : line = White.dropEnd isLineEnd line ++ line.rtakeWhile isLineEnd :=
    (List.rdropWhile_append_rtakeWhile).symm
  have htail (b : UInt8) : b ∈ line.rtakeWhile isLineEnd → isLineEnd b := List.mem_rtakeWhile_imp
  generalize White.dropEnd isLineEnd line = text at hacc hline
  generalize line.rtakeWhile isLineEnd = tail at hline htail
  have hnone : lengthText? text = none := by
    by_contra hsome
    obtain ⟨value, hvalue⟩ := Option.ne_none_iff_exists'.mp hsome
    obtain ⟨hcolon, hname⟩ := of_lengthText?_eq_some hvalue
    have htext : line.takeWhile (· != 0x3A) = text.takeWhile (· != 0x3A) := by
      rw [hline]
      exact takeWhile_append_of_mem hcolon (by decide) tail
    exact h.otherName (hline ▸ List.mem_append_left tail hcolon) (htext ▸ hname)
  rw [hread, readHeaders, if_neg (by decide), hacc]
  cases text with
  | nil =>
    obtain ⟨b, hb, hne⟩ := h.visible
    have hend := htail b (by rw [hline] at hb; exact hb)
    simp only [isLineEnd, Bool.or_eq_true, beq_iff_eq, hne, false_or] at hend
    exact absurd (hend ▸ hb) h.noFeed
  | cons b text =>
    dsimp only
    rw [hnone]

/-- The line of a length header. -/
def lengthLine (n : Nat) : Bytes :=
  Bytes.ofString "Content-Length" ++ 0x3A :: 0x20 :: Utf8.encode (Nat.toDigits 10 n)

theorem ofString_lengthLine (n : Nat) (tail : String) :
    Bytes.ofString ("Content-Length: " ++ n.repr ++ tail) = lengthLine n ++ Bytes.ofString tail := by
  have hname : "Content-Length: ".toList = "Content-Length".toList ++ [':', ' '] := by decide
  simp only [Bytes.ofString, Utf8.encode, String.toList_append, Nat.toList_repr, hname,
    List.flatMap_append, lengthLine, List.append_assoc]
  rfl

theorem lengthHeader_eq (n : Nat) : lengthHeader n = lengthLine n ++ lineEnd :=
  ofString_lengthLine n "\r\n"

theorem not_isLineEnd_of_mem_lengthLine {n : Nat} {b : UInt8} (hb : b ∈ lengthLine n) :
    isLineEnd b = false := by
  rw [lengthLine, List.mem_append, List.mem_cons, List.mem_cons] at hb
  rcases hb with hb | rfl | rfl | hb
  · have hname : (Bytes.ofString "Content-Length").all (fun b => !isLineEnd b) = true := by decide
    simpa using List.all_eq_true.mp hname b hb
  · rfl
  · rfl
  · obtain ⟨c, hc, hb⟩ := List.mem_flatMap.mp hb
    obtain ⟨hcode, hbyte, hlo, -⟩ := Decimal.encodeChar_digit
      (Nat.isDigit_of_mem_toDigits (by decide) (by decide) hc)
    rw [hcode, List.mem_singleton] at hb
    have hne {x : UInt8} (hx : x.toNat < 0x30) : b ≠ x := by
      rintro rfl
      rw [hb] at hx
      omega
    simp [isLineEnd, hne]

theorem lengthText?_lengthLine (n : Nat) :
    lengthText? (lengthLine n) = some (Utf8.encode (Nat.toDigits 10 n)) := by
  have hwhite (c : Char) (hc : c ∈ Nat.toDigits 10 n) : White.isWhite c = false := by
    obtain ⟨-, -, hlo, hhi⟩ := Decimal.encodeChar_digit
      (Nat.isDigit_of_mem_toDigits (by decide) (by decide) hc)
    simp [White.isWhite]
    omega
  have hvalue : White.trimBytes (0x20 :: Utf8.encode (Nat.toDigits 10 n)) =
      Utf8.encode (Nat.toDigits 10 n) := calc
    _ = Utf8.encode (White.trim (' ' :: Nat.toDigits 10 n)) := White.trimBytes_encode (' ' :: _)
    _ = Utf8.encode (White.trim (Nat.toDigits 10 n)) := rfl
    _ = _ := by rw [White.trim_eq_self hwhite]
  have hdrop : (lengthLine n).dropWhile (· != 0x3A) =
      0x3A :: 0x20 :: Utf8.encode (Nat.toDigits 10 n) := rfl
  have htake : (lengthLine n).takeWhile (· != 0x3A) = Bytes.ofString "Content-Length" := rfl
  rw [lengthText?, hdrop, htake]
  dsimp only
  rw [if_pos (by decide), hvalue]

/-- The length header sets the length. -/
theorem readHeaders_lengthHeader {k : Nat} (hk : k < Word.bound) (n : Int) (rest : Bytes) :
    readHeaders n [] (lengthHeader k ++ rest) = readHeaders k [] rest := by
  have hfeed : 0x0A ∉ lengthLine k := fun h =>
    absurd (not_isLineEnd_of_mem_lengthLine h) (by decide)
  obtain ⟨acc, hread, hacc⟩ := readHeaders_line hfeed n rest
  rw [White.dropEnd_eq_self fun b hb => not_isLineEnd_of_mem_lengthLine hb] at hacc
  rw [lengthHeader_eq, hread, readHeaders, if_neg (by decide), hacc]
  split
  · next h => exact absurd h (List.append_ne_nil_of_right_ne_nil _ (List.cons_ne_nil _ _))
  · rw [lengthText?_lengthLine]
    dsimp only
    rw [Decimal.read_toDigits hk]

/-- A payload as it is sent: with its length, other header lines and an empty one before it. -/
structure Framed where
  headers : List Bytes
  payload : Bytes

namespace Framed

def bytes (f : Framed) : Bytes :=
  lengthHeader f.payload.length ++ f.headers.flatMap (· ++ lineEnd) ++ lineEnd ++ f.payload

/-- The headers are other ones than the length, and the payload is not longer than any can be. -/
structure Valid (f : Framed) : Prop where
  headers : ∀ line ∈ f.headers, OtherHeader line
  payload : f.payload.length ≤ maxPayload

theorem readHeaders_bytes {headers : List Bytes} (h : ∀ line ∈ headers, OtherHeader line) (n : Int)
    (rest : Bytes) :
    readHeaders n [] (headers.flatMap (· ++ lineEnd) ++ lineEnd ++ rest) = .complete n rest := by
  induction headers with
  | nil => exact readHeaders_end n rest
  | cons line headers ih =>
    have hline := h line List.mem_cons_self
    rw [List.flatMap_cons, List.append_assoc, List.append_assoc, hline.readHeaders_eq,
      ← List.append_assoc]
    exact ih fun line' hline' => h line' (List.mem_cons_of_mem line hline')

/-- A frame is read as its payload, and reading goes on right behind it. -/
theorem Valid.readFrame_eq {f : Framed} (h : f.Valid) (rest : Bytes) :
    readFrame (f.bytes ++ rest) = .payload f.payload rest := by
  have hbound : f.payload.length < Word.bound := Nat.lt_of_le_of_lt h.payload (by decide)
  have hheaders : readHeaders (-1) [] (f.bytes ++ rest) =
      .complete f.payload.length (f.payload ++ rest) := by
    rw [bytes, List.append_assoc, List.append_assoc, List.append_assoc,
      readHeaders_lengthHeader hbound, ← List.append_assoc, readHeaders_bytes h.headers]
  rw [readFrame, hheaders]
  dsimp only
  rw [Int.toNat_natCast, if_neg (by omega), if_neg (Nat.not_lt.mpr h.payload),
    if_pos (by simp), List.take_left, List.drop_left]

end Framed

theorem frame_eq (payload : Bytes) : frame payload = Framed.bytes ⟨[], payload⟩ := by
  have hends : Bytes.ofString "\r\n\r\n" = lineEnd ++ lineEnd := by decide
  have hheader := ofString_lengthLine payload.length "\r\n\r\n"
  rw [hends, ← List.append_assoc, ← lengthHeader_eq] at hheader
  rw [Framed.bytes, List.flatMap_nil, List.append_nil, ← hheader]
  rfl

end Server
end TapeLang
