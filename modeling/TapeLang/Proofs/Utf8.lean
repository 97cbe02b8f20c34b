import Mathlib.Data.List.Basic
import TapeLang.Text.Utf8

/-! Decoding against encoding. A byte string is read from the left: where the encoding of some
character starts, that character is read, and any other byte is one replacement character. -/
namespace TapeLang.Utf8

/-- The characters of a byte string, stated through the encoding alone. -/
inductive Decodes : Bytes → List Char → Prop where
  | nil : Decodes [] []
  | char (c : Char) {rest : Bytes} {cs : List Char} (h : Decodes rest cs) :
      Decodes (encodeChar c ++ rest) (c :: cs)
  | invalid (b : UInt8) {rest : Bytes} {cs : List Char}
      (hb : ∀ c, ¬ encodeChar c <+: b :: rest) (h : Decodes rest cs) :
      Decodes (b :: rest) (replacement :: cs)

private theorem toNat_byte {n : Nat} (h : n < 256) : (UInt8.ofNat n).toNat = n :=
  UInt8.toNat_ofNat_of_lt' h

private theorem byte_ext {b : UInt8} {n : Nat} (h : n = b.toNat) : UInt8.ofNat n = b := by
  rw [h]
  exact UInt8.ofNat_toNat

theorem toNat_char_lt (c : Char) : c.toNat < 0x110000 := by
  rcases c.valid with h | h
  · have hc : c.toNat < 0xD800 := h
    omega
  · exact h.2

theorem wellFormed?_toNat {least : Nat} {c : Char} (hc : least ≤ c.toNat) :
    wellFormed? least c.toNat = some c := by
  have hv : c.toNat.isValidChar := c.valid
  simp [wellFormed?, hc, hv]

theorem toNat_ofNat {n : Nat} (h : n.isValidChar) : (Char.ofNat n).toNat = n := by
  rw [Char.ofNat, dif_pos h]
  rfl

theorem of_wellFormed? {least n k l : Nat} {c : Char}
    (h : (wellFormed? least n).map (·, k) = some (c, l)) : c.toNat = n ∧ least ≤ n ∧ k = l := by
  obtain ⟨d, hw, hd⟩ := Option.map_eq_some_iff.mp h
  obtain ⟨rfl, rfl⟩ := Prod.mk.inj hd
  unfold wellFormed? at hw
  split_ifs at hw with hn
  rw [← Option.some.inj hw]
  exact ⟨toNat_ofNat hn.2, hn.1, rfl⟩

/-- How every byte of an encoding but its first is made. -/
private theorem isContinuation_byte (n : Nat) :
    isContinuation (UInt8.ofNat (0x80 + n % 64)) = true := by
  have hb : (UInt8.ofNat (0x80 + n % 64)).toNat = 0x80 + n % 64 := toNat_byte (by omega)
  simp only [isContinuation, hb, Bool.and_eq_true, decide_eq_true_eq]
  omega

private theorem low_byte (n : Nat) : low (UInt8.ofNat (0x80 + n % 64)) = n % 64 := by
  have hb : (UInt8.ofNat (0x80 + n % 64)).toNat = 0x80 + n % 64 := toNat_byte (by omega)
  rw [low, hb]
  omega

/-- A character is read off the front of its encoding, whatever follows. -/
theorem head_encodeChar {c : Char} {b : UInt8} {tail : Bytes} (h : encodeChar c = b :: tail)
    (rest : Bytes) : head b (tail ++ rest) = (c, tail.length) := by
  have hmax := toNat_char_lt c
  unfold encodeChar at h
  dsimp only at h
  split_ifs at h with h1 h2 h3 <;> obtain ⟨rfl, rfl⟩ := List.cons.inj h
  · have hb : (UInt8.ofNat c.toNat).toNat = c.toNat := toNat_byte (by omega)
    simp [head, hb, h1]
  · have hb : (UInt8.ofNat (0xC0 + c.toNat / 64)).toNat = 0xC0 + c.toNat / 64 :=
      toNat_byte (by omega)
    have hn : (0xC0 + c.toNat / 64 - 0xC0) * 64 + c.toNat % 64 = c.toNat := by omega
    have hw : wellFormed? 0x80 c.toNat = some c := wellFormed?_toNat (by omega)
    unfold head sequence?
    rw [hb, if_neg (by omega)]
    dsimp only [List.cons_append]
    rw [if_neg (by omega), if_pos (by omega), if_pos (isContinuation_byte _), low_byte, hn, hw]
    rfl
  · have hb : (UInt8.ofNat (0xE0 + c.toNat / 4096)).toNat = 0xE0 + c.toNat / 4096 :=
      toNat_byte (by omega)
    have hn : ((0xE0 + c.toNat / 4096 - 0xE0) * 64 + c.toNat / 64 % 64) * 64 + c.toNat % 64 =
        c.toNat := by omega
    have hw : wellFormed? 0x800 c.toNat = some c := wellFormed?_toNat (by omega)
    unfold head sequence?
    rw [hb, if_neg (by omega)]
    dsimp only [List.cons_append]
    rw [if_neg (by omega), if_neg (by omega), if_pos (by omega),
      if_pos (by simp only [isContinuation_byte, Bool.and_self]), low_byte, low_byte, hn, hw]
    rfl
  · have hb : (UInt8.ofNat (0xF0 + c.toNat / 262144)).toNat = 0xF0 + c.toNat / 262144 :=
      toNat_byte (by omega)
    have hn : (((0xF0 + c.toNat / 262144 - 0xF0) * 64 + c.toNat / 4096 % 64) * 64 +
        c.toNat / 64 % 64) * 64 + c.toNat % 64 = c.toNat := by omega
    have hw : wellFormed? 0x10000 c.toNat = some c := wellFormed?_toNat (by omega)
    unfold head sequence?
    rw [hb, if_neg (by omega)]
    dsimp only [List.cons_append]
    rw [if_neg (by omega), if_neg (by omega), if_neg (by omega), if_pos (by omega),
      if_pos (by simp only [isContinuation_byte, Bool.and_self]), low_byte, low_byte, low_byte,
      hn, hw]
    rfl

/-- A continuation byte is made from its six low bits. -/
private theorem byte_of_low {b : UInt8} {n : Nat} (hb : isContinuation b = true)
    (hn : n % 64 = low b) : UInt8.ofNat (0x80 + n % 64) = b := by
  simp only [isContinuation, Bool.and_eq_true, decide_eq_true_eq] at hb
  apply byte_ext
  rw [hn, low]
  omega

/-- A sequence that is read is the encoding of its character. -/
theorem encodeChar_of_sequence? {b : UInt8} {rest : Bytes} {c : Char} {k : Nat}
    (h : sequence? b rest = some (c, k)) :
    encodeChar c = b :: rest.take k ∧ k ≤ rest.length := by
  have hlow (x : UInt8) : low x < 64 := Nat.mod_lt _ (by decide)
  unfold sequence? at h
  dsimp only at h
  split_ifs at h with h1 h2 h3 h4
  · match rest with
    | [] => simp at h
    | b₁ :: rest =>
      dsimp only at h
      split_ifs at h with hc
      obtain ⟨hn, hl, rfl⟩ := of_wellFormed? h
      have hlow₁ := hlow b₁
      rw [encodeChar, if_neg (by omega), if_pos (by omega), hn, byte_ext (b := b) (by omega),
        byte_of_low hc (by omega)]
      simp
  · match rest with
    | [] => simp at h
    | [_] => simp at h
    | b₁ :: b₂ :: rest =>
      dsimp only at h
      split_ifs at h with hc
      obtain ⟨hn, hl, rfl⟩ := of_wellFormed? h
      obtain ⟨hc₁, hc₂⟩ := Bool.and_eq_true_iff.mp hc
      have hlow₁ := hlow b₁
      have hlow₂ := hlow b₂
      rw [encodeChar, if_neg (by omega), if_neg (by omega), if_pos (by omega), hn,
        byte_ext (b := b) (by omega), byte_of_low hc₁ (by omega), byte_of_low hc₂ (by omega)]
      simp
  · match rest with
    | [] => simp at h
    | [_] => simp at h
    | [_, _] => simp at h
    | b₁ :: b₂ :: b₃ :: rest =>
      dsimp only at h
      split_ifs at h with hc
      obtain ⟨hn, hl, rfl⟩ := of_wellFormed? h
      obtain ⟨hc₁₂, hc₃⟩ := Bool.and_eq_true_iff.mp hc
      obtain ⟨hc₁, hc₂⟩ := Bool.and_eq_true_iff.mp hc₁₂
      have hlow₁ := hlow b₁
      have hlow₂ := hlow b₂
      have hlow₃ := hlow b₃
      rw [encodeChar, if_neg (by omega), if_neg (by omega), if_neg (by omega), hn,
        byte_ext (b := b) (by omega), byte_of_low hc₁ (by omega), byte_of_low hc₂ (by omega),
        byte_of_low hc₃ (by omega)]
      simp

theorem encodeChar_ne_nil (c : Char) : encodeChar c ≠ [] := by
  unfold encodeChar
  dsimp only
  split_ifs <;> exact List.cons_ne_nil _ _

theorem encodeChar_ascii {c : Char} (h : c.toNat < 0x80) :
    encodeChar c = [UInt8.ofNat c.toNat] := by
  simp [encodeChar, h]

/-- The first character either is spelled by the bytes it takes, or replaces one byte at which
no encoding starts. -/
theorem head_spec (b : UInt8) (rest : Bytes) :
    (encodeChar (head b rest).1 = b :: rest.take (head b rest).2 ∧
      (head b rest).2 ≤ rest.length) ∨
    (head b rest = (replacement, 0) ∧ ∀ c, ¬ encodeChar c <+: b :: rest) := by
  by_cases hb : b.toNat < 0x80
  · have hv : b.toNat.isValidChar := Or.inl (by omega)
    have hc := toNat_ofNat hv
    left
    rw [head, if_pos hb, encodeChar_ascii (by rw [hc]; exact hb), hc, UInt8.ofNat_toNat]
    simp
  have hh : head b rest = (sequence? b rest).getD (replacement, 0) := if_neg hb
  cases hs : sequence? b rest with
  | some r =>
    left
    rw [hh, hs]
    exact encodeChar_of_sequence? hs
  | none =>
    right
    have he : head b rest = (replacement, 0) := by rw [hh, hs]; rfl
    refine ⟨he, ?_⟩
    intro c hc
    obtain ⟨after, hafter⟩ := hc
    obtain ⟨b', tail, htail⟩ := List.exists_cons_of_ne_nil (encodeChar_ne_nil c)
    rw [htail, List.cons_append] at hafter
    obtain ⟨rfl, rfl⟩ := List.cons.inj hafter
    -- The replacement character itself takes three bytes, so it is not what was read here.
    rw [head_encodeChar htail] at he
    obtain ⟨rfl, hlen⟩ := Prod.mk.inj he
    rw [List.length_eq_zero_iff.mp hlen] at htail
    have h3 : (encodeChar replacement).length = 3 := by decide
    rw [htail] at h3
    exact absurd h3 (by simp)

private theorem piecesFrom_eq (acc : List Piece) (skip : Nat) (bs : Bytes) :
    piecesFrom acc skip bs = acc.reverse ++ pieces (bs.drop skip) := by
  induction bs generalizing acc skip with
  | nil => simp [pieces, piecesFrom]
  | cons b rest ih =>
    cases skip with
    | succ k =>
      rw [piecesFrom, ih]
      rfl
    | zero =>
      rw [List.drop_zero, pieces, piecesFrom, piecesFrom]
      dsimp only
      rw [ih, ih [_], List.reverse_cons, List.append_assoc]
      rfl

theorem pieces_cons (b : UInt8) (rest : Bytes) :
    pieces (b :: rest) = ⟨(head b rest).1, b :: rest.take (head b rest).2⟩ ::
      pieces (rest.drop (head b rest).2) := by
  rw [pieces, piecesFrom]
  dsimp only
  rw [piecesFrom_eq]
  rfl

theorem decode_cons (b : UInt8) (rest : Bytes) :
    decode (b :: rest) = (head b rest).1 :: decode (rest.drop (head b rest).2) := by
  rw [decode, pieces_cons]
  rfl

theorem decode_encodeChar_append (c : Char) (rest : Bytes) :
    decode (encodeChar c ++ rest) = c :: decode rest := by
  obtain ⟨b, tail, h⟩ := List.exists_cons_of_ne_nil (encodeChar_ne_nil c)
  rw [h, List.cons_append, decode_cons, head_encodeChar h]
  simp

@[simp] theorem decode_encode (cs : List Char) : decode (encode cs) = cs := by
  induction cs with
  | nil => rfl
  | cons c cs ih =>
    have hc : encode (c :: cs) = encodeChar c ++ encode cs := rfl
    rw [hc, decode_encodeChar_append, ih]

/-- Every byte string decodes, and to nothing else than `decode` gives. -/
theorem decodes_iff {bs : Bytes} {cs : List Char} : Decodes bs cs ↔ cs = decode bs := by
  constructor
  · intro h
    induction h with
    | nil => rfl
    | char c h ih => rw [decode_encodeChar_append, ih]
    | invalid b hb h ih =>
      rename_i rest cs
      rcases head_spec b rest with ⟨he, -⟩ | ⟨he, -⟩
      · refine absurd ?_ (hb (head b rest).1)
        rw [he]
        exact (List.prefix_cons_inj b).mpr (List.take_prefix _ _)
      · rw [decode_cons, he, ih]
        rfl
  · rintro rfl
    induction hn : bs.length using Nat.strongRecOn generalizing bs with
    | _ n ih =>
      cases bs with
      | nil => exact .nil
      | cons b rest =>
        have hlen : (rest.drop (head b rest).2).length < n := by
          rw [← hn, List.length_drop, List.length_cons]
          omega
        have hrest := ih _ hlen rfl
        rw [decode_cons]
        rcases head_spec b rest with ⟨he, -⟩ | ⟨he, hno⟩
        · have hb : b :: rest = encodeChar (head b rest).1 ++ rest.drop (head b rest).2 := by
            rw [he, List.cons_append, List.take_append_drop]
          conv_lhs => rw [hb]
          exact .char _ hrest
        · rw [he] at hrest ⊢
          exact .invalid b hno hrest

end TapeLang.Utf8
