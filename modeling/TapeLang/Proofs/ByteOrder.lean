import TapeLang.Proofs.Utf8

/-! The order of texts. Byte by byte, encodings are ordered as the characters they encode, so that
texts are in the same order by their characters and by their bytes. -/
namespace TapeLang.Utf8

/-- Two lists in order: the first bytes decide, or else what follows them. -/
theorem cons_byte_lt {m n : Nat} {bs bs' : Bytes} (hn : n < 256)
    (h : m < n ∨ m = n ∧ bs < bs') : UInt8.ofNat m :: bs < UInt8.ofNat n :: bs' := by
  rcases h with h | ⟨rfl, h⟩
  · have hm : m < 256 := Nat.lt_trans h hn
    refine List.cons_lt_cons_iff.mpr (Or.inl ?_)
    rw [UInt8.lt_iff_toNat_lt, UInt8.toNat_ofNat_of_lt' hm, UInt8.toNat_ofNat_of_lt' hn]
    exact h
  · exact List.cons_lt_cons_iff.mpr (Or.inr ⟨rfl, h⟩)

/-- The last byte of an encoding, when the bytes before it are the same. -/
theorem last_byte_lt {m n : Nat} (h : m % 64 < n % 64) (bs bs' : Bytes) :
    UInt8.ofNat (0x80 + m % 64) :: bs < UInt8.ofNat (0x80 + n % 64) :: bs' :=
  cons_byte_lt (by omega) (Or.inl (by omega))

/-- The last two bytes. -/
theorem last_bytes_lt {m n : Nat} (h : m % 4096 < n % 4096) (bs bs' : Bytes) :
    UInt8.ofNat (0x80 + m / 64 % 64) :: UInt8.ofNat (0x80 + m % 64) :: bs <
      UInt8.ofNat (0x80 + n / 64 % 64) :: UInt8.ofNat (0x80 + n % 64) :: bs' := by
  refine cons_byte_lt (by omega) ?_
  rcases Nat.lt_or_ge (m / 64 % 64) (n / 64 % 64) with hhigh | hhigh
  · exact Or.inl (by omega)
  · exact Or.inr ⟨by omega, last_byte_lt (by omega) bs bs'⟩

/-- The encodings of two characters differ before either of them ends. -/
theorem encodeChar_append_lt {c d : Char} (h : c < d) (bs bs' : Bytes) :
    encodeChar c ++ bs < encodeChar d ++ bs' := by
  have hlt : c.toNat < d.toNat := h
  have hmax := toNat_char_lt d
  unfold encodeChar
  dsimp only
  generalize c.toNat = m at hlt
  generalize d.toNat = n at hlt hmax
  have hfirst {k l : Nat} {cs cs' : Bytes} (hl : l < 256) (hkl : k < l) :
      UInt8.ofNat k :: cs < UInt8.ofNat l :: cs' := cons_byte_lt hl (Or.inl hkl)
  split_ifs
  -- No encoding of a greater character is shorter, and a longer one has a greater first byte.
  all_goals try omega
  all_goals try exact hfirst (by omega) (by omega)
  -- What is left are characters with encodings of the same length, of two bytes or more.
  · refine cons_byte_lt (by omega) ?_
    rcases Nat.lt_or_ge (m / 64) (n / 64) with hhigh | hhigh
    · exact Or.inl (by omega)
    · exact Or.inr ⟨by omega, last_byte_lt (by omega) bs bs'⟩
  · refine cons_byte_lt (by omega) ?_
    rcases Nat.lt_or_ge (m / 4096) (n / 4096) with hhigh | hhigh
    · exact Or.inl (by omega)
    · exact Or.inr ⟨by omega, last_bytes_lt (by omega) bs bs'⟩
  · refine cons_byte_lt (by omega) ?_
    rcases Nat.lt_or_ge (m / 262144) (n / 262144) with hhigh | hhigh
    · exact Or.inl (by omega)
    · refine Or.inr ⟨by omega, cons_byte_lt (by omega) ?_⟩
      rcases Nat.lt_or_ge (m / 4096 % 64) (n / 4096 % 64) with hnext | hnext
      · exact Or.inl (by omega)
      · exact Or.inr ⟨by omega, last_bytes_lt (by omega) bs bs'⟩

theorem encode_lt {cs ds : List Char} (h : cs < ds) : encode cs < encode ds := by
  induction cs generalizing ds with
  | nil =>
    cases ds with
    | nil => exact absurd h (List.lt_irrefl _)
    | cons d ds =>
      have hne : encode (d :: ds) ≠ [] := by
        simp [encode, encodeChar_ne_nil]
      obtain ⟨b, bs, hb⟩ := List.exists_cons_of_ne_nil hne
      rw [hb]
      exact List.nil_lt_cons b bs
  | cons c cs ih =>
    cases ds with
    | nil => exact absurd h (List.not_lt_nil _)
    | cons d ds =>
      have hcons (c : Char) (cs : List Char) : encode (c :: cs) = encodeChar c ++ encode cs := rfl
      rw [hcons, hcons]
      rcases List.cons_lt_cons_iff.mp h with hlt | ⟨rfl, hlt⟩
      · exact encodeChar_append_lt hlt _ _
      · exact List.append_left_lt (ih hlt)

end TapeLang.Utf8
