import Mathlib.Data.List.DropRight
import Mathlib.Data.List.TakeWhile
import TapeLang.Proofs.Utf8
import TapeLang.Text.White

/-! Parts of byte strings. At an ASCII character bytes and characters are cut alike, and so they are
where white space is taken off the ends. -/
namespace TapeLang

theorem takeWhile_append_of_mem {α : Type} {p : α → Bool} {xs : List α} {x : α} (hx : x ∈ xs)
    (hp : p x = false) (ys : List α) : (xs ++ ys).takeWhile p = xs.takeWhile p := by
  rw [List.takeWhile_append, if_neg]
  intro hlen
  have hall := (List.takeWhile_prefix p).eq_of_length hlen
  rw [← hall] at hx
  simp [List.mem_takeWhile_imp hx] at hp

namespace Utf8

/-- In the encoding of a character an ASCII byte stands alone. -/
theorem encodeChar_of_mem_ascii {c : Char} {b : UInt8} (hb : b ∈ encodeChar c)
    (hascii : b.toNat < 0x80) : encodeChar c = [b] := by
  have hmax := toNat_char_lt c
  have hhigh {n : Nat} (hlo : 0x80 ≤ n) (hhi : n < 256) : b ≠ UInt8.ofNat n := by
    rintro rfl
    rw [UInt8.toNat_ofNat_of_lt' hhi] at hascii
    omega
  unfold encodeChar at hb ⊢
  dsimp only at hb ⊢
  split_ifs at hb ⊢ with h1 h2 h3
  · rw [List.mem_singleton.mp hb]
  · simp only [List.mem_cons, List.not_mem_nil, or_false] at hb
    rcases hb with hb | hb <;> exact absurd hb (hhigh (by omega) (by omega))
  · simp only [List.mem_cons, List.not_mem_nil, or_false] at hb
    rcases hb with hb | hb | hb <;> exact absurd hb (hhigh (by omega) (by omega))
  · simp only [List.mem_cons, List.not_mem_nil, or_false] at hb
    rcases hb with hb | hb | hb | hb <;> exact absurd hb (hhigh (by omega) (by omega))

theorem encodeChar_ofNat_ascii {b : UInt8} (h : b.toNat < 0x80) :
    encodeChar (Char.ofNat b.toNat) = [b] := by
  have hc : (Char.ofNat b.toNat).toNat = b.toNat := toNat_ofNat (Or.inl (by omega))
  rw [encodeChar_ascii (by omega), hc, UInt8.ofNat_toNat]

/-- No encoding reaches across an ASCII byte. -/
theorem not_prefix_append_ascii {bs rest : Bytes} {b : UInt8} (hb : b.toNat < 0x80)
    (hne : bs ≠ []) {c : Char} (h : ¬ encodeChar c <+: bs) : ¬ encodeChar c <+: bs ++ b :: rest := by
  intro hc
  rcases List.prefix_or_prefix_of_prefix hc (List.prefix_append bs (b :: rest)) with hp | ⟨t, ht⟩
  · exact h hp
  cases t with
  | nil =>
    rw [List.append_nil] at ht
    exact h (ht ▸ List.prefix_refl bs)
  | cons x t =>
    rw [← ht, List.prefix_append_right_inj] at hc
    obtain rfl := (List.cons_prefix_cons.mp hc).1
    have hone := encodeChar_of_mem_ascii (c := c) (b := x) (by rw [← ht]; simp) hb
    rw [hone] at ht
    have hlen := congrArg List.length ht
    have hpos := List.length_pos_of_ne_nil hne
    simp only [List.length_append, List.length_cons, List.length_nil] at hlen
    omega

theorem Decodes.append_ascii {bs rest : Bytes} {cs ds : List Char} (h : Decodes bs cs)
    {b : UInt8} (hb : b.toNat < 0x80) (hrest : Decodes rest ds) :
    Decodes (bs ++ b :: rest) (cs ++ Char.ofNat b.toNat :: ds) := by
  induction h with
  | nil =>
    have hchar := Decodes.char (Char.ofNat b.toNat) hrest
    rw [encodeChar_ofNat_ascii hb] at hchar
    exact hchar
  | char c _ ih =>
    rw [List.append_assoc]
    exact .char c ih
  | invalid x hx _ ih =>
    exact .invalid x (fun c => not_prefix_append_ascii hb (List.cons_ne_nil _ _) (hx c)) ih

theorem decodes_decode (bs : Bytes) : Decodes bs (decode bs) := decodes_iff.mpr rfl

/-- What comes before an ASCII byte and what comes after it are decoded apart. -/
theorem decode_append_ascii {b : UInt8} (hb : b.toNat < 0x80) (bs rest : Bytes) :
    decode (bs ++ b :: rest) = decode bs ++ Char.ofNat b.toNat :: decode rest :=
  (decodes_iff.mp ((decodes_decode bs).append_ascii hb (decodes_decode rest))).symm

/-- An ASCII character is one byte, and it cuts the bytes where it cuts the characters. -/
theorem Decodes.exists_of_append {bs : Bytes} {xs ys : List Char} {c : Char}
    (hc : c.toNat < 0x80) (h : Decodes bs (xs ++ c :: ys)) :
    ∃ front back, bs = front ++ UInt8.ofNat c.toNat :: back ∧ Decodes front xs ∧
      Decodes back ys := by
  generalize hcs : xs ++ c :: ys = cs at h
  induction h generalizing xs with
  | nil => simp at hcs
  | @char d rest cs hrest ih =>
    cases xs with
    | nil =>
      obtain ⟨rfl, rfl⟩ := List.cons.inj hcs
      exact ⟨[], rest, by rw [encodeChar_ascii hc]; rfl, .nil, hrest⟩
    | cons x xs =>
      obtain ⟨rfl, htail⟩ := List.cons.inj hcs
      obtain ⟨front, back, rfl, hfront, hback⟩ := ih htail
      exact ⟨encodeChar x ++ front, back, by simp, .char x hfront, hback⟩
  | @invalid b rest cs hb hrest ih =>
    cases xs with
    | nil =>
      obtain ⟨rfl, -⟩ := List.cons.inj hcs
      exact absurd hc (by decide)
    | cons x xs =>
      obtain ⟨rfl, htail⟩ := List.cons.inj hcs
      obtain ⟨front, back, rfl, hfront, hback⟩ := ih htail
      have hextends : b :: front <+: b :: (front ++ UInt8.ofNat c.toNat :: back) :=
        List.prefix_append (b :: front) _
      exact ⟨b :: front, back, rfl, .invalid b (fun d hd => hb d (hd.trans hextends)) hfront, hback⟩

theorem mem_decode_ascii_iff {b : UInt8} (hb : b.toNat < 0x80) {bs : Bytes} :
    Char.ofNat b.toNat ∈ decode bs ↔ b ∈ bs := by
  have hc : (Char.ofNat b.toNat).toNat = b.toNat := toNat_ofNat (Or.inl (by omega))
  constructor
  · intro h
    obtain ⟨xs, ys, hcs⟩ := List.append_of_mem h
    obtain ⟨front, back, rfl, -, -⟩ :=
      (hcs ▸ decodes_decode bs).exists_of_append (by rw [hc]; exact hb)
    rw [hc, UInt8.ofNat_toNat]
    simp
  · intro h
    obtain ⟨front, back, rfl⟩ := List.append_of_mem h
    rw [decode_append_ascii hb]
    simp

/-- What a byte string is cut into: each piece is the encoding of its character, or a single byte
with which no encoding starts. -/
inductive Cut : List Piece → Prop where
  | nil : Cut []
  | char (c : Char) {ps : List Piece} (h : Cut ps) : Cut (⟨c, encodeChar c⟩ :: ps)
  | invalid (b : UInt8) {ps : List Piece}
      (hb : ∀ c, ¬ encodeChar c <+: b :: ps.flatMap Piece.bytes) (h : Cut ps) :
      Cut (⟨replacement, [b]⟩ :: ps)

/-- The pieces of a byte string are such, and give it back. -/
theorem pieces_spec (bs : Bytes) :
    Cut (pieces bs) ∧ (pieces bs).flatMap Piece.bytes = bs := by
  induction hn : bs.length using Nat.strongRecOn generalizing bs with
  | _ n ih =>
    cases bs with
    | nil => exact ⟨.nil, rfl⟩
    | cons b rest =>
      have hlen : (rest.drop (head b rest).2).length < n := by
        rw [← hn, List.length_drop, List.length_cons]
        omega
      obtain ⟨hcut, hbytes⟩ := ih _ hlen _ rfl
      rw [pieces_cons]
      constructor
      · rcases head_spec b rest with ⟨he, -⟩ | ⟨he, hno⟩
        · rw [← he]
          exact .char _ hcut
        · rw [he] at hcut hbytes ⊢
          exact .invalid b (by rw [hbytes]; exact hno) hcut
      · rw [List.flatMap_cons, hbytes, List.cons_append, List.take_append_drop]

theorem Cut.pieces_eq {ps : List Piece} (h : Cut ps) : pieces (ps.flatMap Piece.bytes) = ps := by
  induction h with
  | nil => rfl
  | @char c ps _ ih =>
    obtain ⟨b, tail, hc⟩ := List.exists_cons_of_ne_nil (encodeChar_ne_nil c)
    rw [List.flatMap_cons, hc, List.cons_append, pieces_cons, head_encodeChar hc]
    dsimp only
    rw [List.take_left, List.drop_left, ih]
  | @invalid b ps hb _ ih =>
    have hhead : head b (ps.flatMap Piece.bytes) = (replacement, 0) := by
      rcases head_spec b (ps.flatMap Piece.bytes) with ⟨he, -⟩ | ⟨he, -⟩
      · refine absurd ?_ (hb (head b (ps.flatMap Piece.bytes)).1)
        rw [he]
        exact (List.prefix_cons_inj b).mpr (List.take_prefix _ _)
      · exact he
    rw [List.flatMap_cons, List.singleton_append, pieces_cons, hhead]
    dsimp only
    rw [List.take_zero, List.drop_zero, ih]

theorem Cut.of_append_right {ps qs : List Piece} (h : Cut (ps ++ qs)) : Cut qs := by
  induction ps with
  | nil => exact h
  | cons p ps ih => cases h <;> exact ih ‹_›

theorem Cut.of_append_left {ps qs : List Piece} (h : Cut (ps ++ qs)) : Cut ps := by
  induction ps with
  | nil => exact .nil
  | cons p ps ih =>
    cases h with
    | char c h => exact .char c (ih h)
    | invalid b hb h =>
      have hbytes : (ps ++ qs).flatMap Piece.bytes =
          ps.flatMap Piece.bytes ++ qs.flatMap Piece.bytes := List.flatMap_append
      refine .invalid b (fun c hc => hb c (hc.trans ?_)) (ih h)
      exact hbytes ▸ List.prefix_append (b :: ps.flatMap Piece.bytes) _

theorem cut_map_encodeChar (cs : List Char) :
    Cut (cs.map fun c => ⟨c, encodeChar c⟩) := by
  induction cs with
  | nil => exact .nil
  | cons c cs ih => exact .char c ih

end Utf8

namespace White
open Utf8 (Piece)

theorem dropEnd_eq {α : Type} (p : α → Bool) (xs : List α) : dropEnd p xs = xs.rdropWhile p := rfl

theorem dropEnd_eq_self {α : Type} {p : α → Bool} {xs : List α} (h : ∀ x ∈ xs, p x = false) :
    dropEnd p xs = xs :=
  List.rdropWhile_eq_self_iff.mpr fun hne => by simp [h _ (List.getLast_mem hne)]

theorem trim_eq_self {cs : List Char} (h : ∀ c ∈ cs, isWhite c = false) : trim cs = cs := by
  have hfront : cs.dropWhile isWhite = cs := by
    cases cs with
    | nil => rfl
    | cons c cs => exact List.dropWhile_cons_of_neg (by rw [h c List.mem_cons_self]; decide)
  rw [trim, hfront, dropEnd_eq_self h]

/-- White space in front is taken off. -/
theorem trim_append_left {w : List Char} (h : ∀ c ∈ w, isWhite c = true) (cs : List Char) :
    trim (w ++ cs) = trim cs := by
  rw [trim, List.dropWhile_append_of_pos h, trim]

/-- White space at the end is taken off. -/
theorem trim_append_right {w : List Char} (h : ∀ c ∈ w, isWhite c = true) (cs : List Char) :
    trim (cs ++ w) = trim cs := by
  have hwhite : w.dropWhile isWhite = [] := List.dropWhile_eq_nil_iff.mpr h
  rw [trim, trim, List.dropWhile_append]
  split
  · next hempty => rw [hwhite, List.isEmpty_iff.mp hempty]
  · have hback : ∀ c ∈ w.reverse, isWhite c = true := fun c hc => h c (List.mem_reverse.mp hc)
    rw [dropEnd, List.reverse_append, List.dropWhile_append_of_pos hback, dropEnd]

/-- What is trimmed is white space at both ends. -/
theorem exists_eq_append_trim (cs : List Char) :
    ∃ w : List Char, (∀ c ∈ w, isWhite c = true) ∧
      cs = cs.takeWhile isWhite ++ (trim cs ++ w) := by
  have hend := List.rdropWhile_append_rtakeWhile (p := isWhite) (l := cs.dropWhile isWhite)
  refine ⟨(cs.dropWhile isWhite).rtakeWhile isWhite, ?_, ?_⟩
  · intro c hc
    exact List.mem_rtakeWhile_imp hc
  · rw [trim, dropEnd_eq, hend, List.takeWhile_append_dropWhile]

theorem trim_trim (cs : List Char) : trim (trim cs) = trim cs := by
  obtain ⟨w, hw, hcs⟩ := exists_eq_append_trim cs
  have hfront : ∀ c ∈ cs.takeWhile isWhite, isWhite c = true := fun c hc => List.mem_takeWhile_imp hc
  conv_rhs => rw [hcs, trim_append_left hfront, trim_append_right hw]

theorem dropEnd_map {α β : Type} (f : α → β) (p : β → Bool) (xs : List α) :
    dropEnd p (xs.map f) = (dropEnd (fun x => p (f x)) xs).map f := by
  rw [dropEnd, ← List.map_reverse, List.dropWhile_map, ← List.map_reverse]
  rfl

/-- Trimming bytes is trimming their characters. -/
theorem decode_trimBytes (bs : Bytes) : Utf8.decode (trimBytes bs) = trim (Utf8.decode bs) := by
  let white (p : Piece) : Bool := isWhite p.char
  obtain ⟨hcut, -⟩ := Utf8.pieces_spec bs
  rw [← List.takeWhile_append_dropWhile (p := white) (l := Utf8.pieces bs),
    ← List.rdropWhile_append_rtakeWhile (p := white)
      (l := (Utf8.pieces bs).dropWhile white), ← dropEnd_eq] at hcut
  have hpieces := hcut.of_append_right.of_append_left.pieces_eq
  have hbytes : trimBytes bs =
      (dropEnd white ((Utf8.pieces bs).dropWhile white)).flatMap Piece.bytes := rfl
  rw [Utf8.decode, hbytes, hpieces, trim, Utf8.decode, List.dropWhile_map, dropEnd_map]
  rfl

theorem trimBytes_encode (cs : List Char) : trimBytes (Utf8.encode cs) = Utf8.encode (trim cs) := by
  have hbytes (ds : List Char) :
      (ds.map fun c => (⟨c, Utf8.encodeChar c⟩ : Piece)).flatMap Piece.bytes = Utf8.encode ds := by
    rw [List.flatMap_map]
    rfl
  have hpieces := (Utf8.cut_map_encodeChar cs).pieces_eq
  rw [hbytes] at hpieces
  rw [trimBytes, hpieces, List.dropWhile_map, dropEnd_map, hbytes]
  rfl

end White
end TapeLang
