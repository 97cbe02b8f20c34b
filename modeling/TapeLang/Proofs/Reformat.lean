import Mathlib.Data.List.Forall2
import TapeLang.Channel.Buffer
import TapeLang.Proofs.Alike
import TapeLang.Proofs.Layout

/-! A text and its canonical layout run alike: they have the same statements in the same order, so
that only the places and frames of faults differ. -/
namespace TapeLang

namespace Block
variable {a b : Block} {T : Position → Position → Prop}

/-- Where the statements stand, a loop before its body. -/
def positions (b : Block) : List Position := b.statements.map Token.pos

theorem positions_loop (p : Position) (body next : Block) :
    (loop p body next).positions = p :: (body.positions ++ next.positions) := by
  simp [positions, statements]

/-- The statements at `x` in one tree and at `y` in the other have the same number. -/
def SameStatement (a b : Block) (x y : Position) : Prop :=
  ∃ k : Nat, a.positions[k]? = some x ∧ b.positions[k]? = some y

theorem length_positions_of_bare (h : a.bare = b.bare) :
    a.positions.length = b.positions.length := by
  have hbare (c : Block) : c.bare.positions.length = c.positions.length := by
    induction c with
    | done => rfl
    | act i p next ih => exact congrArg Nat.succ ih
    | loop p body next ihb ih =>
      simp only [bare, positions_loop, List.length_cons, List.length_append, ihb, ih]
  rw [← hbare a, h, hbare b]

theorem aligned_of_bare (h : a.bare = b.bare) (hT : List.Forall₂ T a.positions b.positions) :
    a.Aligned T b := by
  induction a generalizing b with
  | done =>
    cases b with
    | done => exact .done
    | act => simp [bare] at h
    | loop => simp [bare] at h
  | act i x next ih =>
    cases b with
    | done => simp [bare] at h
    | loop => simp [bare] at h
    | act j y next' =>
      simp only [bare, act.injEq, true_and] at h
      obtain ⟨rfl, hnext⟩ := h
      obtain ⟨hx, hrest⟩ := List.forall₂_cons.mp hT
      exact .act hx (ih hnext hrest)
  | loop x body next ihb ih =>
    cases b with
    | done => simp [bare] at h
    | act => simp [bare] at h
    | loop y body' next' =>
      simp only [bare, loop.injEq, true_and] at h
      obtain ⟨hbody, hnext⟩ := h
      have hlen := length_positions_of_bare hbody
      rw [positions_loop, positions_loop, List.forall₂_cons] at hT
      obtain ⟨hx, hrest⟩ := hT
      -- Both bodies have as many statements, so the two lists are cut at the same place.
      have hinside := List.forall₂_take_append _ _ _ hrest
      have hafter := List.forall₂_drop_append _ _ _ hrest
      rw [List.take_left' hlen] at hinside
      rw [List.drop_left' hlen] at hafter
      exact .loop hx (ihb hbody hinside) (ih hnext hafter)

theorem aligned_sameStatement (h : a.bare = b.bare) : a.Aligned (a.SameStatement b) b := by
  refine aligned_of_bare h (List.forall₂_iff_get.mpr ⟨length_positions_of_bare h, ?_⟩)
  intro k ha hb
  exact ⟨k, List.getElem?_eq_getElem ha, List.getElem?_eq_getElem hb⟩

end Block

namespace Engine

/-- The layout of a program's text is a program that runs alike, with the same fuel: it goes on
for ever or ends when the other does, then with the same machine, and with the same error of the
statement that has the same number. -/
theorem run_formatSource {source : Bytes} {p : Program} (hp : Program.parse source = .ok p) :
    ∃ text q, formatSource source = .ok text ∧ Program.parse text = .ok q ∧
      p.body.positions.Nodup ∧ q.body.positions.Nodup ∧
      ∀ (σ : Type) [Channel σ] (e : Engine) (channel : σ) (fuel : Nat),
        Option.Rel (Run.Alike (p.body.SameStatement q.body) Eq) (e.run fuel p channel)
          (e.run fuel q channel) := by
  obtain ⟨q, hq, hbare⟩ := Program.exists_parse_format p
  obtain ⟨-, -, hspells⟩ := Program.parse_eq_ok_iff.mp hp
  obtain ⟨-, -, hspells'⟩ := Program.parse_eq_ok_iff.mp hq
  have hformat : formatSource source = .ok p.format := by
    rw [formatSource, hp]
    rfl
  refine ⟨p.format, q, hformat, hq, hspells.nodup_statements, hspells'.nodup_statements, ?_⟩
  intro σ _ e channel fuel
  have haligned := Block.aligned_sameStatement hbare.symm
  have hrel := execute_alike (e := e) Channel.bisimilar_eq haligned
    (Machine.agree_refl (.fresh channel)) fuel
  rw [Machine.agree_eq] at hrel
  exact hrel

/-- The loop is left by a fault, at places that differ. -/
theorem run_formatSource_nested :
    ∃ p q, Program.parse [0x2B, 0x5B, 0x0A, 0x0A, 0x3C, 0x5D] = .ok p ∧
      Program.parse (Bytes.ofString "+\n[\n  <\n]\n") = .ok q ∧
      Option.Rel (Run.Alike (p.body.SameStatement q.body) Eq) (run ⟨0⟩ 4 p Buffer.empty)
        (run ⟨0⟩ 4 q Buffer.empty) := by
  let p : Program := ⟨.act .increment ⟨0, 1, 1⟩ (.loop ⟨1, 1, 2⟩ (.act .left ⟨4, 3, 1⟩ .done)
    .done), [0x2B, 0x5B, 0x0A, 0x0A, 0x3C, 0x5D]⟩
  have hp : Program.parse [0x2B, 0x5B, 0x0A, 0x0A, 0x3C, 0x5D] = .ok p := rfl
  have hformat : formatSource [0x2B, 0x5B, 0x0A, 0x0A, 0x3C, 0x5D] =
      .ok (Bytes.ofString "+\n[\n  <\n]\n") := rfl
  obtain ⟨text, q, htext, hq, -, -, hrun⟩ := run_formatSource hp
  rw [hformat, Except.ok.injEq] at htext
  rw [← htext] at hq
  exact ⟨p, q, hp, hq, hrun Buffer ⟨0⟩ .empty 4⟩

end Engine
end TapeLang
