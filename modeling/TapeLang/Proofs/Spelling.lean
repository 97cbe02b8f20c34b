import Mathlib.Data.List.Basic
import TapeLang.Program.Basic

/-! Trees written back as tokens: the symbols of a tree, its statements, its loops, and the
grammar that ties a tree to a sequence of tokens. -/
namespace TapeLang

/-- Every symbol but a closing bracket begins a statement of its own. -/
def Token.startsStatement (t : Token) : Bool := t.symbol != .closing

namespace Block

/-- A tree written back: a loop is its opening bracket, its body and a closing bracket. -/
def symbols : Block → List Symbol
  | .done => []
  | .act i _ next => .act i :: next.symbols
  | .loop _ body next => .opening :: (body.symbols ++ .closing :: next.symbols)

/-- The statements of a tree in the order of their symbols, a loop by its opening bracket. -/
def statements : Block → List Token
  | .done => []
  | .act i p next => ⟨.act i, p⟩ :: next.statements
  | .loop p body next => ⟨.opening, p⟩ :: (body.statements ++ next.statements)

/-- The loops of a tree at all depths, by their positions and bodies. -/
def loops : Block → List (Position × Block)
  | .done => []
  | .act _ _ next => next.loops
  | .loop p body next => (p, body) :: (body.loops ++ next.loops)

theorem loops_sublist_statements (b : Block) :
    (b.loops.map Prod.fst).Sublist (b.statements.map Token.pos) := by
  induction b with
  | done => exact List.Sublist.refl []
  | act i p next ih => exact ih.cons p
  | loop p body next ihb ih =>
    simp only [loops, statements, List.map_cons, List.map_append]
    exact (ihb.append ih).cons_cons p

/-- The grammar: which tokens spell a tree. Only the place of a closing bracket is free. -/
inductive Spells : Block → List Token → Prop where
  | done : Spells .done []
  | act {i : Instr} {p : Position} {next : Block} {ts : List Token} (h : Spells next ts) :
      Spells (.act i p next) (⟨.act i, p⟩ :: ts)
  | loop {p q : Position} {body next : Block} {inside ts : List Token} (hb : Spells body inside)
      (h : Spells next ts) :
      Spells (.loop p body next) (⟨.opening, p⟩ :: (inside ++ ⟨.closing, q⟩ :: ts))

theorem Spells.symbols_eq {b : Block} {ts : List Token} (h : Spells b ts) :
    b.symbols = ts.map Token.symbol := by
  induction h with
  | done => rfl
  | act _ ih => simp [symbols, ih]
  | loop _ _ ihb ih => simp [symbols, ihb, ih]

theorem Spells.statements_eq {b : Block} {ts : List Token} (h : Spells b ts) :
    b.statements = ts.filter Token.startsStatement := by
  induction h with
  | done => rfl
  | act _ ih => simp [statements, Token.startsStatement, List.filter_cons, ih]
  | loop _ _ ihb ih => simp [statements, Token.startsStatement, List.filter_cons, ihb, ih]

/-- The statements of a tree written back with what follows it, given tokens that list both. -/
private theorem spells_of_append {b : Block} (rest : List Symbol) (more : List Token)
    {ts : List Token}
    (hs : b.symbols ++ rest = ts.map Token.symbol)
    (hst : b.statements ++ more = ts.filter Token.startsStatement) :
    ∃ front back, ts = front ++ back ∧ Spells b front ∧ rest = back.map Token.symbol ∧
      more = back.filter Token.startsStatement := by
  induction b generalizing rest more ts with
  | done => exact ⟨[], ts, rfl, .done, hs, hst⟩
  | act i p next ih =>
    cases ts with
    | nil => simp [symbols] at hs
    | cons t ts =>
      simp only [symbols, List.cons_append, List.map_cons, List.cons.injEq] at hs
      have hne : t.startsStatement = true := by simp [Token.startsStatement, ← hs.1]
      rw [List.filter_cons_of_pos hne] at hst
      simp only [statements, List.cons_append, List.cons.injEq] at hst
      obtain ⟨front, back, rfl, hf, hr, hm⟩ := ih _ _ hs.2 hst.2
      exact ⟨t :: front, back, rfl, hst.1 ▸ .act hf, hr, hm⟩
  | loop p body next ihb ih =>
    cases ts with
    | nil => simp [symbols] at hs
    | cons t ts =>
      simp only [symbols, List.cons_append, List.append_assoc, List.map_cons,
        List.cons.injEq] at hs
      have hne : t.startsStatement = true := by simp [Token.startsStatement, ← hs.1]
      rw [List.filter_cons_of_pos hne] at hst
      simp only [statements, List.cons_append, List.append_assoc, List.cons.injEq] at hst
      obtain ⟨inside, back, rfl, hi, hr, hm⟩ := ihb _ _ hs.2 hst.2
      cases back with
      | nil => simp at hr
      | cons c back =>
        simp only [List.map_cons, List.cons.injEq] at hr
        have hcl : ¬ c.startsStatement = true := by simp [Token.startsStatement, ← hr.1]
        rw [List.filter_cons_of_neg hcl] at hm
        obtain ⟨front, back, rfl, hf, hr', hm'⟩ := ih _ _ hr.2 hm
        obtain ⟨cs, cp⟩ := c
        obtain rfl : Symbol.closing = cs := hr.1
        refine ⟨t :: (inside ++ ⟨.closing, cp⟩ :: front), back, by simp, ?_, hr', hm'⟩
        exact hst.1 ▸ .loop hi hf

/-- A tree is spelled by the tokens that have its symbols and the places of its statements. -/
theorem spells_iff {b : Block} {ts : List Token} :
    Spells b ts ↔ b.symbols = ts.map Token.symbol ∧
      b.statements = ts.filter Token.startsStatement := by
  constructor
  · intro h
    exact ⟨h.symbols_eq, h.statements_eq⟩
  · rintro ⟨hs, hst⟩
    obtain ⟨front, back, rfl, hf, hr, -⟩ :=
      spells_of_append [] [] (by simpa using hs) (by simpa using hst)
    have hb : back = [] := List.map_eq_nil_iff.mp hr.symm
    rw [hb, List.append_nil]
    exact hf

/-- Every loop has its own pair of brackets, and what stands between them spells its body. -/
theorem Spells.exists_of_mem_loops {b : Block} {ts : List Token} (h : Spells b ts)
    {l : Position × Block} (hl : l ∈ b.loops) :
    ∃ before inside after q,
      ts = before ++ ⟨.opening, l.1⟩ :: (inside ++ ⟨.closing, q⟩ :: after) ∧
        Spells l.2 inside := by
  induction h with
  | done => simp [loops] at hl
  | @act i p next ts h ih =>
    obtain ⟨before, inside, after, q, rfl, hi⟩ := ih hl
    exact ⟨⟨.act i, p⟩ :: before, inside, after, q, rfl, hi⟩
  | @loop p q body next inner ts hb h ihb ih =>
    rw [loops, List.mem_cons, List.mem_append] at hl
    rcases hl with rfl | hl | hl
    · exact ⟨[], inner, ts, q, rfl, hb⟩
    · obtain ⟨before, inside, after, r, rfl, hi⟩ := ihb hl
      exact ⟨⟨.opening, p⟩ :: before, inside, after ++ ⟨.closing, q⟩ :: ts, r, by simp, hi⟩
    · obtain ⟨before, inside, after, r, rfl, hi⟩ := ih hl
      exact ⟨⟨.opening, p⟩ :: (inner ++ ⟨.closing, q⟩ :: before), inside, after, r, by simp, hi⟩

end Block
end TapeLang
