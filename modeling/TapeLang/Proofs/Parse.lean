import TapeLang.Program.Parse
import TapeLang.Proofs.Brackets
import TapeLang.Proofs.Spelling
import TapeLang.Proofs.Tokens
import TapeLang.Proofs.Utf8

/-! Reading programs against the grammar: which texts are programs, and which tree each one is. -/
namespace TapeLang
namespace Block
open Brackets

/-- Statements given last first, put before a block. -/
private def before (current : List Statement) (rest : Block) : Block :=
  current.foldl (fun next s => cons s next) rest

/-- What the open scopes still demand of the tokens: the innermost is finished first and becomes
a statement of the one around it. -/
private def Completes : List Scope → List Statement → List Token → Block → Prop
  | [], current, ts, b => ∃ rest, Spells rest ts ∧ b = before current rest
  | s :: scopes, current, ts, b =>
    ∃ rest inside q after, Spells rest inside ∧ ts = inside ++ ⟨.closing, q⟩ :: after ∧
      Completes scopes (.loop s.opened (before current rest) :: s.before) after b

/-- A statement that was read may be taken back together with the tokens that spell it. -/
private theorem completes_unread (st : Statement) (front : List Token) {scopes : List Scope}
    {current : List Statement} {ts : List Token} {b : Block}
    (hst : ∀ rest inside, Spells rest inside → Spells (cons st rest) (front ++ inside))
    (h : Completes scopes (st :: current) ts b) : Completes scopes current (front ++ ts) b := by
  cases scopes with
  | nil =>
    obtain ⟨rest, hr, rfl⟩ := h
    exact ⟨cons st rest, hst rest ts hr, rfl⟩
  | cons s scopes =>
    obtain ⟨rest, inside, q, after, hr, rfl, hc⟩ := h
    exact ⟨cons st rest, front ++ inside, q, after, hst rest inside hr, by simp, hc⟩

private theorem completes_of_parseFrom {ts : List Token} {current : List Statement}
    {scopes : List Scope} {b : Block} (h : parseFrom current scopes ts = .ok b) :
    Completes scopes current ts b := by
  induction ts generalizing current scopes with
  | nil =>
    cases scopes with
    | nil => exact ⟨.done, .done, (Except.ok.inj h).symm⟩
    | cons s scopes => simp [parseFrom] at h
  | cons t ts ih =>
    obtain ⟨_ | _ | _, p⟩ := t
    case act i =>
      exact completes_unread (.act i p) [⟨.act i, p⟩] (fun _ _ hr => .act hr) (ih h)
    case opening =>
      obtain ⟨body, inside, q, after, hb, rfl, hc⟩ := ih h
      have hl (rest : Block) (more : List Token) (hr : Spells rest more) :
          Spells (.loop p body rest) (⟨.opening, p⟩ :: (inside ++ [⟨.closing, q⟩]) ++ more) := by
        simpa using Spells.loop hb hr
      simpa using completes_unread (.loop p body) _ hl hc
    case closing =>
      cases scopes with
      | nil => simp [parseFrom] at h
      | cons s scopes => exact ⟨.done, [], p, ts, .done, rfl, ih h⟩

/-- The statements of a block put on top of those read before it. -/
private def onto (current : List Statement) : Block → List Statement
  | .done => current
  | .act i p next => onto (.act i p :: current) next
  | .loop p body next => onto (.loop p body :: current) next

private theorem ofReversed_onto (current : List Statement) (b : Block) :
    ofReversed (onto current b) = before current b := by
  induction b generalizing current with
  | done => rfl
  | act i p next ih => exact ih _
  | loop p body next _ ih => exact ih _

/-- Tokens that spell a block are read as its statements, whatever is open around them. -/
private theorem parseFrom_append {b : Block} {front : List Token} (h : Spells b front)
    (current : List Statement) (scopes : List Scope) (ts : List Token) :
    parseFrom current scopes (front ++ ts) = parseFrom (onto current b) scopes ts := by
  induction h generalizing current scopes ts with
  | done => rfl
  | act h ih => exact ih _ _ _
  | @loop p q body next inside after hb h ihb ih =>
    rw [List.cons_append, List.append_assoc, List.cons_append, parseFrom, ihb, parseFrom,
      ofReversed_onto, ih]
    rfl

/-- The reader builds exactly the trees of the grammar. -/
theorem ofTokens_eq_ok_iff {ts : List Token} {b : Block} :
    ofTokens ts = .ok b ↔ Spells b ts := by
  constructor
  · intro h
    obtain ⟨rest, hr, rfl⟩ := completes_of_parseFrom h
    exact hr
  · intro h
    have hp := parseFrom_append h [] [] []
    rw [List.append_nil, parseFrom, ofReversed_onto] at hp
    exact hp

private theorem parseFrom_isOk_iff (current : List Statement) (scopes : List Scope)
    {ts : List Token} :
    (∃ b, parseFrom current scopes ts = .ok b) ↔
      ClosesAll scopes.length Symbol.opening Symbol.closing (ts.map Token.symbol) := by
  have hoc := Symbol.opening_ne_closing
  induction ts generalizing current scopes with
  | nil =>
    rw [List.map_nil, closesAll_nil]
    cases scopes <;> simp [parseFrom]
  | cons t ts ih =>
    rw [List.map_cons]
    obtain ⟨_ | _ | _, p⟩ := t
    case act i =>
      rw [closesAll_cons_other (by simp) (by simp)]
      exact ih _ _
    case opening =>
      rw [closesAll_cons_opening hoc]
      exact ih _ (_ :: scopes)
    case closing =>
      cases scopes with
      | nil =>
        simpa [parseFrom] using not_closesAll_zero_closing hoc
      | cons s scopes =>
        rw [List.length_cons, closesAll_cons_closing hoc]
        exact ih _ scopes

/-- A sequence of tokens spells some tree exactly when its brackets are balanced. -/
theorem exists_spells_iff {ts : List Token} :
    (∃ b, Spells b ts) ↔ Balanced Symbol.opening Symbol.closing (ts.map Token.symbol) := by
  simp only [← ofTokens_eq_ok_iff]
  exact parseFrom_isOk_iff [] []

theorem Spells.unique {a b : Block} {ts : List Token} (ha : Spells a ts) (hb : Spells b ts) :
    a = b := by
  rw [← ofTokens_eq_ok_iff] at ha hb
  exact Except.ok.inj (ha.symm.trans hb)

theorem Spells.balanced {b : Block} {ts : List Token} (h : Spells b ts) :
    Balanced Symbol.opening Symbol.closing (ts.map Token.symbol) :=
  exists_spells_iff.mp ⟨b, h⟩

end Block

theorem Token.balanced_ofPart (cs part : List Char) (n : Nat) :
    Brackets.Balanced Symbol.opening Symbol.closing ((ofPart cs n part).map symbol) ↔
      Brackets.Balanced '[' ']' part := by
  have ho (c : Char) : Symbol.ofChar? c = some .opening ↔ c = '[' := Symbol.ofChar?_eq_some_iff
  have hc (c : Char) : Symbol.ofChar? c = some .closing ↔ c = ']' := Symbol.ofChar?_eq_some_iff
  rw [symbol_ofPart]
  exact Brackets.closesAll_filterMap ho hc

/-- A token behind the character with index `i` and before the one with index `j`. -/
def Token.isBetween (i j : Nat) (t : Token) : Bool :=
  decide ((i : Int) < t.pos.offset ∧ t.pos.offset < (j : Int))

/-- The tokens strictly between two characters of a text. -/
def Token.between (cs : List Char) (i j : Nat) : List Token :=
  (ofText cs).filter (isBetween i j)

/-- A loop read from a text: it stands at an opening bracket, and its body is what stands between
that bracket and the one that closes it. -/
def Block.Bracketed (cs : List Char) (pos : Position) (body : Block) : Prop :=
  ∃ i j, Brackets.Encloses '[' ']' cs i j ∧ pos = .ofIndex cs i ∧
    body.symbols = (Token.between cs i j).map Token.symbol ∧
    body.statements = (Token.between cs i j).filter Token.startsStatement

/-- What stands between two tokens is what has an offset between theirs. -/
private theorem between_eq {cs : List Char} {before inside after : List Token} {s t : Token}
    {i j : Nat} (h : Token.ofText cs = before ++ s :: (inside ++ t :: after))
    (hs : s.pos = .ofIndex cs i) (ht : t.pos = .ofIndex cs j) :
    Token.between cs i j = inside := by
  have hsorted := Token.pairwise_offset_ofText cs
  rw [h] at hsorted
  simp only [List.pairwise_append, List.pairwise_cons, List.mem_append, List.mem_cons] at hsorted
  obtain ⟨-, ⟨hsi, -, ⟨hta, -⟩, hit⟩, hbs⟩ := hsorted
  have hsoff : s.pos.offset = i := by rw [hs]; rfl
  have htoff : t.pos.offset = j := by rw [ht]; rfl
  have hbefore : before.filter (Token.isBetween i j) = [] := by
    rw [List.filter_eq_nil_iff]
    intro a ha
    have hlt := hbs a ha s (Or.inl rfl)
    simp only [Token.isBetween, decide_eq_true_eq]
    omega
  have hinside : inside.filter (Token.isBetween i j) = inside := by
    rw [List.filter_eq_self]
    intro a ha
    have hlo := hsi a (Or.inl ha)
    have hhi := hit a ha t (Or.inl rfl)
    simp only [Token.isBetween, decide_eq_true_eq]
    omega
  have hafter : after.filter (Token.isBetween i j) = [] := by
    rw [List.filter_eq_nil_iff]
    intro a ha
    have hlt := hta a ha
    simp only [Token.isBetween, decide_eq_true_eq]
    omega
  rw [Token.between, h, List.filter_append, List.filter_cons, List.filter_append,
    List.filter_cons, hbefore, hinside, hafter]
  simp [Token.isBetween, hsoff, htoff]

theorem Block.Spells.bracketed {b : Block} {cs : List Char} (h : Spells b (Token.ofText cs))
    {l : Position × Block} (hl : l ∈ b.loops) : Bracketed cs l.1 l.2 := by
  obtain ⟨before, inside, after, q, hts, hbody⟩ := h.exists_of_mem_loops hl
  obtain ⟨u, v, hu, hpos, -, hv⟩ := Token.exists_of_ofPart_eq hts
  obtain ⟨mid, w, rfl, hq, hmid, -⟩ := Token.exists_of_ofPart_eq hv.symm
  have hbal : Brackets.Balanced '[' ']' mid :=
    (Token.balanced_ofPart cs mid _).mp (hmid ▸ hbody.balanced)
  have henc := Brackets.encloses_append hbal u w
  have hbetween := between_eq hts hpos hq
  simp only [Nat.zero_add] at hpos hbetween
  refine ⟨u.length, u.length + 1 + mid.length, ?_, hpos, ?_, ?_⟩
  · rw [hu]
    exact henc
  · rw [hbetween]
    exact hbody.symbols_eq
  · rw [hbetween]
    exact hbody.statements_eq

/-- No two statements of a text stand at the same place. -/
theorem Block.Spells.nodup_statements {b : Block} {cs : List Char}
    (h : Spells b (Token.ofText cs)) : (b.statements.map Token.pos).Nodup := by
  have hsorted : (b.statements.map Token.pos).Pairwise fun p q => p.offset < q.offset := by
    rw [h.statements_eq, List.pairwise_map]
    exact (Token.pairwise_offset_ofText cs).filter _
  refine hsorted.imp ?_
  rintro p q hlt rfl
  exact Int.lt_irrefl _ hlt

theorem Block.Spells.nodup_loops {b : Block} {cs : List Char}
    (h : Spells b (Token.ofText cs)) : (b.loops.map Prod.fst).Nodup :=
  h.nodup_statements.sublist b.loops_sublist_statements

theorem Symbol.toChar_injective : Function.Injective Symbol.toChar := by
  intro s t h
  have hs := ofChar?_toChar s
  rw [h, ofChar?_toChar] at hs
  exact (Option.some.inj hs).symm

namespace Program

/-- A text is a program exactly when it can be read as tokens that spell a tree. -/
theorem parse_eq_ok_iff {source : Bytes} {p : Program} :
    parse source = .ok p ↔ Token.Readable (Utf8.decode source) ∧ p.source = source ∧
      p.body.Spells (Token.ofText (Utf8.decode source)) := by
  unfold parse
  cases hscan : Token.scan (Utf8.decode source) with
  | error e =>
    have hno : ¬ Token.Readable (Utf8.decode source) := by
      intro h
      have hok := Token.scan_eq_ok_iff.mpr ⟨h, rfl⟩
      simp [hscan] at hok
    simp [hno]
  | ok ts =>
    obtain ⟨hread, rfl⟩ := Token.scan_eq_ok_iff.mp hscan
    simp only [hread, true_and, ← Block.ofTokens_eq_ok_iff]
    obtain ⟨body, src⟩ := p
    cases Block.ofTokens (Token.ofText (Utf8.decode source)) with
    | error e => simp [Except.map]
    | ok b => simp [Except.map, and_comm, eq_comm]

theorem exists_parse_iff {source : Bytes} :
    (∃ p, parse source = .ok p) ↔ Token.Readable (Utf8.decode source) ∧
      Brackets.Balanced '[' ']' (Utf8.decode source) := by
  rw [← Token.balanced_ofPart (Utf8.decode source) _ 0]
  simp only [parse_eq_ok_iff]
  constructor
  · rintro ⟨p, hread, -, hp⟩
    exact ⟨hread, hp.balanced⟩
  · rintro ⟨hread, hbal⟩
    obtain ⟨b, hb⟩ := Block.exists_spells_iff.mpr hbal
    exact ⟨⟨b, source⟩, hread, rfl, hb⟩

/-- The programs are the texts of symbols and blanks with balanced brackets. Written back, the
tree of a program gives its symbols in order; every statement stands at its own symbol; every
loop's body is what its brackets enclose; and no other tree is so. -/
theorem parse_spec (source : Bytes) :
    Utf8.Decodes source (Utf8.decode source) ∧
    ((∃ p, parse source = .ok p) ↔
      (∀ c ∈ Utf8.decode source, c ∈ "><+-.,[]".toList ∨ c ∈ " \t\r\n".toList) ∧
        Brackets.Balanced '[' ']' (Utf8.decode source)) ∧
    ∀ p, parse source = .ok p →
      p.source = source ∧
      p.body.symbols.map Symbol.toChar = (Utf8.decode source).filter (fun c => !isBlank c) ∧
      p.body.statements =
        (Token.ofText (Utf8.decode source)).filter Token.startsStatement ∧
      (∀ l ∈ p.body.loops, Block.Bracketed (Utf8.decode source) l.1 l.2) ∧
      ∀ b : Block,
        b.symbols.map Symbol.toChar = (Utf8.decode source).filter (fun c => !isBlank c) →
        b.statements = (Token.ofText (Utf8.decode source)).filter Token.startsStatement →
        b = p.body := by
  refine ⟨Utf8.decodes_iff.mpr rfl, ?_, ?_⟩
  · rw [exists_parse_iff, Token.readable_iff]
  intro p hp
  obtain ⟨hread, hsource, hspells⟩ := parse_eq_ok_iff.mp hp
  have hchars := Token.chars_ofText hread
  refine ⟨hsource, ?_, hspells.statements_eq, fun l hl => hspells.bracketed hl, ?_⟩
  · rw [hspells.symbols_eq, hchars]
  · intro b hb hst
    rw [← hchars] at hb
    have hsym := Symbol.toChar_injective.list_map hb
    exact (Block.spells_iff.mpr ⟨hsym, hst⟩).unique hspells

/-- A loop over two lines, with its body on the second. -/
theorem parse_spec_two_lines :
    parse [0x5B, 0x0A, 0x2B, 0x5D] =
      .ok ⟨.loop ⟨0, 1, 1⟩ (.act .increment ⟨2, 2, 1⟩ .done) .done, [0x5B, 0x0A, 0x2B, 0x5D]⟩ ∧
    Block.Bracketed ['[', '\n', '+', ']'] ⟨0, 1, 1⟩ (.act .increment ⟨2, 2, 1⟩ .done) := by
  have hp : parse [0x5B, 0x0A, 0x2B, 0x5D] =
      .ok ⟨.loop ⟨0, 1, 1⟩ (.act .increment ⟨2, 2, 1⟩ .done) .done, [0x5B, 0x0A, 0x2B, 0x5D]⟩ :=
    rfl
  obtain ⟨-, -, -, hloops, -⟩ := (parse_spec _).2.2 _ hp
  exact ⟨hp, hloops (⟨0, 1, 1⟩, .act .increment ⟨2, 2, 1⟩ .done) (List.mem_singleton.mpr rfl)⟩

end Program
end TapeLang
