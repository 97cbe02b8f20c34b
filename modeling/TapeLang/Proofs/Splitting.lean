import Mathlib.Data.List.TakeWhile
import TapeLang.Channel.Buffer
import TapeLang.Proofs.Alike
import TapeLang.Proofs.Parse

/-! Texts one after the other: two programs in a row are a program, and without a quota running it
comes to the same as running the first and then the second. -/
namespace TapeLang

/-- Where a position of a text is found when `before` is put in front of the text. -/
def Position.after (before : List Char) (p : Position) : Position :=
  ⟨p.offset + before.length, p.line + before.count '\n',
    if p.line = 1 then p.column + (before.reverse.takeWhile (· != '\n')).length else p.column⟩

theorem Position.ofIndex_append_left {i : Nat} {before : List Char} (h : i ≤ before.length)
    (cs : List Char) : ofIndex (before ++ cs) i = ofIndex before i := by
  unfold ofIndex
  rw [List.take_append_of_le_length h]

/-- The characters since the last line feed, when some text comes before them all. -/
private theorem takeWhile_reverse_append (before cs : List Char) :
    ((cs.reverse ++ before.reverse).takeWhile (· != '\n')).length =
      if '\n' ∈ cs then (cs.reverse.takeWhile (· != '\n')).length
      else (cs.reverse.takeWhile (· != '\n')).length +
        (before.reverse.takeWhile (· != '\n')).length := by
  by_cases hfeed : '\n' ∈ cs
  · have hshort : (cs.reverse.takeWhile (· != '\n')).length ≠ cs.reverse.length := by
      intro hlen
      have hall := (List.takeWhile_prefix (· != '\n')).eq_of_length hlen
      rw [← List.mem_reverse, ← hall] at hfeed
      simpa using List.mem_takeWhile_imp hfeed
    rw [List.takeWhile_append, if_neg hshort, if_pos hfeed]
  · have hall : ∀ c ∈ cs.reverse, (c != '\n') = true := by
      intro c hc
      rw [List.mem_reverse] at hc
      simpa using fun he : c = '\n' => hfeed (he ▸ hc)
    have hself : cs.reverse.takeWhile (· != '\n') = cs.reverse :=
      List.takeWhile_eq_self_iff.mpr hall
    rw [List.takeWhile_append_of_pos hall, hself, if_neg hfeed, List.length_append]

theorem Position.ofIndex_append_right (before cs : List Char) (i : Nat) :
    ofIndex (before ++ cs) (before.length + i) = (ofIndex cs i).after before := by
  have htake : (before ++ cs).take (before.length + i) = before ++ cs.take i := by
    rw [List.take_append, List.take_of_length_le (by omega), Nat.add_sub_cancel_left]
  have hline : (1 + ((cs.take i).count '\n' : Int) = 1) ↔ '\n' ∉ cs.take i := by
    rw [← List.count_eq_zero]
    omega
  unfold ofIndex after
  rw [htake, List.count_append, List.reverse_append, takeWhile_reverse_append]
  simp only [hline, Position.mk.injEq]
  refine ⟨by omega, by omega, ?_⟩
  by_cases hfeed : '\n' ∈ cs.take i
  · simp [hfeed]
  · simp [hfeed]
    omega

namespace Block

def append : Block → Block → Block
  | .done, b => b
  | .act i p next, b => .act i p (next.append b)
  | .loop p body next, b => .loop p body (next.append b)

def relocate (g : Position → Position) : Block → Block
  | .done => .done
  | .act i p next => .act i (g p) (next.relocate g)
  | .loop p body next => .loop (g p) (body.relocate g) (next.relocate g)

theorem aligned_relocate (g : Position → Position) (b : Block) :
    b.Aligned (fun x y => y = g x) (b.relocate g) := by
  induction b with
  | done => exact .done
  | act i p next ih => exact .act rfl ih
  | loop p body next ihb ih => exact .loop rfl ihb ih

theorem Spells.append {a b : Block} {ts us : List Token} (ha : a.Spells ts) (hb : b.Spells us) :
    (a.append b).Spells (ts ++ us) := by
  induction ha with
  | done => exact hb
  | act _ ih => exact .act ih
  | loop hbody _ _ ih =>
    rw [List.cons_append, List.append_assoc, List.cons_append]
    exact .loop hbody ih

end Block

def Token.relocate (g : Position → Position) (t : Token) : Token := { t with pos := g t.pos }

theorem Block.Spells.relocate (g : Position → Position) {b : Block} {ts : List Token}
    (h : b.Spells ts) : (b.relocate g).Spells (ts.map (Token.relocate g)) := by
  induction h with
  | done => exact .done
  | act _ ih => exact .act ih
  | loop _ _ ihb ih =>
    rw [List.map_cons, List.map_append, List.map_cons]
    exact .loop ihb ih

/-- The second text's tokens come after the first one's, where they are moved to. -/
theorem Token.ofText_append (before cs : List Char) :
    ofText (before ++ cs) = ofText before ++ (ofText cs).map (relocate (.after before)) := by
  unfold ofText ofPart
  rw [List.zipIdx_append, List.filterMap_append, Nat.zero_add, List.map_filterMap]
  congr 1
  · apply List.filterMap_congr
    rintro ⟨c, i⟩ hi
    have hlt := (List.mem_zipIdx' hi).1
    simp only [ofIndexed?, Position.ofIndex_append_left hlt.le]
  · rw [List.zipIdx_eq_map_add, List.filterMap_map]
    apply List.filterMap_congr
    rintro ⟨c, i⟩ -
    simp only [Function.comp_apply, ofIndexed?, Position.ofIndex_append_right, Option.map_map]
    rfl

theorem Utf8.decode_append {bs : Bytes} (h : replacement ∉ decode bs) (more : Bytes) :
    decode (bs ++ more) = decode bs ++ decode more := by
  have hd : Decodes bs (decode bs) := decodes_iff.mpr rfl
  generalize decode bs = cs at h hd
  induction hd with
  | nil => rfl
  | char c _ ih =>
    rw [List.append_assoc, decode_encodeChar_append, ih (fun hm => h (List.mem_cons_of_mem _ hm))]
    rfl
  | invalid => exact absurd List.mem_cons_self h

/-- Two programs in a row are a program, with the statements of the one and then of the other. -/
theorem Program.parse_append {s₁ s₂ : Bytes} {p₁ p₂ : Program} (h₁ : Program.parse s₁ = .ok p₁)
    (h₂ : Program.parse s₂ = .ok p₂) :
    Program.parse (s₁ ++ s₂) =
      .ok ⟨p₁.body.append (p₂.body.relocate (.after (Utf8.decode s₁))), s₁ ++ s₂⟩ := by
  obtain ⟨hread₁, -, hspells₁⟩ := Program.parse_eq_ok_iff.mp h₁
  obtain ⟨hread₂, -, hspells₂⟩ := Program.parse_eq_ok_iff.mp h₂
  have hvalid : Utf8.replacement ∉ Utf8.decode s₁ := by
    intro hmem
    exact absurd (hread₁ _ hmem) (by decide)
  rw [Program.parse_eq_ok_iff, Utf8.decode_append hvalid, Token.ofText_append]
  refine ⟨?_, rfl, hspells₁.append (hspells₂.relocate _)⟩
  intro c hc
  rcases List.mem_append.mp hc with hc | hc
  · exact hread₁ c hc
  · exact hread₂ c hc

namespace Engine

section
variable {σ : Type} [Channel σ] {e : Engine} {a b : Block} {m m' : Machine σ} {o : Outcome σ}

theorem Ends.append (ha : e.Ends a m (.finished m')) (hb : e.Ends b m' o) :
    e.Ends (a.append b) m o := by
  generalize hend : Outcome.finished m' = o' at ha
  induction ha with
  | done =>
    cases hend
    exact hb
  | act h _ ih => exact .act h (ih hend)
  | fault => cases hend
  | stop => cases hend
  | skip h hz _ ih => exact .skip h hz (ih hend)
  | inside => cases hend
  | again h hz hbody _ _ ih => exact .again h hz hbody (ih hend)

theorem Ends.append_of_faulted {f : Fault} (ha : e.Ends a m (.faulted f m')) (b : Block) :
    e.Ends (a.append b) m (.faulted f m') := by
  generalize hend : Outcome.faulted f m' = o' at ha ⊢
  induction ha with
  | done => cases hend
  | act h _ ih => exact .act h (ih hend)
  | fault h => exact .fault h
  | stop h => exact .stop h
  | skip h hz _ ih => exact .skip h hz (ih hend)
  | inside h hz hbody _ => exact .inside h hz hbody
  | again h hz hbody _ _ ih => exact .again h hz hbody (ih hend)

/-- A run through two blocks stops with a fault in the first, or it goes through the first and ends
in the second. -/
theorem Ends.of_append (h : e.Ends (a.append b) m o) :
    (∃ f m', o = .faulted f m' ∧ e.Ends a m (.faulted f m')) ∨
      ∃ m', e.Ends a m (.finished m') ∧ e.Ends b m' o := by
  induction a generalizing m o with
  | done => exact Or.inr ⟨m, .done, h⟩
  | act i p next ih =>
    cases h with
    | act h hn =>
      rcases ih hn with ⟨f, m', rfl, hnext⟩ | ⟨m', hnext, hb⟩
      · exact Or.inl ⟨f, m', rfl, .act h hnext⟩
      · exact Or.inr ⟨m', .act h hnext, hb⟩
    | fault h => exact Or.inl ⟨_, _, rfl, .fault h⟩
  | loop p body next _ ih =>
    rw [Block.append] at h
    induction h using Ends.loop_induction with
    | stop h => exact Or.inl ⟨_, _, rfl, .stop h⟩
    | skip h hz hn =>
      rcases ih hn with ⟨f, m', rfl, hnext⟩ | ⟨m', hnext, hb⟩
      · exact Or.inl ⟨f, m', rfl, .skip h hz hnext⟩
      · exact Or.inr ⟨m', .skip h hz hnext, hb⟩
    | inside h hz hbody => exact Or.inl ⟨_, _, rfl, .inside h hz hbody⟩
    | again h hz hbody _ ihloop =>
      rcases ihloop with ⟨f, m', rfl, hnext⟩ | ⟨m', hnext, hb⟩
      · exact Or.inl ⟨f, m', rfl, .again h hz hbody hnext⟩
      · exact Or.inr ⟨m', .again h hz hbody hnext, hb⟩

end

/-- A flush of a buffer never fails and changes nothing. -/
theorem executes_buffer_iff {e : Engine} {p : Program} {m : Machine Buffer} {r : Run Buffer} :
    e.Executes (some p) m r ↔
      (∃ m', e.Ends p.body { m with steps := 0 } (.finished m') ∧ r = ⟨none, m'⟩) ∨
      ∃ f m', e.Ends p.body { m with steps := 0 } (.faulted f m') ∧
        r = ⟨some (.fault f (CodeFrame.locate? p.text f.pos)), m'⟩ := by
  rw [executes_iff]
  constructor
  · rintro ⟨o, ho, rfl⟩
    cases o with
    | finished m' => exact Or.inl ⟨m', ho, rfl⟩
    | faulted f m' => exact Or.inr ⟨f, m', ho, rfl⟩
  · rintro (⟨m', ho, rfl⟩ | ⟨f, m', ho, rfl⟩)
    · exact ⟨_, ho, rfl⟩
    · exact ⟨_, ho, rfl⟩

theorem inStep_add (n : Nat) : unlimited.InStep fun k l => l = n + k where
  succ h := by omega
  eq h _ := absurd h (by decide)

/-- Two programs in a row are a program. Without a quota and over a buffer it ends as the first one
does where that fails, and after a success of the first it ends as the second does from there, with
the steps of both and its faults where the text of the first moves them; and where one of the two
goes on for ever, so does the whole. -/
theorem executes_append {s₁ s₂ : Bytes} {p₁ p₂ : Program} (h₁ : Program.parse s₁ = .ok p₁)
    (h₂ : Program.parse s₂ = .ok p₂) :
    ∃ p, Program.parse (s₁ ++ s₂) = .ok p ∧ ∀ m : Machine Buffer,
      (∀ r₁, unlimited.Executes (some p₁) m r₁ → r₁.error? ≠ none →
        ∃ r, unlimited.Executes (some p) m r ∧ r₁.Alike Eq Eq r) ∧
      (∀ m₁, unlimited.Executes (some p₁) m ⟨none, m₁⟩ →
        (∀ r₂, unlimited.Executes (some p₂) m₁ r₂ →
          ∃ r, unlimited.Executes (some p) m r ∧
            r₂.Alike (fun x y => y = x.after (Utf8.decode s₁))
              (Machine.Agree (fun k l => l = m₁.steps + k) Eq) r) ∧
        ((∀ r₂, ¬ unlimited.Executes (some p₂) m₁ r₂) → ∀ r, ¬ unlimited.Executes (some p) m r)) ∧
      ((∀ r₁, ¬ unlimited.Executes (some p₁) m r₁) → ∀ r, ¬ unlimited.Executes (some p) m r) := by
  refine ⟨_, Program.parse_append h₁ h₂, ?_⟩
  intro m
  refine ⟨?_, ?_, ?_⟩
  · intro r₁ hr₁ herror
    rcases executes_buffer_iff.mp hr₁ with ⟨m', -, rfl⟩ | ⟨f, m', ho, rfl⟩
    · exact absurd rfl herror
    · refine ⟨_, executes_buffer_iff.mpr (Or.inr ⟨f, m', ho.append_of_faulted _, rfl⟩), ?_⟩
      exact ⟨.some (.fault ⟨rfl, rfl, rfl⟩), rfl⟩
  · intro m₁ hr₁
    have ho₁ : unlimited.Ends p₁.body { m with steps := 0 } (.finished m₁) := by
      rcases executes_buffer_iff.mp hr₁ with ⟨m', ho, hr⟩ | ⟨f, m', -, hr⟩
      · cases hr
        exact ho
      · cases hr
    have hm : Machine.Agree (fun k l => l = m₁.steps + k) Eq { m₁ with steps := 0 } m₁ :=
      ⟨rfl, rfl, rfl, rfl, rfl⟩
    have haligned := p₂.body.aligned_relocate (.after (Utf8.decode s₁))
    constructor
    · intro r₂ hr₂
      obtain ⟨o₂, ho₂, rfl⟩ := executes_iff.mp hr₂
      obtain ⟨o, ho, halike⟩ := ho₂.alike (inStep_add m₁.steps) Channel.bisimilar_eq haligned hm
      exact ⟨_, executes_iff.mpr ⟨o, ho₁.append ho, rfl⟩,
        conclude_alike Channel.bisimilar_eq halike _ _⟩
    · intro hno r hr
      obtain ⟨o, ho, -⟩ := executes_iff.mp hr
      rcases ho.of_append with ⟨f, m', -, hfirst⟩ | ⟨m', hfirst, hsecond⟩
      · cases ho₁.unique hfirst
      · cases ho₁.unique hfirst
        obtain ⟨o₂, ho₂, -⟩ :=
          hsecond.of_alike (inStep_add m₁.steps) Channel.bisimilar_eq haligned hm
        exact hno _ (executes_iff.mpr ⟨o₂, ho₂, rfl⟩)
  · intro hno r hr
    obtain ⟨o, ho, -⟩ := executes_iff.mp hr
    rcases ho.of_append with ⟨f, m', -, hfirst⟩ | ⟨m', hfirst, -⟩
    · exact hno _ (executes_iff.mpr ⟨_, hfirst, rfl⟩)
    · exact hno _ (executes_iff.mpr ⟨_, hfirst, rfl⟩)

/-- The fault of the second text is found on the second line of the whole. -/
theorem executes_append_second_line :
    ∃ p r f frame?, Program.parse ([0x3E, 0x0A] ++ [0x3C, 0x3C]) = .ok p ∧
      unlimited.Executes (some p) (.fresh Buffer.empty) r ∧ r.error? = some (.fault f frame?) ∧
      f.cause = .belowStart ∧ f.pos = ⟨3, 2, 2⟩ ∧ r.machine.steps = 3 := by
  let p₁ : Program := ⟨.act .right ⟨0, 1, 1⟩ .done, [0x3E, 0x0A]⟩
  let p₂ : Program := ⟨.act .left ⟨0, 1, 1⟩ (.act .left ⟨1, 1, 2⟩ .done), [0x3C, 0x3C]⟩
  have h₁ : Program.parse [0x3E, 0x0A] = .ok p₁ := rfl
  have h₂ : Program.parse [0x3C, 0x3C] = .ok p₂ := rfl
  let m : Machine Buffer := .fresh .empty
  let m₁ : Machine Buffer := { m with pointer := 1, steps := 1 }
  have hr₁ : unlimited.execute 2 (some p₁) m = some ⟨none, m₁⟩ := rfl
  have hr₂ : unlimited.execute 2 (some p₂) m₁ =
      some ⟨some (.fault ⟨.belowStart, ⟨1, 1, 2⟩, 0⟩ (CodeFrame.locate? ['<', '<'] ⟨1, 1, 2⟩)),
        { m with steps := 2 }⟩ := rfl
  obtain ⟨p, hp, hall⟩ := executes_append h₁ h₂
  obtain ⟨r, hr, ⟨herror, hmachine⟩⟩ := ((hall m).2.1 m₁ ⟨2, hr₁⟩).1 _ ⟨2, hr₂⟩
  generalize hx : r.error? = error? at herror
  cases herror with
  | some hfault =>
    cases hfault with
    | fault hf => exact ⟨p, r, _, _, hp, hr, hx, hf.cause.symm, hf.pos, hmachine.steps⟩

end Engine
end TapeLang
