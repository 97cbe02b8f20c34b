import TapeLang.Proofs.LineEdits
import TapeLang.Proofs.Resets

/-! Stored lines. The arrow keys move a cursor along the programs that were submitted, clamped at
the oldest one, and the line shows what the cursor points at. Whatever happens to a session, the
cursor points at a stored line or at none. -/
namespace TapeLang

theorem White.trim_sublist (cs : List Char) : (White.trim cs).Sublist cs := by
  have hfront : (cs.dropWhile isWhite).Sublist cs := List.dropWhile_sublist isWhite
  have hend := (List.dropWhile_sublist (l := (cs.dropWhile isWhite).reverse) isWhite).reverse
  rw [List.reverse_reverse] at hend
  exact hend.trans hfront

namespace Repl

/-- The keys that go along the stored lines. -/
inductive Arrow where
  | up
  | down
deriving DecidableEq, Repr

namespace Arrow

def key : Arrow → Key
  | .up => ⟨"up", []⟩
  | .down => ⟨"down", []⟩

/-- How many lines back the cursor is, of `n` stored ones, after one more press. -/
def move (n : Nat) (back : Nat) : Arrow → Nat
  | .up => min (back + 1) n
  | .down => back - 1

theorem move_le {n back : Nat} (h : back ≤ n) (a : Arrow) : a.move n back ≤ n := by
  cases a with
  | up => exact Nat.min_le_right _ _
  | down => exact Nat.le_trans (Nat.sub_le _ _) h

end Arrow

theorem Request.trim_of_ofLine {raw text : List Char} (h : ofLine raw = .program text) :
    White.trim raw = text := by
  unfold ofLine at h
  split at h
  · cases h
  · split_ifs at h
    cases h
    assumption

namespace Session
variable {fuel : Nat} {s s' : Session} {n back : Nat}

/-- Where the cursor is, told by how many of `n` lines it is back: at no line when it is not. -/
def position (n back : Nat) : Option Nat := if back = 0 then none else some (n - back)

/-- The line and all stored lines can be put into a line as they are, and the cursor points at one
of the stored lines, if at any. -/
structure Sound (s : Session) : Prop where
  line : LineEdit.Fits s.line.value
  stored : ∀ text ∈ s.lines, LineEdit.Fits text
  index : ∀ i, s.index? = some i → i < s.lines.size

theorem sound_initial (settings : Settings) : (initial settings).Sound :=
  ⟨LineEdit.fits_nil, fun _ h => absurd h (Array.not_mem_empty _), fun _ h => by cases h⟩

theorem lines_command (s : Session) (input : List Char) : (s.command input).1.lines = s.lines := by
  unfold command
  dsimp only
  cases Command.ofName (splitCommand input).1 with
  | input =>
    dsimp only [queueInput]
    cases readInput (Utf8.encode (splitCommand input).2) <;> rfl
  | _ => rfl

theorem value_ready (s : Session) : s.ready.line.value = [] :=
  LineEdit.fits_nil.value_setText _

namespace Sound

theorem showStored (h : s.Sound) {index? : Option Nat}
    (hindex : ∀ i, index? = some i → i < s.lines.size) : (s.showStored index?).Sound where
  line := by
    change LineEdit.Fits (LineEdit.value (LineEdit.moveTo _ _))
    rw [LineEdit.value_moveTo]
    exact LineEdit.fits_setText _ _
  stored := h.stored
  index := hindex

theorem older (h : s.Sound) : s.older.Sound := by
  unfold Session.older
  split_ifs with hempty
  · exact h
  · have hsize : 0 < s.lines.size := by
      rw [Array.isEmpty_iff_size_eq_zero] at hempty
      omega
    split
    · refine h.showStored ?_
      rintro i ⟨⟩
      omega
    · next i hi =>
      have hlt := h.index i hi
      refine h.showStored ?_
      rintro j ⟨⟩
      omega

theorem newer (h : s.Sound) : s.newer.Sound := by
  unfold Session.newer
  split
  · exact h
  · refine h.showStored ?_
    intro j hj
    split_ifs at hj with hlt
    cases hj
    exact hlt

/-- A line that was submitted is cleared, and a program that is stored was cut out of it. -/
theorem enter? (h : s.Sound) (hs : s.enter? fuel s.line = some s') : s'.Sound := by
  have hcleared (u : Session) : LineEdit.Fits u.ready.line.value := by
    rw [value_ready]
    exact LineEdit.fits_nil
  rcases s.enter?_cases fuel s.line with ⟨-, heq⟩ | ⟨text, hr, -⟩ | ⟨input, -, heq⟩
  · cases heq.symm.trans hs
    exact h
  · have htext : LineEdit.Fits text :=
      h.line.sublist (Request.trim_of_ofLine hr ▸ White.trim_sublist s.line.value)
    rw [enter?_program hr] at hs
    obtain ⟨answer, -, rfl⟩ := Option.map_eq_some_iff.mp hs
    refine ⟨hcleared _, ?_, fun _ hi => by cases hi⟩
    intro stored hstored
    rcases Array.mem_push.mp hstored with hold | rfl
    · exact h.stored stored hold
    · exact htext
  · cases heq.symm.trans hs
    refine ⟨hcleared _, ?_, fun _ hi => by cases hi⟩
    intro stored hstored
    rw [ready, lines_command] at hstored
    exact h.stored stored hstored

theorem react? {e : Event} (h : s.Sound) (hreact : s.react? fuel e = some s') : s'.Sound := by
  cases e with
  | key k =>
    obtain ⟨⟨s₁, next⟩, hpress, rfl⟩ := Option.map_eq_some_iff.mp hreact
    cases pressed_of_press? hpress with
    | older => exact h.older
    | newer => exact h.newer
    | submit hs => exact h.enter? hs
    | edit hedit => exact ⟨h.line.press? hedit, h.stored, h.index⟩
    | _ => exact ⟨h.line, h.stored, h.index⟩
  | resize width height =>
    cases hreact
    exact ⟨h.line, h.stored, h.index⟩
  | text cs =>
    cases hreact
    exact ⟨LineEdit.fits_setText _ cs, h.stored, h.index⟩

theorem reactAll? {events : List Event} (h : s.Sound) (hreact : s.reactAll? fuel events = some s') :
    s'.Sound :=
  reactAll?_invariant (fun hstep hs => hs.react? hstep) hreact h

end Sound

theorem value_showStored (h : s.Sound) {i : Nat} (hi : i < s.lines.size) :
    (s.showStored (some i)).line.value = s.lines[i] := by
  have hstored : s.lines[i]? = some s.lines[i] := Array.getElem?_eq_getElem hi
  unfold showStored
  dsimp only
  rw [LineEdit.value_moveTo, Option.bind_some, hstored, Option.getD_some]
  exact (h.stored _ (Array.getElem_mem hi)).value_setText _

theorem value_showStored_none (s : Session) : (s.showStored none).line.value = [] := by
  unfold showStored
  dsimp only
  rw [LineEdit.value_moveTo]
  exact LineEdit.fits_nil.value_setText _

theorem older_eq (hn : 0 < s.lines.size) (hback : back ≤ s.lines.size)
    (hindex : s.index? = position s.lines.size back) :
    s.older = s.showStored (position s.lines.size (min (back + 1) s.lines.size)) := by
  have hempty : ¬ s.lines.isEmpty = true := by
    rw [Array.isEmpty_iff_size_eq_zero]
    omega
  have hmoved : position s.lines.size (min (back + 1) s.lines.size) =
      some (s.lines.size - (back + 1)) := by
    rw [position, if_neg (by omega)]
    congr 1
    omega
  rw [older, if_neg hempty, hindex, hmoved, position]
  by_cases hzero : back = 0
  · rw [if_pos hzero, hzero]
  · rw [if_neg hzero]
    rfl

theorem newer_eq (hback : back ≤ s.lines.size) (hindex : s.index? = position s.lines.size back) :
    s.newer = if back = 0 then s else s.showStored (position s.lines.size (back - 1)) := by
  rw [newer, hindex, position]
  by_cases hzero : back = 0
  · rw [if_pos hzero, if_pos hzero]
  · rw [if_neg hzero, if_neg hzero, position]
    dsimp only
    by_cases hone : back - 1 = 0
    · rw [if_pos hone, if_neg (by omega)]
    · rw [if_neg hone, if_pos (by omega)]
      congr 2
      omega

/-- One press: nothing happens on the way down from no line, and otherwise the line that the cursor
comes to is shown. -/
theorem react?_arrow (fuel : Nat) (hn : 0 < s.lines.size) (hback : back ≤ s.lines.size)
    (hindex : s.index? = position s.lines.size back) (a : Arrow) :
    s.react? fuel (.key a.key) = some (if a = .down ∧ back = 0 then s
      else s.showStored (position s.lines.size (a.move s.lines.size back))) := by
  cases a with
  | up =>
    rw [if_neg (by simp)]
    exact congrArg some (older_eq hn hback hindex)
  | down =>
    have hnewer := newer_eq hback hindex
    simp only [true_and]
    exact congrArg some hnewer

/-- What the cursor comes to is in the line afterwards. -/
theorem react?_arrow_shows (fuel : Nat) (h : s.Sound) (hn : 0 < s.lines.size)
    (hback : back ≤ s.lines.size) (hindex : s.index? = position s.lines.size back) {a : Arrow}
    (hmove : ¬ (a = .down ∧ back = 0)) :
    ∃ s', s.react? fuel (.key a.key) = some s' ∧
      (a.move s.lines.size back = 0 → s'.index? = none ∧ s'.line.value = []) ∧
      (a.move s.lines.size back ≠ 0 → s'.index? = some (s.lines.size - a.move s.lines.size back) ∧
        s.lines[s.lines.size - a.move s.lines.size back]? = some s'.line.value) := by
  have hstep := react?_arrow fuel hn hback hindex a
  rw [if_neg hmove, position] at hstep
  by_cases hzero : a.move s.lines.size back = 0
  · rw [if_pos hzero] at hstep
    exact ⟨_, hstep, fun _ => ⟨rfl, s.value_showStored_none⟩, fun hno => absurd hzero hno⟩
  · have hlt : s.lines.size - a.move s.lines.size back < s.lines.size := by omega
    rw [if_neg hzero] at hstep
    refine ⟨_, hstep, fun hno => absurd hno hzero, fun _ => ⟨rfl, ?_⟩⟩
    rw [value_showStored h hlt, Array.getElem?_eq_getElem hlt]

/-- What the arrow keys leave alone. -/
structure Browsed (s s' : Session) : Prop where
  lines : s'.lines = s.lines
  entries : s'.entries = s.entries
  machine : s'.machine = s.machine
  engine : s'.engine = s.engine

theorem browsed_arrow (fuel : Nat) (hn : 0 < s.lines.size) (hback : back ≤ s.lines.size)
    (hindex : s.index? = position s.lines.size back) (a : Arrow) :
    ∃ s', s.react? fuel (.key a.key) = some s' ∧ s.Browsed s' ∧
      s'.index? = position s.lines.size (a.move s.lines.size back) := by
  have hstep := react?_arrow fuel hn hback hindex a
  refine ⟨_, hstep, ?_⟩
  by_cases hstay : a = .down ∧ back = 0
  · rw [if_pos hstay, hindex, hstay.1, hstay.2]
    exact ⟨⟨rfl, rfl, rfl, rfl⟩, rfl⟩
  · rw [if_neg hstay]
    exact ⟨⟨rfl, rfl, rfl, rfl⟩, rfl⟩

/-- All presses together move the cursor as the counter of lines back is moved. -/
theorem browsed_arrows (fuel : Nat) (arrows : List Arrow) (hn : 0 < s.lines.size)
    (hback : back ≤ s.lines.size) (hindex : s.index? = position s.lines.size back) :
    ∃ s', s.reactAll? fuel (arrows.map fun a => .key a.key) = some s' ∧ s.Browsed s' ∧
      arrows.foldl (Arrow.move s.lines.size) back ≤ s.lines.size ∧
      s'.index? = position s.lines.size (arrows.foldl (Arrow.move s.lines.size) back) := by
  induction arrows generalizing s back with
  | nil => exact ⟨s, rfl, ⟨rfl, rfl, rfl, rfl⟩, hback, hindex⟩
  | cons a arrows ih =>
    obtain ⟨s₁, hstep, hbrowsed, hindex₁⟩ := browsed_arrow fuel hn hback hindex a
    rw [← hbrowsed.lines] at hn hindex₁
    obtain ⟨s', hrest, hbrowsed', hle, hindex'⟩ :=
      ih hn (hbrowsed.lines ▸ a.move_le hback) hindex₁
    rw [hbrowsed.lines] at hle hindex'
    refine ⟨s', ?_, ⟨?_, ?_, ?_, ?_⟩, hle, hindex'⟩
    · rw [List.map_cons, reactAll?, List.foldlM_cons, hstep]
      exact hrest
    · rw [hbrowsed'.lines, hbrowsed.lines]
    · rw [hbrowsed'.entries, hbrowsed.entries]
    · rw [hbrowsed'.machine, hbrowsed.machine]
    · rw [hbrowsed'.engine, hbrowsed.engine]

/-- In a session that has come through any events, the cursor points at a stored line, if at any.
When it points at none and there are `n` stored lines, presses of the arrow keys move it as a
counter of lines back from the end, clamped to `0` and `n`: it points at the stored line `n - back`,
and at none when `back` is `0`. No press changes the stored lines, the entries or the machine. A
press on the way down from no line changes nothing at all; every other one puts the stored line that
the cursor comes to into the line, or clears it. -/
theorem stored_lines_clamped_cursor {settings : Settings} {s₀ : Session}
    (hstart : start settings = .ok s₀) {fuel : Nat} {events : List Event} {s : Session}
    (hs : s₀.reactAll? fuel events = some s) :
    (∀ i, s.index? = some i → i < s.lines.size) ∧
    (s.index? = none → 0 < s.lines.size → ∀ arrows : List Arrow,
      let n := s.lines.size
      let back := arrows.foldl (Arrow.move n) 0
      ∃ s', s.reactAll? fuel (arrows.map fun a => .key a.key) = some s' ∧
        back ≤ n ∧ s'.index? = (if back = 0 then none else some (n - back)) ∧
        s'.lines = s.lines ∧ s'.entries = s.entries ∧ s'.machine = s.machine ∧
        s'.engine = s.engine ∧
        ∀ a : Arrow,
          (a = .down ∧ back = 0 → s'.react? fuel (.key a.key) = some s') ∧
          (¬ (a = .down ∧ back = 0) → ∃ s'', s'.react? fuel (.key a.key) = some s'' ∧
            (a.move n back = 0 → s''.index? = none ∧ s''.line.value = []) ∧
            (a.move n back ≠ 0 → s''.index? = some (n - a.move n back) ∧
              s.lines[n - a.move n back]? = some s''.line.value))) := by
  obtain ⟨-, rfl⟩ := start_eq_ok_iff.mp hstart
  have hsound := (sound_initial settings).reactAll? hs
  refine ⟨hsound.index, ?_⟩
  intro hnone hn arrows n back
  obtain ⟨s', hs', hbrowsed, hle, hindex⟩ := browsed_arrows fuel arrows hn (Nat.zero_le _) hnone
  refine ⟨s', hs', hle, hindex, hbrowsed.lines, hbrowsed.entries, hbrowsed.machine,
    hbrowsed.engine, ?_⟩
  intro a
  have hsize : s'.lines.size = n := congrArg Array.size hbrowsed.lines
  have hn' : 0 < s'.lines.size := by rw [hsize]; exact hn
  have hle' : back ≤ s'.lines.size := by rw [hsize]; exact hle
  have hindex' : s'.index? = position s'.lines.size back := by rw [hsize]; exact hindex
  constructor
  · intro hstay
    rw [react?_arrow fuel hn' hle' hindex' a, if_pos hstay]
  · intro hmove
    have hshows := react?_arrow_shows fuel (hsound.reactAll? hs') hn' hle' hindex' hmove
    rw [hsize, hbrowsed.lines] at hshows
    exact hshows

/-- Two programs are stored; two presses go back to the first, and a third one stays there. -/
theorem stored_lines_clamped_cursor_oldest :
    let enter : Event := .key ⟨"enter", []⟩
    let events : List Event := [.text ['+'], enter, .text ['-', '.'], enter]
    ∃ s₀ s s' s'', start .defaults = .ok s₀ ∧ s₀.reactAll? 9 events = some s ∧
      s.index? = none ∧ s.lines = #[['+'], ['-', '.']] ∧
      s.reactAll? 9 [.key Arrow.up.key, .key Arrow.up.key] = some s' ∧ s'.index? = some 0 ∧
      s'.machine = s.machine ∧ s'.react? 9 (.key Arrow.up.key) = some s'' ∧
      s''.index? = some 0 ∧ s''.line.value = ['+'] := by
  intro enter events
  obtain ⟨s₀, hstart⟩ : ∃ s₀, start .defaults = .ok s₀ := ⟨_, rfl⟩
  obtain ⟨s, hs, hnone, hlines⟩ : ∃ s, s₀.reactAll? 9 events = some s ∧ s.index? = none ∧
      s.lines = #[['+'], ['-', '.']] := by
    cases hstart
    exact ⟨_, rfl, rfl, rfl⟩
  have hsize : s.lines.size = 2 := by rw [hlines]; rfl
  obtain ⟨s', hs', -, hindex, -, -, hmachine, -, hpress⟩ :=
    (stored_lines_clamped_cursor hstart hs).2 hnone (by omega) [.up, .up]
  rw [hsize] at hindex hpress
  obtain ⟨s'', hs'', -, hshows⟩ := (hpress .up).2 (by decide)
  obtain ⟨hindex', hvalue⟩ := hshows (by decide)
  rw [hlines] at hvalue
  exact ⟨s₀, s, s', s'', hstart, hs, hnone, hlines, hs', hindex, hmachine, hs'', hindex',
    (Option.some.inj hvalue).symm⟩

end Session
end Repl
end TapeLang
