import TapeLang.Proofs.Progress

/-! Input that a run leaves unread. While something stays pending no read finds the end of the
input, so that nothing which is decided on the way depends on the bytes that are left over: others
can take their place, any number of them, also none. -/
namespace TapeLang
variable {k : Nat} {others : Bytes}

/-- The last `k` pending bytes replaced by others. -/
def Buffer.exchange (k : Nat) (others : Bytes) (b : Buffer) : Buffer :=
  { b with input := b.input.take (b.input.length - k) ++ others }

/-- The machine with other input pending. -/
def Machine.supplied (m : Machine Buffer) (input : Bytes) : Machine Buffer :=
  { m with channel := { m.channel with input } }

def Machine.exchange (k : Nat) (others : Bytes) (m : Machine Buffer) : Machine Buffer :=
  { m with channel := m.channel.exchange k others }

def Outcome.exchange (k : Nat) (others : Bytes) : Outcome Buffer → Outcome Buffer
  | .finished m => .finished (m.exchange k others)
  | .faulted f m => .faulted f (m.exchange k others)

/-- Pending input only gets less. -/
theorem Buffer.carries_pending : Channel.Carries fun s t : Buffer => t.pending ≤ s.pending where
  refl s := Nat.le_refl _
  trans h h' := Nat.le_trans h' h
  read s := by
    obtain ⟨input, output⟩ := s
    cases input with
    | nil => exact Nat.le_refl _
    | cons x rest => exact Nat.le_succ _
  write x s := Nat.le_refl _
  flush s := Nat.le_refl _

/-- An instruction that leaves `k` bytes pending does not see them. -/
theorem Machine.perform_exchange (hk : 0 < k) (i : Instr) (pos : Position) {m : Machine Buffer}
    (h : k ≤ (m.perform i pos).machine.channel.pending) :
    (m.exchange k others).perform i pos = (m.perform i pos).exchange k others := by
  cases i with
  | right =>
    unfold perform
    by_cases hp : m.pointer.val + 1 < tapeSize
    · rw [dif_pos hp]
      exact dif_pos hp
    · rw [dif_neg hp]
      exact dif_neg hp
  | left =>
    unfold perform
    by_cases hp : m.pointer.val = 0
    · rw [if_pos hp]
      exact if_pos hp
    · rw [if_neg hp]
      exact if_neg hp
  | increment => rfl
  | decrement => rfl
  | output => rfl
  | input =>
    obtain ⟨tape, pointer, log, steps, input, output⟩ := m
    cases input with
    | nil =>
      -- The end of the input is found only where nothing is pending.
      have hle : k ≤ 0 := h
      omega
    | cons x rest =>
      have hle : k ≤ rest.length := h
      have hkept : (x :: rest).length - k = rest.length - k + 1 := by
        rw [List.length_cons]
        omega
      simp only [exchange, Buffer.exchange, hkept, List.take_succ_cons, List.cons_append]
      rfl

namespace Engine
variable {e : Engine} {b : Block} {m m' : Machine Buffer} {o : Outcome Buffer}

theorem tick_exchange (e : Engine) (pos : Position) (m : Machine Buffer) :
    e.tick pos (m.exchange k others) = (e.tick pos m).exchange k others := by
  cases h : e.tick pos m with
  | finished m' =>
    obtain ⟨rfl, hquota⟩ := tick_eq_finished_iff.mp h
    exact tick_eq_finished_iff.mpr ⟨rfl, hquota⟩
  | faulted f m' =>
    obtain ⟨rfl, rfl, hquota⟩ := tick_eq_faulted_iff.mp h
    exact tick_eq_faulted_iff.mpr ⟨rfl, rfl, hquota⟩

theorem advance_exchange (hk : 0 < k) {i : Instr} {pos : Position}
    (h : k ≤ (e.advance i pos m).machine.channel.pending) :
    e.advance i pos (m.exchange k others) = (e.advance i pos m).exchange k others := by
  unfold advance at h ⊢
  rw [tick_exchange]
  cases ht : e.tick pos m with
  | finished m' =>
    rw [ht] at h
    exact Machine.perform_exchange hk i pos h
  | faulted f m' => rfl

theorem Ends.pending_le (h : e.Ends b m o) :
    o.machine.channel.pending ≤ m.channel.pending :=
  (h.extends Buffer.carries_pending).channel

/-- A run that leaves `k` bytes pending is the same with others in their place. -/
theorem Ends.exchange (hk : 0 < k) (h : e.Ends b m o) (ho : k ≤ o.machine.channel.pending) :
    e.Ends b (m.exchange k others) (o.exchange k others) := by
  have htick {pos : Position} {m : Machine Buffer} {o : Outcome Buffer} (ht : e.tick pos m = o) :
      e.tick pos (m.exchange k others) = o.exchange k others := by
    rw [tick_exchange, ht]
  -- Each step is followed by the rest of the run, which leaves no more pending than the step did.
  induction h with
  | done => exact .done
  | @act i pos _ m m' o h hn ih =>
    have hadvance : k ≤ (e.advance i pos m).machine.channel.pending := by
      rw [h]
      exact Nat.le_trans ho hn.pending_le
    exact .act (by rw [advance_exchange hk hadvance, h]; rfl) (ih ho)
  | @fault i pos _ m m' f h =>
    have hadvance : k ≤ (e.advance i pos m).machine.channel.pending := by
      rw [h]
      exact ho
    exact .fault (by rw [advance_exchange hk hadvance, h]; rfl)
  | stop h => exact .stop (htick h)
  | skip h hz _ ih => exact .skip (htick h) hz (ih ho)
  | inside h hz _ ih => exact .inside (htick h) hz (ih ho)
  | again h hz _ hn ihb ih => exact .again (htick h) hz (ihb (Nat.le_trans ho hn.pending_le)) (ih ho)

theorem conclude_exchange (text : List Char) (o : Outcome Buffer) :
    conclude text (o.exchange k others) =
      ⟨(conclude text o).error?, (conclude text o).machine.exchange k others⟩ := by
  cases o <;> rfl

/-- Input that a run does not read has no influence on it. When a run that was given `input` ends
with some of it pending, after it consumed `n` bytes, then with any other input that begins with
the same `n` bytes it ends too, with the same error, tape, pointer, steps and output, and all that
comes behind the `n` bytes is pending. -/
theorem unread_input_irrelevant (e : Engine) (p : Program) (m : Machine Buffer) {input : Bytes}
    {fuel : Nat} {r : Run Buffer} (hr : e.execute fuel (some p) (m.supplied input) = some r)
    (hpending : 0 < r.machine.channel.pending) :
    let n := (e.consumed fuel (some p) (m.supplied input)).length
    input.length = n + r.machine.channel.pending ∧
    ∀ input' : Bytes, n ≤ input'.length → input'.take n = input.take n →
      ∃ r', e.Executes (some p) (m.supplied input') r' ∧ r'.error? = r.error? ∧
        r'.machine.tape = r.machine.tape ∧ r'.machine.pointer = r.machine.pointer ∧
        r'.machine.steps = r.machine.steps ∧ r'.machine.log = r.machine.log ∧
        r'.machine.channel.output = r.machine.channel.output ∧
        r'.machine.channel.pending = input'.length - n := by
  intro n
  have hinput : e.consumed fuel (some p) (m.supplied input) ++ r.machine.channel.input = input :=
    consumed_append_input hr
  have hlength : input.length = n + r.machine.channel.pending := by
    rw [← hinput, List.length_append]
    rfl
  refine ⟨hlength, ?_⟩
  intro input' hle htake
  have hsupplied : (m.supplied input).exchange r.machine.channel.pending (input'.drop n) =
      m.supplied input' := by
    have hrest : input.length - r.machine.channel.pending = n := by omega
    simp only [Machine.exchange, Buffer.exchange, Machine.supplied, hrest, ← htake,
      List.take_append_drop]
  obtain ⟨o, ho, rfl⟩ := executes_iff.mp ⟨fuel, hr⟩
  have hmachine : (conclude p.text o).machine = o.machine := by cases o <;> rfl
  have hexecutes : e.Executes (some p) (m.supplied input') (conclude p.text
      (o.exchange (conclude p.text o).machine.channel.pending (input'.drop n))) := by
    rw [← hsupplied]
    exact executes_iff.mpr ⟨_, ho.exchange hpending (Nat.le_of_eq (by rw [hmachine])), rfl⟩
  rw [conclude_exchange] at hexecutes
  refine ⟨_, hexecutes, rfl, rfl, rfl, rfl, rfl, rfl, ?_⟩
  simp [Machine.exchange, Buffer.exchange, Buffer.pending]

/-- A program that copies its input up to a zero leaves one byte unread; it ends in the same way
where the input stops at the zero. -/
theorem unread_input_irrelevant_copy :
    ∃ p r r', Program.parse [0x2C, 0x5B, 0x2E, 0x2C, 0x5D] = .ok p ∧
      let m : Machine Buffer := .fresh .empty
      unlimited.execute 8 (some p) (m.supplied [7, 0, 9]) = some r ∧
      r.machine.channel.pending = 1 ∧ r.machine.log = #[7] ∧
      unlimited.consumed 8 (some p) (m.supplied [7, 0, 9]) = [7, 0] ∧
      unlimited.Executes (some p) (m.supplied [7, 0]) r' ∧ r'.error? = r.error? ∧
      r'.machine.log = #[7] ∧ r'.machine.channel.pending = 0 := by
  let p : Program := ⟨.act .input ⟨0, 1, 1⟩ (.loop ⟨1, 1, 2⟩ (.act .output ⟨2, 1, 3⟩
    (.act .input ⟨3, 1, 4⟩ .done)) .done), [0x2C, 0x5B, 0x2E, 0x2C, 0x5D]⟩
  let m : Machine Buffer := .fresh .empty
  obtain ⟨r, hr, hpending, hlog⟩ : ∃ r,
      unlimited.execute 8 (some p) (m.supplied [7, 0, 9]) = some r ∧
        r.machine.channel.pending = 1 ∧ r.machine.log = #[7] := ⟨_, rfl, rfl, rfl⟩
  have hconsumed : unlimited.consumed 8 (some p) (m.supplied [7, 0, 9]) = [7, 0] := rfl
  obtain ⟨-, hall⟩ := unread_input_irrelevant unlimited p m hr (by omega)
  rw [hconsumed] at hall
  obtain ⟨r', hr', herror, -, -, -, hlog', -, hpending'⟩ := hall [7, 0] (by decide) rfl
  exact ⟨p, r, r', rfl, hr, hpending, hlog, hconsumed, hr', herror, hlog'.trans hlog, hpending'⟩

end Engine
end TapeLang
