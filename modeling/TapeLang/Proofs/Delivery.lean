import Mathlib.Data.List.Basic
import TapeLang.Channel.Stream
import TapeLang.Proofs.Steps

/-! Output on its way to a sink. What was written is accepted or collected, in its order, until a
write to the sink fails; from then on the sink holds as much of it as fits. Every call ends with a
flush, after which nothing is left collected. -/
namespace TapeLang

/-- As much of the output as a sink with a limit takes. -/
def Sink.share (limit? : Option Nat) (written : Bytes) : Bytes :=
  written.take (limit?.elim written.length (min · written.length))

theorem Sink.share_eq_self {limit? : Option Nat} {written : Bytes}
    (h : ∀ l, limit? = some l → written.length ≤ l) : share limit? written = written := by
  unfold share
  cases limit? with
  | none => exact List.take_length
  | some l => exact List.take_of_length_le (le_min (h l rfl) le_rfl)

theorem Sink.share_eq_take {l : Nat} {written : Bytes} (h : l ≤ written.length) :
    share (some l) written = written.take l := by
  unfold share
  rw [Option.elim_some, Nat.min_eq_left h]

/-- A write that fits is accepted as a whole; of any other one the part that fits. -/
theorem Sink.write_spec {s : Sink} (hroom : ∀ l, s.limit? = some l → s.accepted.size ≤ l)
    (bs : Array UInt8) :
    (s.write bs).2.limit? = s.limit? ∧
    (((s.write bs).1 = none ∧ (s.write bs).2.accepted.toList = s.accepted.toList ++ bs.toList ∧
        ∀ l, s.limit? = some l → (s.write bs).2.accepted.size ≤ l) ∨
      ∃ l, s.limit? = some l ∧ (s.write bs).1 = some full ∧
        l ≤ (s.accepted.toList ++ bs.toList).length ∧
        (s.write bs).2.accepted.toList = (s.accepted.toList ++ bs.toList).take l) := by
  unfold write
  dsimp only
  cases hlimit : s.limit? with
  | none => exact ⟨rfl, Or.inl ⟨rfl, by simp, by simp⟩⟩
  | some limit =>
    have hle := hroom limit hlimit
    dsimp only
    by_cases hfits : s.accepted.size + bs.size ≤ limit
    · rw [if_pos hfits]
      refine ⟨rfl, Or.inl ⟨rfl, by simp, ?_⟩⟩
      intro l hl
      cases hl
      simpa using hfits
    · rw [if_neg hfits]
      refine ⟨rfl, Or.inr ⟨limit, rfl, rfl, ?_, ?_⟩⟩
      · simp only [List.length_append, Array.length_toList]
        omega
      · rw [List.take_append, List.take_of_length_le (by simpa using hle)]
        simp

namespace Collector
variable {limit? : Option Nat} {written : Bytes} {c : Collector}

/-- What has become of all that was written. As long as no write to the sink has failed, the sink
has accepted the first part and the rest is collected; after a failure the sink is full. -/
structure Delivers (limit? : Option Nat) (written : Bytes) (c : Collector) : Prop where
  limit : c.sink.limit? = limit?
  whole : c.failure? = none → c.sink.accepted.toList ++ c.collected.toList = written
  room : c.failure? = none → ∀ l, limit? = some l → c.sink.accepted.size ≤ l
  full : c.failure? ≠ none →
    ∃ l, limit? = some l ∧ l ≤ written.length ∧ c.sink.accepted.toList = written.take l

/-- What an operation answers is what it leaves behind for the next one. -/
theorem failure_flush (c : Collector) : c.flush.2.failure? = c.flush.1 := by
  unfold flush
  cases hf : c.failure? with
  | some e => exact hf
  | none =>
    dsimp only
    split_ifs
    · exact hf
    · rfl

theorem failure_write (c : Collector) (x : UInt8) : (c.write x).2.failure? = (c.write x).1 := by
  unfold write
  cases hf : c.failure? with
  | some e => exact hf
  | none =>
    dsimp only
    by_cases hroom : c.collected.size < bufferSize
    · rw [if_pos hroom]
    · rw [if_neg hroom]
      have hanswer := c.failure_flush
      split
      · rename_i heq
        rw [heq] at hanswer
        exact hanswer
      · rename_i heq
        rw [heq] at hanswer
        exact hanswer

theorem delivers_fresh (limit? : Option Nat) : (fresh (.fresh limit?)).Delivers limit? [] where
  limit := rfl
  whole _ := rfl
  room _ _ _ := Nat.zero_le _
  full h := absurd rfl h

/-- A full sink has its share already. -/
theorem Delivers.append_of_failure (h : c.Delivers limit? written) (hf : c.failure? ≠ none)
    (more : Bytes) : c.Delivers limit? (written ++ more) where
  limit := h.limit
  whole hnone := absurd hnone hf
  room hnone := absurd hnone hf
  full _ := by
    obtain ⟨l, hl, hle, haccepted⟩ := h.full hf
    refine ⟨l, hl, ?_, ?_⟩
    · rw [List.length_append]
      omega
    · rw [List.take_append_of_le_length hle, haccepted]

theorem Delivers.collect (h : c.Delivers limit? written) (hf : c.failure? = none) (x : UInt8) :
    Delivers limit? (written ++ [x]) { c with collected := c.collected.push x } where
  limit := h.limit
  whole _ := by
    rw [← h.whole hf, Array.toList_push, List.append_assoc]
  room _ := h.room hf
  full hno := absurd hf hno

/-- A sink without a limit is never full. -/
theorem Delivers.failure_eq_none (h : c.Delivers none written) : c.failure? = none := by
  by_contra hf
  obtain ⟨l, hl, -⟩ := h.full hf
  cases hl

/-- A flush that succeeds leaves nothing behind, and one that fails leaves a full sink. -/
theorem Delivers.flush (h : c.Delivers limit? written) :
    c.flush.2.Delivers limit? written ∧
      (c.flush.1 = none → c.flush.2.sink.accepted.toList = written) := by
  unfold Collector.flush
  cases hf : c.failure? with
  | some e => exact ⟨h, fun hnone => by cases hnone⟩
  | none =>
    dsimp only
    have hwhole := h.whole hf
    by_cases hempty : c.collected.isEmpty = true
    · rw [if_pos hempty]
      refine ⟨h, fun _ => ?_⟩
      rw [Array.isEmpty_iff] at hempty
      rw [← hwhole, hempty]
      simp
    · rw [if_neg hempty]
      dsimp only
      have hroom : ∀ l, c.sink.limit? = some l → c.sink.accepted.size ≤ l := by
        rw [h.limit]
        exact h.room hf
      obtain ⟨hlimit, hwrite⟩ := Sink.write_spec hroom c.collected
      rw [h.limit] at hlimit
      rw [hwhole, h.limit] at hwrite
      rcases hwrite with ⟨hnone, haccepted, hroom⟩ | ⟨l, hl, hfull, hle, haccepted⟩
      · refine ⟨⟨hlimit, fun _ => ?_, fun _ => hroom, fun hno => absurd hnone hno⟩,
          fun _ => haccepted⟩
        rw [haccepted]
        simp
      · -- The sink has taken what fits, and the failure stays.
        have hsome : (c.sink.write c.collected).1 ≠ none := by
          rw [hfull]
          simp
        exact ⟨⟨hlimit, fun hno => absurd hno hsome, fun hno => absurd hno hsome,
          fun _ => ⟨l, hl, hle, haccepted⟩⟩, fun hno => absurd hno hsome⟩

theorem Delivers.flush_eq_none (h : c.Delivers none written) : c.flush.1 = none := by
  rw [← c.failure_flush]
  exact h.flush.1.failure_eq_none

theorem Delivers.write (h : c.Delivers limit? written) (x : UInt8) :
    (c.write x).2.Delivers limit? (written ++ [x]) := by
  unfold Collector.write
  cases hf : c.failure? with
  | some e => exact h.append_of_failure (by rw [hf]; simp) [x]
  | none =>
    dsimp only
    by_cases hroom : c.collected.size < bufferSize
    · rw [if_pos hroom]
      have hcollect := h.collect hf x
      rw [hf] at hcollect
      exact hcollect
    · rw [if_neg hroom]
      have hflushed := h.flush.1
      have hanswer := c.failure_flush
      -- The byte is lost if the full collection cannot be handed on: it is past the limit then.
      split
      · rename_i e c' heq
        rw [heq] at hflushed hanswer
        exact hflushed.append_of_failure (by rw [hanswer]; simp) [x]
      · rename_i c' heq
        rw [heq] at hflushed hanswer
        exact hflushed.collect hanswer x

/-- After a flush the sink has its share of all that was written. -/
theorem Delivers.accepted_flush (h : c.Delivers limit? written) :
    c.flush.2.sink.accepted.toList = Sink.share limit? written := by
  obtain ⟨hflushed, hwhole⟩ := h.flush
  cases hf : c.flush.1 with
  | none =>
    have haccepted := hwhole hf
    rw [haccepted, Sink.share_eq_self]
    intro l hl
    have hroom := hflushed.room (c.failure_flush.trans hf) l hl
    rw [← haccepted, Array.length_toList]
    exact hroom
  | some e =>
    obtain ⟨l, rfl, hle, haccepted⟩ := hflushed.full (by rw [c.failure_flush, hf]; simp)
    rw [haccepted, Sink.share_eq_take hle]

end Collector

/-- Only an output adds to the log, and only an output and an input touch the channel. -/
theorem Machine.perform_channel {σ : Type} [Channel σ] (m : Machine σ) (i : Instr)
    (pos : Position) :
    (m.perform i pos).machine.log = (match i with
      | .output => m.log.push m.current
      | _ => m.log) ∧
    (m.perform i pos).machine.channel = match i with
      | .output => (Channel.write m.current m.channel).2
      | .input => (Channel.read m.channel).2
      | _ => m.channel := by
  cases i with
  | right =>
    simp only [perform]
    split_ifs <;> exact ⟨rfl, rfl⟩
  | left =>
    simp only [perform]
    split_ifs <;> exact ⟨rfl, rfl⟩
  | increment => exact ⟨rfl, rfl⟩
  | decrement => exact ⟨rfl, rfl⟩
  | output =>
    simp only [perform]
    cases (Channel.write m.current m.channel).1 <;> exact ⟨rfl, rfl⟩
  | input =>
    simp only [perform]
    cases (Channel.read m.channel).1 with
    | error e => exact ⟨rfl, rfl⟩
    | ok x? => cases x? <;> exact ⟨rfl, rfl⟩

namespace Stream

theorem collector_read (s : Stream) : s.read.2.collector = s.collector.flush.2 := by
  unfold read
  split
  · rename_i heq
    rw [heq]
  · rename_i heq
    rw [heq]

/-- The log of a machine is on its way to the sink. -/
def Keeps (limit? : Option Nat) (m : Machine Stream) : Prop :=
  m.channel.collector.Delivers limit? m.log.toList

variable {limit? : Option Nat} {m : Machine Stream}

theorem keeps_fresh (supply : Supply) (limit? : Option Nat) :
    Keeps limit? (.fresh (.fresh supply (.fresh limit?))) :=
  Collector.delivers_fresh limit?

theorem Keeps.perform (h : Keeps limit? m) (i : Instr) (pos : Position) :
    Keeps limit? (m.perform i pos).machine := by
  obtain ⟨hlog, hchannel⟩ := m.perform_channel i pos
  unfold Keeps
  rw [hlog, hchannel]
  cases i with
  | output =>
    rw [Array.toList_push]
    exact Collector.Delivers.write h m.current
  | input =>
    change Collector.Delivers limit? m.log.toList m.channel.read.2.collector
    rw [collector_read]
    exact (Collector.Delivers.flush h).1
  | _ => exact h

theorem Keeps.ends {e : Engine} {b : Block} {o : Outcome Stream} (h : Keeps limit? m)
    (ho : e.Ends b m o) : Keeps limit? o.machine :=
  ho.invariant (I := fun m m' => Keeps limit? m → Keeps limit? m') (fun _ h => h)
    (fun h h' hm => h' (h hm)) (fun _ h => h) (fun i pos _ h => h.perform i pos) h

theorem Keeps.passes {e : Engine} {b c : Block} {is : List Instr} {x : Machine Stream}
    (h : Keeps limit? m) (hx : e.Passes b m is c x) : Keeps limit? x :=
  hx.invariant (fun _ h => h) (fun i pos _ h => h.perform i pos) h

end Stream

namespace Engine
variable {e : Engine} {limit? : Option Nat}

theorem channel_conclude (text : List Char) (o : Outcome Stream) :
    (conclude text o).machine.channel.collector = o.machine.channel.collector.flush.2 ∧
      (conclude text o).machine.log = o.machine.log := by
  cases o <;> exact ⟨rfl, rfl⟩

/-- Nothing but a reset parts the log from what the sink is given. -/
theorem History.keeps {supply : Supply} {calls : List Call} {is : List Instr}
    {m : Machine Stream} (h : e.History (.fresh supply (.fresh limit?)) calls is m)
    (hreset : Call.reset ∉ calls) : Stream.Keeps limit? m := by
  induction h with
  | fresh => exact Stream.keeps_fresh supply limit?
  | @execute calls is js m p o _ ho ih =>
    have hm := ih fun hmem => hreset (List.mem_append_left _ hmem)
    have hsteps : Stream.Keeps limit? { m with steps := 0 } := hm
    obtain ⟨hcollector, hlog⟩ := channel_conclude p.text o
    unfold Stream.Keeps
    rw [hcollector, hlog]
    exact (Collector.Delivers.flush (hsteps.ends ho.ends)).1
  | idle _ ih => exact ih fun hmem => hreset (List.mem_append_left _ hmem)
  | reset _ _ => exact absurd (List.mem_append_right _ List.mem_cons_self) hreset

/-- After every call of a history without a reset, the sink has accepted exactly the first bytes of
the output, all of them or as many as its limit allows; and all of them if the call succeeded. -/
theorem execute_delivers (e : Engine) (supply : Supply) (limit? : Option Nat) {calls : List Call}
    {is : List Instr} {m : Machine Stream}
    (h : e.History (.fresh supply (.fresh limit?)) calls is m) (hreset : Call.reset ∉ calls)
    {p : Program} {r : Run Stream} (hr : e.Executes (some p) m r) :
    r.machine.channel.collector.sink.accepted.toList =
        r.machine.log.toList.take
          (limit?.elim r.machine.log.size (min · r.machine.log.size)) ∧
      (r.error? = none →
        r.machine.channel.collector.sink.accepted.toList = r.machine.log.toList) := by
  obtain ⟨o, ho, rfl⟩ := executes_iff.mp hr
  have hkeeps : Stream.Keeps limit? { m with steps := 0 } := h.keeps hreset
  have hdelivers : o.machine.channel.collector.Delivers limit? o.machine.log.toList :=
    hkeeps.ends ho
  obtain ⟨hcollector, hlog⟩ := channel_conclude p.text o
  rw [hcollector, hlog]
  refine ⟨hdelivers.accepted_flush, ?_⟩
  intro herror
  cases o with
  | faulted f m' => cases herror
  | finished m' => exact hdelivers.flush.2 (Option.map_eq_none_iff.mp herror)

/-- A sink with room for one byte: the first call fills it, and the second cannot be flushed. -/
theorem execute_delivers_one_byte :
    ∃ p, ∃ m : Machine Stream, ∃ r : Run Stream, Program.parse [0x2E] = .ok p ∧
      unlimited.History (Stream.fresh (.ofInput [] [] [] .endOfInput) (.fresh (some 1)))
        [.execute (some p)] [.output] m ∧
      unlimited.Executes (some p) m r ∧ r.error? = some (.flushFailed Sink.full) ∧
      r.machine.channel.collector.sink.accepted.toList = [0, 0].take 1 := by
  let p : Program := ⟨.act .output ⟨0, 1, 1⟩ .done, [0x2E]⟩
  let s : Stream := .fresh (.ofInput [] [] [] .endOfInput) (.fresh (some 1))
  let written : Machine Stream :=
    { Machine.fresh s with
      log := #[0]
      steps := 1
      channel := { s with collector := { s.collector with collected := #[0] } } }
  let m := (conclude p.text (.finished written)).machine
  have ho : unlimited.EndsAfter p.body { Machine.fresh s with steps := 0 } [.output]
      (.finished written) := Passes.act rfl .here
  have hm : unlimited.History s [.execute (some p)] [.output] m := .execute .fresh ho
  have hr : unlimited.execute 2 (some p) m = some ⟨some (.flushFailed Sink.full),
      { m with
        log := #[0, 0]
        channel := { s with collector := ⟨#[], some Sink.full, ⟨some 1, #[0], #[1, 1]⟩⟩ } }⟩ := rfl
  have hdelivers := execute_delivers unlimited _ _ hm (by simp) ⟨2, hr⟩
  exact ⟨p, m, _, rfl, hm, ⟨2, hr⟩, rfl, hdelivers.1⟩

end Engine
end TapeLang
