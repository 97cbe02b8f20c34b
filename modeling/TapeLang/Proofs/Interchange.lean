import TapeLang.Channel.Buffer
import TapeLang.Proofs.Alike
import TapeLang.Proofs.Delivery

/-! Streams and buffers in each other's place. A source gives its bytes in their order, however many
of them come with a fetch. So a stream over a sink without a limit answers as a buffer with the same
input does, and runs end alike on both. -/
namespace TapeLang
namespace Supply
variable {s : Supply}

/-- The bytes not yet read. -/
def left (s : Supply) : Bytes := s.ready ++ s.rest

theorem fetchSize_pos (s : Supply) : 0 < s.fetchSize := by
  unfold fetchSize
  dsimp only
  split_ifs with h
  · decide
  · exact lt_min (Nat.pos_of_ne_zero h) (by decide)

theorem left_fetch (h : s.ready = []) (arrived : Nat) : (s.fetch arrived).left = s.left := by
  unfold left fetch
  dsimp only
  rw [List.take_append_drop, h, List.nil_append]

/-- A fetch brings nothing only when there is nothing to come. -/
theorem rest_fetch (arrived : Nat) (h : (s.fetch arrived).ready = []) :
    (s.fetch arrived).rest = [] := by
  rcases List.take_eq_nil_iff.mp h with hsize | hrest
  · exact absurd hsize s.fetchSize_pos.ne'
  · unfold fetch
    dsimp only
    rw [hrest, List.drop_nil]

theorem next_spec (h : s.ready = [] → s.rest = []) :
    s.next.1 = s.left.head?.elim (.error (s.endings.headD s.ending)) .ok ∧
      s.next.2.left = s.left.tail ∧
      s.next.2.ending :: s.next.2.endings ⊆ s.ending :: s.endings ∧
      s.next.2.fetches = s.fetches := by
  unfold next left
  split
  · rename_i x ready hready
    rw [hready]
    exact ⟨rfl, rfl, List.Subset.refl _, rfl⟩
  · rename_i hready
    rw [hready, h hready]
    exact ⟨rfl, rfl, List.cons_subset_cons _ (List.tail_subset _), rfl⟩

/-- The bytes are read in their order, and behind them there are only endings. -/
theorem read_spec (arrived : Nat) (s : Supply) :
    (s.read arrived).1 = s.left.head?.elim (.error (s.endings.headD s.ending)) .ok ∧
      (s.read arrived).2.left = s.left.tail ∧
      (s.read arrived).2.ending :: (s.read arrived).2.endings ⊆ s.ending :: s.endings ∧
      (s.read arrived).2.fetches = if s.ready = [] then s.fetches.push arrived else s.fetches := by
  unfold read
  by_cases hready : s.ready = []
  · rw [if_pos (List.isEmpty_iff.mpr hready), if_pos hready, ← left_fetch hready arrived]
    exact next_spec (rest_fetch arrived)
  · rw [if_neg (mt List.isEmpty_iff.mp hready), if_neg hready]
    exact next_spec fun h => absurd h hready

theorem headD_mem_endings (s : Supply) : s.endings.headD s.ending ∈ s.ending :: s.endings := by
  cases s.endings <;> simp

end Supply

theorem SourceError.answer_elim {ending : SourceError} (h : ending.isEnd = true)
    (x? : Option UInt8) : answer (x?.elim (.error ending) .ok) = .ok x? := by
  cases x? with
  | none => exact if_pos h
  | some x => rfl

theorem Buffer.read_eq (b : Buffer) :
    b.read = (b.input.head?, { b with input := b.input.tail }) := by
  obtain ⟨input, output⟩ := b
  cases input <;> rfl

namespace Stream
variable {b : Buffer} {s : Stream} {m : Machine Stream}

theorem read_of_flush (h : s.collector.flush.1 = none) :
    s.read = (SourceError.answer (s.supply.read s.collector.flush.2.sink.accepted.size).1,
      ⟨(s.supply.read s.collector.flush.2.sink.accepted.size).2, s.collector.flush.2⟩) := by
  unfold read
  split
  · rename_i heq
    rw [heq] at h
    cases h
  · rename_i heq
    rw [heq]

/-- A stream in the place of a buffer: it has the same input before it, and the same output behind
it or on its way. -/
structure Mirrors (b : Buffer) (s : Stream) : Prop where
  input : s.supply.left = b.input
  endings : ∀ e ∈ s.supply.ending :: s.supply.endings, e.isEnd = true
  output : s.collector.Delivers none b.output.toList

theorem mirrors_fresh (input : Bytes) (chunks : List Nat) {endings : List SourceError}
    {ending : SourceError} (h : ∀ e ∈ ending :: endings, e.isEnd = true) :
    Mirrors (.ofInput input) (.fresh (.ofInput input chunks endings ending) (.fresh none)) where
  input := rfl
  endings := h
  output := Collector.delivers_fresh none

theorem bisimilar_mirrors : Channel.Bisimilar Mirrors where
  read {b s} h := by
    change .ok b.read.1 = s.read.1 ∧ Mirrors b.read.2 s.read.2
    rw [b.read_eq, read_of_flush h.output.flush_eq_none]
    obtain ⟨hanswer, hleft, hendings, -⟩ :=
      s.supply.read_spec s.collector.flush.2.sink.accepted.size
    rw [hanswer, SourceError.answer_elim (h.endings _ s.supply.headD_mem_endings), h.input]
    exact ⟨rfl, hleft.trans (by rw [h.input]), fun e he => h.endings e (hendings he),
      h.output.flush.1⟩
  write {b s} x h := by
    have hwritten := h.output.write x
    change none = (s.collector.write x).1 ∧ Mirrors (b.write x) (s.write x).2
    refine ⟨?_, h.input, h.endings, ?_⟩
    · rw [← Collector.failure_write, hwritten.failure_eq_none]
    · change Collector.Delivers none (b.output.push x).toList _
      rw [Array.toList_push]
      exact hwritten
  flush {b s} h := ⟨h.output.flush_eq_none.symm, h.input, h.endings, h.output.flush.1⟩

/-- The source is asked for more exactly when an input finds nothing ready, and what was written
before has arrived then. -/
theorem Keeps.fetches_perform (h : Keeps none m) (i : Instr) (pos : Position) :
    (m.perform i pos).machine.channel.supply.fetches =
        (if i = .input ∧ m.channel.supply.ready = [] then m.channel.supply.fetches.push m.log.size
          else m.channel.supply.fetches) ∧
      (i = .input → (m.perform i pos).machine.channel.collector.sink.accepted = m.log) := by
  rw [(m.perform_channel i pos).2]
  cases i with
  | input =>
    have hno := Collector.Delivers.flush_eq_none h
    have haccepted : m.channel.collector.flush.2.sink.accepted = m.log :=
      Array.toList_inj.mp ((Collector.Delivers.flush h).2 hno)
    change m.channel.read.2.supply.fetches = _ ∧ (_ → m.channel.read.2.collector.sink.accepted = _)
    rw [read_of_flush hno, (Supply.read_spec _ _).2.2.2, haccepted]
    simp
  | output => exact ⟨rfl, nofun⟩
  | _ => exact ⟨rfl, nofun⟩

end Stream

namespace Engine

/-- When a run is over, the sink has what the buffer has. -/
theorem conclude_mirrors {o : Outcome Buffer} {o' : Outcome Stream}
    (h : o.Alike Eq (Machine.Agree Eq Stream.Mirrors) o') (text : List Char) :
    (conclude text o).machine.Agree Eq (fun b s => s.collector.sink.accepted = b.output)
      (conclude text o').machine := by
  have hagree := (conclude_alike Stream.bisimilar_mirrors h text text).machine
  refine ⟨hagree.tape, hagree.pointer, hagree.log, hagree.steps, ?_⟩
  rw [(channel_conclude text o').1]
  have hwhole {b : Buffer} {s : Stream} (hs : s.Mirrors b) :
      s.collector.flush.2.sink.accepted = b.output :=
    Array.toList_inj.mp (hs.output.flush.2 hs.output.flush_eq_none)
  cases h with
  | finished hm => exact hwhole hm.channel
  | faulted _ hm => exact hwhole hm.channel

/-- With the same input, however it is fetched and however its end is told, and a sink without a
limit, every program runs on a stream as it does on a buffer: both runs need the same fuel if they
end at all, fail in the same way if they fail, and leave the same behind, the sink with what the
buffer has. At every state on the way the source is asked for more exactly when an input finds
nothing ready, and all output so far has arrived then. -/
theorem run_stream_like_buffer (e : Engine) (p : Program) (input : Bytes) (chunks : List Nat)
    {endings : List SourceError} {ending : SourceError}
    (hends : ∀ e ∈ ending :: endings, e.isEnd = true) :
    (∀ fuel, Option.Rel
      (fun r s => r.error? = s.error? ∧
        r.machine.Agree Eq (fun b s => s.collector.sink.accepted = b.output) s.machine)
      (e.run fuel p (Buffer.ofInput input))
      (e.run fuel p (Stream.fresh (.ofInput input chunks endings ending) (.fresh none)))) ∧
    ∀ is c x, e.Passes p.body
        (.fresh (Stream.fresh (.ofInput input chunks endings ending) (.fresh none))) is c x →
      ∀ i pos, ((x.counted.perform i pos).machine.channel.supply.fetches =
          if i = .input ∧ x.channel.supply.ready = [] then
            x.channel.supply.fetches.push x.log.size
          else x.channel.supply.fetches) ∧
        (i = .input →
          (x.counted.perform i pos).machine.channel.collector.sink.accepted = x.log) := by
  constructor
  · -- The same statements at the same places, on channels that give the same answers.
    intro fuel
    have hfresh : Machine.Agree Eq Stream.Mirrors (.fresh (.ofInput input))
        (.fresh (.fresh (.ofInput input chunks endings ending) (.fresh none))) :=
      ⟨rfl, rfl, rfl, rfl, Stream.mirrors_fresh input chunks hends⟩
    have hrel := exec_alike e.inStep_eq Stream.bisimilar_mirrors p.body.aligned_refl hfresh fuel
    exact rel_map hrel fun _ _ h =>
      ⟨error_conclude_eq Stream.bisimilar_mirrors h p.text, conclude_mirrors h p.text⟩
  · intro is c x hx i pos
    have hkeeps : Stream.Keeps none x := (Stream.keeps_fresh _ none).passes hx
    have hcounted : Stream.Keeps none x.counted := hkeeps
    exact hcounted.fetches_perform i pos

/-- A byte that comes alone, and then a wrapped end of input. The output is in the sink when the
source is asked for the second time. -/
theorem run_stream_like_buffer_second_fetch :
    ∃ p c, ∃ s : Run Stream, ∃ x : Machine Stream, Program.parse [0x2C, 0x2E, 0x2C] = .ok p ∧
      (∀ e ∈ [.endOfInput, .wrapping "read: EOF" .endOfInput], SourceError.isEnd e = true) ∧
      unlimited.run 4 p (Stream.fresh (.ofInput [7] [1] [.wrapping "read: EOF" .endOfInput]
        .endOfInput) (.fresh none)) = some s ∧
      s.error? = none ∧ s.machine.channel.collector.sink.accepted = #[7] ∧
      unlimited.Passes p.body (.fresh (Stream.fresh (.ofInput [7] [1]
        [.wrapping "read: EOF" .endOfInput] .endOfInput) (.fresh none))) [.input, .output] c x ∧
      x.channel.supply.fetches = #[0] ∧ x.channel.collector.sink.accepted = #[] ∧
      (x.counted.perform .input ⟨2, 1, 3⟩).machine.channel.supply.fetches = #[0, 1] ∧
      (x.counted.perform .input ⟨2, 1, 3⟩).machine.channel.collector.sink.accepted = #[7] := by
  let last : Block := .act .input ⟨2, 1, 3⟩ .done
  let p : Program :=
    ⟨.act .input ⟨0, 1, 1⟩ (.act .output ⟨1, 1, 2⟩ last), [0x2C, 0x2E, 0x2C]⟩
  let stream : Stream :=
    .fresh (.ofInput [7] [1] [.wrapping "read: EOF" .endOfInput] .endOfInput) (.fresh none)
  have hp : Program.parse [0x2C, 0x2E, 0x2C] = .ok p := rfl
  have hends :
      ∀ e ∈ [.endOfInput, .wrapping "read: EOF" .endOfInput], SourceError.isEnd e = true := by
    decide
  obtain ⟨hruns, hstates⟩ := run_stream_like_buffer unlimited p [7] [1] hends
  have hx : unlimited.Passes p.body (.fresh stream) [.input, .output] last _ :=
    .act rfl (.act rfl .here)
  obtain ⟨hfetches, haccepted⟩ := hstates _ _ _ hx .input ⟨2, 1, 3⟩
  have hbuffer : (unlimited.run 4 p (Buffer.ofInput [7])).map
      (fun r => (r.error?, r.machine.channel.output)) = some (none, #[7]) := rfl
  have hrel := hruns 4
  generalize unlimited.run 4 p (Buffer.ofInput [7]) = r? at hrel hbuffer
  generalize hs : unlimited.run 4 p stream = s? at hrel
  cases hrel with
  | none => cases hbuffer
  | some h =>
    rename_i r s
    simp only [Option.map_some, Option.some.injEq, Prod.mk.injEq] at hbuffer
    exact ⟨p, last, s, _, hp, hends, hs, h.1.symm.trans hbuffer.1, h.2.channel.trans hbuffer.2, hx,
      rfl, rfl, hfetches, haccepted rfl⟩

end Engine
end TapeLang
