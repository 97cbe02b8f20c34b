import TapeLang.Proofs.Documents
import TapeLang.Proofs.Framing

/-! Serving a stream of frames comes to handling the messages in them one after the other, and what is
written is a stream of frames again. -/
namespace TapeLang.Server

/-- The messages up to the first that says to exit. -/
def untilExit : List Inbound → List Inbound
  | [] => []
  | m :: ms => if m.method = "exit" then [m] else m :: untilExit ms

/-- The messages in payloads; a payload that is none is skipped. -/
def messages (payloads : List Bytes) : List Inbound :=
  untilExit (payloads.filterMap Inbound.read?)

theorem messages_cons_none {bytes : Bytes} (h : Inbound.read? bytes = none)
    (payloads : List Bytes) : messages (bytes :: payloads) = messages payloads := by
  rw [messages, List.filterMap_cons_none h, messages]

theorem messages_cons_some {bytes : Bytes} {m : Inbound} (h : Inbound.read? bytes = some m)
    (payloads : List Bytes) :
    messages (bytes :: payloads) = if m.method = "exit" then [m] else m :: messages payloads := by
  rw [messages, List.filterMap_cons_some h, untilExit, messages]

/-- Reading frame by frame up to the end of the input gives these payloads. -/
inductive ReadsAs : Bytes → List Bytes → Prop where
  | ended {input : Bytes} (h : readFrame input = .ended) : ReadsAs input []
  | payload {input bytes rest : Bytes} {payloads : List Bytes}
      (h : readFrame input = .payload bytes rest) (hrest : ReadsAs rest payloads) :
      ReadsAs input (bytes :: payloads)

theorem readFrame_nil : readFrame [] = .ended := rfl

theorem readsAs_frames {payloads : List Bytes} (h : ∀ p ∈ payloads, p.length ≤ maxPayload) :
    ReadsAs (payloads.map frame).flatten payloads := by
  induction payloads with
  | nil => exact .ended readFrame_nil
  | cons p payloads ih =>
    have hvalid : Framed.Valid ⟨[], p⟩ := ⟨by simp, h p List.mem_cons_self⟩
    refine .payload ?_ (ih fun q hq => h q (List.mem_cons_of_mem p hq))
    rw [List.map_cons, List.flatten_cons, frame_eq]
    exact hvalid.readFrame_eq _

/-- The frames of what answers a message. -/
def Outbound.frames (out : List Outbound) : List Bytes := out.map fun o => frame o.payload

/-- What comes of one frame: a payload that is no message is skipped, and a message is answered
before the next frame is read. -/
theorem serveFrom_payload {input bytes rest : Bytes} (h : readFrame input = .payload bytes rest)
    (written : List Bytes) (docs : Docs) :
    serveFrom none written docs input =
      match Inbound.read? bytes with
      | none => serveFrom none written docs rest
      | some m =>
        let written := (Outbound.frames (handle docs m).1).reverse ++ written
        if m.method = "exit" then ⟨written.reverse, (handle docs m).2, none⟩
        else serveFrom none written (handle docs m).2 rest := by
  rw [serveFrom]
  split
  · next he =>
    rw [h] at he
    cases he
  · next he =>
    rw [h] at he
    cases he
  · next he =>
    rw [h] at he
    cases he
  · next bytes' rest' he =>
    rw [h] at he
    obtain ⟨rfl, rfl⟩ := Frame.payload.inj he
    cases Inbound.read? bytes with
    | none => rfl
    | some m =>
      simp only [Method.ofName_eq_iff .exit rfl]
      rfl

theorem serveFrom_nil (written : List Bytes) (docs : Docs) :
    serveFrom none written docs [] = ⟨written.reverse, docs, none⟩ := by
  rw [serveFrom]
  split
  · rfl
  all_goals
    next he =>
      rw [readFrame_nil] at he
      cases he

/-- Serving frames is handling their messages, up to the first that says to exit. -/
theorem serveFrom_framed {fs : List Framed} (h : ∀ f ∈ fs, f.Valid) (written : List Bytes)
    (docs : Docs) :
    serveFrom none written docs (fs.flatMap Framed.bytes) =
      let answers := handleAll docs (messages (fs.map Framed.payload))
      ⟨written.reverse ++ Outbound.frames answers.1, answers.2, none⟩ := by
  induction fs generalizing written docs with
  | nil =>
    rw [List.flatMap_nil, serveFrom_nil]
    exact congrArg (Served.mk · docs none) (List.append_nil _).symm
  | cons f fs ih =>
    have hrest := fun f' hf' => h f' (List.mem_cons_of_mem f hf')
    have hread := (h f List.mem_cons_self).readFrame_eq (fs.flatMap Framed.bytes)
    rw [List.flatMap_cons, serveFrom_payload hread, List.map_cons]
    cases hm : Inbound.read? f.payload with
    | none =>
      rw [messages_cons_none hm]
      exact ih hrest written docs
    | some m =>
      rw [messages_cons_some hm]
      dsimp only
      by_cases hexit : m.method = "exit"
      · rw [if_pos hexit, if_pos hexit, handleAll_singleton, List.reverse_append,
          List.reverse_reverse]
      · rw [if_neg hexit, if_neg hexit, handleAll_cons, ih hrest]
        dsimp only
        rw [List.reverse_append, List.reverse_reverse, List.append_assoc, Outbound.frames,
          Outbound.frames, Outbound.frames, List.map_append]

/-- On a stream of frames, with any other headers in them, the server ends without an error. It
leaves the documents and writes the answers of handling the messages one after the other, up to the
first that says to exit. What it writes is read back, to the end, as these answers, each of which is
held to be no longer than a payload can be. -/
theorem serve_framed (docs : Docs) (fs : List Framed) (h : ∀ f ∈ fs, f.Valid) :
    let answers := handleAll docs (messages (fs.map Framed.payload))
    let served := serve none docs (fs.flatMap Framed.bytes)
    served.error? = none ∧ served.docs = answers.2 ∧
      served.written = answers.1.map (fun o => frame o.payload) ∧
      ((∀ o ∈ answers.1, o.payload.length ≤ maxPayload) →
        ReadsAs served.output (answers.1.map Outbound.payload)) := by
  intro answers served
  have hserved : served = ⟨Outbound.frames answers.1, answers.2, none⟩ :=
    serveFrom_framed h [] docs
  refine ⟨by rw [hserved], by rw [hserved], by rw [hserved]; rfl, ?_⟩
  intro hfits
  have hframes : Outbound.frames answers.1 = (answers.1.map Outbound.payload).map frame := by
    rw [List.map_map]
    rfl
  rw [hserved, Served.output, hframes]
  apply readsAs_frames
  intro p hp
  obtain ⟨o, ho, rfl⟩ := List.mem_map.mp hp
  exact hfits o ho

/-- A frame with another header and no message in it, and then a request. -/
theorem serve_framed_shutdown :
    let request := Bytes.ofString "\x7b\"id\":1,\"method\":\"shutdown\"\x7d"
    let answer := Bytes.ofString "\x7b\"jsonrpc\":\"2.0\",\"id\":1\x7d"
    let fs : List Framed := [⟨[Bytes.ofString "X:"], []⟩, ⟨[], request⟩]
    let served := serve none .empty (fs.flatMap Framed.bytes)
    (∀ f ∈ fs, f.Valid) ∧ served.error? = none ∧ served.written = [frame answer] ∧
      ReadsAs served.output [answer] := by
  intro request answer fs served
  have hheader : OtherHeader (Bytes.ofString "X:") :=
    ⟨by decide, ⟨0x58, by decide, by decide⟩, fun _ => by unfold IsLengthName; decide⟩
  have hvalid : ∀ f ∈ fs, f.Valid := by
    simp only [fs, List.forall_mem_cons]
    refine ⟨⟨by simpa using hheader, by decide⟩, ⟨by simp, by decide⟩, by simp⟩
  have hanswers : (handleAll .empty (messages (fs.map Framed.payload))).1 =
      [.result (some (.number [0x31])) none] := rfl
  obtain ⟨herror, -, hwritten, hread⟩ := serve_framed .empty fs hvalid
  rw [hanswers] at hwritten hread
  exact ⟨hvalid, herror, hwritten, hread (by decide)⟩

end TapeLang.Server
