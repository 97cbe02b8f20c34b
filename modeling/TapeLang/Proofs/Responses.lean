import TapeLang.Proofs.Serving

/-! Answers to requests. Each request is answered once, with its own id and in its turn; an answer
tells a result or an error, unless the request has succeeded with nothing to report. -/
namespace TapeLang

/-- The member of a record that has this name. -/
def Json.Value.member? (v : Value) (name : String) : Option Value :=
  match v with
  | .record members => members.lookup (rawText name.toList)
  | _ => none

namespace Server
open Json (Value)

/-- The messages that are not answered even with an id, since they only tell something. -/
def notices : List String :=
  ["initialized", "exit", "textDocument/didOpen", "textDocument/didChange"]

/-- The id of a message that has to be answered. -/
def Inbound.request? (m : Inbound) : Option Value := if m.method ∈ notices then none else m.id?

/-- A request that succeeds and yet has nothing to report: the server is to shut down, or there is
no symbol at the place that is asked about. -/
inductive Inbound.HasNoResult (docs : Docs) (m : Inbound) : Prop where
  | shutdown (hm : m.method = "shutdown")
  | hover {p : Hovered} (hm : m.method = "textDocument/hover")
      (hp : m.paramsInto? Hovered.fields ⟨.empty, ⟨0, 0⟩⟩ = some p)
      (hs : Editor.symbolAt? ((docs.get? (Utf8.encode p.document.uri)).getD []) p.place.line
        p.place.character = none)

namespace Outbound

theorem member?_result (id? value? : Option Value) :
    let v := (result id? value?).toValue
    v.member? "id" = id? ∧ v.member? "method" = none ∧ v.member? "result" = value? ∧
      v.member? "error" = none := by
  cases id? <;> cases value? <;> exact ⟨rfl, rfl, rfl, rfl⟩

theorem member?_refusal (id : Value) (code : Int) (message : String) :
    let v := (refusal id code message).toValue
    v.member? "id" = some id ∧ v.member? "method" = none ∧ v.member? "result" = none ∧
      (v.member? "error").isSome := ⟨rfl, rfl, rfl, rfl⟩

theorem member?_publish (uri : Bytes) (diagnostics : List Editor.Diagnostic) :
    let v := (publish uri diagnostics).toValue
    v.member? "id" = none ∧ v.member? "result" = none ∧ v.member? "error" = none :=
  ⟨rfl, rfl, rfl⟩

end Outbound

/-- What a message is answered with. -/
inductive Answers (docs : Docs) (m : Inbound) : List Outbound → Prop where
  | told (hm : m.method ∈ notices) : Answers docs m []
  | published (hm : m.method ∈ notices) (uri : Bytes) (diagnostics : List Editor.Diagnostic) :
      Answers docs m [.publish uri diagnostics]
  | unasked (hm : m.method ≠ "initialize") (hid : m.id? = none) : Answers docs m []
  | greeted (hm : m.method = "initialize") (hid : m.id? = none) :
      Answers docs m [.result none (some capabilities)]
  | done {id : Value} {value? : Option Value} (hm : m.method ∉ notices) (hid : m.id? = some id)
      (hv : value? = none ↔ m.HasNoResult docs) : Answers docs m [.result (some id) value?]
  | refused {id : Value} (hm : m.method ∉ notices) (hid : m.id? = some id)
      (hr : ¬ m.HasNoResult docs) (code : Int) (message : String) :
      Answers docs m [.refusal id code message]

theorem answers_hoverReply {m : Inbound} {id : Value} (hm : m.method = "textDocument/hover")
    (hid : m.id? = some id) (docs : Docs) : Answers docs m [hoverReply docs id m] := by
  have hnotice : m.method ∉ notices := by
    rw [hm]
    decide
  have hshutdown : m.method ≠ "shutdown" := by
    rw [hm]
    decide
  unfold hoverReply
  cases hp : m.paramsInto? Hovered.fields ⟨.empty, ⟨0, 0⟩⟩ with
  | none =>
    refine .refused hnotice hid ?_ _ _
    rintro (h | ⟨-, h, -⟩)
    · exact hshutdown h
    · rw [hp] at h
      cases h
  | some p =>
    refine .done hnotice hid ?_
    rw [Option.map_eq_none_iff]
    constructor
    · exact fun hs => .hover hm hp hs
    · rintro (h | ⟨-, h, hs⟩)
      · exact absurd h hshutdown
      · rw [hp] at h
        cases h
        exact hs

theorem mem_notices_iff {name : String} :
    name ∈ notices ↔ Method.ofName name ∈ [.ready, .exit, .opened, .changed] := by
  simp only [notices, List.mem_cons, Method.ofName_eq_iff .ready rfl,
    Method.ofName_eq_iff .exit rfl, Method.ofName_eq_iff .opened rfl,
    Method.ofName_eq_iff .changed rfl, List.not_mem_nil]

theorem Inbound.HasNoResult.ofName_mem {docs : Docs} {m : Inbound} (h : m.HasNoResult docs) :
    Method.ofName m.method ∈ [.shutdown, .hover] := by
  cases h with
  | shutdown hm => rw [hm]; decide
  | hover hm => rw [hm]; decide

/-- Without an id only the handshake is answered. -/
theorem reply?_answers_none {m : Inbound} (hid : m.id? = none) (docs : Docs) :
    Answers docs m (reply? docs m).toList := by
  have hmethod : Method.ofName m.method = .handshake ↔ m.method = "initialize" :=
    Method.ofName_eq_iff .handshake rfl
  unfold reply?
  rw [hid]
  cases hk : Method.ofName m.method with
  | handshake => exact .greeted (hmethod.mp hk) hid
  | _ =>
    refine .unasked ?_ hid
    intro hm
    rw [hmethod.mpr hm] at hk
    cases hk

theorem reply?_answers_some {m : Inbound} {id : Value} (hid : m.id? = some id) (docs : Docs) :
    Answers docs m (reply? docs m).toList := by
  have hnotice := @mem_notices_iff m.method
  have hresult (h : m.HasNoResult docs) := h.ofName_mem
  unfold reply?
  rw [hid]
  cases hk : Method.ofName m.method with
  | ready | exit | opened | changed => exact .told (hnotice.mpr (by rw [hk]; decide))
  | handshake | completion =>
    refine .done (hnotice.not.mpr (by rw [hk]; decide)) hid ?_
    exact ⟨nofun, fun h => absurd (hk ▸ hresult h) (by decide)⟩
  | shutdown =>
    refine .done (hnotice.not.mpr (by rw [hk]; decide)) hid ?_
    exact ⟨fun _ => .shutdown ((Method.ofName_eq_iff .shutdown rfl).mp hk), fun _ => rfl⟩
  | hover => exact answers_hoverReply ((Method.ofName_eq_iff .hover rfl).mp hk) hid docs
  | unknown =>
    refine .refused (hnotice.not.mpr (by rw [hk]; decide)) hid ?_ _ _
    exact fun h => absurd (hk ▸ hresult h) (by decide)

theorem handle_answers (docs : Docs) (m : Inbound) : Answers docs m (handle docs m).1 := by
  by_cases hbrings : ∃ uri text, m.Brings uri text
  · obtain ⟨uri, text, h⟩ := hbrings
    rw [handle_brings h]
    have hm : m.method ∈ notices := by
      cases h with
      | opened hm => rw [hm]; decide
      | changed hm => rw [hm]; decide
    exact .published hm _ _
  · rw [handle_other fun uri text h => hbrings ⟨uri, text, h⟩]
    cases hid : m.id? with
    | none => exact reply?_answers_none hid docs
    | some id => exact reply?_answers_some hid docs

/-- The id that an answer carries. -/
def Outbound.id? (o : Outbound) : Option Value := o.toValue.member? "id"

/-- A message is answered with an id if and only if it has to be answered, and with its own. -/
theorem filterMap_id?_handle (docs : Docs) (m : Inbound) :
    (handle docs m).1.filterMap Outbound.id? = m.request?.toList := by
  have hanswers := handle_answers docs m
  generalize (handle docs m).1 = out at hanswers
  unfold Inbound.request?
  cases hanswers with
  | told hm =>
    rw [if_pos hm]
    rfl
  | published hm =>
    rw [if_pos hm]
    rfl
  | unasked hm hid =>
    rw [hid, ite_self]
    rfl
  | greeted hm hid =>
    rw [hid, ite_self]
    rfl
  | @done id value? hm hid =>
    rw [if_neg hm, hid]
    cases value? <;> rfl
  | refused hm hid =>
    rw [if_neg hm, hid]
    rfl

/-- Over a whole run, the ids of the answers are those of the requests. -/
theorem filterMap_id?_handleAll (docs : Docs) (ms : List Inbound) :
    (handleAll docs ms).1.filterMap Outbound.id? = ms.filterMap Inbound.request? := by
  induction ms generalizing docs with
  | nil => rfl
  | cons m ms ih =>
    rw [handleAll_cons]
    dsimp only
    rw [List.filterMap_append, filterMap_id?_handle, ih]
    cases hr : m.request? with
    | none => rw [List.filterMap_cons_none hr]; rfl
    | some id => rw [List.filterMap_cons_some hr]; rfl

theorem exists_answer {m : Inbound} {id : Value} (hid : m.id? = some id) (hm : m.method ∉ notices)
    (docs : Docs) : ∃ o, (handle docs m).1 = [o] ∧ o.id? = some id ∧
      o.toValue.member? "method" = none := by
  have hanswers := handle_answers docs m
  generalize (handle docs m).1 = out at hanswers
  cases hanswers with
  | told h => exact absurd h hm
  | published h => exact absurd h hm
  | unasked _ hnone =>
    rw [hid] at hnone
    cases hnone
  | greeted _ hnone =>
    rw [hid] at hnone
    cases hnone
  | @done id' value? _ hid' =>
    obtain ⟨hmember, hmethod, -⟩ := Outbound.member?_result (some id') value?
    exact ⟨_, rfl, hmember.trans (hid'.symm.trans hid), hmethod⟩
  | @refused id' _ hid' =>
    exact ⟨_, rfl, hid'.symm.trans hid, rfl⟩

theorem no_outcome_of_unasked {m : Inbound} (hid : m.id? = none) (hm : m.method ≠ "initialize")
    (docs : Docs) : ∀ o ∈ (handle docs m).1, o.toValue.member? "result" = none ∧
      o.toValue.member? "error" = none := by
  have hanswers := handle_answers docs m
  generalize (handle docs m).1 = out at hanswers
  intro o ho
  cases hanswers with
  | told => cases ho
  | published _ uri diagnostics =>
    rw [List.mem_singleton.mp ho]
    exact (Outbound.member?_publish uri diagnostics).2
  | unasked => cases ho
  | greeted h => exact absurd h hm
  | done _ hsome =>
    rw [hid] at hsome
    cases hsome
  | refused _ hsome =>
    rw [hid] at hsome
    cases hsome

/-- An answer with an id has a result or an error and not both, but for the requests that have no
result: theirs has neither. -/
theorem outcome_iff {docs : Docs} {m : Inbound} {o : Outbound} (ho : o ∈ (handle docs m).1)
    (hid : o.id?.isSome) :
    (Xor (o.toValue.member? "result").isSome (o.toValue.member? "error").isSome ↔
      ¬ m.HasNoResult docs) ∧
    (m.HasNoResult docs → o.toValue.member? "result" = none ∧ o.toValue.member? "error" = none) := by
  have hanswers := handle_answers docs m
  generalize (handle docs m).1 = out at hanswers ho
  cases hanswers with
  | told => cases ho
  | published =>
    rw [List.mem_singleton.mp ho] at hid
    cases hid
  | unasked => cases ho
  | greeted =>
    rw [List.mem_singleton.mp ho] at hid
    cases hid
  | @done id value? _ _ hv =>
    obtain ⟨-, -, hresult, herror⟩ := Outbound.member?_result (some id) value?
    rw [List.mem_singleton.mp ho, hresult, herror, ← hv]
    cases value? <;> simp
  | @refused id _ _ hr code message =>
    obtain ⟨-, -, hresult, herror⟩ := Outbound.member?_refusal id code message
    rw [List.mem_singleton.mp ho, hresult, herror]
    simp [hr]

theorem written_serve {fs : List Framed} (hfs : ∀ f ∈ fs, f.Valid) {ms : List Inbound}
    (hms : messages (fs.map Framed.payload) = ms) (docs : Docs) :
    (serve none docs (fs.flatMap Framed.bytes)).written =
      (handleAll docs ms).1.map fun o => frame o.payload := by
  rw [← hms]
  exact congrArg Served.written (serveFrom_framed hfs [] docs)

/-- Handling messages, each request is answered by one message with its id and no method, whatever
its parameters are and whatever is stored; a message without an id that is no handshake has no
result and no error. So the ids of all answers are those of the requests, in their order. They are
what a server writes that is sent these messages. -/
theorem requests_answered_in_order (docs : Docs) (ms : List Inbound) :
    (∀ before m after, ms = before ++ m :: after →
      let stored := (handleAll docs before).2
      (handleAll docs ms).1 = (handleAll docs before).1 ++ (handle stored m).1 ++
        (handleAll (handle stored m).2 after).1 ∧
      (∀ id, m.id? = some id → m.method ∉ notices → ∃ o, (handle stored m).1 = [o] ∧
        o.id? = some id ∧ o.toValue.member? "method" = none) ∧
      (m.id? = none → m.method ≠ "initialize" → ∀ o ∈ (handle stored m).1,
        o.toValue.member? "result" = none ∧ o.toValue.member? "error" = none)) ∧
    (handleAll docs ms).1.filterMap Outbound.id? = ms.filterMap Inbound.request? ∧
    ∀ fs : List Framed, (∀ f ∈ fs, f.Valid) → messages (fs.map Framed.payload) = ms →
      (serve none docs (fs.flatMap Framed.bytes)).written =
        (handleAll docs ms).1.map fun o => frame o.payload := by
  refine ⟨?_, filterMap_id?_handleAll docs ms, fun fs hfs hms => written_serve hfs hms docs⟩
  rintro before m after rfl stored
  refine ⟨handleAll_split docs before m after, ?_, ?_⟩
  · intro id hid hm
    exact exists_answer hid hm stored
  · intro hid hm
    exact no_outcome_of_unasked hid hm stored

/-- A handshake without an id, a document, a question about it and a request to shut down. -/
theorem requests_answered_in_order_question :
    let document := ("uri", Json.Value.ofString "u")
    let opened : Inbound := ⟨none, "textDocument/didOpen", some (.ofFields
      [("textDocument", .ofFields [document, ("text", .ofString "+")])])⟩
    let question : Inbound := ⟨some (.text [0x61]), "textDocument/hover", some (.ofFields
      [("textDocument", .ofFields [document])])⟩
    let ms : List Inbound := [⟨none, "initialize", none⟩, opened, question,
      ⟨some (.number [0x32]), "shutdown", none⟩]
    question.id? = some (.text [0x61]) ∧ question.method ∉ notices ∧
      (handleAll .empty ms).1.filterMap Outbound.id? = [.text [0x61], .number [0x32]] ∧
      ∃ o, (handle (handleAll .empty (ms.take 2)).2 question).1 = [o] ∧
        o.id? = some (.text [0x61]) ∧ o.toValue.member? "method" = none := by
  intro document opened question ms
  have hid : question.id? = some (.text [0x61]) := rfl
  have hmethod : question.method ∉ notices := by decide
  obtain ⟨hall, hids, -⟩ := requests_answered_in_order .empty ms
  obtain ⟨-, hanswer, -⟩ := hall (ms.take 2) question (ms.drop 3) rfl
  exact ⟨hid, hmethod, hids, hanswer _ hid hmethod⟩

/-- An answer that carries an id has exactly one of a result and an error if and only if it does not
answer a request without a result. The answer to such a request, which is to shut down or asks about
a place without a symbol, has neither. -/
theorem result_xor_error_iff (docs : Docs) (ms : List Inbound) :
    (∀ before m after, ms = before ++ m :: after →
      let stored := (handleAll docs before).2
      (handleAll docs ms).1 = (handleAll docs before).1 ++ (handle stored m).1 ++
        (handleAll (handle stored m).2 after).1 ∧
      ∀ o ∈ (handle stored m).1, o.id?.isSome →
        (Xor (o.toValue.member? "result").isSome (o.toValue.member? "error").isSome ↔
          ¬ m.HasNoResult stored) ∧
        (m.HasNoResult stored →
          o.toValue.member? "result" = none ∧ o.toValue.member? "error" = none)) ∧
    ∀ fs : List Framed, (∀ f ∈ fs, f.Valid) → messages (fs.map Framed.payload) = ms →
      (serve none docs (fs.flatMap Framed.bytes)).written =
        (handleAll docs ms).1.map fun o => frame o.payload := by
  refine ⟨?_, fun fs hfs hms => written_serve hfs hms docs⟩
  rintro before m after rfl stored
  refine ⟨handleAll_split docs before m after, ?_⟩
  intro o ho hid
  exact outcome_iff ho hid

/-- The answer to a list of completions has a result, and the one to a shutdown has nothing. -/
theorem result_xor_error_iff_shutdown :
    let completion : Inbound := ⟨some (.number [0x31]), "textDocument/completion", none⟩
    let shutdown : Inbound := ⟨some (.number [0x32]), "shutdown", none⟩
    let listed : Outbound := .result (some (.number [0x31])) (some completionList)
    let closed : Outbound := .result (some (.number [0x32])) none
    (handleAll .empty [completion, shutdown]).1 = [listed, closed] ∧
      Xor (listed.toValue.member? "result").isSome (listed.toValue.member? "error").isSome ∧
      shutdown.HasNoResult .empty ∧ closed.id?.isSome ∧
      ¬ Xor (closed.toValue.member? "result").isSome (closed.toValue.member? "error").isSome ∧
      closed.payload = Bytes.ofString "\x7b\"jsonrpc\":\"2.0\",\"id\":2\x7d" := by
  intro completion shutdown listed closed
  have hanswers : (handleAll .empty [completion, shutdown]).1 = [listed, closed] := rfl
  have hcloses : shutdown.HasNoResult .empty := .shutdown rfl
  have hlists : ¬ completion.HasNoResult .empty := fun h => absurd h.ofName_mem (by decide)
  obtain ⟨hall, -⟩ := result_xor_error_iff .empty [completion, shutdown]
  have hfirst := (hall [] completion [shutdown] rfl).2 listed (List.mem_singleton_self _) rfl
  have hsecond := (hall [completion] shutdown [] rfl).2 closed (List.mem_singleton_self _) rfl
  exact ⟨hanswers, hfirst.1.mpr hlists, hcloses, rfl, fun h => hsecond.1.mp h hcloses, rfl⟩

end Server
end TapeLang
