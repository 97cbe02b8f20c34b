import TapeLang.Server.Handle

/-! The texts that the server keeps. Messages are handled one after the other, and the text of a
document is always the one that came last. -/
namespace TapeLang.Server

theorem Docs.get?_insert (d : Docs) (uri text other : Bytes) :
    (d.insert uri text).get? other = if other = uri then some text else d.get? other := by
  have hcons (u t : Bytes) (rest : List (Bytes × Bytes)) :
      ((u, t) :: rest).lookup other = if other = u then some t else rest.lookup other := by
    by_cases ho : other = u
    · simp [ho]
    · simp [List.lookup_cons, ho, beq_false_of_ne ho]
  obtain ⟨entries⟩ := d
  change (insertEntry uri text entries).lookup other =
    if other = uri then some text else entries.lookup other
  induction entries with
  | nil => exact hcons uri text []
  | cons e rest ih =>
    obtain ⟨u, t⟩ := e
    unfold insertEntry
    by_cases hlt : uri < u
    · rw [if_pos hlt, hcons]
    rw [if_neg hlt]
    by_cases hu : uri = u
    · subst u
      rw [if_pos rfl, hcons, hcons]
      by_cases ho : other = uri
      · rw [if_pos ho, if_pos ho]
      · rw [if_neg ho, if_neg ho, if_neg ho]
    · rw [if_neg hu, hcons, hcons, ih]
      by_cases ho : other = u
      · rw [if_pos ho, if_neg fun h => hu (h.symm.trans ho), if_pos ho]
      · rw [if_neg ho, if_neg ho]

/-- A message gives a document a new text: it opens the document, or it has at least one change of
it, of which the last holds. -/
inductive Inbound.Brings (m : Inbound) : Bytes → Bytes → Prop where
  | opened {p : Opened} (hm : m.method = "textDocument/didOpen")
      (hp : m.paramsInto? Opened.fields ⟨.empty⟩ = some p) :
      Brings m (Utf8.encode p.document.uri) (Utf8.encode p.document.text)
  | changed {p : Changed} {text : List Char} (hm : m.method = "textDocument/didChange")
      (hp : m.paramsInto? Changed.fields ⟨.empty, .empty⟩ = some p)
      (ht : p.changes.latest? = some text) :
      Brings m (Utf8.encode p.document.uri) (Utf8.encode text)

/-- The name of a method, if it is a known one. -/
def Method.name? : Method → Option String
  | .handshake => some "initialize"
  | .ready => some "initialized"
  | .exit => some "exit"
  | .shutdown => some "shutdown"
  | .opened => some "textDocument/didOpen"
  | .changed => some "textDocument/didChange"
  | .completion => some "textDocument/completion"
  | .hover => some "textDocument/hover"
  | .unknown => none

theorem Method.ofName_eq_iff (k : Method) {known : String} (hk : k.name? = some known)
    {name : String} : ofName name = k ↔ name = known := by
  constructor
  · rintro rfl
    unfold ofName at hk
    split at hk <;> cases hk <;> rfl
  · rintro rfl
    cases k <;> cases hk <;> rfl

theorem brings_iff {m : Inbound} {uri text : Bytes} :
    m.Brings uri text ↔ update? m = some (uri, text) := by
  constructor
  · intro h
    cases h with
    | opened hm hp => simp [update?, (Method.ofName_eq_iff .opened rfl).mpr hm, hp]
    | changed hm hp ht => simp [update?, (Method.ofName_eq_iff .changed rfl).mpr hm, hp, ht]
  · intro h
    unfold update? at h
    split at h
    · next hm =>
      obtain ⟨p, hp, hout⟩ := Option.bind_eq_some_iff.mp h
      obtain ⟨rfl, rfl⟩ := Prod.mk.inj (Option.some.inj hout)
      exact .opened ((Method.ofName_eq_iff .opened rfl).mp hm) hp
    · next hm =>
      obtain ⟨p, hp, hrest⟩ := Option.bind_eq_some_iff.mp h
      obtain ⟨t, ht, hout⟩ := Option.bind_eq_some_iff.mp hrest
      obtain ⟨rfl, rfl⟩ := Prod.mk.inj (Option.some.inj hout)
      exact .changed ((Method.ofName_eq_iff .changed rfl).mp hm) hp ht
    · cases h

theorem update?_eq_none {m : Inbound} (h : ∀ uri text, ¬ m.Brings uri text) : update? m = none := by
  cases hu : update? m with
  | none => rfl
  | some r => exact absurd (brings_iff.mpr hu) (h r.1 r.2)

/-- A new text is stored, and its problems are published. -/
theorem handle_brings {m : Inbound} {uri text : Bytes} (h : m.Brings uri text) (docs : Docs) :
    handle docs m = ([.publish uri (Editor.diagnose text)], docs.insert uri text) := by
  rw [handle, brings_iff.mp h]

/-- Any other message leaves the texts alone. -/
theorem handle_other {m : Inbound} (h : ∀ uri text, ¬ m.Brings uri text) (docs : Docs) :
    handle docs m = ((reply? docs m).toList, docs) := by
  rw [handle, update?_eq_none h]

theorem reply?_ne_publish (docs : Docs) (m : Inbound) (uri : Bytes)
    (diagnostics : List Editor.Diagnostic) : reply? docs m ≠ some (.publish uri diagnostics) := by
  unfold reply?
  split <;> try simp
  unfold hoverReply
  split <;> simp

/-- Handles messages one after the other: all answers, and the documents afterwards. -/
def handleAll (docs : Docs) : List Inbound → List Outbound × Docs
  | [] => ([], docs)
  | m :: ms =>
    let (out, docs) := handle docs m
    let (outs, docs) := handleAll docs ms
    (out ++ outs, docs)

theorem handleAll_cons (docs : Docs) (m : Inbound) (ms : List Inbound) :
    handleAll docs (m :: ms) = ((handle docs m).1 ++ (handleAll (handle docs m).2 ms).1,
      (handleAll (handle docs m).2 ms).2) := rfl

theorem handleAll_singleton (docs : Docs) (m : Inbound) : handleAll docs [m] = handle docs m := by
  rw [handleAll_cons, handleAll, List.append_nil]

theorem handleAll_append (docs : Docs) (ms ns : List Inbound) :
    handleAll docs (ms ++ ns) =
      ((handleAll docs ms).1 ++ (handleAll (handleAll docs ms).2 ns).1,
        (handleAll (handleAll docs ms).2 ns).2) := by
  induction ms generalizing docs with
  | nil => rfl
  | cons m ms ih => rw [List.cons_append, handleAll_cons, handleAll_cons, ih, List.append_assoc]

/-- What is said to one message among others. -/
theorem handleAll_split (docs : Docs) (before : List Inbound) (m : Inbound) (after : List Inbound) :
    let stored := (handleAll docs before).2
    (handleAll docs (before ++ m :: after)).1 = (handleAll docs before).1 ++ (handle stored m).1 ++
      (handleAll (handle stored m).2 after).1 := by
  intro stored
  rw [handleAll_append, handleAll_cons, List.append_assoc]

theorem get?_handle {m : Inbound} {uri : Bytes} (h : ∀ text, ¬ m.Brings uri text) (docs : Docs) :
    (handle docs m).2.get? uri = docs.get? uri := by
  by_cases hm : ∃ u t, m.Brings u t
  · obtain ⟨u, t, ht⟩ := hm
    have hne : uri ≠ u := by
      rintro rfl
      exact h t ht
    rw [handle_brings ht, Docs.get?_insert, if_neg hne]
  · rw [handle_other fun u t ht => hm ⟨u, t, ht⟩]

/-- Without a new text a document keeps the one it has. -/
theorem get?_handleAll {ms : List Inbound} {uri : Bytes}
    (h : ∀ m ∈ ms, ∀ text, ¬ m.Brings uri text) (docs : Docs) :
    (handleAll docs ms).2.get? uri = docs.get? uri := by
  induction ms generalizing docs with
  | nil => rfl
  | cons m ms ih =>
    rw [handleAll_cons, ih fun m' hm' => h m' (List.mem_cons_of_mem m hm')]
    exact get?_handle (h m List.mem_cons_self) docs

/-- The last message that gives a document a text gives it `text`. -/
def LastBrings (ms : List Inbound) (uri text : Bytes) : Prop :=
  ∃ before m after, ms = before ++ m :: after ∧ m.Brings uri text ∧
    ∀ m' ∈ after, ∀ text', ¬ m'.Brings uri text'

theorem LastBrings.get?_handleAll {ms : List Inbound} {uri text : Bytes}
    (h : LastBrings ms uri text) (docs : Docs) :
    (handleAll docs ms).2.get? uri = some text := by
  obtain ⟨before, m, after, rfl, hm, hafter⟩ := h
  rw [handleAll_append, handleAll_cons, Server.get?_handleAll hafter, handle_brings hm,
    Docs.get?_insert, if_pos rfl]

/-- A question about a place is answered from the text that is stored. -/
theorem handle_hover {m : Inbound} {id : Json.Value} {p : Hovered}
    (hm : m.method = "textDocument/hover") (hid : m.id? = some id)
    (hp : m.paramsInto? Hovered.fields ⟨.empty, ⟨0, 0⟩⟩ = some p) (docs : Docs) :
    (handle docs m).1 = [.result (some id)
      ((Editor.symbolAt? ((docs.get? (Utf8.encode p.document.uri)).getD []) p.place.line
        p.place.character).map hoverValue)] := by
  have hmethod : Method.ofName m.method = .hover := by rw [hm]; rfl
  have hother (uri text : Bytes) : ¬ m.Brings uri text := by
    rw [brings_iff, update?, hmethod]
    simp
  rw [handle_other hother, reply?, hmethod, hid]
  dsimp only
  rw [hoverReply, hp]
  rfl

/-- Handling messages, a document has the text that was last brought for it, or else the one it had
at first. Every message that brings a text is answered by the problems of that text alone; every
other one changes no text and publishes nothing; and each question about a place is answered from
the text that is stored when it comes. -/
theorem texts_are_latest (docs : Docs) (ms : List Inbound) :
    (∀ uri text, LastBrings ms uri text → (handleAll docs ms).2.get? uri = some text) ∧
    (∀ uri, (∀ m ∈ ms, ∀ text, ¬ m.Brings uri text) →
      (handleAll docs ms).2.get? uri = docs.get? uri) ∧
    ∀ before m after, ms = before ++ m :: after →
      let stored := (handleAll docs before).2
      (handleAll docs ms).1 = (handleAll docs before).1 ++ (handle stored m).1 ++
        (handleAll (handle stored m).2 after).1 ∧
      (∀ uri text, m.Brings uri text →
        (handle stored m).1 = [.publish uri (Editor.diagnose text)]) ∧
      ((∀ uri text, ¬ m.Brings uri text) → (handle stored m).2 = stored ∧
        ∀ uri diagnostics, .publish uri diagnostics ∉ (handle stored m).1) ∧
      ∀ id p, m.method = "textDocument/hover" → m.id? = some id →
        m.paramsInto? Hovered.fields ⟨.empty, ⟨0, 0⟩⟩ = some p →
        (handle stored m).1 = [.result (some id)
          ((Editor.symbolAt? ((stored.get? (Utf8.encode p.document.uri)).getD []) p.place.line
            p.place.character).map hoverValue)] := by
  refine ⟨fun uri text h => h.get?_handleAll docs, fun uri h => get?_handleAll h docs, ?_⟩
  rintro before m after rfl stored
  refine ⟨handleAll_split docs before m after, ?_, ?_, ?_⟩
  · intro uri text h
    rw [handle_brings h]
  · intro h
    rw [handle_other h]
    refine ⟨rfl, fun uri diagnostics hmem => ?_⟩
    exact reply?_ne_publish stored m uri diagnostics (Option.mem_toList.mp hmem)
  · intro id p hm hid hp
    exact handle_hover hm hid hp stored

/-- A document is opened and then changed twice in one message. -/
theorem texts_are_latest_two_changes :
    let document := ("uri", Json.Value.ofString "u")
    let opened : Inbound := ⟨none, "textDocument/didOpen", some (.ofFields
      [("textDocument", .ofFields [document, ("text", .ofString "+")])])⟩
    let changed : Inbound := ⟨none, "textDocument/didChange", some (.ofFields
      [("textDocument", .ofFields [document]), ("contentChanges", .list
        [.ofFields [("text", .ofString "-")], .ofFields [("text", .ofString ".")]])])⟩
    changed.Brings [0x75] [0x2E] ∧ LastBrings [opened, changed] [0x75] [0x2E] ∧
      (handleAll .empty [opened, changed]).2.get? [0x75] = some [0x2E] := by
  intro document opened changed
  have hparams : changed.paramsInto? Changed.fields ⟨.empty, .empty⟩ =
      some ⟨⟨['u'], []⟩, ⟨[['-'], ['.']], 2⟩⟩ := rfl
  have hbrings : changed.Brings [0x75] [0x2E] := .changed rfl hparams rfl
  have hlast : LastBrings [opened, changed] [0x75] [0x2E] :=
    ⟨[opened], changed, [], rfl, hbrings, by simp⟩
  exact ⟨hbrings, hlast, (texts_are_latest .empty [opened, changed]).1 _ _ hlast⟩

end TapeLang.Server
