import TapeLang.Proofs.Panels
import TapeLang.Proofs.Resets

/-! Settings that are accepted, however their file was read. A session starts with them and the
panel of the tape keeps to its width. Every line comes to an end, unless the quota is the greatest
word, which no count of steps exceeds. -/
namespace TapeLang

namespace Engine
variable {σ : Type} [Channel σ] {e : Engine} {m : Machine σ} {o : Outcome σ}

/-- Without a limit, a loop without a body is not left once it is entered. -/
theorem Ends.current_eq_zero {pos : Position} {next : Block} (he : ¬ e.IsLimited)
    (h : e.Ends (.loop pos .done next) m o) : m.current = 0 := by
  generalize hb : Block.loop pos .done next = b at h
  induction h with
  | done | act | fault => cases hb
  | stop h =>
    cases (tick_of_not_isLimited he _ _).symm.trans h
  | skip h hz _ _ =>
    cases (tick_of_not_isLimited he _ _).symm.trans h
    exact hz
  | inside _ _ hbody _ =>
    cases hb
    cases hbody
  | again h _ hbody _ _ ih =>
    cases hb
    cases (tick_of_not_isLimited he _ _).symm.trans h
    cases hbody
    exact ih rfl

end Engine

namespace Repl.Session
variable {s : Session}

/-- A program that goes on for ever unless it is stopped: a loop without a body, entered with a cell
that is not zero. -/
def endless (s : Session) : List Char :=
  if s.machine.current = 0 then ['+', '[', ']'] else ['[', ']']

/-- No amount of fuel is enough for it. -/
theorem evaluate?_endless (he : ¬ s.engine.IsLimited) (fuel : Nat) :
    s.evaluate? fuel s.endless = none := by
  have hnone {text : List Char} {p : Program} (hp : Program.parse (Utf8.encode text) = .ok p)
      (hno : ∀ o, ¬ s.engine.Ends p.body { s.machine with steps := 0 } o) :
      s.evaluate? fuel text = none := by
    rw [Option.eq_none_iff_forall_ne_some]
    intro answer heval
    obtain ⟨r, produced, hr, -⟩ := exists_of_evaluate? hp heval
    obtain ⟨o, ho, -⟩ := Engine.executes_iff.mp ⟨fuel, hr⟩
    exact hno o ho
  unfold endless
  split_ifs with hz
  · refine hnone (p := ⟨.act .increment ⟨0, 1, 1⟩ (.loop ⟨1, 1, 2⟩ .done .done),
      [0x2B, 0x5B, 0x5D]⟩) rfl ?_
    intro o ho
    have hadvance := Engine.advance_of_not_isLimited he .increment ⟨0, 1, 1⟩
      { s.machine with steps := 0 }
    have hcurrent := ((Engine.ends_act_iff hadvance).mp ho).current_eq_zero he
    rw [Machine.current_setCurrent] at hcurrent
    change s.machine.current + 1 = 0 at hcurrent
    rw [hz] at hcurrent
    cases hcurrent
  · refine hnone (p := ⟨.loop ⟨0, 1, 1⟩ .done .done, [0x5B, 0x5D]⟩) rfl ?_
    intro o ho
    have hcurrent := ho.current_eq_zero he
    exact hz hcurrent

/-- However the content of a file is read, settings that are accepted make an engine and start a
session. Whatever happens in it, it keeps a positive quota and a prompt that is not empty, and the
panel shows the cells near the pointer in their order: the one below it, and at most `tapeWindow` at
each side. Every text is answered after at most one step more than the quota exactly when the quota
is less than the greatest word. A quota of that word sets no limit, and a loop that is entered and
changes nothing is never answered. -/
theorem answered_iff_quota_lt_greatest
    {decode : String → Bytes → Except Settings.ReadError Settings} {t : FileTree} {here : Path}
    {path : String} {settings : Settings}
    (hload : Settings.loadWith decode t here path = .ok settings) :
    Settings.load = Settings.loadWith Settings.ofYaml ∧
    Engine.ofQuota settings.stepQuota = .ok ⟨settings.stepQuota.toNat⟩ ∧
    ∃ s₀, start settings = .ok s₀ ∧
      ∀ (fuel : Nat) (events : List Event) (s : Session), s₀.reactAll? fuel events = some s →
        s.engine.quota = quotaOf settings ∧ 0 < quotaOf settings ∧
        s.prompt = settings.prompt ∧ settings.prompt ≠ "" ∧
        ((∀ text : List Char,
          (∃ e, Program.parse (Utf8.encode text) = .error e ∧
            s.evaluate? (quotaOf settings + 1) text = some (e.message text, true, s.machine)) ∨
          ∃ p r produced, Program.parse (Utf8.encode text) = .ok p ∧
            s.engine.Executes (some p) s.machine r ∧ r.machine.steps ≤ quotaOf settings + 1 ∧
            s.evaluate? (quotaOf settings + 1) text =
              some (shown r produced, r.error?.isSome, r.machine)) ↔
          quotaOf settings + 1 < Word.bound) ∧
        (Word.bound ≤ quotaOf settings + 1 → ∀ fuel,
          s.evaluate? fuel (if s.machine.current = 0 then ['+', '[', ']'] else ['[', ']']) =
            none) ∧
        ∃ cells : List (Nat × UInt8),
          (cells.length : Int) ≤ 2 * settings.tapeWindow + 1 ∧
          (s.machine.pointer.val, s.machine.current) ∈ cells ∧
          (∀ i x, (i, x) ∈ cells ↔
            s.machine.IsNear settings.tapeWindow i ∧ s.machine.cell? i = some x) ∧
          (cells.map Prod.fst).Pairwise (· < ·) ∧
          ∃ top title indices values bottom,
            (Panel.tape s.machine s.tapeWindow).toList.splitOn '\n' =
              [top, title, indices, values, bottom] ∧
            Panel.words title = ["Tape"] ∧
            Panel.words indices = cells.map (fun (i, _) => toString i) ∧
            Panel.words values = cells.map (fun (_, x) => toString x.toNat) := by
  obtain ⟨hquota, ⟨hwindow, -⟩, hprompt⟩ := Settings.accepted_of_loadWith hload
  refine ⟨Settings.load_eq_loadWith, Engine.ofQuota_eq_ok hquota, initial settings,
    start_eq_ok_iff.mpr ⟨hquota, rfl⟩, ?_⟩
  intro fuel events s hevents
  have hsame : s.constants = (⟨quotaOf settings⟩, settings.prompt, settings.tapeWindow) :=
    constants_reactAll? hevents
  have hengine : s.engine.quota = quotaOf settings := congrArg (·.1.quota) hsame
  have hshown : s.prompt = settings.prompt := congrArg (·.2.1) hsame
  have hwidth : s.tapeWindow = settings.tapeWindow := congrArg (·.2.2) hsame
  have hpositive := quotaOf_pos hquota
  have hlimited : s.engine.IsLimited ↔ quotaOf settings + 1 < Word.bound := by
    rw [Engine.IsLimited, hengine, and_iff_right hpositive]
  refine ⟨hengine, hpositive, hshown, hprompt, ⟨?_, ?_⟩, ?_, s.machine.numbered settings.tapeWindow,
    s.machine.length_numbered_le hwindow, s.machine.pointer_mem_numbered _,
    fun i x => Machine.mem_numbered_iff, s.machine.pairwise_numbered _, ?_⟩
  · intro hanswered
    by_contra hgreatest
    have hnone := evaluate?_endless (mt hlimited.mp hgreatest) (quotaOf settings + 1)
    rcases hanswered s.endless with ⟨e, -, heval⟩ | ⟨p, r, produced, -, -, -, heval⟩
    · cases hnone.symm.trans heval
    · cases hnone.symm.trans heval
  · intro hless text
    have hbounded := evaluate?_bounded (hlimited.mpr hless) text
    rw [hengine] at hbounded
    exact hbounded
  · intro hgreatest fuel
    exact evaluate?_endless (mt hlimited.mp (Nat.not_lt.mpr hgreatest)) fuel
  · rw [hwidth]
    exact Panel.exists_rows s.machine settings.tapeWindow

/-- A file asks for the greatest word as its quota, no prompt and one cell at each side. The session
starts, moves three cells to the right and shows two others beside that one, but it never answers a
loop without an end. With the usual settings that loop is stopped. -/
theorem answered_iff_quota_lt_greatest_loop :
    let content := Bytes.ofString
      "step_quota: 9223372036854775807\nrepl:\n  prompt: ''\n  tape_window: 1\n"
    let settings : Settings := ⟨9223372036854775807, "bf> ", 1⟩
    let events : List Event := [.text ['>', '>', '+', '>'], .key ⟨"enter", []⟩]
    Settings.load ⟨[(["c.yml"], .file content)]⟩ [] "c.yml" = .ok settings ∧
      (∃ s₀ s, start settings = .ok s₀ ∧ s₀.reactAll? 9 events = some s ∧ s.prompt = "bf> " ∧
        (∀ fuel, s.evaluate? fuel ['+', '[', ']'] = none) ∧
        ∃ cells : List (Nat × UInt8), cells.length ≤ 3 ∧ (3, 0) ∈ cells ∧ (2, 1) ∈ cells ∧
          ∃ row ∈ (Panel.tape s.machine s.tapeWindow).toList.splitOn '\n',
            Panel.words row = cells.map (fun (_, x) => toString x.toNat)) ∧
      ∃ s₀ p r, start .defaults = .ok s₀ ∧ Program.parse (Utf8.encode ['+', '[', ']']) = .ok p ∧
        s₀.engine.Executes (some p) s₀.machine r ∧ r.machine.steps ≤ 1000001 := by
  intro content settings events
  have hfile : Settings.loadWith Settings.ofYaml ⟨[(["c.yml"], .file content)]⟩ [] "c.yml" =
      .ok settings := by
    decide +kernel
  obtain ⟨hload, -, s₀, hstart, hevents⟩ := answered_iff_quota_lt_greatest hfile
  obtain ⟨-, rfl⟩ := start_eq_ok_iff.mp hstart
  have hruns : ((initial settings).reactAll? 9 events).map (fun s =>
      (s.machine.pointer.val, s.machine.current, s.machine.cell? 2)) = some (3, 0, some 1) := by
    decide +kernel
  obtain ⟨s, hs, hplace⟩ := Option.map_eq_some_iff.mp hruns
  obtain ⟨hpointer, hcurrent, hcell⟩ : s.machine.pointer.val = 3 ∧ s.machine.current = 0 ∧
      s.machine.cell? 2 = some 1 := by
    simpa using hplace
  obtain ⟨-, -, hprompt, -, -, hendless, cells, hlength, hmem, hcells, -, _, _, _, values, _, hrows,
    -, -, hvalues⟩ := hevents 9 events s hs
  rw [hpointer, hcurrent] at hmem
  rw [if_pos hcurrent] at hendless
  have hnear : s.machine.IsNear 1 2 := by
    rw [Machine.IsNear, hpointer]
    decide
  change (cells.length : Int) ≤ 2 * 1 + 1 at hlength
  refine ⟨hload ▸ hfile, ⟨_, s, hstart, hs, hprompt, hendless (by decide), cells, by omega, hmem,
    (hcells 2 1).mpr ⟨hnear, hcell⟩, values, ?_, hvalues⟩, ?_⟩
  · rw [hrows]
    simp
  have hnofile : Settings.loadWith Settings.ofYaml ⟨[]⟩ [] "" = .ok .defaults := rfl
  obtain ⟨-, -, u₀, hustart, husual⟩ := answered_iff_quota_lt_greatest hnofile
  obtain ⟨-, -, -, -, hanswered, -⟩ := husual 9 [] u₀ rfl
  rcases hanswered.mpr (by decide) ['+', '[', ']'] with ⟨e, he, -⟩ | ⟨p, r, -, hp, hrun, hsteps, -⟩
  · have hloop : ∃ p, Program.parse (Utf8.encode ['+', '[', ']']) = .ok p := ⟨_, rfl⟩
    obtain ⟨p, hp⟩ := hloop
    cases hp.symm.trans he
  · exact ⟨u₀, p, r, hustart, hp, hrun, hsteps⟩

end Repl.Session
end TapeLang
