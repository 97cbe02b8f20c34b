import TapeLang.Proofs.Canonical
import TapeLang.Proofs.Collecting

/-! What formatting does to the files of a tree. Files are written one after the other, each with
its own layout, up to the first one that is no program. A layout is its own layout, so that nothing
is left to do after a run without failure. -/
namespace TapeLang
namespace FileTree
variable {t t' t'' : FileTree} {p : Path} {paths paths' : List Path}

/-- There is a file, and what it holds is a program. -/
def HasLayout (t : FileTree) (p : Path) : Prop :=
  ∃ source formatted, t.entry? p = some (.file source) ∧ formatSource source = .ok formatted

/-- There is a file, and what it holds is its own layout. -/
def IsSettled (t : FileTree) (p : Path) : Prop :=
  ∃ content, t.entry? p = some (.file content) ∧ formatSource content = .ok content

/-- There is a program that is not its own layout. -/
def isUnformatted (t : FileTree) (p : Path) : Bool :=
  match t.entry? p with
  | some (.file source) =>
    match formatSource source with
    | .ok formatted => formatted != source
    | .error _ => false
  | _ => false

/-- The files at some places hold their layouts now, and everything else is as it was. -/
structure LaidOut (t t' : FileTree) (paths : List Path) : Prop where
  done : ∀ p ∈ paths, ∃ source formatted, t.entry? p = some (.file source) ∧
    formatSource source = .ok formatted ∧ t'.entry? p = some (.file formatted)
  kept : ∀ p, p ∉ paths → t'.entry? p = t.entry? p
  isDirectory : ∀ p, t'.isDirectory p = t.isDirectory p

namespace LaidOut

theorem refl (t : FileTree) : t.LaidOut t [] :=
  ⟨fun _ hp => absurd hp List.not_mem_nil, fun _ _ => rfl, fun _ => rfl⟩

theorem write (h : t.Plain) {source formatted : Bytes} (hp : t.entry? p = some (.file source))
    (hformat : formatSource source = .ok formatted) : t.LaidOut (t.write p formatted) [p] where
  done q hq := by
    obtain rfl := List.mem_singleton.mp hq
    refine ⟨source, formatted, hp, hformat, ?_⟩
    rw [entry?_write, hp]
    simp
  kept q hq := by
    rw [entry?_write]
    simp [List.mem_singleton.not.mp hq]
  isDirectory := (h.sameShape_write ⟨source, hp⟩ formatted).isDirectory

/-- A file that is its own layout need not be written. -/
theorem self {content : Bytes} (hp : t.entry? p = some (.file content))
    (hformat : formatSource content = .ok content) : t.LaidOut t [p] where
  done q hq := by
    obtain rfl := List.mem_singleton.mp hq
    exact ⟨content, content, hp, hformat, hp⟩
  kept _ _ := rfl
  isDirectory _ := rfl

theorem trans (h : t.LaidOut t' paths) (h' : t'.LaidOut t'' paths')
    (hdisjoint : paths.Disjoint paths') : t.LaidOut t'' (paths ++ paths') where
  done p hp := by
    rcases List.mem_append.mp hp with hp | hp
    · obtain ⟨source, formatted, hold, hformat, hnew⟩ := h.done p hp
      exact ⟨source, formatted, hold, hformat, (h'.kept p (hdisjoint hp)).trans hnew⟩
    · obtain ⟨source, formatted, hold, hformat, hnew⟩ := h'.done p hp
      have hkept := h.kept p fun hp' => hdisjoint hp' hp
      exact ⟨source, formatted, hkept.symm.trans hold, hformat, hnew⟩
  kept p hp := by
    rw [List.mem_append, not_or] at hp
    rw [h'.kept p hp.2, h.kept p hp.1]
  isDirectory p := by rw [h'.isDirectory, h.isDirectory]

theorem sameShape (h : t.LaidOut t' paths) : t.SameShape t' := by
  refine ⟨fun p => ?_, h.isDirectory⟩
  by_cases hp : p ∈ paths
  · obtain ⟨source, formatted, hold, -, hnew⟩ := h.done p hp
    exact ⟨fun _ => ⟨source, hold⟩, fun _ => ⟨formatted, hnew⟩⟩
  · unfold IsFile
    rw [h.kept p hp]

/-- A layout is its own layout. -/
theorem isSettled (h : t.LaidOut t' paths) (hp : p ∈ paths) : t'.IsSettled p := by
  obtain ⟨source, formatted, -, hformat, hnew⟩ := h.done p hp
  obtain ⟨program, -, rfl⟩ := formatSource_eq_ok_iff.mp hformat
  exact ⟨program.format, hnew, formatSource_format program⟩

end LaidOut
end FileTree

namespace Command
variable {s : Setting} {targets : List String} {st st' st'' : FormatState} {write check : Bool}
  {p : Path} {paths : List Path} {source formatted : Bytes}

theorem FormatState.tree_add (h : st.tree.Readable) (hp : st.tree.entry? p = some (.file source)) :
    (st.add write check p source formatted).tree =
      if write && formatted != source then st.tree.write p formatted else st.tree := by
  unfold FormatState.add
  dsimp only
  rw [h.locate_ofPath ⟨source, hp⟩]

/-- What formatting programs in turn makes of a state, as long as there is no failure. -/
structure Formats (write : Bool) (st st' : FormatState) (paths : List Path) : Prop where
  readable : st'.tree.Readable
  laidOut : st.tree.LaidOut st'.tree (if write then paths else [])
  changed : st'.changed = st.changed + paths.countP st.tree.isUnformatted

namespace Formats

theorem nil (h : st.tree.Readable) : Formats write st st [] :=
  ⟨h, by rw [ite_self]; exact .refl _, rfl⟩

/-- One program: its file is written, or it was its own layout before. -/
theorem add (write check : Bool) (h : st.tree.Readable)
    (hp : st.tree.entry? p = some (.file source)) (hformat : formatSource source = .ok formatted) :
    Formats write st (st.add write check p source formatted) [p] where
  readable := by
    rw [FormatState.tree_add h hp]
    split_ifs
    · exact h.write ⟨source, hp⟩ formatted
    · exact h
  laidOut := by
    rw [FormatState.tree_add h hp]
    cases write with
    | false => exact .refl _
    | true =>
      by_cases hsame : formatted = source
      · subst hsame
        simpa using FileTree.LaidOut.self hp hformat
      · simpa [hsame] using FileTree.LaidOut.write h.toPlain hp hformat
  changed := by
    have hcount : st.tree.isUnformatted p = (formatted != source) := by
      simp only [FileTree.isUnformatted, hp, hformat]
    rw [List.countP_singleton, hcount]
    unfold FormatState.add
    dsimp only
    split_ifs <;> rfl

/-- Files that are not formatted stay as they are. -/
theorem kept (h : Formats write st st' paths) (hp : p ∉ paths) :
    st'.tree.entry? p = st.tree.entry? p := by
  refine h.laidOut.kept p ?_
  cases write with
  | false => exact List.not_mem_nil
  | true => exact hp

theorem append {paths' : List Path} (h : Formats write st st' paths)
    (h' : Formats write st' st'' paths') (hdisjoint : paths.Disjoint paths') :
    Formats write st st'' (paths ++ paths') where
  readable := h'.readable
  laidOut := by
    have hsplit : (if write then paths ++ paths' else []) =
        (if write then paths else []) ++ if write then paths' else [] := by
      cases write <;> rfl
    rw [hsplit]
    refine h.laidOut.trans h'.laidOut ?_
    cases write with
    | false => exact List.disjoint_nil_left _
    | true => exact hdisjoint
  changed := by
    -- What is counted later has not been written before.
    have hkept : paths'.countP st'.tree.isUnformatted = paths'.countP st.tree.isUnformatted := by
      refine List.countP_congr fun p hp => ?_
      unfold FileTree.isUnformatted
      rw [h.kept fun hp' => hdisjoint hp' hp]
    rw [h'.changed, h.changed, hkept, List.countP_append, Nat.add_assoc]

end Formats

/-- The first step of a run at a file: it ends there, or goes on with the rest. -/
theorem formatAll_cons (h : st.tree.Readable) (hp : st.tree.entry? p = some (.file source))
    (rest : List Path) : formatAll write check st (p :: rest) =
      match formatSource source with
      | .error e => (some (.notFormatted p source e), st)
      | .ok formatted => formatAll write check (st.add write check p source formatted) rest := by
  cases hformat : formatSource source <;> simp only [formatAll, h.read_ofPath hp, hformat]

/-- Programs at the start of a run are formatted, whatever comes behind them. -/
theorem formatAll_append (st : FormatState) (h : st.tree.Readable) (hnodup : paths.Nodup)
    (hpaths : ∀ p ∈ paths, st.tree.HasLayout p) (write check : Bool) (rest : List Path) :
    ∃ st', Formats write st st' paths ∧
      formatAll write check st (paths ++ rest) = formatAll write check st' rest := by
  induction paths generalizing st with
  | nil => exact ⟨st, .nil h, rfl⟩
  | cons p paths ih =>
    obtain ⟨source, formatted, hp, hformat⟩ := hpaths p List.mem_cons_self
    rw [List.nodup_cons] at hnodup
    have hfirst := Formats.add write check h hp hformat
    have hrest : ∀ q ∈ paths, (st.add write check p source formatted).tree.HasLayout q := by
      intro q hq
      have hother : q ∉ [p] := fun heq => hnodup.1 (List.mem_singleton.mp heq ▸ hq)
      unfold FileTree.HasLayout
      rw [hfirst.kept hother]
      exact hpaths q (List.mem_cons_of_mem _ hq)
    obtain ⟨st', hst', hrun⟩ := ih _ hfirst.readable hnodup.2 hrest
    refine ⟨st', hfirst.append hst' (List.singleton_disjoint.mpr hnodup.1), ?_⟩
    rw [List.cons_append, formatAll_cons h hp, hformat]
    exact hrun

/-- Nothing is written unless it is asked for, with or without a failure. -/
theorem tree_formatAll_false (st : FormatState) (paths : List Path) :
    (formatAll false check st paths).2.tree = st.tree := by
  induction paths generalizing st with
  | nil => rfl
  | cons p rest ih =>
    rw [formatAll]
    split
    · rfl
    · split
      · rfl
      · exact ih _

/-- Files that are their own layouts are neither written nor counted. -/
theorem formatAll_of_settled (st : FormatState) (h : st.tree.Readable)
    (hpaths : ∀ p ∈ paths, st.tree.IsSettled p) (write check : Bool) :
    ∃ st', formatAll write check st paths = (none, st') ∧ st'.tree = st.tree ∧
      st'.changed = st.changed := by
  induction paths generalizing st with
  | nil => exact ⟨st, rfl, rfl, rfl⟩
  | cons p rest ih =>
    obtain ⟨content, hp, hformat⟩ := hpaths p List.mem_cons_self
    have htree : (st.add write check p content content).tree = st.tree := by
      simp [FormatState.add]
    have hchanged : (st.add write check p content content).changed = st.changed := by
      simp [FormatState.add]
    rw [formatAll_cons h hp, hformat, ← htree, ← hchanged]
    rw [← htree] at h
    refine ih _ h fun q hq => ?_
    rw [htree]
    exact hpaths q (List.mem_cons_of_mem _ hq)

/-- The file at which a run stops: those before it hold programs, and it holds none. -/
theorem exists_first_error {t : FileTree} (hfiles : ∀ p ∈ paths, t.IsFile p)
    (h : ∃ p ∈ paths, ¬ t.HasLayout p) :
    ∃ before p after source e, paths = before ++ p :: after ∧ (∀ q ∈ before, t.HasLayout q) ∧
      t.entry? p = some (.file source) ∧ formatSource source = .error e := by
  induction paths with
  | nil => simp at h
  | cons p rest ih =>
    obtain ⟨source, hp⟩ := hfiles p List.mem_cons_self
    cases hformat : formatSource source with
    | error e => exact ⟨[], p, rest, source, e, rfl, by simp, hp, hformat⟩
    | ok formatted =>
      have hfirst : t.HasLayout p := ⟨source, formatted, hp, hformat⟩
      obtain ⟨before, q, after, source', e, rfl, hbefore, hq, herror⟩ :=
        ih (fun q hq => hfiles q (List.mem_cons_of_mem _ hq)) (by simpa [hfirst] using h)
      exact ⟨p :: before, q, after, source', e, rfl, List.forall_mem_cons.mpr ⟨hfirst, hbefore⟩,
        hq, herror⟩

/-- In a tree of the same shape the targets stand for the same programs. -/
theorem Collected.sources_of_sameShape {t : FileTree} (h : Collected s targets paths)
    (ht : t.Plain) (htargets : ∀ target ∈ targets, s.HasTarget target)
    (hshape : s.tree.SameShape t) : sources { s with tree := t } targets = .ok paths := by
  refine h.sources_eq ht (fun target htarget => ?_) fun p => ?_
  · obtain ⟨htext, hfinds⟩ := htargets target htarget
    exact ⟨htext, hshape.finds_iff.mpr hfinds⟩
  · simp only [Setting.Covers, hshape.isFile, hshape.isDirectory]

theorem formatFiles_eq {failure? : Option Failure} (hpaths : sources s targets = .ok paths)
    (hrun : formatAll write check ⟨s.tree, [], 0⟩ paths = (failure?, st)) :
    (formatFiles s targets write check).tree = st.tree ∧
      (formatFiles s targets write check).failure? =
        failure?.or (if check && 0 < st.changed then some (.unformatted st.changed) else none) := by
  unfold formatFiles
  rw [hpaths]
  dsimp only
  rw [hrun]
  exact ⟨rfl, rfl⟩

/-- All files are programs: they are written if it is asked for, and counted for a check. -/
theorem formatFiles_of_hasLayout (hs : s.tree.Readable) (hpaths : sources s targets = .ok paths)
    (hnodup : paths.Nodup) (h : ∀ p ∈ paths, s.tree.HasLayout p) (write check : Bool) :
    (formatFiles s targets write check).tree.Readable ∧
      s.tree.LaidOut (formatFiles s targets write check).tree (if write then paths else []) ∧
      (formatFiles s targets write check).failure? =
        if check && 0 < paths.countP s.tree.isUnformatted then
          some (.unformatted (paths.countP s.tree.isUnformatted)) else none := by
  obtain ⟨st, hst, hrun⟩ :=
    formatAll_append ⟨s.tree, [], 0⟩ hs hnodup h write check []
  rw [List.append_nil] at hrun
  obtain ⟨htree, hfailure⟩ := formatFiles_eq hpaths hrun
  have hchanged : st.changed = paths.countP s.tree.isUnformatted :=
    hst.changed.trans (Nat.zero_add _)
  rw [htree, hfailure, hchanged]
  exact ⟨hst.readable, hst.laidOut, rfl⟩

/-- The programs before the first file that is none are written, and the failure tells of it. -/
theorem formatFiles_of_error {before after : List Path} {e : ParseError} (hs : s.tree.Readable)
    (hpaths : sources s targets = .ok (before ++ p :: after)) (hnodup : (before ++ p :: after).Nodup)
    (hbefore : ∀ q ∈ before, s.tree.HasLayout q) (hp : s.tree.entry? p = some (.file source))
    (hformat : formatSource source = .error e) (check : Bool) :
    s.tree.LaidOut (formatFiles s targets true check).tree before ∧
      (formatFiles s targets true check).failure? = some (.notFormatted p source e) := by
  rw [List.nodup_append] at hnodup
  obtain ⟨hnodup, -, hother⟩ := hnodup
  obtain ⟨st, hst, hrun⟩ :=
    formatAll_append ⟨s.tree, [], 0⟩ hs hnodup hbefore true check (p :: after)
  have hkept : st.tree.entry? p = some (.file source) :=
    (hst.kept fun hmem => hother p hmem p List.mem_cons_self rfl).trans hp
  rw [formatAll_cons hst.readable hkept, hformat] at hrun
  obtain ⟨htree, hfailure⟩ := formatFiles_eq hpaths hrun
  rw [htree, hfailure]
  exact ⟨hst.laidOut, rfl⟩

/-- In a tree of layouts there is nothing to do. -/
theorem formatFiles_of_settled (hs : s.tree.Readable) (hpaths : sources s targets = .ok paths)
    (h : ∀ p ∈ paths, s.tree.IsSettled p) (write check : Bool) :
    (formatFiles s targets write check).tree = s.tree ∧
      (formatFiles s targets write check).failure? = none := by
  obtain ⟨st, hrun, htree, hchanged⟩ :=
    formatAll_of_settled ⟨s.tree, [], 0⟩ hs h write check
  obtain ⟨htree', hfailure⟩ := formatFiles_eq hpaths hrun
  rw [htree', hfailure, htree, hchanged]
  simp

/-- Files change to their layouts and in no other way. Without writing there is no change. With
writing, a file that is no program stops it all behind the layouts of the files before it and is
named by the failure; otherwise all files hold their layouts, and neither a check nor another run
finds anything to do. A check tells how many files are not their own layouts. -/
theorem formatFiles_exact (s : Setting) (targets : List String) (hs : s.tree.Readable)
    (htargets : ∀ target ∈ targets, s.HasTarget target) :
    ∃ paths, sources s targets = .ok paths ∧
      (∀ check, (formatFiles s targets false check).tree = s.tree) ∧
      ((∃ p ∈ paths, ¬ s.tree.HasLayout p) → ∃ before p after source e,
        paths = before ++ p :: after ∧ (∀ q ∈ before, s.tree.HasLayout q) ∧
        s.tree.entry? p = some (.file source) ∧ formatSource source = .error e ∧
        ∀ check, s.tree.LaidOut (formatFiles s targets true check).tree before ∧
          (formatFiles s targets true check).failure?.map Failure.message =
            some (Bytes.ofString s!"format {Path.render p}: {parseMessage source e}")) ∧
      ((∀ p ∈ paths, s.tree.HasLayout p) → ∀ check,
        let written : Setting := { s with tree := (formatFiles s targets true check).tree }
        s.tree.LaidOut written.tree paths ∧
        (formatFiles written targets false true).failure? = none ∧
        ∀ check', (formatFiles written targets true check').tree = written.tree) ∧
      ((∀ p ∈ paths, s.tree.HasLayout p) → 0 < paths.countP s.tree.isUnformatted →
        (formatFiles s targets false true).failure? =
          some (.unformatted (paths.countP s.tree.isUnformatted))) := by
  obtain ⟨paths, hpaths, hcollected⟩ := collected_of_hasTarget hs.toPlain htargets
  refine ⟨paths, hpaths, ?_, ?_, ?_, ?_⟩
  · intro check
    exact (formatFiles_eq hpaths rfl).1.trans (tree_formatAll_false _ paths)
  · intro herror
    obtain ⟨before, p, after, source, e, rfl, hbefore, hp, hformat⟩ :=
      exists_first_error (fun p hp => ((hcollected.mem_iff p).mp hp).1) herror
    refine ⟨before, p, after, source, e, rfl, hbefore, hp, hformat, fun check => ?_⟩
    obtain ⟨hlaid, hfailure⟩ :=
      formatFiles_of_error hs hpaths hcollected.nodup hbefore hp hformat check
    rw [hfailure]
    exact ⟨hlaid, rfl⟩
  · intro hlayout check written
    obtain ⟨hreadable, hlaid, -⟩ :=
      formatFiles_of_hasLayout hs hpaths hcollected.nodup hlayout true check
    have hpaths' : sources written targets = .ok paths :=
      hcollected.sources_of_sameShape hreadable.toPlain htargets hlaid.sameShape
    have hsettled := formatFiles_of_settled hreadable hpaths' fun p hp => hlaid.isSettled hp
    exact ⟨hlaid, (hsettled false true).2, fun check' => (hsettled true check').1⟩
  · intro hlayout hcount
    rw [(formatFiles_of_hasLayout hs hpaths hcollected.nodup hlayout false true).2.2,
      if_pos (by simpa using hcount)]

theorem hasLayout_workSetting (hp : workSetting.tree.IsFile p) :
    workSetting.tree.HasLayout p := by
  obtain ⟨content, hentry⟩ := hp
  have hmem : content ∈ [Bytes.ofString "+ [-]", Bytes.ofString "+\n", []] := by
    have hentries := FileTree.mem_entries hentry
    simp only [workSetting, List.mem_cons, Prod.mk.injEq, FileEntry.file.injEq] at hentries ⊢
    tauto
  have hok : ∀ source ∈ [Bytes.ofString "+ [-]", Bytes.ofString "+\n", []],
      (formatSource source).isOk = true := by
    decide
  cases hformat : formatSource content with
  | ok formatted => exact ⟨content, formatted, hentry, hformat⟩
  | error e =>
    have hno := hok content hmem
    rw [hformat] at hno
    cases hno

theorem formatFiles_exact_workSetting :
    let targets := ["./sub/", "sub/../a.bf", "/work/sub//b.b"]
    let t := (formatFiles workSetting targets true false).tree
    t.entry? ["work", "a.bf"] = some (.file (Bytes.ofString "+\n[\n  -\n]\n")) ∧
      (formatFiles { workSetting with tree := t } targets false true).failure? = none := by
  intro targets t
  obtain ⟨paths, hpaths, -, -, hwritten, -⟩ :=
    formatFiles_exact workSetting targets readable_workSetting hasTarget_workSetting
  obtain ⟨paths', hpaths', hcollected⟩ :=
    collected_of_hasTarget readable_workSetting.toPlain hasTarget_workSetting
  obtain rfl : paths = paths' := Except.ok.inj (hpaths.symm.trans hpaths')
  obtain ⟨hlaid, hcheck, -⟩ :=
    hwritten (fun p hp => hasLayout_workSetting ((hcollected.mem_iff p).mp hp).1) false
  refine ⟨?_, hcheck⟩
  have hmem : ["work", "a.bf"] ∈ paths := by
    rw [hcollected.mem_iff]
    exact ⟨⟨_, rfl⟩, by decide, "sub/../a.bf", by simp, Or.inl (by decide)⟩
  obtain ⟨source, formatted, hold, hformat, hnew⟩ := hlaid.done _ hmem
  obtain rfl : Bytes.ofString "+ [-]" = source := FileEntry.file.inj (Option.some.inj hold)
  have hlayout : formatSource (Bytes.ofString "+ [-]") =
      .ok (Bytes.ofString "+\n[\n  -\n]\n") := by
    decide
  rw [hnew, Except.ok.inj (hformat.symm.trans hlayout)]

end Command
end TapeLang
