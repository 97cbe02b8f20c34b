import Mathlib.Data.List.Basic
import TapeLang.Command.Format
import TapeLang.Proofs.ByteOrder
import TapeLang.Proofs.Trees

/-! The programs that targets stand for. In a tree without links they are the files with the right
extension that are a target or lie below one, each of them once and in the order of the bytes of
their paths, however the targets are given. -/
namespace TapeLang

theorem nodup_eraseDups {α : Type} [BEq α] [LawfulBEq α] (l : List α) : l.eraseDups.Nodup := by
  -- What is left behind the first element is filtered, so that only its length goes down.
  induction hn : l.length using Nat.strongRecOn generalizing l with
  | _ n ih =>
    cases l with
    | nil => exact List.nodup_nil
    | cons x rest =>
      have hshort : (rest.filter fun y => !y == x).length < n := by
        rw [← hn, List.length_cons]
        exact Nat.lt_succ_of_le (List.length_filter_le _ _)
      rw [List.eraseDups_cons, List.nodup_cons, List.mem_eraseDups]
      exact ⟨by simp, ih _ hshort _ rfl⟩

/-- What the last name of a path ends with, from its last point on. -/
def Path.extension (p : Path) : List Char :=
  match p.getLast? with
  | none => []
  | some name =>
    if '.' ∈ name.toList then '.' :: (name.toList.reverse.takeWhile (· != '.')).reverse else []

theorem Path.names_ne_nil (text : String) : names text ≠ [] := by
  have hall (name cs : List Char) : namesFrom name cs ≠ [] := by
    induction cs generalizing name with
    | nil => exact List.cons_ne_nil _ _
    | cons c rest ih =>
      rw [namesFrom]
      split_ifs
      · exact List.cons_ne_nil _ _
      · exact ih _
  exact hall [] text.toList

namespace Command
variable {s : Setting} {target : String} {targets targets' : List String} {p q : Path}

theorem takeWhile_append_point {w : List Char} (hw : '.' ∉ w) (rest : List Char) :
    (w ++ '.' :: rest).takeWhile (· != '.') = w := by
  have hplain : ∀ c ∈ w, (c != '.') = true := by
    intro c hc
    simpa using fun heq : c = '.' => hw (heq ▸ hc)
  rw [List.takeWhile_append_of_pos hplain]
  simp

/-- A suffix that starts with the only point in it is what stands from the last point on. -/
theorem point_cons_isSuffix_iff {cs w : List Char} (hw : '.' ∉ w) : '.' :: w <:+ cs ↔
    '.' ∈ cs ∧ (cs.reverse.takeWhile (· != '.')).reverse = w := by
  constructor
  · rintro ⟨before, rfl⟩
    have hback : (before ++ '.' :: w).reverse = w.reverse ++ '.' :: before.reverse := by simp
    rw [hback, takeWhile_append_point (by simpa using hw), List.reverse_reverse]
    exact ⟨by simp, rfl⟩
  · rintro ⟨hpoint, rfl⟩
    obtain ⟨after, before, hback, hafter⟩ :=
      List.eq_append_cons_of_mem (List.mem_reverse.mpr hpoint)
    rw [hback, takeWhile_append_point hafter]
    refine ⟨before.reverse, ?_⟩
    rw [← List.reverse_inj, hback]
    simp

theorem isSource_iff : isSource p = true ↔
    p.extension = ".bf".toList ∨ p.extension = ".b".toList := by
  have hending (cs w : List Char) (hw : '.' ∉ w) : ('.' :: w).isSuffixOf cs = true ↔
      (if '.' ∈ cs then '.' :: (cs.reverse.takeWhile (· != '.')).reverse else []) = '.' :: w := by
    rw [List.isSuffixOf_iff_suffix, point_cons_isSuffix_iff hw]
    by_cases hpoint : '.' ∈ cs <;> simp [hpoint]
  unfold isSource Path.extension
  cases p.getLast? with
  | none => decide
  | some name =>
    have hbf := hending name.toList ['b', 'f'] (by decide)
    have hb := hending name.toList ['b'] (by decide)
    dsimp only
    rw [show ".bf".toList = ['.', 'b', 'f'] from rfl, show ".b".toList = ['.', 'b'] from rfl,
      ← hbf, ← hb]
    simp [sourceEndings]

/-- A target exists: its text can be asked for a place, and its names lead to one. -/
def Setting.HasTarget (s : Setting) (target : String) : Prop :=
  Path.IsText target ∧ s.tree.Finds (Path.start s.here target) (Path.names target)

/-- A place is a target or lies, at any depth, below a target that is a directory. -/
def Setting.Covers (s : Setting) (targets : List String) (p : Path) : Prop :=
  ∃ target ∈ targets, p = Path.ofText s.here target ∨
    (s.tree.isDirectory (Path.ofText s.here target) = true ∧ Path.ofText s.here target <+: p)

theorem locate_target_iff (hs : s.tree.Plain) (followLast : Bool) :
    s.tree.locate followLast (.ofText s.here target) = .ok p ↔
      s.HasTarget target ∧ Path.ofText s.here target = p := by
  rw [hs.locate_eq_ok_iff followLast fun hnil => absurd hnil (Path.names_ne_nil target),
    ← and_assoc]
  rfl

theorem sourcesAt_of_not_hasTarget (hs : s.tree.Plain) (h : ¬ s.HasTarget target) :
    ∃ e, sourcesAt s target = .error (.noTarget target e) := by
  unfold sourcesAt
  dsimp only
  cases hlocate : s.tree.locate true (.ofText s.here target) with
  | error f => exact ⟨_, rfl⟩
  | ok p => exact absurd ((locate_target_iff hs true).mp hlocate).1 h

/-- Below a place are the files that lie there. -/
theorem mem_below_iff (hs : s.tree.Plain) : p ∈ (s.tree.below q).map (q ++ ·) ↔
    s.tree.IsFile p ∧ q <+: p := by
  simp only [FileTree.below, List.mem_map, List.mem_filterMap]
  constructor
  · rintro ⟨rest, ⟨⟨place, e⟩, hmem, hrest⟩, rfl⟩
    dsimp only at hrest
    split_ifs at hrest with hentry
    simp only [Bool.and_eq_true, List.isPrefixOf_iff_prefix, bne_iff_ne] at hentry
    obtain ⟨hbelow, he⟩ := hentry
    rw [← Option.some.inj hrest, List.prefix_iff_eq_append.mp hbelow]
    refine ⟨?_, hbelow⟩
    cases e with
    | file content => exact ⟨content, hs.entry?_eq_some_iff.mpr hmem⟩
    | directory => exact absurd rfl he
    | link target => exact absurd rfl (hs.no_links _ hmem target)
  · rintro ⟨⟨content, hp⟩, hbelow⟩
    refine ⟨p.drop q.length, ⟨_, FileTree.mem_entries hp, ?_⟩,
      List.prefix_iff_eq_append.mp hbelow⟩
    simp [List.isPrefixOf_iff_prefix, hbelow]

theorem sourcesAt_of_hasTarget (hs : s.tree.Plain) (h : s.HasTarget target) :
    ∃ found, sourcesAt s target = .ok found ∧ ∀ p, p ∈ found ↔
      s.tree.IsFile p ∧ isSource p = true ∧ Path.ofText s.here target <+: p := by
  have hlocate (followLast : Bool) := (locate_target_iff hs followLast).mpr ⟨h, rfl⟩
  unfold sourcesAt
  dsimp only
  rw [hlocate true, hlocate false]
  refine ⟨_, rfl, fun p => ?_⟩
  have hoccupied : s.tree.Occupied (Path.ofText s.here target) := h.2.2
  generalize Path.ofText s.here target = q at hoccupied
  rw [List.mem_filter, and_left_comm, and_comm (b := isSource p = true)]
  refine and_congr_right fun _ => ?_
  by_cases hdir : s.tree.isDirectory q = true
  · simpa [hdir] using mem_below_iff hs
  · have hfile := hoccupied.resolve_left hdir
    simp only [hdir, Bool.false_and, Bool.false_eq_true, if_false, List.mem_singleton]
    constructor
    · rintro rfl
      exact ⟨hfile, List.prefix_refl _⟩
    · rintro ⟨hp, hbelow⟩
      exact hs.eq_of_isPrefix hfile hp hbelow

/-- What all targets stand for, when they exist. -/
theorem mapM_sourcesAt_of_hasTarget (hs : s.tree.Plain)
    (h : ∀ target ∈ targets, s.HasTarget target) :
    ∃ found, targets.mapM (sourcesAt s) = .ok found ∧ ∀ p, p ∈ found.flatten ↔
      s.tree.IsFile p ∧ isSource p = true ∧
        ∃ target ∈ targets, Path.ofText s.here target <+: p := by
  induction targets with
  | nil => exact ⟨[], rfl, by simp⟩
  | cons target targets ih =>
    obtain ⟨found, hfound, hmem⟩ := sourcesAt_of_hasTarget hs (h target List.mem_cons_self)
    obtain ⟨others, hothers, hmems⟩ := ih fun t ht => h t (List.mem_cons_of_mem _ ht)
    refine ⟨found :: others, ?_, fun p => ?_⟩
    · rw [List.mapM_cons, hfound, hothers]
      rfl
    · rw [List.flatten_cons, List.mem_append, hmem, hmems]
      simp only [List.mem_cons, exists_eq_or_imp]
      tauto

/-- The first target that does not exist ends it all. -/
theorem mapM_sourcesAt_of_not_hasTarget (hs : s.tree.Plain)
    (h : ∃ target ∈ targets, ¬ s.HasTarget target) :
    ∃ target ∈ targets, ∃ e, ¬ s.HasTarget target ∧
      targets.mapM (sourcesAt s) = .error (.noTarget target e) := by
  induction targets with
  | nil => simp at h
  | cons target targets ih =>
    by_cases hfirst : s.HasTarget target
    · obtain ⟨found, hfound, -⟩ := sourcesAt_of_hasTarget hs hfirst
      obtain ⟨missing, hmissing, e, hno, herror⟩ := ih (by simpa [hfirst] using h)
      refine ⟨missing, List.mem_cons_of_mem _ hmissing, e, hno, ?_⟩
      rw [List.mapM_cons, hfound, herror]
      rfl
    · obtain ⟨e, he⟩ := sourcesAt_of_not_hasTarget hs hfirst
      refine ⟨target, List.mem_cons_self, e, hfirst, ?_⟩
      rw [List.mapM_cons, he]
      rfl

/-- Only directories have something below them. -/
theorem covers_iff (hp : s.tree.IsFile p) :
    s.Covers targets p ↔ ∃ target ∈ targets, Path.ofText s.here target <+: p := by
  refine exists_congr fun target => and_congr_right fun _ => ?_
  constructor
  · rintro (rfl | ⟨-, hbelow⟩)
    · exact List.prefix_refl _
    · exact hbelow
  · intro hbelow
    by_cases heq : p = Path.ofText s.here target
    · exact Or.inl heq
    · exact Or.inr ⟨hp.isDirectory_above hbelow (Ne.symm heq), hbelow⟩

/-- The programs among the files, ordered by their paths' texts. -/
structure Collected (s : Setting) (targets : List String) (paths : List Path) : Prop where
  sorted : paths.Pairwise fun p q => Path.render p < Path.render q
  mem_iff : ∀ p, p ∈ paths ↔ s.tree.IsFile p ∧ isSource p = true ∧ s.Covers targets p

/-- The files of a tree have different texts. -/
theorem render_inj_of_isFile (hs : s.tree.Plain) (hp : s.tree.IsFile p) (hq : s.tree.IsFile q)
    (h : Path.render p = Path.render q) : p = q := by
  have hnames {r : Path} (hr : s.tree.IsFile r) : (∀ name ∈ r, Path.IsName name) ∧ r ≠ [] := by
    obtain ⟨content, hentry⟩ := hr
    have hmem := FileTree.mem_entries hentry
    exact ⟨hs.names _ hmem, (hs.leaves _ hmem content rfl).1⟩
  exact Path.render_inj (hnames hp).1 (hnames hq).1 (hnames hp).2 (hnames hq).2 h

theorem collected_of_hasTarget (hs : s.tree.Plain) (h : ∀ target ∈ targets, s.HasTarget target) :
    ∃ paths, sources s targets = .ok paths ∧ Collected s targets paths := by
  obtain ⟨found, hfound, hmem⟩ := mapM_sourcesAt_of_hasTarget hs h
  let le : Path → Path → Bool := fun p q => decide (Path.render p ≤ Path.render q)
  have hmems (p : Path) : p ∈ found.flatten.eraseDups.mergeSort le ↔
      s.tree.IsFile p ∧ isSource p = true ∧ s.Covers targets p := by
    rw [List.mem_mergeSort, List.mem_eraseDups, hmem]
    refine and_congr_right fun hp => ?_
    rw [covers_iff hp]
  refine ⟨found.flatten.eraseDups.mergeSort le, by rw [sources, hfound]; rfl, ?_, hmems⟩
  have hle : (found.flatten.eraseDups.mergeSort le).Pairwise fun p q => le p q = true := by
    refine List.pairwise_mergeSort ?_ ?_ _
    · intro p q r hpq hqr
      exact decide_eq_true (String.le_trans (of_decide_eq_true hpq) (of_decide_eq_true hqr))
    · intro p q
      simpa [le] using String.le_total (Path.render p) (Path.render q)
  have hne : (found.flatten.eraseDups.mergeSort le).Nodup :=
    (List.mergeSort_perm _ le).nodup_iff.mpr (nodup_eraseDups _)
  refine (hle.and hne).imp_of_mem ?_
  rintro p q hp hq ⟨hpq, hne⟩
  have hother : Path.render p ≠ Path.render q := fun heq =>
    hne (render_inj_of_isFile hs ((hmems p).mp hp).1 ((hmems q).mp hq).1 heq)
  exact Std.lt_of_le_of_ne (of_decide_eq_true hpq) hother

theorem Collected.nodup {paths : List Path} (h : Collected s targets paths) : paths.Nodup := by
  refine h.sorted.imp ?_
  rintro p _ hlt rfl
  exact String.lt_irrefl _ hlt

/-- There is only one such list, whatever else the trees hold. -/
theorem Collected.unique {s' : Setting} {paths paths' : List Path}
    (h : Collected s targets paths) (h' : Collected s' targets' paths')
    (hsame : ∀ p, s'.tree.IsFile p ∧ s'.Covers targets' p ↔ s.tree.IsFile p ∧ s.Covers targets p) :
    paths' = paths := by
  refine List.Perm.eq_of_pairwise ?_ h'.sorted h.sorted ?_
  · intro p q _ _ hpq hqp
    exact absurd hqp (String.lt_asymm hpq)
  · refine (List.perm_ext_iff_of_nodup h'.nodup h.nodup).mpr fun p => ?_
    rw [h.mem_iff, h'.mem_iff, and_left_comm, hsame, and_left_comm]

/-- What targets stand for depends on the files and on the places that they cover alone. -/
theorem Collected.sources_eq {s' : Setting} {paths : List Path} (h : Collected s targets paths)
    (hs' : s'.tree.Plain) (htargets' : ∀ target ∈ targets', s'.HasTarget target)
    (hsame : ∀ p, s'.tree.IsFile p ∧ s'.Covers targets' p ↔ s.tree.IsFile p ∧ s.Covers targets p) :
    sources s' targets' = .ok paths := by
  obtain ⟨paths', hpaths', h'⟩ := collected_of_hasTarget hs' htargets'
  rw [hpaths', h.unique h' hsame]

/-- A target inside another one covers nothing new. -/
theorem covers_cons_of_covers (h : s.Covers targets (Path.ofText s.here target)) :
    s.Covers (target :: targets) p ↔ s.Covers targets p := by
  constructor
  · rintro ⟨first, hfirst, hp⟩
    rcases List.mem_cons.mp hfirst with rfl | hmem
    · rcases hp with rfl | ⟨hdir, hbelow⟩
      · exact h
      · obtain ⟨outer, houter, hinside⟩ := h
        refine ⟨outer, houter, Or.inr ?_⟩
        rcases hinside with heq | ⟨houterDir, hunder⟩
        · rw [← heq]
          exact ⟨hdir, hbelow⟩
        · exact ⟨houterDir, hunder.trans hbelow⟩
    · exact ⟨first, hmem, hp⟩
  · rintro ⟨outer, houter, hp⟩
    exact ⟨outer, List.mem_cons_of_mem _ houter, hp⟩

theorem bytes_render_lt (h : Path.render p < Path.render q) :
    Bytes.ofString (Path.render p) < Bytes.ofString (Path.render q) := Utf8.encode_lt h

/-- The programs are exactly the files with the right extension that are a target or below one, in
the order of the bytes of their paths. So it does not matter in which order, how often and with how
many targets inside others they are given. A target that does not exist leaves no list. -/
theorem sources_exact (s : Setting) (targets : List String) (hs : s.tree.Plain) :
    ((∀ target ∈ targets, s.HasTarget target) → ∃ paths, sources s targets = .ok paths ∧
      (paths.map fun p => Bytes.ofString (Path.render p)).Pairwise (· < ·) ∧
      (∀ p, p ∈ paths ↔ s.tree.IsFile p ∧
        (p.extension = ".bf".toList ∨ p.extension = ".b".toList) ∧ s.Covers targets p) ∧
      (∀ targets', (∀ target, target ∈ targets' ↔ target ∈ targets) →
        sources s targets' = .ok paths) ∧
      (∀ target, s.HasTarget target → s.Covers targets (Path.ofText s.here target) →
        sources s (target :: targets) = .ok paths) ∧
      ∀ targets', (∀ target ∈ targets', s.HasTarget target) →
        (∀ p, s.Covers targets' p ↔ s.Covers targets p) → sources s targets' = .ok paths) ∧
    ((∃ target ∈ targets, ¬ s.HasTarget target) → ∃ target ∈ targets, ∃ e,
      ¬ s.HasTarget target ∧ sources s targets = .error (.noTarget target e)) := by
  refine ⟨fun htargets => ?_, fun hmissing => ?_⟩
  · obtain ⟨paths, hpaths, h⟩ := collected_of_hasTarget hs htargets
    refine ⟨paths, hpaths, ?_, ?_, ?_, ?_, ?_⟩
    · exact List.pairwise_map.mpr (h.sorted.imp bytes_render_lt)
    · intro p
      rw [h.mem_iff, isSource_iff]
    · intro targets' hmem
      refine h.sources_eq hs (fun target htarget => htargets target ((hmem target).mp htarget)) ?_
      simp only [Setting.Covers, hmem, implies_true]
    · intro target htarget hinside
      refine h.sources_eq hs (List.forall_mem_cons.mpr ⟨htarget, htargets⟩) fun p => ?_
      rw [covers_cons_of_covers hinside]
    · intro targets' htargets' hcovers
      refine h.sources_eq hs htargets' fun p => ?_
      rw [hcovers]
  · obtain ⟨target, hmem, e, hno, herror⟩ := mapM_sourcesAt_of_not_hasTarget hs hmissing
    exact ⟨target, hmem, e, hno, by rw [sources, herror]; rfl⟩

/-- Two programs and a note in a working directory, and a program further down. -/
def workSetting : Setting where
  tree := ⟨[(["work", "a.bf"], .file (Bytes.ofString "+ [-]")), (["work", "notes.txt"], .file []),
    (["work", "sub", "b.b"], .file (Bytes.ofString "+\n")),
    (["work", "sub", "deep", "c.bf"], .file [])]⟩
  here := ["work"]
  input := []

theorem readable_workSetting : workSetting.tree.Readable where
  nodup := by decide
  no_links := by simp [workSetting]
  names := by
    simp only [workSetting, List.forall_mem_cons]
    decide
  leaves := by simp [workSetting]
  short := by
    simp only [workSetting, List.forall_mem_cons, FileEntry.file.injEq, forall_eq',
      List.not_mem_nil, false_implies, implies_true, and_true]
    decide

theorem hasTarget_workSetting : ∀ target ∈ ["./sub/", "sub/../a.bf", "/work/sub//b.b"],
    workSetting.HasTarget target := by
  have hfound {target : String} {p : Path}
      (h : workSetting.tree.locate true (.ofText workSetting.here target) = .ok p) :=
    ((locate_target_iff readable_workSetting.toPlain true).mp h).1
  simp only [List.forall_mem_cons]
  refine ⟨hfound (p := ["work", "sub"]) (by decide), hfound (p := ["work", "a.bf"]) (by decide),
    hfound (p := ["work", "sub", "b.b"]) (by decide), by simp⟩

theorem sources_exact_workSetting :
    ∃ paths, sources workSetting ["./sub/", "sub/../a.bf", "/work/sub//b.b"] = .ok paths ∧
      ["work", "a.bf"] ∈ paths ∧ ["work", "notes.txt"] ∉ paths ∧
      sources workSetting ["/work/sub//b.b", "./sub/", "./sub/", "sub/../a.bf"] = .ok paths := by
  obtain ⟨paths, hpaths, -, hmem, hsame, -⟩ :=
    (sources_exact _ _ readable_workSetting.toPlain).1 hasTarget_workSetting
  refine ⟨paths, hpaths, ?_, ?_, hsame _ ?_⟩
  · rw [hmem]
    exact ⟨⟨_, rfl⟩, Or.inl (by decide), "sub/../a.bf", by simp, Or.inl (by decide)⟩
  · rw [hmem]
    rintro ⟨-, hext, -⟩
    revert hext
    decide
  · intro target
    simp only [List.mem_cons, List.not_mem_nil, or_false]
    tauto

end Command
end TapeLang
