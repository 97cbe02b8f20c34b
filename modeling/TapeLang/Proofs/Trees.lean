import Mathlib.Data.List.Basic
import TapeLang.Files.Tree

/-! Trees of files without links. In such a tree names lead to the place that their spelling gives,
provided that every place on the way is a directory and that something is at the last one. A file
that is written changes its own content and nothing else. -/
namespace TapeLang

/-- A name that a file or a directory can have. -/
structure Path.IsName (name : String) : Prop where
  ne_empty : name ≠ ""
  ne_here : name ≠ "."
  ne_back : name ≠ ".."
  no_slash : '/' ∉ name.toList
  no_null : '\x00' ∉ name.toList
  short : name.utf8ByteSize ≤ FileTree.maxName

/-- A text that can be asked for a place. -/
structure Path.IsText (text : String) : Prop where
  ne_empty : text ≠ ""
  no_null : '\x00' ∉ text.toList
  short : text.utf8ByteSize ≤ FileTree.maxText

instance (name : String) : Decidable (Path.IsName name) :=
  decidable_of_iff (name ≠ "" ∧ name ≠ "." ∧ name ≠ ".." ∧ '/' ∉ name.toList ∧
      '\x00' ∉ name.toList ∧ name.utf8ByteSize ≤ FileTree.maxName)
    ⟨fun ⟨h₁, h₂, h₃, h₄, h₅, h₆⟩ => ⟨h₁, h₂, h₃, h₄, h₅, h₆⟩,
      fun ⟨h₁, h₂, h₃, h₄, h₅, h₆⟩ => ⟨h₁, h₂, h₃, h₄, h₅, h₆⟩⟩

instance (text : String) : Decidable (Path.IsText text) :=
  decidable_of_iff (text ≠ "" ∧ '\x00' ∉ text.toList ∧ text.utf8ByteSize ≤ FileTree.maxText)
    ⟨fun ⟨h₁, h₂, h₃⟩ => ⟨h₁, h₂, h₃⟩, fun ⟨h₁, h₂, h₃⟩ => ⟨h₁, h₂, h₃⟩⟩

theorem Path.follow_of_isName {name : String} (h : IsName name) (p : Path) :
    p.follow name = p ++ [name] := by
  have hstay : ¬ (name = "" ∨ name = ".") := not_or.mpr ⟨h.ne_empty, h.ne_here⟩
  rw [follow, if_neg hstay, if_neg h.ne_back]

/-- Proper names lead straight on. -/
theorem Path.foldl_follow {names : List String} (h : ∀ name ∈ names, IsName name) (p : Path) :
    names.foldl follow p = p ++ names := by
  induction names generalizing p with
  | nil => exact (List.append_nil p).symm
  | cons name rest ih =>
    rw [List.foldl_cons, follow_of_isName (h name List.mem_cons_self),
      ih fun name hname => h name (List.mem_cons_of_mem _ hname), List.append_assoc]
    rfl

theorem Path.toList_render (p : Path) :
    (render p).toList = '/' :: ['/'].intercalate (p.map String.toList) := by
  rw [render, String.toList_append, String.toList_intercalate]
  rfl

theorem Path.mem_toList_render {p : Path} {c : Char} (h : c ∈ (render p).toList) :
    c = '/' ∨ ∃ name ∈ p, c ∈ name.toList := by
  rw [toList_render, List.mem_cons] at h
  refine h.elim Or.inl ?_
  clear h
  induction p with
  | nil => simp [List.intercalate]
  | cons name rest ih =>
    cases rest with
    | nil =>
      intro h
      exact Or.inr ⟨name, List.mem_cons_self, by simpa [List.intercalate] using h⟩
    | cons next rest =>
      rw [List.map_cons, List.map_cons, List.intercalate_cons_cons]
      intro h
      simp only [List.mem_append, List.mem_singleton] at h
      rcases h with (h | h) | h
      · exact Or.inr ⟨name, List.mem_cons_self, h⟩
      · exact Or.inl h
      · rcases ih h with h | ⟨name', hname, h⟩
        · exact Or.inl h
        · exact Or.inr ⟨name', List.mem_cons_of_mem _ hname, h⟩

/-- The names of a path are read off its text. -/
theorem Path.render_inj {p q : Path} (hp : ∀ name ∈ p, IsName name) (hq : ∀ name ∈ q, IsName name)
    (hp' : p ≠ []) (hq' : q ≠ []) (h : render p = render q) : p = q := by
  have hslash {r : Path} (hr : ∀ name ∈ r, IsName name) : ∀ cs ∈ r.map String.toList, '/' ∉ cs := by
    intro cs hcs
    obtain ⟨name, hname, rfl⟩ := List.mem_map.mp hcs
    exact (hr name hname).no_slash
  have htexts : p.map String.toList = q.map String.toList := by
    rw [← String.toList_inj, toList_render, toList_render] at h
    rw [← List.splitOn_intercalate '/' (hslash hp) (by simpa using hp'), (List.cons.inj h).2,
      List.splitOn_intercalate '/' (hslash hq) (by simpa using hq')]
  exact List.map_injective_iff.mpr (fun _ _ => String.toList_inj.mp) htexts

namespace FileTree
variable {t : FileTree} {p q here : Path} {names : List String} {followLast : Bool}

/-- A tree as it can be on a disk, without links: each place has one entry and proper names lead to
it, and nothing is inside a file. -/
structure Plain (t : FileTree) : Prop where
  nodup : (t.entries.map Prod.fst).Nodup
  no_links : ∀ x ∈ t.entries, ∀ target, x.2 ≠ .link target
  names : ∀ x ∈ t.entries, ∀ name ∈ x.1, Path.IsName name
  leaves : ∀ x ∈ t.entries, ∀ content, x.2 = .file content →
    x.1 ≠ [] ∧ ∀ y ∈ t.entries, x.1 <+: y.1 → y.1 = x.1

/-- There is a file. -/
def IsFile (t : FileTree) (p : Path) : Prop := ∃ content, t.entry? p = some (.file content)

/-- There is something. -/
def Occupied (t : FileTree) (p : Path) : Prop := t.isDirectory p = true ∨ t.IsFile p

/-- Names lead from one place to another: every place on the way, the first one included, is a
directory, and there is something at the end. -/
def Finds (t : FileTree) (here : Path) (names : List String) : Prop :=
  (∀ before name after, names = before ++ name :: after →
    t.isDirectory (before.foldl Path.follow here) = true) ∧
  t.Occupied (names.foldl Path.follow here)

theorem isDirectory_iff : t.isDirectory p = true ↔
    p = [] ∨ ∃ x ∈ t.entries, p <+: x.1 ∧ (x.1 ≠ p ∨ x.2 = .directory) := by
  simp [isDirectory, List.isPrefixOf_iff_prefix]

theorem isDirectory_of_isPrefix (h : t.isDirectory q = true) (hp : p <+: q) :
    t.isDirectory p = true := by
  rw [isDirectory_iff] at h ⊢
  rcases h with rfl | ⟨x, hx, hq, hx'⟩
  · exact Or.inl (List.prefix_nil.mp hp)
  · by_cases heq : p = q
    · subst heq
      exact Or.inr ⟨x, hx, hq, hx'⟩
    · refine Or.inr ⟨x, hx, hp.trans hq, Or.inl ?_⟩
      intro hxp
      exact heq (hp.eq_of_length_le (by rw [← hxp]; exact hq.length_le))

theorem mem_entries {e : FileEntry} (h : t.entry? p = some e) : (p, e) ∈ t.entries := by
  obtain ⟨before, after, hsplit, -⟩ := List.lookup_eq_some_iff.mp h
  rw [hsplit]
  exact List.mem_append_right _ List.mem_cons_self

/-- Every place on the way to a file is a directory. -/
theorem IsFile.isDirectory_above (h : t.IsFile q) (hp : p <+: q) (hne : p ≠ q) :
    t.isDirectory p = true := by
  obtain ⟨content, hq⟩ := h
  exact isDirectory_iff.mpr (Or.inr ⟨_, mem_entries hq, hp, Or.inl hne.symm⟩)

namespace Plain

theorem entry?_eq_some_iff (h : t.Plain) {e : FileEntry} :
    t.entry? p = some e ↔ (p, e) ∈ t.entries := by
  refine ⟨mem_entries, fun hmem => ?_⟩
  have hnodup := h.nodup
  unfold entry?
  generalize t.entries = entries at hmem hnodup
  induction entries with
  | nil => cases hmem
  | cons x rest ih =>
    obtain ⟨q, e'⟩ := x
    rw [List.map_cons, List.nodup_cons] at hnodup
    rcases List.mem_cons.mp hmem with heq | hrest
    · cases heq
      simp
    · have hne : p ≠ q := by
        rintro rfl
        exact hnodup.1 (List.mem_map.mpr ⟨(p, e), hrest, rfl⟩)
      rw [List.lookup_cons, beq_false_of_ne hne]
      exact ih hrest hnodup.2

theorem eq_of_isPrefix (h : t.Plain) (hp : t.IsFile p) (hq : t.IsFile q) (hbelow : p <+: q) :
    q = p := by
  obtain ⟨content, hp⟩ := hp
  obtain ⟨content', hq⟩ := hq
  exact (h.leaves _ (mem_entries hp) content rfl).2 _ (mem_entries hq) hbelow

theorem isName_of_occupied (h : t.Plain) (hp : t.Occupied p) {name : String} (hname : name ∈ p) :
    Path.IsName name := by
  rcases hp with hdir | ⟨content, hfile⟩
  · rcases isDirectory_iff.mp hdir with rfl | ⟨x, hx, hbelow, -⟩
    · cases hname
    · exact h.names x hx name (hbelow.subset hname)
  · exact h.names _ (mem_entries hfile) name hname

end Plain

theorem finds_cons {name : String} : t.Finds here (name :: names) ↔
    t.isDirectory here = true ∧ t.Finds (here.follow name) names := by
  constructor
  · rintro ⟨hway, hend⟩
    refine ⟨hway [] name names rfl, ?_, hend⟩
    rintro before name' after rfl
    exact hway (name :: before) name' after rfl
  · rintro ⟨hhere, hway, hend⟩
    refine ⟨?_, hend⟩
    rintro before name' after hsplit
    cases before with
    | nil => exact hhere
    | cons first before =>
      obtain ⟨rfl, hrest⟩ := List.cons.inj hsplit
      exact hway before name' after hrest

theorem Finds.occupied (h : t.Finds here names) : t.Occupied here := by
  cases names with
  | nil => exact h.2
  | cons name rest => exact Or.inl (finds_cons.mp h).1

namespace Plain

/-- One name without links: the way goes on when there is something at the next place. -/
theorem advance_cons (h : t.Plain) (followLast : Bool) (hdir : t.isDirectory here = true)
    (name : String) (names : List String) :
    (t.Occupied (here.follow name) →
      t.advance followLast here (name :: names) = t.advance followLast (here.follow name) names) ∧
    (¬ t.Occupied (here.follow name) →
      ∃ f, t.advance followLast here (name :: names) = .blocked f) := by
  have hcan : ¬ (!t.isDirectory here) = true := by simp [hdir]
  rw [advance, if_neg hcan]
  by_cases hstay : name = "" ∨ name = "."
  · have hnext : here.follow name = here := if_pos hstay
    rw [if_pos hstay, hnext]
    exact ⟨fun _ => rfl, fun hno => absurd (Or.inl hdir) hno⟩
  by_cases hback : name = ".."
  · have hnext : here.follow name = here.dropLast := by rw [Path.follow, if_neg hstay, if_pos hback]
    have hparent := isDirectory_of_isPrefix hdir (List.dropLast_prefix here)
    rw [if_neg hstay, if_pos hback, hnext]
    exact ⟨fun _ => rfl, fun hno => absurd (Or.inl hparent) hno⟩
  have hnext : here.follow name = here ++ [name] := by
    rw [Path.follow, if_neg hstay, if_neg hback]
  rw [if_neg hstay, if_neg hback, hnext]
  by_cases hlong : maxName < name.utf8ByteSize
  · rw [if_pos hlong]
    refine ⟨fun hoccupied => ?_, fun _ => ⟨_, rfl⟩⟩
    have hmem : name ∈ here ++ [name] := List.mem_append_right _ List.mem_cons_self
    have hshort := (h.isName_of_occupied hoccupied hmem).short
    omega
  rw [if_neg hlong]
  dsimp only
  cases hentry : t.entry? (here ++ [name]) with
  | none =>
    dsimp only
    by_cases hthere : t.isDirectory (here ++ [name]) = true
    · rw [if_pos hthere]
      exact ⟨fun _ => rfl, fun hno => absurd (Or.inl hthere) hno⟩
    · rw [if_neg hthere]
      refine ⟨?_, fun _ => ⟨_, rfl⟩⟩
      rintro (hyes | ⟨content, hfile⟩)
      · exact absurd hyes hthere
      · cases hfile.symm.trans hentry
  | some e =>
    have hmem := mem_entries hentry
    cases e with
    | link target => exact absurd rfl (h.no_links _ hmem target)
    | file content => exact ⟨fun _ => rfl, fun hno => absurd (Or.inr ⟨content, hentry⟩) hno⟩
    | directory =>
      have hthere : t.isDirectory (here ++ [name]) = true :=
        isDirectory_iff.mpr (Or.inr ⟨_, hmem, List.prefix_refl _, Or.inr rfl⟩)
      exact ⟨fun _ => rfl, fun hno => absurd (Or.inl hthere) hno⟩

/-- Without links, names lead to the place that they spell unless they are blocked. -/
theorem advance_eq (h : t.Plain) (followLast : Bool) (hhere : names = [] → t.Occupied here) :
    (t.Finds here names →
      t.advance followLast here names = .arrived (names.foldl Path.follow here)) ∧
    (¬ t.Finds here names → ∃ f, t.advance followLast here names = .blocked f) := by
  induction names generalizing here with
  | nil => exact ⟨fun _ => rfl, fun hno => absurd ⟨by simp, hhere rfl⟩ hno⟩
  | cons name rest ih =>
    rw [finds_cons]
    by_cases hdir : t.isDirectory here = true
    · obtain ⟨hgo, hstop⟩ := h.advance_cons followLast hdir name rest
      by_cases hnext : t.Occupied (here.follow name)
      · rw [hgo hnext, and_iff_right hdir]
        exact ih fun _ => hnext
      · exact ⟨fun hyes => absurd hyes.2.occupied hnext, fun _ => hstop hnext⟩
    · refine ⟨fun hyes => absurd hyes.1 hdir, fun _ => ⟨.notDirectory, ?_⟩⟩
      rw [advance, if_pos (by simpa using hdir)]

/-- Without links, a place is found exactly by the names that lead there. -/
theorem resolve_eq_ok_iff (h : t.Plain) (followLast : Bool) (links : Nat)
    (hhere : names = [] → t.Occupied here) :
    t.resolve followLast links here names = .ok q ↔
      t.Finds here names ∧ names.foldl Path.follow here = q := by
  obtain ⟨harrived, hblocked⟩ := h.advance_eq followLast hhere
  unfold resolve
  by_cases hfinds : t.Finds here names
  · rw [harrived hfinds]
    simp [hfinds]
  · obtain ⟨f, hf⟩ := hblocked hfinds
    rw [hf]
    simp [hfinds]

theorem locate_eq_ok_iff (h : t.Plain) (followLast : Bool) {r : FileRef}
    (hstart : r.names = [] → t.Occupied r.start) :
    t.locate followLast r = .ok q ↔
      Path.IsText r.text ∧ t.Finds r.start r.names ∧ r.names.foldl Path.follow r.start = q := by
  rw [← h.resolve_eq_ok_iff followLast maxLinks hstart]
  unfold locate
  by_cases htext : Path.IsText r.text
  · have hnull : ¬ (r.text.toList.any (· == '\x00')) = true := by simpa using htext.no_null
    have hlong := htext.short
    rw [if_neg (by simpa using htext.ne_empty), if_neg hnull, if_neg (by omega)]
    simp [htext]
  · simp only [htext, false_and, iff_false]
    split_ifs with hempty hnull hlong
    · simp
    · simp
    · simp
    · refine absurd ⟨?_, ?_, ?_⟩ htext
      · simpa using hempty
      · simpa using hnull
      · omega

end Plain

/-- A plain tree in which every file can be asked for by the text of its path. -/
structure Readable (t : FileTree) : Prop extends Plain t where
  short : ∀ x ∈ t.entries, ∀ content, x.2 = .file content →
    (Path.render x.1).utf8ByteSize ≤ maxText

/-- The names of a file lead to it from the root. -/
theorem Plain.finds_of_isFile (h : t.Plain) (hp : t.IsFile p) :
    t.Finds [] p ∧ p.foldl Path.follow [] = p := by
  obtain ⟨content, hentry⟩ := id hp
  have hnames := h.names _ (mem_entries hentry)
  have hend : p.foldl Path.follow [] = p := Path.foldl_follow hnames []
  refine ⟨⟨?_, Or.inr (by rw [hend]; exact hp)⟩, hend⟩
  intro before name after hsplit
  have hbefore : before.foldl Path.follow [] = before :=
    Path.foldl_follow (fun name' hname => hnames name' (by simp [hsplit, hname])) []
  rw [hbefore]
  refine hp.isDirectory_above ⟨_, hsplit.symm⟩ ?_
  intro heq
  rw [heq] at hsplit
  have hlength := congrArg List.length hsplit
  simp at hlength

namespace Readable

theorem isText_render (h : t.Readable) (hp : t.IsFile p) : Path.IsText (Path.render p) := by
  obtain ⟨content, hentry⟩ := hp
  have hmem := mem_entries hentry
  refine ⟨?_, ?_, h.short _ hmem content rfl⟩
  · intro hempty
    rw [← String.toList_inj, Path.toList_render] at hempty
    cases hempty
  · intro hnull
    rcases Path.mem_toList_render hnull with hslash | ⟨name, hname, hc⟩
    · exact absurd hslash (by decide)
    · exact (h.names _ hmem name hname).no_null hc

theorem locate_ofPath (h : t.Readable) (hp : t.IsFile p) : t.locate true (.ofPath p) = .ok p :=
  (h.locate_eq_ok_iff true fun _ => Or.inl rfl).mpr ⟨h.isText_render hp, h.finds_of_isFile hp⟩

theorem read_ofPath (h : t.Readable) {content : Bytes} (hp : t.entry? p = some (.file content)) :
    t.read (.ofPath p) = .ok content := by
  rw [read, h.locate_ofPath ⟨content, hp⟩]
  dsimp only
  rw [hp]

end Readable

/-- The same places are files and directories in both trees. -/
structure SameShape (t t' : FileTree) : Prop where
  isFile : ∀ p, t'.IsFile p ↔ t.IsFile p
  isDirectory : ∀ p, t'.isDirectory p = t.isDirectory p

theorem SameShape.finds_iff {t' : FileTree} (h : t.SameShape t') :
    t'.Finds here names ↔ t.Finds here names := by
  simp only [Finds, Occupied, h.isFile, h.isDirectory]

theorem entry?_write (t : FileTree) (p : Path) (content : Bytes) (q : Path) :
    FileTree.entry? (t.write p content) q =
      (Option.map (fun e => if q = p then .file content else e) <| t.entry? q) := by
  unfold entry? write
  dsimp only
  induction t.entries with
  | nil => rfl
  | cons x rest ih =>
    obtain ⟨q', e⟩ := x
    rw [List.map_cons, List.lookup_cons, List.lookup_cons, ih]
    by_cases heq : q = q'
    · subst heq
      simp
    · rw [beq_false_of_ne heq]

theorem mem_write {x : Path × FileEntry} {content : Bytes} :
    x ∈ (t.write p content).entries ↔
      ∃ y ∈ t.entries, x = (y.1, if y.1 = p then .file content else y.2) := by
  simp only [write, List.mem_map, eq_comm]

theorem isFile_write (hp : t.IsFile p) (content : Bytes) (q : Path) :
    (t.write p content).IsFile q ↔ t.IsFile q := by
  unfold IsFile
  rw [entry?_write]
  by_cases heq : q = p
  · obtain ⟨old, hold⟩ := hp
    simp [heq, hold]
  · simp [heq]

namespace Plain

theorem file_of_mem (h : t.Plain) {y : Path × FileEntry} (hy : y ∈ t.entries)
    (hfile : t.IsFile y.1) : ∃ content, y.2 = .file content := by
  obtain ⟨content, hentry⟩ := hfile
  rw [h.entry?_eq_some_iff.mpr hy] at hentry
  exact ⟨content, Option.some.inj hentry⟩

/-- What is a file after a write was one before. -/
theorem file_of_write (h : t.Plain) (hp : t.IsFile p) {content content' : Bytes}
    {y : Path × FileEntry} (hy : y ∈ t.entries)
    (he : (if y.1 = p then .file content else y.2) = FileEntry.file content') :
    ∃ old, y.2 = .file old := by
  by_cases heq : y.1 = p
  · exact h.file_of_mem hy (heq ▸ hp)
  · rw [if_neg heq] at he
    exact ⟨content', he⟩

theorem sameShape_write (h : t.Plain) (hp : t.IsFile p) (content : Bytes) :
    t.SameShape (t.write p content) := by
  refine ⟨isFile_write hp content, fun q => ?_⟩
  rw [Bool.eq_iff_iff, isDirectory_iff, isDirectory_iff]
  refine or_congr_right ?_
  constructor
  · rintro ⟨x, hx, hbelow, hother⟩
    obtain ⟨y, hy, rfl⟩ := mem_write.mp hx
    refine ⟨y, hy, hbelow, hother.imp_right ?_⟩
    intro hdir
    dsimp only at hdir
    split_ifs at hdir
    exact hdir
  · rintro ⟨y, hy, hbelow, hother⟩
    refine ⟨_, mem_write.mpr ⟨y, hy, rfl⟩, hbelow, hother.imp_right ?_⟩
    intro hdir
    -- A file is written, so the entry of a directory is another one.
    have hne : y.1 ≠ p := by
      intro heq
      obtain ⟨old, hold⟩ := h.file_of_mem hy (heq ▸ hp)
      cases hdir.symm.trans hold
    dsimp only
    rw [if_neg hne, hdir]

end Plain

theorem Readable.write (h : t.Readable) (hp : t.IsFile p) (content : Bytes) :
    (t.write p content).Readable where
  nodup := by
    have hkeys : (t.write p content).entries.map Prod.fst = t.entries.map Prod.fst := by
      simp [FileTree.write]
    rw [hkeys]
    exact h.nodup
  no_links x hx target := by
    obtain ⟨y, hy, rfl⟩ := mem_write.mp hx
    dsimp only
    split_ifs
    · simp
    · exact h.no_links y hy target
  names x hx := by
    obtain ⟨y, hy, rfl⟩ := mem_write.mp hx
    exact h.names y hy
  leaves x hx content' he := by
    obtain ⟨y, hy, rfl⟩ := mem_write.mp hx
    obtain ⟨old, hold⟩ := h.file_of_write hp hy he
    obtain ⟨hne, hleaf⟩ := h.leaves y hy old hold
    refine ⟨hne, fun x' hx' => ?_⟩
    obtain ⟨y', hy', rfl⟩ := mem_write.mp hx'
    exact hleaf y' hy'
  short x hx content' he := by
    obtain ⟨y, hy, rfl⟩ := mem_write.mp hx
    obtain ⟨old, hold⟩ := h.file_of_write hp hy he
    exact h.short y hy old hold

end FileTree
end TapeLang
