import ZenFs.Basic
import Mathlib.Data.List.TakeWhile

/-!
# Paths

The operations on paths that the namespace functions use, on paths that
`FormatPathLexically` has brought into normal form: absolute, without empty,
`.` or `..` components.  Directories are compared as strings that end in a
separator, so that `/ab` is not below `/a`.
-/

namespace ZenFs

/-- `ends_with`. -/
def endsWith (value ending : Name) : Bool := ending.toList.isSuffixOf value.toList

/-- `path_as_string_with_separator_at_end`. -/
def withSep (dir : Name) : Name := if endsWith dir "/" then dir else dir ++ "/"

/-- `fs::path(dir) / fs::path(child)`, for a relative `child`. -/
def childPath (dir child : Name) : Name := withSep dir ++ child

/-- `path_as_string_with_separator_at_end` of `parent_path`: everything up to the
last separator. -/
def fileDir (path : Name) : Name :=
  String.ofList (path.toList.reverse.dropWhile fun c ↦ c != '/').reverse

/-- `string_starts_with`. -/
def startsWith (string needle : Name) : Bool := needle.toList.isPrefixOf string.toList

/-- `relative_child_path`. -/
def relativeChildPath (dir path : Name) : Name :=
  String.ofList (path.toList.drop (withSep dir).length)

/-- The path is below the directory, at any depth. -/
def Below (dir path : Name) : Prop := (withSep dir).toList <+: path.toList

instance (dir path : Name) : Decidable (Below dir path) :=
  inferInstanceAs (Decidable ((withSep dir).toList <+: path.toList))

/-! ## Names below a directory -/

section Below

variable {dir path child : Name}

theorem exists_withSep (dir : Name) : ∃ cs, (withSep dir).toList = cs ++ ['/'] := by
  unfold withSep
  split
  · rename_i h
    obtain ⟨cs, hcs⟩ := List.isSuffixOf_iff_suffix.mp h
    exact ⟨cs, hcs.symm⟩
  · exact ⟨dir.toList, by simp⟩

/-- What lies in front of the last separator is a prefix. -/
theorem fileDir_isPrefix (path : Name) : (fileDir path).toList <+: path.toList := by
  rw [fileDir, String.toList_ofList, ← List.reverse_suffix, List.reverse_reverse]
  exact List.dropWhile_suffix _

/-- Two paths share a prefix that ends in a separator as soon as their parents do. -/
theorem startsWith_fileDir (dir path : Name) :
    startsWith (fileDir path) (withSep dir) = decide (Below dir path) := by
  rw [startsWith, Bool.eq_iff_iff, List.isPrefixOf_iff_prefix, decide_eq_true_iff, Below]
  refine ⟨fun h ↦ h.trans (fileDir_isPrefix path), ?_⟩
  rintro ⟨post, hpost⟩
  obtain ⟨cs, hcs⟩ := exists_withSep dir
  rw [fileDir, String.toList_ofList, ← hpost, hcs]
  simp only [List.append_assoc, List.singleton_append, List.reverse_append, List.reverse_cons]
  -- the separator at the end of the directory stops the search for the last one
  rw [← List.reverse_suffix]
  simp only [List.reverse_append, List.reverse_cons, List.reverse_nil, List.nil_append,
    List.reverse_reverse, List.singleton_append]
  rw [List.dropWhile_append]
  split
  · simp
  · exact List.suffix_append _ _

/-- A path below a directory is made of the directory and the rest. -/
theorem childPath_relativeChildPath (h : Below dir path) :
    childPath dir (relativeChildPath dir path) = path := by
  obtain ⟨post, hpost⟩ := h
  rw [← String.toList_inj, childPath, relativeChildPath, String.toList_append, String.toList_ofList,
    ← hpost, ← String.length_toList, List.drop_left]

theorem relativeChildPath_childPath (dir child : Name) :
    relativeChildPath dir (childPath dir child) = child := by
  rw [← String.toList_inj, relativeChildPath, String.toList_ofList, childPath, String.toList_append,
    ← String.length_toList, List.drop_left]

theorem below_childPath (dir child : Name) : Below dir (childPath dir child) := by
  rw [Below, childPath, String.toList_append]
  exact List.prefix_append _ _

theorem below_iff_exists : Below dir path ↔ ∃ child, path = childPath dir child := by
  constructor
  · exact fun h ↦ ⟨relativeChildPath dir path, (childPath_relativeChildPath h).symm⟩
  · rintro ⟨child, rfl⟩
    exact below_childPath dir child

theorem childPath_inj {child' : Name} :
    childPath dir child = childPath dir child' ↔ child = child' := by
  constructor
  · intro h
    rw [← relativeChildPath_childPath dir child, h, relativeChildPath_childPath]
  · rintro rfl
    rfl

theorem Below.withSep {p : Name} (h : Below dir p) : Below dir (withSep p) := by
  refine List.IsPrefix.trans h ?_
  unfold ZenFs.withSep
  split
  · exact List.prefix_rfl
  · rw [String.toList_append]
    exact List.prefix_append _ _

theorem Below.trans {p : Name} (h : Below dir p) (h' : Below p path) : Below dir path :=
  List.IsPrefix.trans h.withSep h'

theorem below_or_eq {p : Name} (h : Below dir (withSep p)) :
    Below dir p ∨ withSep p = withSep dir := by
  by_cases hp : endsWith p "/"
  · rw [withSep, if_pos hp] at h
    exact .inl h
  · rw [Below, withSep.eq_1 p, if_neg hp, String.toList_append] at h
    rcases List.prefix_concat_iff.mp h with heq | hpre
    · refine .inr ?_
      rw [withSep, if_neg hp, ← String.toList_inj, String.toList_append]
      exact heq.symm
    · exact .inl hpre

end Below

/-! ## Components -/

/-- The part of a relative path in front of its first separator. -/
def firstComp (path : Name) : Name := String.ofList (path.toList.takeWhile fun c ↦ c != '/')

section Components

variable {dir c x : Name}

theorem sep_notMem_firstComp (x : Name) : '/' ∉ (firstComp x).toList := by
  rw [firstComp, String.toList_ofList]
  intro h
  simpa using List.mem_takeWhile_imp h

theorem firstComp_of_notMem (h : '/' ∉ x.toList) : firstComp x = x := by
  rw [← String.toList_inj, firstComp, String.toList_ofList, List.takeWhile_eq_self_iff]
  intro a ha
  simpa using fun heq : a = '/' ↦ h (heq ▸ ha)

theorem exists_firstComp (h : '/' ∈ x.toList) : ∃ y, x = firstComp x ++ "/" ++ y := by
  have hsplit := List.takeWhile_append_dropWhile (p := fun a ↦ a != '/') (l := x.toList)
  cases hdrop : x.toList.dropWhile fun a ↦ a != '/' with
  | nil =>
      have hall := List.dropWhile_eq_nil_iff.mp hdrop '/' h
      simp at hall
  | cons a y =>
      have ha := List.head?_dropWhile_not (fun a ↦ a != '/') x.toList
      rw [hdrop] at ha hsplit
      have ha' : a = '/' := by simpa using ha
      refine ⟨String.ofList y, ?_⟩
      rw [← String.toList_inj, String.toList_append, String.toList_append, firstComp,
        String.toList_ofList, String.toList_ofList]
      conv_lhs => rw [← hsplit, ha']
      simp

/-- A separator of a path is the first one or behind it. -/
theorem sep_cases {pre post z : Name} (h : '/' ∉ c.toList)
    (heq : c ++ "/" ++ z = pre ++ "/" ++ post) :
    pre = c ∨ ∃ pre', pre = c ++ "/" ++ pre' ∧ z = pre' ++ "/" ++ post := by
  have hlist : c.toList ++ '/' :: z.toList = pre.toList ++ '/' :: post.toList := by
    simpa using congrArg String.toList heq
  rcases List.append_eq_append_iff.mp hlist with ⟨a, hpre, hz⟩ | ⟨a, hc, hpost⟩
  · cases a with
    | nil => exact .inl (String.toList_inj.mp (by simpa using hpre))
    | cons b a =>
        obtain ⟨rfl, hz⟩ := List.cons.inj hz
        refine .inr ⟨String.ofList a, ?_, ?_⟩ <;> rw [← String.toList_inj]
        · simpa using hpre
        · simpa using hz
  · cases a with
    | nil => exact .inl (String.toList_inj.mp (by simpa using hc.symm))
    | cons b a =>
        obtain ⟨rfl, -⟩ := List.cons.inj hpost
        exact absurd (by simp [hc]) h

/-- What lies below a direct child. -/
theorem childPath_childPath (h : '/' ∉ c.toList) (hne : c ≠ "") (y : Name) :
    childPath (childPath dir c) y = childPath dir (c ++ "/" ++ y) := by
  have hend : endsWith (childPath dir c) "/" = false := by
    rw [← Bool.not_eq_true, endsWith, List.isSuffixOf_iff_suffix]
    intro hsuf
    have hc : c.toList ≠ [] := fun hnil ↦ hne (by rw [← String.toList_inj, hnil]; rfl)
    obtain ⟨a, b, hab⟩ := List.eq_nil_or_concat c.toList |>.resolve_left hc
    rw [childPath, String.toList_append, hab] at hsuf
    obtain ⟨l, hl⟩ := hsuf
    have hlast := congrArg List.getLast? hl
    simp at hlast
    exact h (by simp [hab, ← hlast])
  rw [childPath, withSep, hend, ← String.toList_inj]
  simp [childPath]

theorem withSep_childPath_empty (dir : Name) : withSep (childPath dir "") = withSep dir := by
  have hself : childPath dir "" = withSep dir := by simp [childPath]
  have hend : endsWith (withSep dir) "/" = true := by
    obtain ⟨cs, hcs⟩ := exists_withSep dir
    rw [endsWith, List.isSuffixOf_iff_suffix, hcs]
    exact List.suffix_append _ _
  rw [hself, withSep, if_pos hend]

/-- A path lies below each directory on the way to it. -/
theorem below_pre (dir pre post : Name) :
    Below (childPath dir pre) (childPath dir (pre ++ "/" ++ post)) := by
  have hlist : (childPath dir (pre ++ "/" ++ post)).toList =
      (childPath dir pre).toList ++ '/' :: post.toList := by
    simp [childPath]
  rw [Below, hlist, withSep]
  split
  · exact List.prefix_append _ _
  · exact ⟨post.toList, by simp⟩

/-- The parent of a path is the directory itself exactly for a direct child. -/
theorem length_fileDir_childPath (dir x : Name) :
    ((fileDir (childPath dir x)).length == (withSep dir).length) = decide ('/' ∉ x.toList) := by
  obtain ⟨cs, hcs⟩ := exists_withSep dir
  rw [Bool.eq_iff_iff, beq_iff_eq, decide_eq_true_iff, ← String.length_toList,
    ← String.length_toList,
    fileDir, String.toList_ofList, childPath, String.toList_append, List.reverse_append,
    List.length_reverse, List.dropWhile_append, hcs]
  by_cases hx : '/' ∈ x.toList
  · have hne : x.toList.reverse.dropWhile (fun c ↦ c != '/') ≠ [] := by
      intro hnil
      have hall := List.dropWhile_eq_nil_iff.mp hnil '/' (by simpa using hx)
      simp at hall
    have hpos := List.length_pos_iff.mpr hne
    rw [if_neg (by simpa using hne)]
    simp only [List.length_append, List.length_reverse, hx, not_true_eq_false, iff_false]
    omega
  · have hnil : x.toList.reverse.dropWhile (fun c ↦ c != '/') = [] := by
      rw [List.dropWhile_eq_nil_iff]
      intro a ha
      simpa using fun heq : a = '/' ↦ hx (heq ▸ by simpa using ha)
    simp [hnil, hx]

end Components

end ZenFs
