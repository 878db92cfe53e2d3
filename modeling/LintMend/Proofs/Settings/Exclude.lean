import LintMend.Proofs.Files.Path
import LintMend.Proofs.Text.Search
import LintMend.Settings.Project

/-!
# Excluded paths

Every pattern excludes paths of its own, so more patterns exclude more paths, whatever their order.
A directory pattern is a name with a slash behind it. The name stands between two slashes of a path,
or at its beginning and before one, exactly if it is one of the parts of the path other than the
last. As a glob the pattern is matched by one path only, of which the name is a part too.
-/

namespace LintMend

/-! ## Plain patterns -/

namespace Glob

variable {s t : Text}

/-- A pattern in which every character stands for itself. -/
def IsPlain (s : Text) : Prop := ∀ c ∈ s, c ≠ '?' ∧ c ≠ '*' ∧ c ≠ '['

instance (s : Text) : Decidable (IsPlain s) :=
  List.decidableBAll (fun c ↦ c ≠ '?' ∧ c ≠ '*' ∧ c ≠ '[') s

theorem parseFrom_of_isPlain (h : IsPlain s) {fuel : Nat} (hfuel : s.length < fuel)
    (atSlash : Bool) : parseFrom fuel atSlash s = some (s.map .char) := by
  induction s generalizing fuel atSlash with
  | nil =>
    cases fuel with
    | zero => cases hfuel
    | succ fuel => rfl
  | cons c s ih =>
    obtain ⟨⟨hquestion, hstar, hbracket⟩, hs⟩ := List.forall_mem_cons.mp h
    cases fuel with
    | zero => cases hfuel
    | succ fuel =>
      have hrest := ih hs (Nat.lt_of_succ_lt_succ hfuel) (c == '/')
      rw [parseFrom]
      · simp [hrest]
      all_goals simpa

theorem parse?_of_isPlain (h : IsPlain s) : parse? s = some (s.map .char) :=
  parseFrom_of_isPlain h (Nat.lt_succ_self _) true

theorem isMatch_map_char (s t : Text) : isMatch (s.map .char) t = true ↔ t = s := by
  induction s generalizing t with
  | nil => simp [isMatch]
  | cons c s ih =>
    cases t with
    | nil => simp [isMatch]
    | cons d t =>
      have hcons : isMatch ((c :: s).map .char) (d :: t) =
          (Piece.admits d (.char c) && isMatch (s.map .char) t) := by
        rw [List.map_cons, isMatch]
        all_goals simp
      rw [hcons, Bool.and_eq_true, ih, List.cons.injEq]
      exact and_congr_left' decide_eq_true_iff

end Glob

/-! ## Parts of a path -/

/-- The pieces before the last are those with the separator behind them, at the beginning of the
text or behind another separator. -/
theorem Text.mem_dropLast_splitOnChar_iff {separator : Char} {piece s : Text}
    (h : separator ∉ piece) : piece ∈ (splitOnChar separator s).dropLast ↔
      (piece ++ [separator]) <+: s ∨ (separator :: (piece ++ [separator])) <:+: s := by
  constructor
  · intro hmem
    obtain ⟨before, behind, hbefore⟩ := List.append_of_mem hmem
    have hsplit := List.dropLast_append_getLast (splitOnChar_ne_nil separator s)
    rw [hbefore, List.append_assoc, List.cons_append] at hsplit
    have hs := intercalate_splitOnChar separator s
    rw [← hsplit, intercalate_append_of_ne_nil (List.cons_ne_nil _ _),
      List.intercalate_cons_of_ne_nil (by simp)] at hs
    rcases List.eq_nil_or_concat before with rfl | ⟨first, last, rfl⟩
    · exact .inl ⟨_, by simpa using hs⟩
    · exact .inr ⟨first.flatMap (· ++ [separator]) ++ last, _, by simpa using hs⟩
  · have hcut (rest : Text) : splitOnChar separator (piece ++ separator :: rest) =
        piece :: splitOnChar separator rest := by
      rw [splitOnChar_append, splitOnChar_of_notMem h, List.singleton_append]
    have hpiece (rest : Text) : piece ∈ (piece :: splitOnChar separator rest).dropLast := by
      rw [List.dropLast_cons_of_ne_nil (splitOnChar_ne_nil separator rest)]
      exact List.mem_cons_self
    rintro (⟨rest, rfl⟩ | ⟨before, rest, rfl⟩)
    · rw [List.append_assoc, List.singleton_append, hcut]
      exact hpiece rest
    · have hs : before ++ separator :: (piece ++ [separator]) ++ rest =
          before ++ separator :: (piece ++ separator :: rest) := by simp
      rw [hs, splitOnChar_append, hcut, List.dropLast_append_of_ne_nil (List.cons_ne_nil _ _)]
      exact List.mem_append_right _ (hpiece rest)

theorem Path.slash_notMem_of_normal_mem {path name : String}
    (h : .normal name ∈ components path) : '/' ∉ name.toList := by
  have hparts : .normal name ∈ (parts path).filterMap component? := by
    unfold components at h
    split at h
    · simpa using h
    · split at h
      · simpa using h
      · exact h
  obtain ⟨part, hpart, hcomponent⟩ := List.mem_filterMap.mp hparts
  have hname : String.ofList part = name := by
    unfold component? at hcomponent
    split at hcomponent
    · cases hcomponent
    · split at hcomponent
      · cases hcomponent
      · simpa using hcomponent
  rw [← hname, String.toList_ofList]
  exact Text.notMem_of_mem_splitOnChar hpart

theorem Path.slash_notMem_of_fileName? {path name : String} (h : fileName? path = some name) :
    '/' ∉ name.toList := by
  unfold fileName? at h
  split at h
  · next last hlast =>
    obtain rfl : last = name := by simpa using h
    exact slash_notMem_of_normal_mem (List.mem_of_getLast? hlast)
  · cases h

namespace ProjectSettings

variable {name path : String}

/-! ## Directories -/

/-- A name that says a directory in a pattern: no character of it means anything else. -/
structure IsDirectoryName (name : String) : Prop where
  slash : '/' ∉ name.toList
  plain : Glob.IsPlain name.toList

theorem isPlain_append_slash (h : IsDirectoryName name) :
    Glob.IsPlain (name.toList ++ ['/']) := by
  intro c hc
  rcases List.mem_append.mp hc with hc | hc
  · exact h.plain c hc
  · obtain rfl : c = '/' := by simpa using hc
    decide

theorem namesDirectoryOf_iff (h : '/' ∉ name.toList) (path : Text) :
    namesDirectoryOf path (name.toList ++ ['/']) ↔
      name.toList ∈ (Text.splitOnChar '/' path).dropLast := by
  have hname : Text.dropEndWhile (· = '/') (name.toList ++ ['/']) = name.toList := by
    rw [Text.dropEndWhile_append_of_all (by decide)]
    apply Text.dropEndWhile_of_getLast?
    rw [Option.any_eq_true]
    rintro ⟨c, hc, hslash⟩
    obtain rfl : c = '/' := by simpa using hslash
    exact h (List.mem_of_getLast? hc)
  rw [Text.mem_dropLast_splitOnChar_iff h]
  simp [namesDirectoryOf, hname, Text.contains_iff_infix, or_comm]

/-- As a glob a plain pattern is matched by what is written like it, and by nothing else. -/
theorem any_isMatch_iff_of_isPlain {pattern : Text} (h : Glob.IsPlain pattern) (path : String) :
    ((Glob.parse? pattern).any fun glob ↦ glob.isMatch path.toList ||
      (Path.fileName? path).any fun file ↦ glob.isMatch file.toList) = true ↔
      path.toList = pattern ∨ ∃ file, Path.fileName? path = some file ∧ file.toList = pattern := by
  rw [Glob.parse?_of_isPlain h, Option.any_some, Bool.or_eq_true, Glob.isMatch_map_char,
    Option.any_eq_true]
  simp only [Glob.isMatch_map_char]

/-- A directory pattern excludes a path exactly if it names one of the parts before the last. -/
theorem excludes_append_slash_iff (h : IsDirectoryName name) (path : String) :
    excludes (name ++ "/") path ↔ name.toList ∈ (Path.parts path).dropLast := by
  have hpattern : (name ++ "/").toList = name.toList ++ ['/'] := String.toList_append
  have hself : path.toList = name.toList ++ ['/'] →
      name.toList ∈ (Path.parts path).dropLast := by
    intro hpath
    rw [Path.parts, hpath, Text.mem_dropLast_splitOnChar_iff h.slash]
    exact .inl List.prefix_rfl
  have hfile : ¬ ∃ file, Path.fileName? path = some file ∧ file.toList = name.toList ++ ['/'] := by
    rintro ⟨file, hfile, hname⟩
    apply Path.slash_notMem_of_fileName? hfile
    simp [hname]
  unfold excludes
  rw [hpattern, Bool.or_eq_true, any_isMatch_iff_of_isPlain (isPlain_append_slash h),
    namesDirectoryOf_iff h.slash, ← Path.parts, or_iff_left hfile]
  exact ⟨fun hcase ↦ hcase.elim hself id, .inr⟩

/-! ## Lists of patterns -/

/-- The settings that leave out what some patterns exclude. -/
def excluding (settings : ProjectSettings) (patterns : List String) : ProjectSettings :=
  { settings with exclude := patterns }

theorem isExcluded_iff (settings : ProjectSettings) (path : String) :
    settings.isExcluded path ↔ ∃ pattern ∈ settings.exclude, excludes pattern path :=
  List.any_eq_true

theorem isExcluded_excluding_singleton (settings : ProjectSettings) (pattern path : String) :
    (settings.excluding [pattern]).isExcluded path ↔ excludes pattern path := by
  simp [isExcluded_iff, excluding]

/-- A path is excluded if one of the patterns alone excludes it, so it stays excluded with any
patterns that hold those it is excluded by. A directory pattern alone excludes the paths that lead
through a directory of that name. -/
theorem isExcluded_iff_of_patterns (settings : ProjectSettings) (path : String) :
    (settings.isExcluded path ↔
      ∃ pattern ∈ settings.exclude, (settings.excluding [pattern]).isExcluded path) ∧
    (∀ patterns : List String, (∀ pattern ∈ settings.exclude, pattern ∈ patterns) →
      settings.isExcluded path → (settings.excluding patterns).isExcluded path) ∧
    ∀ name, IsDirectoryName name → ((settings.excluding [name ++ "/"]).isExcluded path ↔
      name.toList ∈ (Path.parts path).dropLast) := by
  refine ⟨?_, fun patterns hpatterns h ↦ ?_, fun name hname ↦ ?_⟩
  · simp only [isExcluded_excluding_singleton]
    exact isExcluded_iff settings path
  · obtain ⟨pattern, hmem, hexcludes⟩ := (isExcluded_iff settings path).mp h
    exact (isExcluded_iff _ path).mpr ⟨pattern, hpatterns pattern hmem, hexcludes⟩
  · rw [isExcluded_excluding_singleton, excludes_append_slash_iff hname]

/-- A directory between slashes of which one is doubled, with patterns that are no globs beside the
one that names it, and paths that hold its name in other ways. -/
theorem isExcluded_iff_of_patterns_of_vendor :
    let settings := standard.excluding ["a**", "vendor/"]
    let path := "/srv//vendor/autoload.php"
    IsDirectoryName "vendor" ∧ "vendor".toList ∈ (Path.parts path).dropLast ∧
    (settings.excluding ["vendor/"]).isExcluded path ∧ settings.isExcluded path ∧
    (settings.excluding ["vendor/", "[x", "a**", "vendor/"]).isExcluded path ∧
    ∀ other ∈ ["src/vendor.php", "vendor", "/srv/vendors/a.php", "myvendor/a.php"],
      ¬ (settings.excluding ["vendor/"]).isExcluded other := by
  intro settings path
  have hname : IsDirectoryName "vendor" := ⟨by decide, by decide⟩
  have hmem : "vendor".toList ∈ (Path.parts path).dropLast := by decide
  obtain ⟨hany, hmore, hdirectory⟩ := isExcluded_iff_of_patterns settings path
  have halone : (settings.excluding ["vendor/"]).isExcluded path :=
    (hdirectory "vendor" hname).mpr hmem
  have hexcluded : settings.isExcluded path := hany.mpr ⟨"vendor/", by decide, halone⟩
  refine ⟨hname, hmem, halone, hexcluded, hmore _ (by decide) hexcluded, ?_⟩
  intro other hother hexcludes
  have hpart : "vendor".toList ∈ (Path.parts other).dropLast :=
    ((isExcluded_iff_of_patterns settings other).2.2 "vendor" hname).mp hexcludes
  revert other
  decide

end ProjectSettings

end LintMend
