import SvnCurses.Cpp
import Mathlib.Data.List.DropRight
import Mathlib.Data.List.Infix

namespace SvnCurses.Dirents

open Cpp

section Segments

variable {p seg : Str} {segs : List Str}

def inter (segs : List Str) : Str := join segs ['/']

theorem inter_split (p : Str) : inter (split p '/') = p := join_split p '/'

theorem split_inter (hslash : ∀ seg ∈ segs, '/' ∉ seg) (hne : segs ≠ []) :
    split (inter segs) '/' = segs := List.splitOn_intercalate '/' hslash hne

theorem inter_cons (seg : Str) (hne : segs ≠ []) :
    inter (seg :: segs) = seg ++ '/' :: inter segs := by
  cases segs with
  | nil => exact absurd rfl hne
  | cons s segs => simp [inter, join, List.intercalate_cons_cons]

theorem inter_singleton (seg : Str) : inter [seg] = seg := by simp [inter, join]

theorem slash_not_mem (h : seg ∈ split p '/') : '/' ∉ seg := fun hmem => (split_mem h hmem).2 rfl

/-- The segments of a path, each after a slash. -/
theorem slash_inter (hne : segs ≠ []) : '/' :: inter segs = segs.flatMap fun seg => '/' :: seg := by
  induction segs with
  | nil => exact absurd rfl hne
  | cons seg segs ih =>
    by_cases hnil : segs = []
    · subst hnil
      simp [inter_singleton]
    · rw [inter_cons seg hnil, ← List.cons_append, ih hnil, List.flatMap_cons]

/-- The segments of a path are what is between two slashes that follow each other,
when one is put at both ends. -/
theorem mem_split_iff : seg ∈ split p '/' ↔
    '/' ∉ seg ∧ '/' :: (seg ++ ['/']) <:+: '/' :: (p ++ ['/']) := by
  constructor
  · intro hseg
    refine ⟨slash_not_mem hseg, ?_⟩
    obtain ⟨front, back, hsplit⟩ := List.append_of_mem hseg
    have hp : '/' :: p = (split p '/').flatMap fun seg => '/' :: seg := by
      rw [← slash_inter (split_ne_nil p '/'), inter_split]
    have hpath : '/' :: (p ++ ['/']) = (front.flatMap fun seg => '/' :: seg) ++
        ('/' :: (seg ++ ((back.flatMap fun seg => '/' :: seg) ++ ['/']))) := by
      rw [← List.cons_append, hp, hsplit]
      simp
    rw [hpath]
    cases back with
    | nil => exact ⟨_, [], by simp; rfl⟩
    | cons next back =>
      exact ⟨front.flatMap fun seg => '/' :: seg,
        next ++ (back.flatMap fun seg => '/' :: seg) ++ ['/'], by simp⟩
  · rintro ⟨hslash, u, v, h⟩
    have hboth := congrArg (split · '/') h
    have hleft : u ++ '/' :: (seg ++ ['/']) ++ v = u ++ '/' :: (seg ++ '/' :: v) := by simp
    have hright : split ('/' :: (p ++ ['/'])) '/' = [] :: (split p '/' ++ [[]]) := by
      have houter := List.splitOn_append_cons_self (a := '/') [] (p ++ ['/'])
      have hinner := List.splitOn_append_cons_self (a := '/') p []
      rw [split, ← List.nil_append ('/' :: _), houter, hinner]
      rfl
    simp only [hleft, hright] at hboth
    rw [split, List.splitOn_append_cons_self, List.splitOn_append_cons_self_of_not_mem hslash]
      at hboth
    obtain ⟨first, us, hu⟩ := List.exists_cons_of_ne_nil (split_ne_nil u '/')
    obtain ⟨vs, last, hv⟩ := (List.eq_nil_or_concat (split v '/')).resolve_left (split_ne_nil v '/')
    rw [split] at hu hv
    rw [hu, hv, List.concat_eq_append, List.cons_append] at hboth
    have htail : us ++ seg :: vs ++ [last] = split p '/' ++ [[]] := by
      simpa using (List.cons.inj hboth).2
    obtain ⟨hsplit, _⟩ := List.append_inj' htail rfl
    rw [← hsplit]
    simp

end Segments

section Canonicalize

/-- A segment that is skipped. -/
def isNoop (seg : Str) : Bool := seg = [] ∨ seg = ['.']

/-- The segments that are kept, each with the slash after it. -/
def copySegments : List Str → Str
  | [] => []
  | [seg] => if isNoop seg then [] else seg
  | seg :: rest => if isNoop seg then copySegments rest else seg ++ '/' :: copySegments rest

/-- `canonicalize` for a path of the file system, without what Windows needs. -/
def canonicalize (path : Str) : Str :=
  if path = [] then [] else
  let root := if path.head? = some '/' then ['/'] else []
  let segments := split (path.drop root.length) '/'
  let dst := root ++ copySegments segments
  if 0 < (segments.filter (!isNoop ·)).length ∧ dst.getLast? = some '/' then dst.dropLast else dst

def relpathIsCanonical (relpath : Str) : Bool :=
  if relpath.head? = some '/' then false
  else if ['.', '/'] <+: relpath ∨ relpath = ['.'] then false
  else if relpath.length < 2 then true
  else if relpath.getLast? = some '/' ∨ ['/', '.'] <:+ relpath then false
  else if ['/', '.', '/'] <:+: relpath then false
  -- the last character has been looked at
  else ¬ ['/', '/'] <:+: relpath.dropLast

def svnDirentIsCanonical : Str → Bool
  | '/' :: relpath => relpathIsCanonical relpath
  | relpath => relpathIsCanonical relpath

def svnDirentBasename (dirent : Str) : Str :=
  if dirent = ['/'] then [] else (dirent.reverse.takeWhile (· ≠ '/')).reverse

/-- The directory of the working copy itself, by its usual name. -/
def isAdmDir (name : Str) : Bool := name = ".svn".toList

variable {p q seg : Str} {segs : List Str} {c : Char}

/-- The segments that are kept. -/
def kept (p : Str) : List Str := (split p '/').filter (!isNoop ·)

theorem kept_segment (h : seg ∈ kept p) : '/' ∉ seg ∧ seg ≠ [] ∧ seg ≠ ['.'] := by
  obtain ⟨hseg, hkeep⟩ := List.mem_filter.mp h
  refine ⟨slash_not_mem hseg, ?_⟩
  simpa [isNoop] using hkeep

theorem inter_head (hsegs : ∀ seg ∈ segs, '/' ∉ seg ∧ seg ≠ []) :
    (inter segs).head? ≠ some '/' := by
  cases segs with
  | nil => simp [inter, join]
  | cons first rest =>
    obtain ⟨hslash, hfirst⟩ := hsegs first List.mem_cons_self
    intro he
    have hhead : first.head? = some '/' := by
      by_cases hnil : rest = []
      · rwa [hnil, inter_singleton] at he
      · rwa [inter_cons first hnil, List.head?_append_of_ne_nil first hfirst] at he
    exact hslash (List.mem_of_head? hhead)

theorem inter_last (hsegs : ∀ seg ∈ segs, '/' ∉ seg ∧ seg ≠ []) (hne : segs ≠ []) :
    ∃ d, (inter segs).getLast? = some d ∧ d ≠ '/' := by
  have hall := slash_inter hne
  obtain ⟨front, last, rfl⟩ := (List.eq_nil_or_concat segs).resolve_left hne
  obtain ⟨hslash, hlast⟩ := hsegs last (by simp)
  have hmem := List.getLast_mem hlast
  have hend := List.getLast?_eq_some_getLast hlast
  have hd : last.getLast hlast ≠ '/' := fun he => hslash (he ▸ hmem)
  have hwhole : ('/' :: inter (front.concat last)).getLast? = some (last.getLast hlast) := by
    rw [hall]
    simp [List.getLast?_cons, hend]
  rw [List.getLast?_cons] at hwhole
  cases hinter : (inter (front.concat last)).getLast? with
  | none =>
    rw [hinter] at hwhole
    exact absurd (Option.some.inj hwhole).symm hd
  | some d =>
    rw [hinter] at hwhole
    obtain rfl := Option.some.inj hwhole
    exact ⟨_, rfl, hd⟩

/-- What is copied is the segments that are kept, with a slash at the end when a
segment is skipped there. -/
theorem copySegments_kept (segs : List Str) :
    copySegments segs = inter (segs.filter (!isNoop ·)) ∨
      (segs.filter (!isNoop ·) ≠ [] ∧
        copySegments segs = inter (segs.filter (!isNoop ·)) ++ ['/']) := by
  induction segs with
  | nil => exact .inl rfl
  | cons seg rest ih =>
    by_cases hseg : isNoop seg = true
    · rw [List.filter_cons_of_neg (by simp [hseg])]
      cases rest with
      | nil => exact .inl (if_pos hseg)
      | cons next rest =>
        have hskip : copySegments (seg :: next :: rest) = copySegments (next :: rest) := if_pos hseg
        rw [hskip]
        exact ih
    · rw [List.filter_cons_of_pos (by simp [hseg])]
      cases rest with
      | nil =>
        left
        rw [copySegments, if_neg hseg, List.filter_nil, inter_singleton]
      | cons next rest =>
        have hkeep : copySegments (seg :: next :: rest) =
            seg ++ '/' :: copySegments (next :: rest) := if_neg hseg
        rw [hkeep]
        by_cases hnil : (next :: rest).filter (!isNoop ·) = []
        · obtain hcopy | ⟨hne, _⟩ := ih
          · right
            rw [hcopy, hnil, inter_singleton]
            exact ⟨List.cons_ne_nil _ _, rfl⟩
          · exact absurd hnil hne
        · rw [inter_cons seg hnil]
          obtain hcopy | ⟨_, hcopy⟩ := ih
          · left
            rw [hcopy]
          · right
            rw [hcopy]
            exact ⟨List.cons_ne_nil _ _, by simp⟩

/-- A path is canonicalized to the segments that are kept. -/
theorem canonicalize_kept (p : Str) : canonicalize p =
    if p.head? = some '/' then '/' :: inter (kept p.tail) else inter (kept p) := by
  have htrim : ∀ (root src : Str), (if 0 < (kept src).length ∧
        (root ++ copySegments (split src '/')).getLast? = some '/' then
        (root ++ copySegments (split src '/')).dropLast else root ++ copySegments (split src '/')) =
      root ++ inter (kept src) := by
    intro root src
    have hsegs : ∀ seg ∈ kept src, '/' ∉ seg ∧ seg ≠ [] :=
      fun seg hseg => ⟨(kept_segment hseg).1, (kept_segment hseg).2.1⟩
    obtain hcopy | ⟨hne, hcopy⟩ := copySegments_kept (split src '/')
    · change copySegments _ = inter (kept src) at hcopy
      rw [hcopy]
      by_cases hnil : kept src = []
      · rw [hnil]
        simp
      · obtain ⟨d, hd, hslash⟩ := inter_last hsegs hnil
        rw [if_neg]
        rw [List.getLast?_append, hd]
        simpa using fun _ => hslash
    · change copySegments _ = inter (kept src) ++ ['/'] at hcopy
      rw [hcopy, if_pos]
      · rw [← List.append_assoc, List.dropLast_concat]
      · exact ⟨List.length_pos_iff.mpr hne, by rw [← List.append_assoc]; simp⟩
  rw [canonicalize]
  split
  · next hnil =>
    subst hnil
    rfl
  · cases p with
    | nil => rfl
    | cons c p =>
      by_cases hc : c = '/'
      · subst hc
        exact htrim ['/'] p
      · have hhead : ¬ (c :: p).head? = some '/' := by simpa using hc
        simp only [hhead, if_false]
        exact htrim [] (c :: p)

/-- Where a segment may be found. -/
theorem mem_split_cases (hslash : '/' ∉ seg) : seg ∈ split p '/' ↔
    seg = p ∨ seg ++ ['/'] <+: p ∨ '/' :: seg <:+ p ∨ '/' :: (seg ++ ['/']) <:+: p := by
  have hsuffix : '/' :: (seg ++ ['/']) <:+ p ++ ['/'] ↔ '/' :: seg <:+ p := by
    rw [← List.cons_append, List.suffix_concat_iff]
    constructor
    · rintro (hnil | ⟨t, ht, h⟩)
      · simp at hnil
      · rwa [List.append_cancel_right ht]
    · exact fun h => .inr ⟨_, rfl, h⟩
  have hfront : '/' :: (seg ++ ['/']) <+: '/' :: (p ++ ['/']) ↔ seg = p ∨ seg ++ ['/'] <+: p := by
    rw [List.cons_prefix_cons, List.prefix_concat_iff]
    simp
  rw [mem_split_iff, List.infix_cons_iff, List.infix_concat_iff, hsuffix, hfront]
  simp [hslash, or_assoc]

theorem head_slash : p.head? = some '/' ↔ ['/'] <+: p := by
  cases p <;> simp [eq_comm]

theorem last_slash : p.getLast? = some '/' ↔ ['/'] <:+ p := by
  rw [← List.reverse_prefix, List.reverse_singleton, ← head_slash, List.head?_reverse]

theorem double_slash (h : ¬ ['/'] <:+ p) : ['/', '/'] <:+: p.dropLast ↔ ['/', '/'] <:+: p := by
  obtain rfl | ⟨front, last, rfl⟩ := List.eq_nil_or_concat p
  · rfl
  · rw [List.concat_eq_append] at h ⊢
    rw [List.dropLast_concat, List.infix_concat_iff]
    constructor
    · exact .inr
    · rintro (hsuffix | hinfix)
      · exact absurd (List.IsSuffix.trans ⟨['/'], rfl⟩ hsuffix) h
      · exact hinfix

/-- The test by characters is one of the segments. -/
theorem relpathIsCanonical_iff : relpathIsCanonical p = true ↔
    p = [] ∨ ∀ seg ∈ split p '/', ¬ isNoop seg = true := by
  have hempty := @mem_split_cases p [] (by simp)
  have hdot := @mem_split_cases p ['.'] (by decide)
  have hnoop : (∀ seg ∈ split p '/', ¬ isNoop seg = true) ↔
      [] ∉ split p '/' ∧ ['.'] ∉ split p '/' := by
    constructor
    · intro h
      exact ⟨fun hmem => h _ hmem (by decide), fun hmem => h _ hmem (by decide)⟩
    · rintro ⟨hnil, hone⟩ seg hseg hno
      obtain rfl | rfl := of_decide_eq_true hno
      · exact hnil hseg
      · exact hone hseg
  rw [hnoop, hempty, hdot]
  simp only [List.nil_append, List.singleton_append, not_or]
  rw [relpathIsCanonical]
  simp only [head_slash, last_slash]
  by_cases hnil : p = []
  · subst hnil
    simp
  · split_ifs with hhead hbegin hshort hend hinner
    · simp [hnil, hhead]
    · obtain hbegin | hbegin := hbegin
      · simp [hnil, hbegin]
      · simp [hbegin]
    · have hlong : ∀ {s : Str}, 2 ≤ s.length → ¬ s <:+: p := fun hs h => by
        have := h.length_le
        omega
      obtain ⟨hfront, hone⟩ := not_or.mp hbegin
      have hlast : ¬ ['/'] <:+ p := by
        rw [← last_slash]
        rw [← head_slash] at hhead
        obtain ⟨c, rfl⟩ := List.length_eq_one_iff.mp
          (show p.length = 1 by have := List.length_pos_iff.mpr hnil; omega)
        simpa using hhead
      have hdots : ¬ ['/', '.'] <:+ p := fun h => hlong (by decide) h.isInfix
      have hslashes : ¬ ['/', '/'] <:+: p := hlong (by decide)
      have hmiddle : ¬ ['/', '.', '/'] <:+: p := hlong (by decide)
      simp [hnil, hhead, hfront, Ne.symm hone, hlast, hdots, hslashes, hmiddle, Ne.symm hnil]
    · obtain hend | hend := hend
      · simp [hnil, hend]
      · simp [hnil, hend]
    · simp [hnil, hinner]
    · obtain ⟨hfront, hone⟩ := not_or.mp hbegin
      obtain ⟨hlast, hdots⟩ := not_or.mp hend
      simp [double_slash hlast, hnil, hhead, hfront, Ne.symm hone, hlast, hdots, hinner,
        Ne.symm hnil]

theorem kept_inter (p : Str) : kept (inter (kept p)) = kept p := by
  by_cases hnil : kept p = []
  · rw [hnil]
    rfl
  · rw [kept, split_inter (fun seg hseg => (kept_segment hseg).1) hnil]
    refine List.filter_eq_self.mpr fun seg hseg => ?_
    exact (List.mem_filter.mp hseg).2

theorem inter_kept_iff : inter (kept p) = p ↔ relpathIsCanonical p = true := by
  rw [relpathIsCanonical_iff]
  constructor
  · intro h
    by_cases hnil : kept p = []
    · left
      rw [← h, hnil]
      rfl
    · right
      intro seg hseg
      rw [← h, split_inter (fun seg hseg => (kept_segment hseg).1) hnil] at hseg
      simpa using (List.mem_filter.mp hseg).2
  · rintro (rfl | hall)
    · rfl
    · have hkept : kept p = split p '/' :=
        List.filter_eq_self.mpr fun seg hseg => by simpa using hall seg hseg
      rw [hkept, inter_split]

theorem kept_noSlash (p : Str) : (inter (kept p)).head? ≠ some '/' :=
  inter_head fun _ hseg => ⟨(kept_segment hseg).1, (kept_segment hseg).2.1⟩

theorem svnDirentIsCanonical_relative (h : p.head? ≠ some '/') :
    svnDirentIsCanonical p = relpathIsCanonical p := by
  unfold svnDirentIsCanonical
  split
  · simp at h
  · rfl

/-- Canonicalizing gives a path that passes the test, and changes no path that
does and every other one. -/
theorem dirent_canonical (p : Str) : svnDirentIsCanonical (canonicalize p) = true ∧
    (svnDirentIsCanonical p = true ↔ canonicalize p = p) := by
  rw [canonicalize_kept]
  cases p with
  | nil => decide
  | cons c p =>
    by_cases hc : c = '/'
    · subst hc
      simp only [List.head?_cons, ↓reduceIte, List.tail_cons]
      have hnormal : relpathIsCanonical (inter (kept p)) = true := by
        rw [← inter_kept_iff, kept_inter]
      refine ⟨hnormal, ?_⟩
      rw [List.cons_inj_right]
      exact inter_kept_iff.symm
    · have hhead : (c :: p).head? ≠ some '/' := by simpa using hc
      rw [if_neg hhead, svnDirentIsCanonical_relative (kept_noSlash _),
        svnDirentIsCanonical_relative hhead]
      refine ⟨?_, inter_kept_iff.symm⟩
      rw [← inter_kept_iff, kept_inter]

end Canonicalize

section Merge

/-- A segment that goes up. -/
def backpath (path : Str) (more : Bool) : Str :=
  if path = ['/'] then path
  else if path = [] ∨ path = "../".toList ∨ (3 < path.length ∧ "/../".toList <:+ path) then
    path ++ if more then "../".toList else "..".toList
  -- otherwise the last segment goes
  else path.dropLast.rdropWhile (· ≠ '/')

def mergeSegments : Str → List Str → Str
  | path, [] => path
  | path, seg :: rest =>
      let more := !rest.isEmpty
      mergeSegments
        (if isNoop seg then path
        else if seg = "..".toList then backpath path more
        else path ++ seg ++ if more then ['/'] else []) rest

/-- `apr_filepath_merge` with an empty root path, for a path that is not longer than
the system allows. -/
def aprFilepathMerge (pathMax : Nat) (addpath : Str) : Option Str :=
  if pathMax < addpath.length + 4 then none
  else if addpath.head? = some '/' then
    some (mergeSegments ['/'] (split (addpath.dropWhile (· = '/')) '/'))
  else some (mergeSegments [] (split addpath '/'))

/-- `svn_opt__arg_canonicalize_path`. -/
def argCanonicalizePath (pathMax : Nat) (path : Str) : Option Str :=
  (aprFilepathMerge pathMax path).map canonicalize

variable {p path : Str} {segs : List Str} {pathMax : Nat} {c : Char}

/-- Without a segment that goes up, segments are only copied. -/
theorem mergeSegments_copy (hup : "..".toList ∉ segs) :
    mergeSegments path segs = path ++ copySegments segs := by
  induction segs generalizing path with
  | nil => simp [mergeSegments, copySegments]
  | cons seg rest ih =>
    obtain ⟨hseg, hrest⟩ := not_or.mp (fun h => hup (List.mem_cons.mpr h))
    rw [mergeSegments, ih hrest, if_neg (Ne.symm hseg)]
    cases rest with
    | nil =>
      have hcopy : copySegments [seg] = if isNoop seg then [] else seg := rfl
      rw [hcopy]
      split <;> simp [copySegments]
    | cons next rest =>
      have hcopy : copySegments (seg :: next :: rest) = if isNoop seg then
        copySegments (next :: rest) else seg ++ '/' :: copySegments (next :: rest) := rfl
      rw [hcopy]
      split <;> simp

theorem kept_snoc_slash (p : Str) : kept (p ++ ['/']) = kept p := by
  have hsplit := List.splitOn_append_cons_self (a := '/') p []
  rw [kept, split, hsplit, List.filter_append]
  simp [kept, split, isNoop]

/-- A path that goes nowhere up is canonicalized as if it were not merged. -/
theorem argCanonicalizePath_relative (hhead : p.head? ≠ some '/') (hup : "..".toList ∉ split p '/')
    (hmax : p.length + 4 ≤ pathMax) : argCanonicalizePath pathMax p = some (inter (kept p)) := by
  rw [argCanonicalizePath, aprFilepathMerge, if_neg (by omega), if_neg hhead,
    mergeSegments_copy hup, List.nil_append, Option.map_some, canonicalize_kept]
  have hkept : kept (copySegments (split p '/')) = kept p ∧
      (copySegments (split p '/')).head? ≠ some '/' := by
    obtain hcopy | ⟨hne, hcopy⟩ := copySegments_kept (split p '/')
    · rw [hcopy]
      exact ⟨kept_inter p, kept_noSlash p⟩
    · rw [hcopy, kept_snoc_slash]
      refine ⟨kept_inter p, ?_⟩
      obtain ⟨d, hd, _⟩ := inter_last
        (fun seg hseg => ⟨(kept_segment hseg).1, (kept_segment hseg).2.1⟩) hne
      have hnil : inter (kept p) ≠ [] := by
        intro he
        rw [he] at hd
        cases hd
      change (inter (kept p) ++ ['/']).head? ≠ _
      rw [List.head?_append_of_ne_nil _ hnil]
      exact kept_noSlash p
  rw [if_neg hkept.2, hkept.1]

end Merge

section Count

variable {p q path : Str} {segs : List Str} {pathMax : Nat} {c : Char}

theorem count_inter (hslash : c ≠ '/') :
    (inter segs).count c = (segs.map (List.count c)).sum := by
  induction segs with
  | nil => rfl
  | cons seg segs ih =>
    by_cases hnil : segs = []
    · subst hnil
      simp [inter_singleton]
    · rw [inter_cons seg hnil, List.count_append, List.count_cons_of_ne hslash.symm, ih,
        List.map_cons, List.sum_cons]

theorem count_filter_le (keep : Str → Bool) :
    ((segs.filter keep).map (List.count c)).sum ≤ (segs.map (List.count c)).sum := by
  induction segs with
  | nil => exact Nat.le_refl _
  | cons seg segs ih =>
    rw [List.filter_cons]
    split <;> simp only [List.map_cons, List.sum_cons] <;> omega

theorem count_kept_le (hslash : c ≠ '/') : (inter (kept p)).count c ≤ p.count c := by
  rw [count_inter hslash]
  conv_rhs => rw [← inter_split p, count_inter hslash]
  exact count_filter_le _

theorem count_canonicalize_le (hslash : c ≠ '/') : (canonicalize p).count c ≤ p.count c := by
  rw [canonicalize_kept]
  split
  · rw [List.count_cons_of_ne hslash.symm]
    exact Nat.le_trans (count_kept_le hslash) ((List.tail_sublist p).count_le c)
  · exact count_kept_le hslash

theorem count_backpath_le (hslash : c ≠ '/') (hdot : c ≠ '.') (more : Bool) :
    (backpath path more).count c ≤ path.count c := by
  have hup : (if more then "../".toList else "..".toList).count c = 0 := by
    refine List.count_eq_zero.mpr fun hmem => ?_
    cases more
    · obtain rfl | hmem := List.mem_cons.mp hmem
      · exact hdot rfl
      · exact hdot (List.mem_singleton.mp hmem)
    · simp [hdot, hslash] at hmem
  rw [backpath]
  split
  · exact Nat.le_refl _
  · split
    · rw [List.count_append, hup]
      exact Nat.le_refl _
    · exact Nat.le_trans ((List.rdropWhile_prefix _ _).sublist.count_le c)
        ((List.dropLast_sublist path).count_le c)

theorem count_mergeSegments_le (hslash : c ≠ '/') (hdot : c ≠ '.') :
    (mergeSegments path segs).count c ≤ path.count c + (segs.map (List.count c)).sum := by
  induction segs generalizing path with
  | nil => simp [mergeSegments]
  | cons seg rest ih =>
    have hend : (if (!rest.isEmpty) = true then ['/'] else []).count c = 0 := by
      refine List.count_eq_zero.mpr fun hmem => ?_
      split at hmem
      · exact hslash (List.mem_singleton.mp hmem)
      · cases hmem
    rw [mergeSegments, List.map_cons, List.sum_cons]
    refine Nat.le_trans ih ?_
    split
    · omega
    · split
      · have := @count_backpath_le path c hslash hdot (!rest.isEmpty)
        omega
      · rw [List.count_append, List.count_append, hend]
        omega

/-- No character is made up on the way. -/
theorem count_argCanonicalizePath_le (hslash : c ≠ '/') (hdot : c ≠ '.')
    (h : argCanonicalizePath pathMax p = some q) : q.count c ≤ p.count c := by
  obtain ⟨merged, hmerge, rfl⟩ := Option.map_eq_some_iff.mp h
  refine Nat.le_trans (count_canonicalize_le hslash) ?_
  rw [aprFilepathMerge] at hmerge
  split at hmerge
  · cases hmerge
  · have hsplit : ∀ s : Str, ((split s '/').map (List.count c)).sum = s.count c := by
      intro s
      rw [← count_inter hslash, inter_split]
    split at hmerge
    · cases hmerge
      refine Nat.le_trans (count_mergeSegments_le hslash hdot) ?_
      rw [hsplit, List.count_singleton, if_neg (by simpa using hslash.symm), Nat.zero_add]
      exact (List.dropWhile_sublist _).count_le c
    · cases hmerge
      refine Nat.le_trans (count_mergeSegments_le hslash hdot) ?_
      rw [hsplit, List.count_nil, Nat.zero_add]

end Count

end SvnCurses.Dirents
