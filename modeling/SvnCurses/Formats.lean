import SvnCurses.Drawing
import SvnCurses.RefreshText
import SvnCurses.Printf

namespace SvnCurses.Formats

open Cpp ProgramState Draw Interaction KeyEvent Round Rows Session Play Drawing Printf

section Format

variable {text : Str}

/-- What `wprintw` makes of a string that it is given as its format. -/
def formatted (text : Str) : Option Str := expand (cString text)

/-- Without a conversion, and without an end inside. -/
def Literal (text : Str) : Prop := '%' ∉ text ∧ '\x00' ∉ text

theorem formatted_self_iff : formatted text = some text ↔ Literal text := by
  constructor
  · intro h
    have hlen := (expand_length h).1
    have hwhole : cString text = text :=
      (List.takeWhile_sublist _).eq_of_length_le hlen
    rw [formatted, hwhole] at h
    refine ⟨expand_self_iff.mp h, fun hnull => ?_⟩
    have hkept := List.takeWhile_eq_self_iff.mp hwhole _ hnull
    simp at hkept
  · rintro ⟨hpercent, hnull⟩
    rw [formatted, RefreshText.cString_clean hnull]
    exact expand_literal hpercent

end Format

section Row

variable {s : State} {i : Int} {row item text : Str} {c : Char}

/-- What is drawn of a row. A selected one gives up its last column to the blank,
unless the blank comes after it. -/
def drawnPart (s : State) (row : Str) : Str :=
  if row ∈ s.selectedItems ∧ 8 < s.maxX then row.take (s.maxX - 1).toNat else row

theorem mem_padded (hc : c ≠ ' ') (maxX : Int) (row : Str) (k : Nat) :
    c ∈ (padded maxX row).take k ↔ c ∈ row.take k := by
  rw [padded, List.take_append, List.mem_append]
  simp [List.take_replicate, hc]

theorem mem_shifted (hc : c ≠ ' ') (h : shifted item = .ok text) :
    c ∈ text ↔ if 8 < item.length then c ∈ item.take (item.length - 1) else c ∈ item := by
  obtain ⟨t, ht, he⟩ := bind_ok.mp h
  obtain ⟨hlen, _, rfl⟩ := insertAt_ok.mp ht
  cases he
  split
  · next hlong =>
    have hne : item.drop 8 ≠ [] := by
      rw [ne_eq, List.drop_eq_nil_iff]
      omega
    have hitem : item.take (item.length - 1) = item.take 8 ++ (item.drop 8).dropLast := by
      rw [← List.dropLast_eq_take]
      conv_lhs => rw [← List.take_append_drop 8 item]
      exact List.dropLast_append_of_ne_nil hne
    rw [List.dropLast_append_of_ne_nil hne, hitem]
    simp [hc]
  · next hshort =>
    have hnil : item.drop 8 = [] := List.drop_eq_nil_of_le (by omega)
    have htake : item.take 8 = item := List.take_of_length_le (by omega)
    rw [hnil, List.append_nil, List.dropLast_concat, htake]

theorem mem_drawn (hc : c ≠ ' ') (hmax : s.maxX ≤ intMax) (hfit : (row.length : Int) ≤ s.maxX)
    {d : Drawn} (hd : DrawnFor s.selectedItems s.cursorPosition s.maxX row d) :
    c ∈ d.text ↔ c ∈ drawnPart s row := by
  have hlen := padded_length hmax hfit
  have hwhole : c ∈ padded s.maxX row ↔ c ∈ row := by
    have hmem := mem_padded hc s.maxX row (padded s.maxX row).length
    rwa [List.take_length, List.take_of_length_le (by omega)] at hmem
  obtain ⟨_, hshift, hsame⟩ := drawItem_ok hd
  unfold drawnPart
  by_cases hsel : row ∈ s.selectedItems
  · rw [mem_shifted hc (hshift (decide_eq_true hsel))]
    by_cases hwide : 8 < s.maxX
    · rw [if_pos (by omega), if_pos ⟨hsel, hwide⟩, mem_padded hc]
      have hsize : (padded s.maxX row).length - 1 = (s.maxX - 1).toNat := by omega
      rw [hsize]
    · rw [if_neg (by omega), if_neg (fun h => hwide h.2)]
      exact hwhole
  · rw [hsame (decide_eq_false hsel), if_neg (fun h => hsel h.1)]
    exact hwhole

/-- A line that fits on a screen of eight columns or more is drawn. -/
theorem row_drawn (hrow : index s.statusItems i = .ok row) (hx : 8 ≤ s.maxX)
    (hmax : s.maxX ≤ intMax) (hfit : (row.length : Int) ≤ s.maxX) :
    ∃ s' d, printStatusWithColor s i = .ok (s', d) ∧
      DrawnFor s.selectedItems s.cursorPosition s.maxX row d := by
  have hshort : row.length < 2 ^ 31 := by
    simp only [intMax] at hmax
    omega
  have hdrawable := (drawable_iff (by omega) hmax hshort).mpr
    ⟨hfit, fun _ : row ∈ s.selectedItems => hx⟩
  obtain ⟨item, drawn, hitem, hdrawn⟩ := (@row_iff _ _ s.cursorPosition i _ (by omega) hmax
    (by unfold maxSize; omega)).mpr hdrawable
  have hprint : printStatusWithColor s i = .ok ({ s with
      statusItems := s.statusItems.set (toSize i) item }, ⟨i, drawn.1, drawn.2⟩) :=
    bind_ok.mpr ⟨row, hrow, bind_ok.mpr ⟨item, hitem, bind_ok.mpr ⟨drawn, hdrawn, rfl⟩⟩⟩
  obtain ⟨_, rfl⟩ := append_padded hitem
  exact ⟨_, _, hprint, hdrawn⟩

theorem row_format_iff (hrow : index s.statusItems i = .ok row) (hx : 8 ≤ s.maxX)
    (hmax : s.maxX ≤ intMax) (hfit : (row.length : Int) ≤ s.maxX) :
    ∃ s' d, printStatusWithColor s i = .ok (s', d) ∧
      (formatted d.text = some d.text ↔ Literal (drawnPart s row)) := by
  obtain ⟨s', d, hprint, hd⟩ := row_drawn hrow hx hmax hfit
  refine ⟨s', d, hprint, ?_⟩
  rw [formatted_self_iff, Literal, Literal, mem_drawn (by decide) hmax hfit hd,
    mem_drawn (by decide) hmax hfit hd]

end Row

section Update

variable {env : ∀ q, Answer q → Prop} {s : State} {r : History} {i : Int} {row : Str}

theorem execResult_null (out : Str) : '\x00' ∉ execResult out := by
  intro h
  obtain ⟨buffer, _, hnull⟩ := List.mem_flatMap.mp h
  have hkept := List.mem_takeWhile_imp hnull
  simp at hkept

/-- What the `u` key shows is the output of `svn up`, after a `y`. -/
def Shown (s : State) (r : History) (text : Str) : Prop :=
  ∃ out, r = [⟨.getch .updatePrompt s, key 'y'⟩, ⟨.popen updateCommand s, some out⟩] ∧
    text = execResult out

def shows (s : State) : Contract Answer Output Stop :=
  ⟨fun _ _ => True, fun r o => ∀ text, o = .wprintw text → Shown s r text, fun _ _ => True⟩

theorem shows_other {o : Output} (h : ∀ text, o ≠ .wprintw text) : (shows s).tells r o :=
  fun text he => absurd he (h text)

theorem keyU_shows : Safe env (shows s) (fun _ _ => True) (keyU s) [] := by
  refine safe_tell (shows_other nofun) (safe_tell (shows_other nofun)
    (safe_getch trivial fun c => ?_))
  by_cases hy : c = key 'y'
  · subst hy
    rw [if_pos rfl]
    refine safe_tell (shows_other nofun) (safe_exec trivial (fun _ _ => trivial) fun out => ?_)
    apply safe_tell
    · rintro text ⟨⟩
      exact ⟨out, rfl, rfl⟩
    · apply safe_getch trivial
      intro k
      apply safe_refresh trivial (fun _ _ _ _ => shows_other nofun) (fun _ _ => trivial)
        (fun _ _ => trivial) (fun _ _ _ _ => trivial)
      intro _ _ _ _ _ _
      exact ⟨shows_other nofun, trivial⟩
  · rw [if_neg hy]
    exact safe_tell (shows_other nofun) (safe_pure trivial)

/-- It is shown whatever it is. -/
theorem keyU_says (s : State) (out : Str) : ∃ next, Within (fun _ _ => True) (keyU s)
    [⟨.getch .updatePrompt s, key 'y'⟩, ⟨.popen updateCommand s, some out⟩]
    (.say (.wprintw (execResult out)) next) := by
  have hasked : Within (fun _ _ => True) (keyU s) [⟨.getch .updatePrompt s, key 'y'⟩] _ :=
    .answer (.say (.say .start)) trivial
  have hyes := hasked.say
  exact ⟨_, .answer hyes trivial⟩

/-- Which lines, and which outputs of `svn up`, `wprintw` writes as they are. -/
theorem formats_iff (hrow : index s.statusItems i = .ok row) (hx : 8 ≤ s.maxX)
    (hmax : s.maxX ≤ intMax) (hfit : (row.length : Int) ≤ s.maxX) :
    (∃ s' d, printStatusWithColor s i = .ok (s', d) ∧
      (formatted d.text = some d.text ↔ Literal (drawnPart s row))) ∧
    ∀ env r text next, Within env (keyU s) r (.say (.wprintw text) next) →
      ∃ out, r = [⟨.getch .updatePrompt s, key 'y'⟩, ⟨.popen updateCommand s, some out⟩] ∧
        text = execResult out ∧ (formatted text = some text ↔ '%' ∉ execResult out) := by
  refine ⟨row_format_iff hrow hx hmax hfit, fun env r text next h => ?_⟩
  obtain ⟨out, hr, rfl⟩ := (within_safe keyU_shows h).1 text rfl
  refine ⟨out, hr, rfl, ?_⟩
  rw [formatted_self_iff, Literal, and_iff_left (execResult_null out)]

theorem formats_plain :
    (∃ s' d, printStatusWithColor shortLine 0 = .ok (s', d) ∧ formatted d.text = some d.text) ∧
    ∃ r text next, Within (fun _ _ => True) (keyU shortLine) r (.say (.wprintw text) next) ∧
      formatted text = some text := by
  obtain ⟨hline, hupdate⟩ := @formats_iff shortLine 0 "? a".toList rfl (by decide) (by decide)
    (by decide)
  constructor
  · obtain ⟨s', d, hprint, hliteral⟩ := hline
    exact ⟨s', d, hprint, hliteral.mpr (by unfold Literal; decide)⟩
  · obtain ⟨next, hsays⟩ := keyU_says shortLine "At revision 3.\n".toList
    obtain ⟨out, hr, _, hliteral⟩ := hupdate _ _ _ _ hsays
    simp only [List.cons.injEq, Sigma.mk.injEq, heq_eq_eq, Option.some.injEq, true_and,
      and_true] at hr
    subst hr
    exact ⟨_, _, next, hsays, hliteral.mpr (by decide)⟩

/-- The name of an unversioned file, or of an updated one, is taken for a
conversion. -/
theorem formats_interpreted :
    (∃ tr m s' rows next, Session (fun _ _ => True) wideTerminal tr (.say (.pad m s' rows) next) ∧
      8 ≤ m.maxX ∧ (∀ row ∈ m.statusItems, (row.length : Int) ≤ m.maxX) ∧
      ∃ d ∈ rows, formatted d.text = none) ∧
    ∃ s r text next, Within (fun _ _ => True) (keyU s) r (.say (.wprintw text) next) ∧
      formatted text = none := by
  constructor
  · exact play_draws (fun _ _ => True) wideTerminal 1 [.inr "?       a%nb\n".toList]
      (fun m _ rows => 8 ≤ m.maxX ∧ (∀ row ∈ m.statusItems, (row.length : Int) ≤ m.maxX) ∧
        ∃ d ∈ rows, formatted d.text = none) (by decide +kernel)
  · obtain ⟨next, hsays⟩ := keyU_says shortLine "A    a%sb\n".toList
    exact ⟨_, _, _, next, hsays, by decide⟩

end Update

end SvnCurses.Formats
