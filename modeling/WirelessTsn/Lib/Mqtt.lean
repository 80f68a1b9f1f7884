import WirelessTsn.Lib.CString

/-!
MQTT topics and topic filters. A topic is a text of levels with a slash
between them; in a filter the level `+` stands for any one level and `#`, at
the end, for any number of further levels. A filter without wildcards matches
itself only.
-/

namespace Mqtt

open CText

/-- The levels of a topic or a filter. -/
def levels (s : CStr) : List CStr := s.splitOn '/'

def matchLevels : List CStr → List CStr → Bool
  | [], [] => true
  | [], _ :: _ => false
  | f :: fs, [] => f = ['#'] && fs = []
  | f :: fs, t :: ts => (f = ['#'] && fs = []) || ((f = ['+'] || f = t) && matchLevels fs ts)

/-- Whether a broker hands a topic on to a subscription. -/
def Delivers (filter topic : CStr) : Prop := matchLevels (levels filter) (levels topic) = true

instance (filter topic : CStr) : Decidable (Delivers filter topic) :=
  inferInstanceAs (Decidable (_ = true))

/-- The text behind the last slash, or the whole text without one. -/
def lastLevel (topic : CStr) : CStr := (topic.reverse.takeWhile (· != '/')).reverse

/-! ### Levels -/

theorem levels_injective {s t : CStr} (h : levels s = levels t) : s = t := by
  have hjoin := congrArg (List.intercalate ['/']) h
  rwa [levels, levels, List.intercalate_splitOn, List.intercalate_splitOn] at hjoin

theorem levels_append (s t : CStr) : levels (s ++ '/' :: t) = levels s ++ levels t :=
  List.splitOn_append_cons_self s t

theorem levels_word {s : CStr} (h : '/' ∉ s) : levels s = [s] := List.splitOn_eq_singleton h

theorem lastLevel_append {s t : CStr} (h : '/' ∉ t) : lastLevel (s ++ '/' :: t) = t := by
  have hword : ∀ c ∈ t.reverse, (c != '/') = true := by
    intro c hc
    rw [bne_iff_ne]
    rintro rfl
    exact h (List.mem_reverse.mp hc)
  rw [lastLevel, List.reverse_append, List.reverse_cons, List.append_assoc,
    List.takeWhile_append_of_pos hword, List.singleton_append, List.takeWhile_cons_of_neg (by decide),
    List.append_nil, List.reverse_reverse]

/-! ### Filters -/

/-- Without wildcards a filter matches itself. -/
theorem matchLevels_literal {fs ts : List CStr} (hplus : ['+'] ∉ fs)
    (hhash : fs.getLast? ≠ some ['#']) : matchLevels fs ts = true ↔ ts = fs := by
  induction fs generalizing ts with
  | nil => cases ts <;> simp [matchLevels]
  | cons f fs ih =>
      have hwild : ¬ (f = ['#'] ∧ fs = []) := by
        rintro ⟨rfl, rfl⟩
        exact hhash rfl
      have hrest : fs.getLast? ≠ some ['#'] := by
        cases fs with
        | nil => exact (Option.some_ne_none _).symm
        | cons g fs => rwa [List.getLast?_cons_cons] at hhash
      rw [List.mem_cons, not_or] at hplus
      cases ts with
      | nil =>
          simp only [matchLevels, Bool.and_eq_true, decide_eq_true_eq, hwild, false_iff]
          exact (List.cons_ne_nil f fs).symm
      | cons t ts =>
          simp only [matchLevels, Bool.or_eq_true, Bool.and_eq_true, decide_eq_true_eq, hwild,
            Ne.symm hplus.1, false_or, ih hplus.2 hrest, List.cons.injEq]
          exact and_congr_left' eq_comm

/-- A filter that ends in `#` matches what starts with its other levels. -/
theorem matchLevels_hash {fs ts : List CStr} (hplus : ['+'] ∉ fs) :
    matchLevels (fs ++ [['#']]) ts = true ↔ fs <+: ts := by
  induction fs generalizing ts with
  | nil => cases ts <;> simp [matchLevels]
  | cons f fs ih =>
      rw [List.mem_cons, not_or] at hplus
      cases ts with
      | nil => simp [matchLevels]
      | cons t ts =>
          have hne : fs ++ [['#']] ≠ [] := by simp
          simp only [List.cons_append, matchLevels, Bool.or_eq_true, Bool.and_eq_true, decide_eq_true_eq,
            hne, Ne.symm hplus.1, and_false, false_or, ih hplus.2, List.cons_prefix_cons]

theorem delivers_literal {filter topic : CStr} (hplus : ['+'] ∉ levels filter)
    (hhash : (levels filter).getLast? ≠ some ['#']) : Delivers filter topic ↔ topic = filter := by
  rw [Delivers, matchLevels_literal hplus hhash]
  exact ⟨levels_injective, fun h => by rw [h]⟩

end Mqtt
