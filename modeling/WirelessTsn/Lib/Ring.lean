import Mathlib.Data.List.Basic
import Mathlib.Tactic

/-!
A ring of `cap` cells that is written from its start and, once it is full, over
its oldest cells. What it holds is said of the whole list of what was pushed:
the element with number `m` lies in cell `m % cap` until `cap` further ones came.
-/

namespace Ring

variable {α : Type} {cap : Nat} {cells : Vector α cap} {xs : List α}

theorem get_set_self (i : Fin cap) (x : α) : (cells.set i x).get i = x :=
  Vector.getElem_set_self i.isLt

theorem get_set_ne {i j : Fin cap} (h : i ≠ j) (x : α) : (cells.set i x).get j = cells.get j :=
  Vector.getElem_set_ne i.isLt j.isLt fun heq => h (Fin.ext heq)

variable [NeZero cap]

/-- The cell whose turn it is after `m` pushes. -/
def turn (cap : Nat) [NeZero cap] (m : Nat) : Fin cap := Fin.ofNat cap m

@[simp] theorem turn_val (m : Nat) : (turn cap m).val = m % cap := rfl

/-- Each of the last `cap` elements pushed lies in its cell. -/
def Holds (cells : Vector α cap) (xs : List α) : Prop :=
  ∀ m < xs.length, xs.length ≤ m + cap → xs[m]? = some (cells.get (turn cap m))

theorem holds_nil (cells : Vector α cap) : Holds cells [] := nofun

/-- Numbers less than a round apart have different cells. -/
theorem turn_ne {m n : Nat} (hlt : m < n) (hnear : n < m + cap) : turn cap n ≠ turn cap m := by
  intro heq
  have hmod : m % cap = n % cap := (congrArg Fin.val heq).symm
  have hdvd : cap ∣ n - m := (Nat.modEq_iff_dvd' hlt.le).mp hmod
  have hle : cap ≤ n - m := Nat.le_of_dvd (by omega) hdvd
  omega

/-- A push goes to the cell whose turn it is. -/
theorem Holds.push (h : Holds cells xs) (x : α) {i : Nat} (hi : i < cap) (hturn : i = xs.length % cap) :
    Holds (cells.set i x hi) (xs ++ [x]) := by
  intro m hm hrecent
  subst hturn
  rw [List.length_append, List.length_singleton] at hm hrecent
  rcases Nat.lt_or_eq_of_le (Nat.le_of_lt_succ hm) with hold | rfl
  · have hother : (cells.set (xs.length % cap) x hi).get (turn cap m) = cells.get (turn cap m) :=
      get_set_ne (turn_ne hold (by omega)) x
    rw [hother, List.getElem?_append_left hold]
    exact h m hold (by omega)
  · have hself : (cells.set (xs.length % cap) x hi).get (turn cap xs.length) = x := get_set_self (turn cap xs.length) x
    rw [hself, List.getElem?_append_right le_rfl, Nat.sub_self]
    rfl

/-- The `count` cells from `start` on. -/
def window (cells : Vector α cap) (start count : Nat) : List α :=
  (List.range count).map fun i => cells.get (turn cap (start + i))

/-- Read from the oldest cell on, the ring gives the last elements in order. -/
theorem Holds.window (h : Holds cells xs) {start : Nat} (hstart : turn cap start = turn cap (xs.length - cap)) :
    window cells start (min xs.length cap) = xs.drop (xs.length - cap) := by
  apply List.ext_getElem?
  intro i
  rw [Ring.window, List.getElem?_map, List.getElem?_drop]
  rcases Nat.lt_or_ge i (min xs.length cap) with hi | hi
  · have hturn : turn cap (start + i) = turn cap (xs.length - cap + i) :=
      Fin.ext (Nat.ModEq.add_right i (congrArg Fin.val hstart))
    rw [List.getElem?_range hi, Option.map_some, hturn, h _ (by omega) (by omega)]
  · rw [List.getElem?_eq_none (by simpa using hi), List.getElem?_eq_none (by omega)]
    rfl

/-- The element pushed `i` pushes before the last one. -/
theorem Holds.recent (h : Holds cells xs) {i : Nat} (hi : i < min xs.length cap) :
    xs.reverse[i]? = some (cells.get (turn cap (xs.length - 1 - i))) := by
  rw [List.getElem?_reverse (by omega)]
  exact h _ (by omega) (by omega)

end Ring
