import Mathlib.Data.List.Basic
import Mathlib.Data.List.Nodup
import Mathlib.Tactic

/-!
Rows with a key, as a relational table with a PRIMARY KEY holds them and as
an array searched by key holds them. The list functions are shared by both;
`Table` adds the uniqueness of keys as a field, so that a table with two rows
of one key cannot be built. Row order is the order in which rows are
scanned: an update keeps a row's place, an insertion goes to the end.
-/

namespace Keyed

section Lists

variable {ρ σ κ : Type} [DecidableEq κ] (key : ρ → κ)

/-- Overwrite the first row with the key of `x`, or append `x`. -/
def upsertBy (x : ρ) : List ρ → List ρ
  | [] => [x]
  | y :: ys => if key y = key x then x :: ys else y :: upsertBy x ys

/-- Remove the first row with key `k` and close the gap. -/
def eraseBy (k : κ) : List ρ → List ρ
  | [] => []
  | y :: ys => if key y = k then ys else y :: eraseBy k ys

/-- Change the first row with key `k`. -/
def modifyBy (k : κ) (f : ρ → ρ) : List ρ → List ρ
  | [] => []
  | y :: ys => if key y = k then f y :: ys else y :: modifyBy k f ys

def findBy (k : κ) (l : List ρ) : Option ρ := l.find? fun r => key r = k

def HasKey (k : κ) (l : List ρ) : Prop := ∃ r ∈ l, key r = k

instance (k : κ) (l : List ρ) : Decidable (HasKey key k l) :=
  inferInstanceAs (Decidable (∃ r ∈ l, key r = k))

variable {key}

omit [DecidableEq κ] in
theorem hasKey_iff_mem_map {k : κ} {l : List ρ} : HasKey key k l ↔ k ∈ l.map key := by
  simp [HasKey, List.mem_map]

theorem upsertBy_keys_of_hasKey {x : ρ} {l : List ρ} (h : HasKey key (key x) l) :
    (upsertBy key x l).map key = l.map key := by
  induction l with
  | nil => simp [HasKey] at h
  | cons y ys ih =>
      by_cases hy : key y = key x
      · simp [upsertBy, hy]
      · have hys : HasKey key (key x) ys := by
          obtain ⟨r, hr, hk⟩ := h
          rcases List.mem_cons.mp hr with rfl | hr
          · exact absurd hk hy
          · exact ⟨r, hr, hk⟩
        simp [upsertBy, hy, ih hys]

theorem upsertBy_of_not_hasKey {x : ρ} {l : List ρ} (h : ¬ HasKey key (key x) l) :
    upsertBy key x l = l ++ [x] := by
  induction l with
  | nil => rfl
  | cons y ys ih =>
      have hy : key y ≠ key x := fun hk => h ⟨y, by simp, hk⟩
      have hys : ¬ HasKey key (key x) ys := fun ⟨r, hr, hk⟩ => h ⟨r, by simp [hr], hk⟩
      simp [upsertBy, hy, ih hys]

theorem hasKey_upsertBy {x : ρ} {l : List ρ} {k : κ} :
    HasKey key k (upsertBy key x l) ↔ key x = k ∨ HasKey key k l := by
  by_cases hx : HasKey key (key x) l
  · rw [hasKey_iff_mem_map, upsertBy_keys_of_hasKey hx, ← hasKey_iff_mem_map]
    constructor
    · exact Or.inr
    · rintro (rfl | h)
      · exact hx
      · exact h
  · rw [upsertBy_of_not_hasKey hx, hasKey_iff_mem_map, hasKey_iff_mem_map]
    simp only [List.map_append, List.map_cons, List.map_nil, List.mem_append, List.mem_singleton,
      or_comm, eq_comm]

theorem nodup_upsertBy {x : ρ} {l : List ρ} (h : (l.map key).Nodup) :
    ((upsertBy key x l).map key).Nodup := by
  by_cases hx : HasKey key (key x) l
  · rwa [upsertBy_keys_of_hasKey hx]
  · rw [upsertBy_of_not_hasKey hx, List.map_append, List.nodup_append]
    refine ⟨h, by simp, ?_⟩
    intro k hk k' hk' heq
    simp only [List.map_cons, List.map_nil, List.mem_singleton] at hk'
    subst hk'
    subst heq
    exact hx (hasKey_iff_mem_map.mpr hk)

theorem length_upsertBy_of_hasKey {x : ρ} {l : List ρ} (h : HasKey key (key x) l) :
    (upsertBy key x l).length = l.length := by
  simpa using congrArg List.length (upsertBy_keys_of_hasKey h)

theorem length_eraseBy_le (k : κ) (l : List ρ) : (eraseBy key k l).length ≤ l.length := by
  induction l with
  | nil => exact Nat.le_refl _
  | cons y ys ih =>
      unfold eraseBy
      split
      · exact Nat.le_succ _
      · exact Nat.succ_le_succ ih

theorem length_modifyBy (k : κ) (f : ρ → ρ) (l : List ρ) :
    (modifyBy key k f l).length = l.length := by
  induction l with
  | nil => rfl
  | cons y ys ih =>
      unfold modifyBy
      split
      · rfl
      · exact congrArg Nat.succ ih

/-- Under unique keys an upsert changes exactly the row with the key of `x`. -/
theorem mem_upsertBy {x z : ρ} {l : List ρ} (h : (l.map key).Nodup) :
    z ∈ upsertBy key x l ↔ z = x ∨ (z ∈ l ∧ key z ≠ key x) := by
  induction l with
  | nil => simp [upsertBy]
  | cons y ys ih =>
      obtain ⟨hy, hys⟩ := List.nodup_cons.mp h
      by_cases hk : key y = key x
      · have hne : ∀ r ∈ ys, key r ≠ key x :=
          fun r hr heq => hy (hk ▸ heq ▸ List.mem_map_of_mem hr)
        simp only [upsertBy, hk, if_true, List.mem_cons]
        constructor
        · rintro (rfl | hz)
          · exact Or.inl rfl
          · exact Or.inr ⟨Or.inr hz, hne z hz⟩
        · rintro (rfl | ⟨rfl | hz, hzk⟩)
          · exact Or.inl rfl
          · exact absurd hk hzk
          · exact Or.inr hz
      · simp only [upsertBy, hk, if_false, List.mem_cons, ih hys]
        constructor
        · rintro (rfl | rfl | ⟨hz, hzk⟩)
          · exact Or.inr ⟨Or.inl rfl, hk⟩
          · exact Or.inl rfl
          · exact Or.inr ⟨Or.inr hz, hzk⟩
        · rintro (rfl | ⟨rfl | hz, hzk⟩)
          · exact Or.inr (Or.inl rfl)
          · exact Or.inl rfl
          · exact Or.inr (Or.inr ⟨hz, hzk⟩)

/-- Writing back a row that is already there changes nothing. -/
theorem upsertBy_self {x : ρ} {l : List ρ} (h : (l.map key).Nodup) (hx : x ∈ l) :
    upsertBy key x l = l := by
  induction l with
  | nil => simp at hx
  | cons y ys ih =>
      obtain ⟨hy, hys⟩ := List.nodup_cons.mp h
      rcases List.mem_cons.mp hx with rfl | hx
      · simp [upsertBy]
      · have hne : key y ≠ key x := fun heq => hy (heq ▸ List.mem_map_of_mem hx)
        simp [upsertBy, hne, ih hys hx]

/-- Changing a row in place is writing the changed row over it. -/
theorem modifyBy_eq_upsertBy {x : ρ} {f : ρ → ρ} (hf : key (f x) = key x) {l : List ρ}
    (h : (l.map key).Nodup) (hx : x ∈ l) :
    modifyBy key (key x) f l = upsertBy key (f x) l := by
  induction l with
  | nil => simp at hx
  | cons y ys ih =>
      obtain ⟨hy, hys⟩ := List.nodup_cons.mp h
      rcases List.mem_cons.mp hx with rfl | hx
      · simp [modifyBy, upsertBy, hf]
      · have hne : key y ≠ key x := fun heq => hy (heq ▸ List.mem_map_of_mem hx)
        simp [modifyBy, upsertBy, hf, hne, ih hys hx]

/-- A search by key commutes with a map that keeps keys. -/
theorem map_upsertBy {key' : σ → κ} (f : ρ → σ) (hf : ∀ r, key' (f r) = key r)
    (x : ρ) (l : List ρ) :
    (upsertBy key x l).map f = upsertBy key' (f x) (l.map f) := by
  induction l with
  | nil => rfl
  | cons y ys ih =>
      by_cases hy : key y = key x
      · simp [upsertBy, hf, hy]
      · simp [upsertBy, hf, hy, ih]

theorem eraseBy_eq_filter {k : κ} {l : List ρ} (h : (l.map key).Nodup) :
    eraseBy key k l = l.filter fun r => !decide (key r = k) := by
  induction l with
  | nil => rfl
  | cons y ys ih =>
      obtain ⟨hy, hys⟩ := List.nodup_cons.mp h
      by_cases hk : key y = k
      · subst hk
        have hrest : ys.filter (fun r => !decide (key r = key y)) = ys := by
          rw [List.filter_eq_self]
          intro r hr
          simpa using fun heq : key r = key y => hy (heq ▸ List.mem_map_of_mem hr)
        simp [eraseBy, hrest]
      · simp [eraseBy, hk, ih hys]

theorem hasKey_eraseBy {k k' : κ} {l : List ρ} (h : (l.map key).Nodup) :
    HasKey key k' (eraseBy key k l) ↔ HasKey key k' l ∧ k' ≠ k := by
  rw [eraseBy_eq_filter h]
  constructor
  · rintro ⟨r, hr, rfl⟩
    obtain ⟨hr, hne⟩ := List.mem_filter.mp hr
    exact ⟨⟨r, hr, rfl⟩, by simpa using hne⟩
  · rintro ⟨⟨r, hr, rfl⟩, hne⟩
    exact ⟨r, List.mem_filter.mpr ⟨hr, by simpa using hne⟩, rfl⟩

theorem modifyBy_eq_map {k : κ} {f : ρ → ρ} {l : List ρ} (h : (l.map key).Nodup) :
    modifyBy key k f l = l.map fun r => if key r = k then f r else r := by
  induction l with
  | nil => rfl
  | cons y ys ih =>
      obtain ⟨hy, hys⟩ := List.nodup_cons.mp h
      by_cases hk : key y = k
      · subst hk
        have hrest : ys.map (fun r => if key r = key y then f r else r) = ys := by
          apply (List.map_congr_left ?_).trans ys.map_id
          intro r hr
          have hne : key r ≠ key y := fun heq => hy (heq ▸ List.mem_map_of_mem hr)
          simp [hne]
        simp [modifyBy, hrest]
      · simp [modifyBy, hk, ih hys]

theorem modifyBy_keys {k : κ} {f : ρ → ρ} (hf : ∀ r, key (f r) = key r) (l : List ρ) :
    (modifyBy key k f l).map key = l.map key := by
  induction l with
  | nil => rfl
  | cons y ys ih =>
      by_cases hk : key y = k
      · simp [modifyBy, hk, hf]
      · simp [modifyBy, hk, ih]

theorem findBy_eq_some {k : κ} {l : List ρ} (h : (l.map key).Nodup) {r : ρ} :
    findBy key k l = some r ↔ r ∈ l ∧ key r = k := by
  constructor
  · intro hfind
    exact ⟨List.mem_of_find?_eq_some hfind, by simpa using List.find?_some hfind⟩
  · rintro ⟨hr, rfl⟩
    induction l with
    | nil => simp at hr
    | cons y ys ih =>
        obtain ⟨hy, hys⟩ := List.nodup_cons.mp h
        rcases List.mem_cons.mp hr with rfl | hr
        · simp [findBy]
        · have hne : key y ≠ key r := fun heq => hy (heq ▸ List.mem_map_of_mem hr)
          simpa [findBy, hne] using ih hys hr

/-- The rows with a key are the one that a search finds. -/
theorem filter_key_eq {k : κ} {l : List ρ} (h : (l.map key).Nodup) :
    (l.filter fun r => key r = k) = (findBy key k l).toList := by
  induction l with
  | nil => rfl
  | cons r l ih =>
      obtain ⟨hr, hl⟩ := List.nodup_cons.mp h
      by_cases hk : key r = k
      · have hnone : (l.filter fun r => key r = k) = [] := by
          rw [List.filter_eq_nil_iff]
          intro s hs heq
          exact hr (List.mem_map.mpr ⟨s, hs, (of_decide_eq_true heq).trans hk.symm⟩)
        rw [List.filter_cons_of_pos (by simpa using hk), hnone]
        simp [findBy, hk]
      · rw [List.filter_cons_of_neg (by simpa using hk), ih hl]
        simp [findBy, hk]

theorem findBy_eq_none {k : κ} {l : List ρ} : findBy key k l = none ↔ ¬ HasKey key k l := by
  simp [findBy, HasKey]

theorem findBy_map {key' : σ → κ} (f : ρ → σ) (hf : ∀ r, key' (f r) = key r) (k : κ)
    (l : List ρ) : findBy key' k (l.map f) = (findBy key k l).map f := by
  simp only [findBy, List.find?_map, Function.comp_def, hf]

/-- A change in place that keeps the key, seen by a search. -/
theorem findBy_modifyBy {k : κ} {f : ρ → ρ} (hf : ∀ r, key (f r) = key r) {l : List ρ} {r : ρ}
    (h : findBy key k l = some r) : findBy key k (modifyBy key k f l) = some (f r) := by
  induction l with
  | nil => cases h
  | cons y ys ih =>
      by_cases hy : key y = k
      · have hr : y = r := by simpa [findBy, hy] using h
        have hkey : key (f y) = k := (hf y).trans hy
        rw [modifyBy, if_pos hy, findBy, List.find?_cons_of_pos (by simpa using hkey), hr]
      · have hys : findBy key k ys = some r := by simpa [findBy, hy] using h
        rw [modifyBy, if_neg hy, findBy, List.find?_cons_of_neg (by simpa using hy)]
        exact ih hys

theorem findBy_upsertBy {x : ρ} {l : List ρ} (h : (l.map key).Nodup) (k : κ) :
    findBy key k (upsertBy key x l) = if key x = k then some x else findBy key k l := by
  ext z
  rw [findBy_eq_some (nodup_upsertBy h), mem_upsertBy h]
  by_cases hk : key x = k
  · subst hk
    simp only [if_true, Option.some.injEq]
    constructor
    · rintro ⟨rfl | ⟨-, hne⟩, heq⟩
      · rfl
      · exact absurd heq hne
    · rintro rfl
      exact ⟨Or.inl rfl, rfl⟩
  · simp only [hk, if_false, findBy_eq_some h]
    constructor
    · rintro ⟨rfl | ⟨hz, -⟩, heq⟩
      · exact absurd heq hk
      · exact ⟨hz, heq⟩
    · rintro ⟨hz, heq⟩
      exact ⟨Or.inr ⟨hz, fun hx => hk (hx.symm.trans heq)⟩, heq⟩

theorem findBy_eraseBy {l : List ρ} (h : (l.map key).Nodup) (k k' : κ) :
    findBy key k' (eraseBy key k l) = if k = k' then none else findBy key k' l := by
  rw [eraseBy_eq_filter h]
  ext z
  have hfilter : ((l.filter fun r => !decide (key r = k)).map key).Nodup :=
    (List.filter_sublist.map key).nodup h
  rw [findBy_eq_some hfilter, List.mem_filter]
  by_cases hk : k = k'
  · subst hk
    simp only [Bool.not_eq_true', decide_eq_false_iff_not, if_true, reduceCtorEq, iff_false]
    rintro ⟨⟨-, hne⟩, heq⟩
    exact hne heq
  · simp only [hk, if_false, findBy_eq_some h, Bool.not_eq_true', decide_eq_false_iff_not]
    constructor
    · rintro ⟨⟨hz, -⟩, heq⟩
      exact ⟨hz, heq⟩
    · rintro ⟨hz, heq⟩
      exact ⟨⟨hz, fun hz' => hk (hz'.symm.trans heq)⟩, heq⟩

omit [DecidableEq κ] in
/-- Under unique keys two rows with one key are the same row. -/
theorem eq_of_key_eq {l : List ρ} (h : (l.map key).Nodup) {r s : ρ} (hr : r ∈ l)
    (hs : s ∈ l) (hk : key r = key s) : r = s :=
  List.inj_on_of_nodup_map h hr hs hk

/-- `k` is none of the keys `ks`. -/
def outside (ks : List κ) (k : κ) : Bool := !decide (k ∈ ks)

@[simp] theorem outside_nil (k : κ) : outside [] k = true := by simp [outside]

@[simp] theorem outside_eq_true {ks : List κ} {k : κ} : outside ks k = true ↔ k ∉ ks := by
  simp [outside]

theorem outside_cons (a : κ) (ks : List κ) (k : κ) :
    outside (a :: ks) k = (outside ks k && !decide (k = a)) := by
  unfold outside
  rw [← Bool.not_or, ← Bool.decide_or]
  simp only [List.mem_cons, or_comm]

/-- Rows grouped by a key they refer to are a permutation of the rows. -/
theorem flatMap_filter_perm (f : σ → κ) (ks : List κ) (hks : ks.Nodup) (ms : List σ)
    (h : ∀ m ∈ ms, f m ∈ ks) :
    (ks.flatMap fun k => ms.filter fun m => decide (f m = k)).Perm ms := by
  induction ks generalizing ms with
  | nil =>
      have hms : ms = [] := List.eq_nil_iff_forall_not_mem.mpr fun m hm => by simpa using h m hm
      simp [hms]
  | cons k ks ih =>
      obtain ⟨hk, hks⟩ := List.nodup_cons.mp hks
      -- The remaining keys see only the rows that do not refer to `k`.
      have hrest : (ks.flatMap fun k' => ms.filter fun m => decide (f m = k')) =
          ks.flatMap fun k' =>
            (ms.filter fun m => !decide (f m = k)).filter fun m => decide (f m = k') := by
        apply List.flatMap_congr
        intro k' hk'
        rw [List.filter_filter]
        apply List.filter_congr
        intro m _
        by_cases hm : f m = k'
        · have hne : f m ≠ k := fun heq => hk (heq ▸ hm ▸ hk')
          simp [hm, hm ▸ hne]
        · simp [hm]
      rw [List.flatMap_cons, hrest]
      refine (List.Perm.append_left _ (ih hks _ ?_)).trans ?_
      · intro m hm
        obtain ⟨hm, hne⟩ := List.mem_filter.mp hm
        simp only [Bool.not_eq_true', decide_eq_false_iff_not] at hne
        exact (List.mem_cons.mp (h m hm)).resolve_left hne
      · exact List.filter_append_perm _ ms

/-- Of lists that each belong to one row, only that of `r` refers to `r`. -/
theorem filter_flatMap_key {f : ρ → List σ} {ref : σ → κ} {l : List ρ}
    (h : (l.map key).Nodup) (hf : ∀ r ∈ l, ∀ m ∈ f r, ref m = key r) {r : ρ} (hr : r ∈ l) :
    (l.flatMap f).filter (fun m => decide (ref m = key r)) = f r := by
  have hfar : ∀ ys : List ρ, (∀ y ∈ ys, y ∈ l ∧ key y ≠ key r) →
      (ys.flatMap f).filter (fun m => decide (ref m = key r)) = [] := by
    intro ys hys
    rw [List.filter_eq_nil_iff]
    intro m hm
    obtain ⟨y, hy, hm⟩ := List.mem_flatMap.mp hm
    obtain ⟨hyl, hne⟩ := hys y hy
    simpa [hf y hyl m hm] using hne
  have hown : (f r).filter (fun m => decide (ref m = key r)) = f r := by
    rw [List.filter_eq_self]
    intro m hm
    simpa using hf r hr m hm
  obtain ⟨as, bs, rfl⟩ := List.append_of_mem hr
  rw [List.map_append, List.map_cons, List.nodup_append, List.nodup_cons] at h
  obtain ⟨-, ⟨hbs, -⟩, has⟩ := h
  have hleft := hfar as fun y hy =>
    ⟨by simp [hy], has (key y) (List.mem_map_of_mem hy) (key r) (by simp)⟩
  have hright := hfar bs fun y hy =>
    ⟨by simp [hy], fun heq => hbs (heq ▸ List.mem_map_of_mem hy)⟩
  rw [List.flatMap_append, List.flatMap_cons, List.filter_append, List.filter_append, hleft,
    hown, hright]
  simp

end Lists

/-- The PRIMARY KEY columns of a row type. -/
class PrimaryKey (ρ : Type) (κ : outParam Type) where
  key : ρ → κ

section Tables

variable {ρ κ : Type} [PrimaryKey ρ κ]

open PrimaryKey (key)

/-- A table with a PRIMARY KEY. -/
@[ext]
structure Table (ρ : Type) {κ : Type} [PrimaryKey ρ κ] where
  rows : List ρ
  pk : (rows.map key).Nodup

instance [DecidableEq ρ] : DecidableEq (Table ρ) := fun a b =>
  decidable_of_iff (a.rows = b.rows) Table.ext_iff.symm

def Table.empty : Table ρ := ⟨[], List.nodup_nil⟩

@[simp] theorem Table.empty_rows : (Table.empty : Table ρ).rows = [] := rfl

/-- `DELETE .. WHERE p`. -/
def Table.deleteWhere (t : Table ρ) (p : ρ → Bool) : Table ρ :=
  ⟨t.rows.filter (!p ·), (List.filter_sublist.map key).nodup t.pk⟩

@[simp] theorem Table.deleteWhere_rows (t : Table ρ) (p : ρ → Bool) :
    (t.deleteWhere p).rows = t.rows.filter (!p ·) := rfl

/-- `UPDATE .. SET .. WHERE p` on columns that are not part of the key. -/
def Table.updateWhere (t : Table ρ) (p : ρ → Bool) (f : ρ → ρ)
    (hf : ∀ r, key (f r) = key r) : Table ρ :=
  ⟨t.rows.map fun r => if p r then f r else r, by
    have hkeys : (t.rows.map fun r => if p r then f r else r).map key = t.rows.map key := by
      rw [List.map_map]
      apply List.map_congr_left
      intro r _
      by_cases hp : p r <;> simp [hp, hf]
    rw [hkeys]
    exact t.pk⟩

@[simp] theorem Table.updateWhere_rows (t : Table ρ) (p : ρ → Bool) (f : ρ → ρ)
    (hf : ∀ r, key (f r) = key r) :
    (t.updateWhere p f hf).rows = t.rows.map fun r => if p r then f r else r := rfl

variable [DecidableEq κ]

def Table.find (t : Table ρ) (k : κ) : Option ρ := findBy key k t.rows

/-- Some row has key `k`. -/
def Table.Has (t : Table ρ) (k : κ) : Prop := HasKey key k t.rows

instance (t : Table ρ) (k : κ) : Decidable (t.Has k) :=
  inferInstanceAs (Decidable (HasKey key k t.rows))

/-- `INSERT .. ON CONFLICT(key) DO UPDATE SET` every other column. -/
def Table.upsert (t : Table ρ) (r : ρ) : Table ρ :=
  ⟨upsertBy key r t.rows, nodup_upsertBy t.pk⟩

@[simp] theorem Table.upsert_rows (t : Table ρ) (r : ρ) :
    (t.upsert r).rows = upsertBy key r t.rows := rfl

theorem Table.has_upsert (t : Table ρ) (r : ρ) (k : κ) :
    (t.upsert r).Has k ↔ key r = k ∨ t.Has k := hasKey_upsertBy

theorem Table.has_upsert_self (t : Table ρ) (r : ρ) : (t.upsert r).Has (key r) :=
  (t.has_upsert r (key r)).mpr (Or.inl rfl)

omit [DecidableEq κ] in
/-- The rows that a DELETE leaves. -/
theorem Table.has_deleteWhere (t : Table ρ) (p : ρ → Bool) (k : κ) :
    (t.deleteWhere p).Has k ↔ ∃ r ∈ t.rows, p r = false ∧ key r = k := by
  simp only [Table.Has, HasKey, Table.deleteWhere_rows, List.mem_filter, Bool.not_eq_true',
    and_assoc]

/-- `INSERT OR REPLACE`: the row with the same key goes, the new row is last. -/
def Table.replace (t : Table ρ) (r : ρ) : Table ρ :=
  ⟨t.rows.filter (fun s => !decide (key s = key r)) ++ [r], by
    rw [List.map_append, List.nodup_append]
    refine ⟨(List.filter_sublist.map key).nodup t.pk, by simp, ?_⟩
    intro k hk k' hk' heq
    simp only [List.map_cons, List.map_nil, List.mem_singleton] at hk'
    obtain ⟨s, hs, rfl⟩ := List.mem_map.mp hk
    have hne := (List.mem_filter.mp hs).2
    simp only [Bool.not_eq_true', decide_eq_false_iff_not] at hne
    exact hne (heq.trans hk')⟩

@[simp] theorem Table.replace_rows (t : Table ρ) (r : ρ) :
    (t.replace r).rows = t.rows.filter (fun s => !decide (key s = key r)) ++ [r] := rfl

/-- `INSERT OR IGNORE`. -/
def Table.insertOrIgnore (t : Table ρ) (r : ρ) : Table ρ :=
  if h : t.Has (key r) then t
  else ⟨t.rows ++ [r], by
    have hup := nodup_upsertBy (x := r) t.pk
    rwa [upsertBy_of_not_hasKey h] at hup⟩

theorem Table.find_eq_some (t : Table ρ) {k : κ} {r : ρ} :
    t.find k = some r ↔ r ∈ t.rows ∧ key r = k :=
  findBy_eq_some t.pk

theorem Table.find_eq_none (t : Table ρ) {k : κ} : t.find k = none ↔ ¬ t.Has k :=
  findBy_eq_none

/-- A search after an upsert. -/
theorem Table.find_upsert (t : Table ρ) (r : ρ) (k : κ) :
    (t.upsert r).find k = if key r = k then some r else t.find k :=
  findBy_upsertBy t.pk k

/-- A row that may be inserted is none of another key. -/
theorem Table.find_insertOrIgnore {t : Table ρ} {r : ρ} {k : κ} (h : key r ≠ k) :
    (t.insertOrIgnore r).find k = t.find k := by
  unfold Table.insertOrIgnore
  split
  · rfl
  · have hlast : [r].find? (fun s => key s = k) = none := List.find?_cons_of_neg (by simpa using h)
    rw [Table.find, findBy, List.find?_append, hlast]
    exact Option.or_none

/-- Rows written one after the other, with no two different rows of one key:
they are all there, next to the earlier rows with other keys. -/
theorem Table.mem_foldl_upsert (t : Table ρ) {rs : List ρ} {z : ρ}
    (h : ∀ r ∈ rs, ∀ s ∈ rs, key r = key s → r = s) :
    z ∈ (rs.foldl Table.upsert t).rows ↔
      z ∈ rs ∨ (z ∈ t.rows ∧ ∀ r ∈ rs, key z ≠ key r) := by
  induction rs generalizing t with
  | nil => simp
  | cons r rs ih =>
      have hrest : ∀ a ∈ rs, ∀ b ∈ rs, key a = key b → a = b :=
        fun a ha b hb => h a (List.mem_cons_of_mem r ha) b (List.mem_cons_of_mem r hb)
      rw [List.foldl_cons, ih (t.upsert r) hrest, Table.upsert_rows, mem_upsertBy t.pk]
      rw [List.mem_cons, List.forall_mem_cons]
      constructor
      · rintro (hz | ⟨rfl | ⟨hz, hne⟩, hrs⟩)
        · exact .inl (.inr hz)
        · exact .inl (.inl rfl)
        · exact .inr ⟨hz, hne, hrs⟩
      · rintro ((rfl | hz) | ⟨hz, hne, hrs⟩)
        · -- a later row of the same key is the same row
          by_cases hlater : z ∈ rs
          · exact .inl hlater
          · refine .inr ⟨.inl rfl, fun s hs hk => hlater ?_⟩
            rw [h z List.mem_cons_self s (List.mem_cons_of_mem z hs) hk]
            exact hs
        · exact .inl hz
        · exact .inr ⟨.inr ⟨hz, hne⟩, hrs⟩

theorem Table.find_updateWhere (t : Table ρ) (p : ρ → Bool) (f : ρ → ρ)
    (hf : ∀ r, key (f r) = key r) (k : κ) :
    (t.updateWhere p f hf).find k = (t.find k).map fun r => if p r then f r else r := by
  have hkey : ∀ r, key (if p r then f r else r) = key r := by
    intro r
    by_cases hp : p r <;> simp [hp, hf]
  simp only [Table.find, findBy, Table.updateWhere_rows, List.find?_map, Function.comp_def, hkey]

theorem Table.find_deleteWhere (t : Table ρ) (p : ρ → Bool) (k : κ)
    (hp : ∀ r ∈ t.rows, key r = k → p r = false) : (t.deleteWhere p).find k = t.find k := by
  ext s
  simp only [Table.find_eq_some, Table.deleteWhere_rows, List.mem_filter]
  constructor
  · rintro ⟨⟨hs, -⟩, hk⟩
    exact ⟨hs, hk⟩
  · rintro ⟨hs, hk⟩
    exact ⟨⟨hs, by simp [hp s hs hk]⟩, hk⟩

theorem Table.mem_replace (t : Table ρ) (r s : ρ) :
    s ∈ (t.replace r).rows ↔ (s ∈ t.rows ∧ key s ≠ key r) ∨ s = r := by
  simp [Table.replace_rows]

/-- Replacing by rows with distinct keys one by one leaves the rows with other
keys and then these, in their order. -/
theorem Table.foldl_replace_rows (t : Table ρ) (rs : List ρ) (h : (rs.map key).Nodup) :
    (rs.foldl Table.replace t).rows =
      t.rows.filter (fun s => outside (rs.map key) (key s)) ++ rs := by
  induction rs generalizing t with
  | nil => simp
  | cons r rs ih =>
      obtain ⟨hr, hrs⟩ := List.nodup_cons.mp h
      have hkeep : [r].filter (fun s => outside (rs.map key) (key s)) = [r] := by
        simpa using hr
      rw [List.foldl_cons, ih (t.replace r) hrs, Table.replace_rows, List.filter_append,
        List.filter_filter, hkeep, List.append_assoc, List.singleton_append]
      simp only [List.map_cons, outside_cons]

/-- The same for the rows of another table, changed in columns other than the
key. -/
theorem Table.foldl_replace_map_rows (t u : Table ρ) {f : ρ → ρ} (hf : ∀ r, key (f r) = key r) :
    ((u.rows.map f).foldl Table.replace t).rows =
      t.rows.filter (fun s => outside (u.rows.map key) (key s)) ++ u.rows.map f := by
  have hkeys : (u.rows.map f).map key = u.rows.map key := by
    rw [List.map_map]
    exact List.map_congr_left fun r _ => hf r
  rw [Table.foldl_replace_rows t _ (hkeys ▸ u.pk), hkeys]

/-- Rows written over a table that has no other keys are all that is left. -/
theorem Table.foldl_replace_eq (t u : Table ρ) {f : ρ → ρ} (hf : ∀ r ∈ u.rows, f r = r)
    (hkeys : ∀ s ∈ t.rows, u.Has (key s)) :
    ((u.rows.map f).foldl Table.replace t).rows = u.rows := by
  have hmap : u.rows.map f = u.rows := (List.map_congr_left hf).trans u.rows.map_id
  have hnone : t.rows.filter (fun s => outside (u.rows.map key) (key s)) = [] := by
    rw [List.filter_eq_nil_iff]
    intro s hs
    simpa using hasKey_iff_mem_map.mp (hkeys s hs)
  rw [hmap, Table.foldl_replace_rows t u.rows u.pk, hnone, List.nil_append]

end Tables

end Keyed
