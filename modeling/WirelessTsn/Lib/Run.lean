import Mathlib.Tactic

/-!
Runs of a deterministic system: a step function folded over a list of
operations. An invariant is proved once for a step and then holds along
every run; a property of steps is carried along a run by `AllSteps`.
-/

namespace Run

variable {σ α : Type} {step : σ → α → σ}

/-- The state after the operations in order. -/
def run (step : σ → α → σ) (s : σ) (ops : List α) : σ := ops.foldl step s

theorem run_cons (s : σ) (a : α) (ops : List α) : run step s (a :: ops) = run step (step s a) ops :=
  rfl

theorem run_append (s : σ) (as bs : List α) :
    run step s (as ++ bs) = run step (run step s as) bs :=
  List.foldl_append

/-- What every step preserves holds after every run. -/
theorem run_invariant {Inv : σ → Prop} (hstep : ∀ s a, Inv s → Inv (step s a)) {s : σ}
    (hs : Inv s) (ops : List α) : Inv (run step s ops) := by
  induction ops generalizing s with
  | nil => exact hs
  | cons a as ih => exact ih (hstep s a hs)

/-- Every step of a run, with the state it starts from, satisfies `P`. -/
def AllSteps (step : σ → α → σ) (P : σ → α → Prop) : σ → List α → Prop
  | _, [] => True
  | s, a :: as => P s a ∧ AllSteps step P (step s a) as

instance AllSteps.decidable {P : σ → α → Prop} [∀ s a, Decidable (P s a)] :
    ∀ (s : σ) (ops : List α), Decidable (AllSteps step P s ops)
  | _, [] => isTrue trivial
  | s, a :: as => @instDecidableAnd (P s a) _ _ (AllSteps.decidable (step s a) as)

/-- Step by step, `P` gives `Q` under an invariant that the `P`-steps keep. -/
theorem AllSteps.imp {P Q : σ → α → Prop} {Inv : σ → Prop}
    (hinv : ∀ s a, Inv s → P s a → Inv (step s a))
    (himp : ∀ s a, Inv s → P s a → Q s a) {s : σ} (hs : Inv s) {ops : List α}
    (h : AllSteps step P s ops) : AllSteps step Q s ops := by
  induction ops generalizing s with
  | nil => trivial
  | cons a as ih => exact ⟨himp s a hs h.1, ih (hinv s a hs h.1) h.2⟩

/-- An invariant that the `P`-steps keep holds after a run of them. -/
theorem AllSteps.run_invariant {P : σ → α → Prop} {Inv : σ → Prop}
    (hinv : ∀ s a, Inv s → P s a → Inv (step s a)) {s : σ} (hs : Inv s) {ops : List α}
    (h : AllSteps step P s ops) : Inv (run step s ops) := by
  induction ops generalizing s with
  | nil => exact hs
  | cons a as ih => exact ih (hinv s a hs h.1) h.2

/-- If a step keeps `Inv` exactly when it satisfies `P`, then `Inv` holds
along a run exactly when all its steps satisfy `P`. -/
theorem allSteps_inv_iff {P : σ → α → Prop} {Inv Base : σ → Prop}
    (hbase : ∀ s a, Base s → Base (step s a))
    (hiff : ∀ s a, Base s → Inv s → (Inv (step s a) ↔ P s a)) {s : σ} (hb : Base s)
    (hs : Inv s) {ops : List α} :
    AllSteps step (fun s a => Inv (step s a)) s ops ↔ AllSteps step P s ops := by
  induction ops generalizing s with
  | nil => exact Iff.rfl
  | cons a as ih =>
      constructor
      · rintro ⟨ha, has⟩
        exact ⟨(hiff s a hb hs).mp ha, (ih (hbase s a hb) ha).mp has⟩
      · rintro ⟨ha, has⟩
        have hnext := (hiff s a hb hs).mpr ha
        exact ⟨hnext, (ih (hbase s a hb) hnext).mpr has⟩

/-- Two step properties that agree under an invariant agree along runs. -/
theorem allSteps_congr {P Q : σ → α → Prop} {Inv : σ → Prop}
    (hinv : ∀ s a, Inv s → Inv (step s a)) (hiff : ∀ s a, Inv s → (P s a ↔ Q s a)) {s : σ}
    (hs : Inv s) {ops : List α} : AllSteps step P s ops ↔ AllSteps step Q s ops :=
  ⟨AllSteps.imp (fun s a h _ => hinv s a h) (fun s a h => (hiff s a h).mp) hs,
    AllSteps.imp (fun s a h _ => hinv s a h) (fun s a h => (hiff s a h).mpr) hs⟩

theorem allSteps_const {P : α → Prop} {s : σ} {ops : List α} :
    AllSteps step (fun _ a => P a) s ops ↔ ∀ a ∈ ops, P a := by
  induction ops generalizing s with
  | nil => simp [AllSteps]
  | cons a as ih => rw [AllSteps, ih, List.forall_mem_cons]

/-- Along a run means after every initial part of it. -/
theorem forall_prefix_iff {Inv : σ → Prop} {s : σ} (hs : Inv s) {ops : List α} :
    (∀ front, front <+: ops → Inv (run step s front)) ↔
      AllSteps step (fun s a => Inv (step s a)) s ops := by
  induction ops generalizing s with
  | nil =>
      refine ⟨fun _ => trivial, fun _ front hfront => ?_⟩
      rw [List.prefix_nil.mp hfront]
      exact hs
  | cons a as ih =>
      constructor
      · intro h
        have hnext : Inv (step s a) := h [a] (by simp)
        refine ⟨hnext, (ih hnext).mp fun front hfront => ?_⟩
        exact h (a :: front) (List.cons_prefix_cons.mpr ⟨rfl, hfront⟩)
      · rintro ⟨hnext, hrest⟩ front hfront
        cases front with
        | nil => exact hs
        | cons b front =>
            obtain ⟨rfl, htail⟩ := List.cons_prefix_cons.mp hfront
            exact (ih hnext).mpr hrest front htail

/-- Steps that all act on one component of the state. -/
theorem run_component {τ : Type} (set : τ → σ) {put : τ → α → τ} {ops : List α}
    (h : ∀ t, ∀ a ∈ ops, step (set t) a = set (put t a)) (t : τ) :
    run step (set t) ops = set (ops.foldl put t) := by
  induction ops generalizing t with
  | nil => rfl
  | cons a as ih =>
      have hrest := ih (fun t b hb => h t b (by simp [hb])) (put t a)
      rw [← h t a (by simp)] at hrest
      exact hrest

/-- Steps that another system follows, under an invariant, are followed along
every run of them. -/
theorem AllSteps.run_refines {τ β : Type} {step' : τ → β → τ} {P : σ → α → Prop} {Inv : σ → Prop}
    (abs : σ → τ) (event : α → β) (hinv : ∀ s a, Inv s → P s a → Inv (step s a))
    (hstep : ∀ s a, Inv s → P s a → abs (step s a) = step' (abs s) (event a)) {s : σ} (hs : Inv s)
    {ops : List α} (h : AllSteps step P s ops) :
    abs (run step s ops) = run step' (abs s) (ops.map event) := by
  induction ops generalizing s with
  | nil => rfl
  | cons a as ih =>
      rw [run_cons, List.map_cons, run_cons, ← hstep s a hs h.1]
      exact ih (hinv s a hs h.1) h.2

/-- If every step is followed, every run is. -/
theorem run_refines {τ β : Type} {step' : τ → β → τ} {Inv : σ → Prop} (abs : σ → τ) (event : α → β)
    (hinv : ∀ s a, Inv s → Inv (step s a))
    (hstep : ∀ s a, Inv s → abs (step s a) = step' (abs s) (event a)) {s : σ} (hs : Inv s)
    (ops : List α) : abs (run step s ops) = run step' (abs s) (ops.map event) :=
  AllSteps.run_refines (P := fun _ _ => True) abs event (fun s a h _ => hinv s a h)
    (fun s a h _ => hstep s a h) hs (allSteps_const.mpr fun _ _ => trivial)

/-- Two systems that each step keeps related are related after every run. -/
theorem run_related {τ : Type} {step' : τ → α → τ} {R : σ → τ → Prop}
    (hstep : ∀ s t a, R s t → R (step s a) (step' t a)) {s : σ} {t : τ} (h : R s t) (ops : List α) :
    R (run step s ops) (run step' t ops) := by
  induction ops generalizing s t with
  | nil => exact h
  | cons a as ih => exact ih (hstep s t a h)

/-- Steps that do nothing can be left out. -/
theorem run_filter {p : α → Bool} (h : ∀ s a, p a = false → step s a = s) (s : σ) (ops : List α) :
    run step s (ops.filter p) = run step s ops := by
  induction ops generalizing s with
  | nil => rfl
  | cons a as ih =>
      cases hp : p a with
      | true =>
          rw [List.filter_cons_of_pos hp]
          exact ih (step s a)
      | false =>
          rw [List.filter_cons_of_neg (by simp [hp]), ih, run_cons, h s a hp]

section History

variable {P : List α → α → Prop} {ops : List α}

/-- Every operation, with those before it, satisfies `P`. -/
def AllAfter (P : List α → α → Prop) (ops : List α) : Prop :=
  ∀ before a after, ops = before ++ a :: after → P before a

theorem allAfter_nil : AllAfter P [] := by
  intro before a after h
  simp at h

theorem allAfter_concat (ops : List α) (a : α) :
    AllAfter P (ops ++ [a]) ↔ AllAfter P ops ∧ P ops a := by
  constructor
  · intro h
    refine ⟨fun before b after hops => ?_, h ops a [] rfl⟩
    exact h before b (after ++ [a]) (by simp [hops])
  · rintro ⟨hops, ha⟩ before b after heq
    rcases List.eq_nil_or_concat after with rfl | ⟨after, c, rfl⟩
    · obtain ⟨rfl, hb⟩ := List.append_inj' heq rfl
      rw [List.singleton_inj] at hb
      exact hb ▸ ha
    · rw [List.concat_eq_append, ← List.cons_append, ← List.append_assoc] at heq
      exact hops before b after (List.append_inj' heq rfl).1

/-- What holds at first and is kept by an operation exactly when `P` says so
holds exactly when `P` holds of all of them. -/
theorem iff_allAfter {Q : List α → Prop} (hnil : Q [])
    (hconcat : ∀ ops a, Q (ops ++ [a]) ↔ Q ops ∧ P ops a) (ops : List α) :
    Q ops ↔ AllAfter P ops := by
  induction ops using List.reverseRecOn with
  | nil => exact iff_of_true hnil allAfter_nil
  | append_singleton ops a ih => rw [hconcat, allAfter_concat, ih]

end History

section Outputs

variable {β : Type} {emit : σ → α → σ × List β}

/-- The state part of a step that also puts something out. -/
def next (emit : σ → α → σ × List β) (s : σ) (a : α) : σ := (emit s a).1

/-- What a run puts out, in order. -/
def outputs (emit : σ → α → σ × List β) : σ → List α → List β
  | _, [] => []
  | s, a :: as => (emit s a).2 ++ outputs emit (next emit s a) as

/-- What every step puts out under an invariant, every run does. -/
theorem forall_outputs {Inv : σ → Prop} {Q : β → Prop} {ops : List α}
    (hstep : ∀ s, ∀ a ∈ ops, Inv s → Inv (next emit s a) ∧ ∀ b ∈ (emit s a).2, Q b) {s : σ}
    (hs : Inv s) : ∀ b ∈ outputs emit s ops, Q b := by
  induction ops generalizing s with
  | nil => simp [outputs]
  | cons a as ih =>
      obtain ⟨hnext, hout⟩ := hstep s a List.mem_cons_self hs
      intro b hb
      rcases List.mem_append.mp hb with hb | hb
      · exact hout b hb
      · exact ih (fun t c hc => hstep t c (List.mem_cons_of_mem a hc)) hnext b hb

end Outputs

section Writes

variable {evicts : α → α → Prop}

/-- A write that none of the later ones evicts. -/
def Survives (evicts : α → α → Prop) (as : List α) (a : α) : Prop :=
  ∃ before after, as = before ++ a :: after ∧ ∀ b ∈ after, ¬ evicts b a

theorem Survives.mem {as : List α} {a : α} (h : Survives evicts as a) : a ∈ as := by
  obtain ⟨before, after, rfl, -⟩ := h
  simp

theorem survives_concat (as : List α) (b a : α) :
    Survives evicts (as ++ [b]) a ↔ b = a ∨ (Survives evicts as a ∧ ¬ evicts b a) := by
  constructor
  · rintro ⟨before, after, heq, hnone⟩
    rcases List.eq_nil_or_concat after with rfl | ⟨after, c, rfl⟩
    · exact Or.inl (List.singleton_inj.mp (List.append_inj_right' heq rfl))
    · rw [List.concat_eq_append] at heq hnone
      rw [← List.cons_append, ← List.append_assoc] at heq
      obtain ⟨rfl, hb⟩ := List.append_inj' heq rfl
      rw [List.singleton_inj] at hb
      exact Or.inr ⟨⟨before, after, rfl, fun c' hc' => hnone c' (by simp [hc'])⟩,
        hb ▸ hnone c (by simp)⟩
  · rintro (rfl | ⟨⟨before, after, rfl, hnone⟩, hb⟩)
    · exact ⟨as, [], rfl, by simp⟩
    · refine ⟨before, after ++ [b], by simp, ?_⟩
      intro c hc
      rcases List.mem_append.mp hc with hc | hc
      · exact hnone c hc
      · exact List.mem_singleton.mp hc ▸ hb

/-- Of a write and those that evict it, one survives. -/
theorem exists_survives (htrans : ∀ a b c, evicts a b → evicts b c → evicts a c) {as : List α}
    {a : α} (h : a ∈ as) : ∃ b, Survives evicts as b ∧ (b = a ∨ evicts b a) := by
  induction as using List.reverseRecOn with
  | nil => simp at h
  | append_singleton as c ih =>
      by_cases hc : c = a ∨ evicts c a
      · exact ⟨c, (survives_concat as c c).mpr (Or.inl rfl), hc⟩
      · have hmem : a ∈ as := by
          rcases List.mem_append.mp h with h | h
          · exact h
          · exact absurd (Or.inl (List.mem_singleton.mp h).symm) hc
        obtain ⟨b, hb, hba⟩ := ih hmem
        refine ⟨b, (survives_concat as c b).mpr (Or.inr ⟨hb, fun hcb => hc ?_⟩), hba⟩
        rcases hba with rfl | hba
        · exact Or.inr hcb
        · exact Or.inr (htrans c b a hcb hba)

end Writes

end Run
