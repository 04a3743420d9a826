import Mathlib.Data.List.Forall2

/-!
# Steps that can fail

When a sequence of steps succeeds and which step it fails at, for steps that give a value or an error.
-/

namespace PolicyAnalysis.Checked

universe u v

variable {ε ε' : Type} {α β γ δ : Type u}

theorem bind_eq_ok {x : Except ε α} {f : α → Except ε β} {b : β} :
    (x >>= f) = .ok b ↔ ∃ a, x = .ok a ∧ f a = .ok b := by
  cases x <;> simp [bind, Except.bind]

theorem bind_eq_error {x : Except ε α} {f : α → Except ε β} {e : ε} :
    (x >>= f) = .error e ↔ x = .error e ∨ ∃ a, x = .ok a ∧ f a = .error e := by
  cases x <;> simp [bind, Except.bind]

theorem pure_eq_ok {a b : α} : (pure a : Except ε α) = .ok b ↔ a = b := by
  simp [pure, Except.pure]

theorem map_eq_ok {f : α → β} {x : Except ε α} {b : β} : f <$> x = .ok b ↔ ∃ a, x = .ok a ∧ f a = b := by
  cases x <;> simp [Functor.map, Except.map]

theorem except_map_eq_ok {α : Type u} {β : Type v} {f : α → β} {x : Except ε α} {b : β} :
    x.map f = .ok b ↔ ∃ a, x = .ok a ∧ f a = b := by
  cases x <;> simp [Except.map]

theorem except_map_eq_error {α : Type u} {β : Type v} {f : α → β} {x : Except ε α} {e : ε} :
    x.map f = .error e ↔ x = .error e := by
  cases x <;> simp [Except.map]

theorem map_eq_error {f : α → β} {x : Except ε α} {e : ε} : f <$> x = .error e ↔ x = .error e := by
  cases x <;> simp [Functor.map, Except.map]

theorem mapError_eq_ok {f : ε → ε'} {x : Except ε α} {a : α} : x.mapError f = .ok a ↔ x = .ok a := by
  cases x <;> simp [Except.mapError]

theorem mapError_eq_error {f : ε → ε'} {x : Except ε α} {e : ε'} :
    x.mapError f = .error e ↔ ∃ e', x = .error e' ∧ f e' = e := by
  cases x <;> simp [Except.mapError]

theorem discard_eq_ok {α : Type} {x : Except ε α} {u : Unit} : discard x = .ok u ↔ ∃ a, x = .ok a := by
  cases x <;> simp [discard, Functor.mapConst, Except.map]

theorem discard_eq_error {α : Type} {x : Except ε α} {e : ε} : discard x = .error e ↔ x = .error e := by
  cases x <;> simp [discard, Functor.mapConst, Except.map]

theorem forM_eq_ok {f : α → Except ε Unit} {l : List α} {u : Unit} :
    l.forM f = .ok u ↔ ∀ a ∈ l, f a = .ok () := by
  induction l with
  | nil => simp [pure, Except.pure]
  | cons a l ih =>
    rw [List.forall_mem_cons, ← ih, List.forM, bind_eq_ok]
    constructor
    · rintro ⟨⟨⟩, ha, h⟩
      exact ⟨ha, h⟩
    · rintro ⟨ha, h⟩
      exact ⟨(), ha, h⟩

theorem forM_eq_error {f : α → Except ε Unit} {l : List α} {e : ε} :
    l.forM f = .error e ↔
      ∃ before a after, l = before ++ a :: after ∧ (∀ x ∈ before, f x = .ok ()) ∧ f a = .error e := by
  induction l with
  | nil => simp [pure, Except.pure]
  | cons a l ih =>
    rw [List.forM, bind_eq_error]
    constructor
    · rintro (ha | ⟨⟨⟩, ha, h⟩)
      · exact ⟨[], a, l, rfl, by simp, ha⟩
      · obtain ⟨before, x, after, rfl, hbefore, hx⟩ := ih.mp h
        exact ⟨a :: before, x, after, rfl, List.forall_mem_cons.mpr ⟨ha, hbefore⟩, hx⟩
    · rintro ⟨before, x, after, hsplit, hbefore, hx⟩
      cases before with
      | nil =>
        obtain ⟨rfl, rfl⟩ := List.cons_eq_cons.mp hsplit
        exact Or.inl hx
      | cons y before =>
        obtain ⟨rfl, rfl⟩ := List.cons_eq_cons.mp hsplit
        obtain ⟨ha, hbefore⟩ := List.forall_mem_cons.mp hbefore
        exact Or.inr ⟨(), ha, ih.mpr ⟨before, x, after, rfl, hbefore, hx⟩⟩

theorem exists_of_forM_eq_error {f : α → Except ε Unit} {l : List α} {e : ε} (h : l.forM f = .error e) :
    ∃ a ∈ l, f a = .error e := by
  obtain ⟨before, a, after, rfl, -, ha⟩ := forM_eq_error.mp h
  exact ⟨a, List.mem_append_right before List.mem_cons_self, ha⟩

theorem mapM_eq_ok {f : α → Except ε β} {l : List α} {bs : List β} :
    l.mapM f = .ok bs ↔ List.Forall₂ (fun a b => f a = .ok b) l bs := by
  induction l generalizing bs with
  | nil =>
    rw [List.mapM_nil, pure_eq_ok, List.forall₂_nil_left_iff]
    exact eq_comm
  | cons a l ih =>
    rw [List.mapM_cons, bind_eq_ok, List.forall₂_cons_left_iff]
    constructor
    · rintro ⟨b, hb, h⟩
      obtain ⟨bs', hbs, h⟩ := bind_eq_ok.mp h
      exact ⟨b, bs', hb, ih.mp hbs, (pure_eq_ok.mp h).symm⟩
    · rintro ⟨b, bs', hb, hbs, rfl⟩
      exact ⟨b, hb, bind_eq_ok.mpr ⟨bs', ih.mpr hbs, rfl⟩⟩

theorem mem_iff_of_mapM {f : α → Except ε β} {l : List α} {bs : List β} (h : l.mapM f = .ok bs) {b : β} :
    b ∈ bs ↔ ∃ a ∈ l, f a = .ok b := by
  induction mapM_eq_ok.mp h with
  | nil => simp
  | @cons a b' l bs hab hrest ih =>
    have ih := ih (mapM_eq_ok.mpr hrest)
    rw [List.mem_cons, ih]
    constructor
    · rintro (rfl | ⟨a', ha', hab'⟩)
      · exact ⟨a, List.mem_cons_self, hab⟩
      · exact ⟨a', List.mem_cons_of_mem a ha', hab'⟩
    · rintro ⟨a', ha', hab'⟩
      rcases List.mem_cons.mp ha' with rfl | ha'
      · exact Or.inl (Except.ok.inj (hab'.symm.trans hab))
      · exact Or.inr ⟨a', ha', hab'⟩

theorem mem_flatten_of_mapM {f : α → Except ε (List β)} {l : List α} {rows : List (List β)}
    (h : l.mapM f = .ok rows) {b : β} : b ∈ rows.flatten ↔ ∃ a ∈ l, ∃ bs, f a = .ok bs ∧ b ∈ bs := by
  rw [List.mem_flatten]
  constructor
  · intro ⟨bs, hbs, hb⟩
    obtain ⟨a, ha, hf⟩ := (mem_iff_of_mapM h).mp hbs
    exact ⟨a, ha, bs, hf, hb⟩
  · intro ⟨a, ha, bs, hf, hb⟩
    exact ⟨bs, (mem_iff_of_mapM h).mpr ⟨a, ha, hf⟩, hb⟩

theorem pairwise_of_mapM {f : α → Except ε β} {l : List α} {bs : List β} (h : l.mapM f = .ok bs)
    {R : α → α → Prop} {S : β → β → Prop} (hl : l.Pairwise R)
    (hRS : ∀ a ∈ l, ∀ a' ∈ l, R a a' → ∀ b b', f a = .ok b → f a' = .ok b' → S b b') : bs.Pairwise S := by
  induction mapM_eq_ok.mp h with
  | nil => exact List.Pairwise.nil
  | @cons a b l bs hab hrest ih =>
    obtain ⟨ha, hl⟩ := List.pairwise_cons.mp hl
    have hbs := mapM_eq_ok.mpr hrest
    refine List.pairwise_cons.mpr ⟨?_, ?_⟩
    · intro b' hb'
      obtain ⟨a', ha', hab'⟩ := (mem_iff_of_mapM hbs).mp hb'
      exact hRS a List.mem_cons_self a' (List.mem_cons_of_mem a ha') (ha a' ha') b b' hab hab'
    · apply ih hbs hl
      intro a₁ h₁ a₂ h₂
      exact hRS a₁ (List.mem_cons_of_mem a h₁) a₂ (List.mem_cons_of_mem a h₂)

theorem exists_mapM_eq_ok {f : α → Except ε β} {l : List α} :
    (∃ bs, l.mapM f = .ok bs) ↔ ∀ a ∈ l, ∃ b, f a = .ok b := by
  induction l with
  | nil => simp [pure_eq_ok]
  | cons a l ih =>
    rw [List.forall_mem_cons, ← ih, List.mapM_cons]
    simp only [bind_eq_ok, pure_eq_ok]
    constructor
    · rintro ⟨bs, b, hb, bs', hbs, -⟩
      exact ⟨⟨b, hb⟩, bs', hbs⟩
    · rintro ⟨⟨b, hb⟩, bs', hbs⟩
      exact ⟨b :: bs', b, hb, bs', hbs, rfl⟩

theorem mapM_eq_ok_map {f : α → Except ε β} {g : α → β} {l : List α} (h : ∀ a ∈ l, f a = .ok (g a)) :
    l.mapM f = .ok (l.map g) := by
  rw [mapM_eq_ok, List.forall₂_map_right_iff, List.forall₂_same]
  exact h

theorem exists_of_option_mapM {f : α → Except ε β} {a : Option α} {b : Option β} (h : a.mapM f = .ok b) {y : β}
    (hy : y ∈ b) : ∃ x ∈ a, f x = .ok y := by
  cases a with
  | none =>
    cases pure_eq_ok.mp h
    cases hy
  | some x =>
    obtain ⟨y', hx, rfl⟩ := map_eq_ok.mp h
    cases hy
    exact ⟨x, rfl, hx⟩

theorem exists_filterM_eq_ok {α : Type} {f : α → Except ε Bool} {l : List α} (h : ∀ a ∈ l, ∃ b, f a = .ok b) :
    ∃ kept, l.filterM f = .ok kept ∧ ∀ a, a ∈ kept ↔ a ∈ l ∧ f a = .ok true := by
  -- The elements to keep are collected on a stack.
  have hstack (acc : List α) : ∃ kept, List.filterAuxM f l acc = .ok kept ∧
      ∀ a, a ∈ kept ↔ a ∈ acc ∨ a ∈ l ∧ f a = .ok true := by
    induction l generalizing acc with
    | nil => exact ⟨acc, rfl, by simp⟩
    | cons a l ih =>
      obtain ⟨⟨b, hb⟩, hl⟩ := List.forall_mem_cons.mp h
      obtain ⟨kept, hkept, hmem⟩ := ih hl (bif b then a :: acc else acc)
      refine ⟨kept, ?_, ?_⟩
      · rw [List.filterAuxM, hb]
        exact hkept
      · intro x
        rw [hmem, List.mem_cons]
        have hnew : x ∈ (bif b then a :: acc else acc) ↔ x ∈ acc ∨ x = a ∧ f a = .ok true := by
          cases b <;> simp [hb, or_comm]
        rw [hnew]
        constructor
        · rintro ((hx | ⟨rfl, hx⟩) | ⟨hx, hfx⟩)
          · exact Or.inl hx
          · exact Or.inr ⟨Or.inl rfl, hx⟩
          · exact Or.inr ⟨Or.inr hx, hfx⟩
        · rintro (hx | ⟨rfl | hx, hfx⟩)
          · exact Or.inl (Or.inl hx)
          · exact Or.inl (Or.inr ⟨rfl, hfx⟩)
          · exact Or.inr ⟨hx, hfx⟩
  obtain ⟨kept, hkept, hmem⟩ := hstack []
  refine ⟨kept.reverse, ?_, ?_⟩
  · rw [List.filterM, hkept]
    rfl
  · intro a
    rw [List.mem_reverse, hmem]
    simp

/-- The steps before the one that fails all succeed. -/
theorem mapM_eq_error {f : α → Except ε β} {l : List α} {e : ε} :
    l.mapM f = .error e ↔
      ∃ before a after, l = before ++ a :: after ∧ (∀ x ∈ before, ∃ b, f x = .ok b) ∧ f a = .error e := by
  induction l with
  | nil => simp [pure, Except.pure]
  | cons a l ih =>
    rw [List.mapM_cons, bind_eq_error]
    constructor
    · rintro (ha | ⟨b, hb, h⟩)
      · exact ⟨[], a, l, rfl, by simp, ha⟩
      · have hl : l.mapM f = .error e := by
          cases hl : l.mapM f with
          | error e' => simpa [hl, bind, Except.bind] using h
          | ok bs => simp [hl, bind, Except.bind, pure, Except.pure] at h
        obtain ⟨before, x, after, rfl, hbefore, hx⟩ := ih.mp hl
        refine ⟨a :: before, x, after, rfl, ?_, hx⟩
        exact List.forall_mem_cons.mpr ⟨⟨b, hb⟩, hbefore⟩
    · rintro ⟨before, x, after, hsplit, hbefore, hx⟩
      cases before with
      | nil =>
        obtain ⟨rfl, rfl⟩ := List.cons_eq_cons.mp hsplit
        exact Or.inl hx
      | cons y before =>
        obtain ⟨rfl, rfl⟩ := List.cons_eq_cons.mp hsplit
        obtain ⟨⟨b, hb⟩, hbefore⟩ := List.forall_mem_cons.mp hbefore
        refine Or.inr ⟨b, hb, bind_eq_error.mpr (Or.inl ?_)⟩
        exact ih.mpr ⟨before, x, after, rfl, hbefore, hx⟩

/-- What holds at the start and is kept by every step that succeeds holds at the end. -/
theorem foldlM_induction {f : β → α → Except ε β} {l : List α} {b b' : β} (motive : β → Prop)
    (h : l.foldlM f b = .ok b') (start : motive b)
    (step : ∀ a ∈ l, ∀ b b', motive b → f b a = .ok b' → motive b') : motive b' := by
  induction l generalizing b with
  | nil => exact pure_eq_ok.mp h ▸ start
  | cons a l ih =>
    rw [List.foldlM_cons, bind_eq_ok] at h
    obtain ⟨b₁, hb₁, h⟩ := h
    exact ih h (step a List.mem_cons_self b b₁ start hb₁) fun a ha => step a (List.mem_cons_of_mem _ ha)

/-- If only what is added at each step can fail, all of it can be worked out before anything is added. -/
theorem foldlM_eq_map_mapM {f : β → α → Except ε β} {g : α → Except ε γ} {add : β → γ → β}
    (hf : ∀ b a, f b a = add b <$> g a) (l : List α) (b : β) :
    l.foldlM f b = (fun cs => cs.foldl add b) <$> l.mapM g := by
  induction l generalizing b with
  | nil => rfl
  | cons a l ih =>
    rw [List.foldlM_cons, List.mapM_cons, hf]
    cases g a with
    | error e => rfl
    | ok c =>
      refine (ih (add b c)).trans ?_
      cases l.mapM g <;> rfl

theorem mapM_congr_forall₂ {f : α → Except ε γ} {g : β → Except ε γ} {as : List α} {bs : List β}
    (h : List.Forall₂ (fun a b => f a = g b) as bs) : as.mapM f = bs.mapM g := by
  induction h with
  | nil => rfl
  | cons hab _ ih => rw [List.mapM_cons, List.mapM_cons, hab, ih]

theorem foldlM_congr_forall₂ {f : γ → α → Except ε γ} {g : γ → β → Except ε γ} {as : List α} {bs : List β}
    (h : List.Forall₂ (fun a b => ∀ c, f c a = g c b) as bs) (c : γ) : as.foldlM f c = bs.foldlM g c := by
  induction h generalizing c with
  | nil => rfl
  | cons hab _ ih =>
    rw [List.foldlM_cons, List.foldlM_cons, hab]
    exact congrArg _ (funext ih)

/-- Two steps both fail, or both succeed with values that are related. -/
inductive Parallel (R : α → β → Prop) : Except ε α → Except ε β → Prop
  | ok {a : α} {b : β} : R a b → Parallel R (.ok a) (.ok b)
  | error (e e' : ε) : Parallel R (.error e) (.error e')

namespace Parallel

variable {R : α → β → Prop} {S : γ → δ → Prop} {x : Except ε α} {y : Except ε β}

theorem refl {R : α → α → Prop} (hR : ∀ a, R a a) (x : Except ε α) : Parallel R x x := by
  cases x with
  | ok a => exact .ok (hR a)
  | error e => exact .error e e

theorem exists_iff (h : Parallel R x y) : (∃ a, x = .ok a) ↔ ∃ b, y = .ok b := by
  cases h <;> simp

theorem related {a : α} {b : β} (h : Parallel R x y) (hx : x = .ok a) (hy : y = .ok b) : R a b := by
  cases h with
  | ok hab =>
    cases hx
    cases hy
    exact hab
  | error => cases hx

theorem of_exists_iff (h : (∃ a, x = .ok a) ↔ ∃ b, y = .ok b) (hR : ∀ a b, x = .ok a → y = .ok b → R a b) :
    Parallel R x y := by
  cases x with
  | ok a =>
    obtain ⟨b, rfl⟩ := h.mp ⟨a, rfl⟩
    exact .ok (hR a b rfl rfl)
  | error e =>
    cases y with
    | ok b =>
      obtain ⟨a, ha⟩ := h.mpr ⟨b, rfl⟩
      cases ha
    | error e' => exact .error e e'

theorem bind {f : α → Except ε γ} {g : β → Except ε δ} (h : Parallel R x y)
    (hfg : ∀ a b, R a b → Parallel S (f a) (g b)) : Parallel S (x >>= f) (y >>= g) := by
  cases h with
  | ok hab => exact hfg _ _ hab
  | error e e' => exact .error e e'

theorem bind_eq {x' : Except ε α} {f : α → Except ε γ} {g : α → Except ε δ} (h : Parallel Eq x x')
    (hfg : ∀ a, Parallel S (f a) (g a)) : Parallel S (x >>= f) (x' >>= g) := by
  refine h.bind ?_
  rintro a _ rfl
  exact hfg a

theorem bind_same {f : α → Except ε γ} {g : α → Except ε δ} (hfg : ∀ a, Parallel S (f a) (g a)) :
    Parallel S (x >>= f) (x >>= g) :=
  (Parallel.refl Eq.refl x).bind_eq hfg

theorem map {f : α → γ} {g : β → δ} (h : Parallel R x y) (hfg : ∀ a b, R a b → S (f a) (g b)) :
    Parallel S (f <$> x) (g <$> y) := by
  cases h with
  | ok hab => exact .ok (hfg _ _ hab)
  | error e e' => exact .error e e'

theorem discard {α β : Type} {R : α → β → Prop} {x : Except ε α} {y : Except ε β} (h : Parallel R x y) :
    Parallel Eq (discard x) (discard y) := by
  cases h with
  | ok _ => exact .ok rfl
  | error e e' => exact .error e e'

theorem forM {f g : α → Except ε Unit} (hfg : ∀ a, Parallel Eq (f a) (g a)) (l : List α) :
    Parallel Eq (l.forM f) (l.forM g) := by
  induction l with
  | nil => exact .ok rfl
  | cons a l ih => exact (hfg a).bind fun _ _ _ => ih

theorem mapM {T : α → β → Prop} {f : α → Except ε γ} {g : β → Except ε δ} {as : List α} {bs : List β}
    (h : List.Forall₂ T as bs) (hfg : ∀ a b, T a b → Parallel S (f a) (g b)) :
    Parallel (List.Forall₂ S) (as.mapM f) (bs.mapM g) := by
  induction h with
  | nil => exact .ok .nil
  | cons hab _ ih =>
    rw [List.mapM_cons, List.mapM_cons]
    refine (hfg _ _ hab).bind fun c d hcd => ih.bind fun cs ds hcds => ?_
    exact .ok (.cons hcd hcds)

theorem foldlM {T : α → β → Prop} {f : γ → α → Except ε γ} {g : δ → β → Except ε δ} {as : List α}
    {bs : List β} (h : List.Forall₂ T as bs) (hfg : ∀ a b c d, T a b → S c d → Parallel S (f c a) (g d b))
    {c : γ} {d : δ} (hcd : S c d) : Parallel S (as.foldlM f c) (bs.foldlM g d) := by
  induction h generalizing c d with
  | nil => exact .ok hcd
  | cons hab _ ih =>
    rw [List.foldlM_cons, List.foldlM_cons]
    exact (hfg _ _ _ _ hab hcd).bind fun _ _ hcd => ih hcd

theorem option_mapM {T : α → β → Prop} {f : α → Except ε γ} {g : β → Except ε γ} {a : Option α} {b : Option β}
    (h : Option.Rel T a b) (hfg : ∀ a b, T a b → Parallel Eq (f a) (g b)) :
    Parallel Eq (a.mapM f) (b.mapM g) := by
  cases h with
  | none => exact .ok rfl
  | some hab => exact (hfg _ _ hab).map fun _ _ => congrArg some

end Parallel

end PolicyAnalysis.Checked
