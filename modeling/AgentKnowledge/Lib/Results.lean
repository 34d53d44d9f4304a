import Mathlib

/-!
Reading fallible computations backwards.

A computation in `Except` that succeeded did so step by step: `bind_eq_ok`,
`mapError_eq_ok`, `forM_eq_ok` and the fold lemmas peel it apart, so that proofs
about a monadic function need not unfold the monad.
-/

namespace Results

variable {ε ε' α β σ : Type}

/-- Fail with an error if a condition holds. -/
def rejectIf (p : Prop) [Decidable p] (e : ε) : Except ε PUnit := if p then .error e else .ok ()

/-- The value of an option, or an error. -/
def ofOption (o : Option α) (e : ε) : Except ε α :=
  match o with
  | some a => .ok a
  | none => .error e

@[simp] theorem rejectIf_eq_ok {p : Prop} [Decidable p] {e : ε} {u : PUnit} :
    rejectIf p e = .ok u ↔ ¬ p := by
  by_cases hp : p <;> simp [rejectIf, hp]

@[simp] theorem rejectIf_eq_error {p : Prop} [Decidable p] {e d : ε} :
    rejectIf p e = .error d ↔ p ∧ e = d := by
  by_cases hp : p <;> simp [rejectIf, hp]

@[simp] theorem rejectIf_false {d : Decidable False} {e : ε} : rejectIf False e = .ok () :=
  if_neg id

@[simp] theorem rejectIf_true {d : Decidable True} {e : ε} : rejectIf True e = .error e :=
  if_pos trivial

@[simp] theorem ofOption_some {a : α} {e : ε} : ofOption (some a) e = .ok a := rfl

@[simp] theorem ofOption_none {e : ε} : (ofOption none e : Except ε α) = .error e := rfl

@[simp] theorem ofOption_eq_ok {o : Option α} {e : ε} {a : α} :
    ofOption o e = .ok a ↔ o = some a := by
  cases o <;> simp [ofOption]

@[simp] theorem ofOption_eq_error {o : Option α} {e d : ε} :
    ofOption o e = .error d ↔ o = none ∧ e = d := by
  cases o <;> simp [ofOption]

theorem exists_eq_ok_of_isOk {f : Except ε α} (h : f.isOk) : ∃ a, f = .ok a := by
  cases f with
  | error e => cases h
  | ok a => exact ⟨a, rfl⟩

/-- A result that is evaluated and checked. -/
theorem exists_ok_of_any {f : Except ε α} {p : α → Prop} [DecidablePred p]
    (h : f.toOption.any fun a => p a) : ∃ a, f = .ok a ∧ p a := by
  cases f with
  | error e => cases h
  | ok a => exact ⟨a, rfl, by simpa [Except.toOption] using h⟩

theorem bind_eq_ok {f : Except ε α} {g : α → Except ε β} {b : β} :
    (f >>= g) = .ok b ↔ ∃ a, f = .ok a ∧ g a = .ok b := by
  cases f with
  | error e => simp [bind, Except.bind]
  | ok a => simp [bind, Except.bind]

theorem bind_eq_error {f : Except ε α} {g : α → Except ε β} {e : ε} :
    (f >>= g) = .error e ↔ f = .error e ∨ ∃ a, f = .ok a ∧ g a = .error e := by
  cases f with
  | error e => simp [bind, Except.bind]
  | ok a => simp [bind, Except.bind]

/-- Two continuations that agree on the result of the first step. -/
theorem bind_congr_ok {f : Except ε α} {g g' : α → Except ε β}
    (h : ∀ a, f = .ok a → g a = g' a) : (f >>= g) = (f >>= g') := by
  cases f with
  | error e => rfl
  | ok a => exact h a rfl

/-- A step without a result leaves nothing to name. -/
theorem exists_unit {p : PUnit → Prop} : (∃ u, p u) ↔ p () :=
  ⟨fun ⟨⟨⟩, h⟩ => h, fun h => ⟨(), h⟩⟩

@[simp] theorem ok_bind {a : α} {g : α → Except ε β} : ((.ok a : Except ε α) >>= g) = g a := rfl

@[simp] theorem error_bind {e : ε} {g : α → Except ε β} :
    ((.error e : Except ε α) >>= g) = .error e := rfl

@[simp] theorem pure_eq_ok {a : α} : (pure a : Except ε α) = .ok a := rfl

@[simp] theorem throw_eq_error {e : ε} : (throw e : Except ε α) = .error e := rfl

theorem mapError_eq_ok {f : Except ε α} {h : ε → ε'} {a : α} :
    f.mapError h = .ok a ↔ f = .ok a := by
  cases f <;> simp [Except.mapError]

theorem mapError_eq_error {f : Except ε α} {h : ε → ε'} {e : ε'} :
    f.mapError h = .error e ↔ ∃ d, f = .error d ∧ h d = e := by
  cases f <;> simp [Except.mapError]

theorem forM_eq_ok {l : List α} {f : α → Except ε PUnit} :
    l.forM f = .ok () ↔ ∀ a ∈ l, f a = .ok () := by
  induction l with
  | nil => simp
  | cons a l ih =>
      change (f a >>= fun _ => l.forM f) = .ok () ↔ _
      rw [bind_eq_ok]
      simp only [List.mem_cons, forall_eq_or_imp]
      constructor
      · rintro ⟨⟨⟩, ha, hl⟩
        exact ⟨ha, ih.1 hl⟩
      · rintro ⟨ha, hl⟩
        exact ⟨(), ha, ih.2 hl⟩

/-- Calls that all succeed give a list of results. -/
theorem forall₂_of_mapM_eq_ok {f : α → Except ε β} {as : List α} {bs : List β}
    (h : as.mapM f = .ok bs) : List.Forall₂ (fun a b => f a = .ok b) as bs := by
  induction as generalizing bs with
  | nil =>
      obtain rfl := Except.ok.inj h
      exact .nil
  | cons a as ih =>
      simp only [List.mapM_cons, bind_eq_ok, pure_eq_ok, Except.ok.injEq] at h
      obtain ⟨b, hb, bs, hbs, rfl⟩ := h
      exact .cons hb (ih hbs)

/-- A map that undoes `f` on a list. -/
theorem mapM_map_eq_ok {f : α → β} {g : β → Except ε α} {l : List α}
    (h : ∀ a ∈ l, g (f a) = .ok a) : (l.map f).mapM g = .ok l := by
  induction l with
  | nil => rfl
  | cons a l ih =>
      rw [List.forall_mem_cons] at h
      rw [List.map_cons, List.mapM_cons, h.1, ok_bind, ih h.2]
      rfl

theorem exists_mapM_eq_ok {f : α → Except ε β} {as : List α} (h : ∀ a ∈ as, ∃ b, f a = .ok b) :
    ∃ bs, as.mapM f = .ok bs := by
  induction as with
  | nil => exact ⟨[], rfl⟩
  | cons a as ih =>
      obtain ⟨⟨b, hb⟩, has⟩ := List.forall_mem_cons.1 h
      obtain ⟨bs, hbs⟩ := ih has
      exact ⟨b :: bs, by rw [List.mapM_cons, hb, ok_bind, hbs]; rfl⟩


theorem foldlM_cons_eq_ok {f : σ → α → Except ε σ} {a : α} {l : List α} {s s' : σ} :
    (a :: l).foldlM f s = .ok s' ↔ ∃ r, f s a = .ok r ∧ l.foldlM f r = .ok s' := by
  rw [List.foldlM_cons, bind_eq_ok]

theorem foldlM_append_eq_ok {f : σ → α → Except ε σ} {l m : List α} {s s' : σ} :
    (l ++ m).foldlM f s = .ok s' ↔ ∃ r, l.foldlM f s = .ok r ∧ m.foldlM f r = .ok s' := by
  rw [List.foldlM_append, bind_eq_ok]

/-- What every successful step over a list keeps holds at the end of a successful fold. -/
theorem foldlM_induction_mem {f : σ → α → Except ε σ} {P : σ → Prop} {l : List α}
    (step : ∀ s, ∀ a ∈ l, ∀ s', P s → f s a = .ok s' → P s') {s s' : σ} (hs : P s)
    (h : l.foldlM f s = .ok s') : P s' := by
  induction l generalizing s with
  | nil =>
      cases h
      exact hs
  | cons a l ih =>
      obtain ⟨r, hr, hl⟩ := foldlM_cons_eq_ok.1 h
      exact ih (fun s b hb => step s b (List.mem_cons_of_mem _ hb))
        (step s a List.mem_cons_self r hs hr) hl

theorem foldlM_induction {f : σ → α → Except ε σ} {P : σ → Prop}
    (step : ∀ s a s', P s → f s a = .ok s' → P s') {l : List α} {s s' : σ} (hs : P s)
    (h : l.foldlM f s = .ok s') : P s' :=
  foldlM_induction_mem (fun s a _ s' => step s a s') hs h

/-! ### Errors a computation cannot have -/

/-- No error of the computation is bad. -/
def Avoids (bad : ε → Prop) (f : Except ε α) : Prop := ∀ e, f = .error e → ¬ bad e

variable {bad : ε → Prop}

theorem avoids_ok {a : α} : Avoids bad (.ok a) := by
  intro e h
  cases h

theorem Avoids.bind {f : Except ε α} {g : α → Except ε β} (hf : Avoids bad f)
    (hg : ∀ a, f = .ok a → Avoids bad (g a)) : Avoids bad (f >>= g) := by
  intro e h
  rcases bind_eq_error.1 h with h | ⟨a, ha, h⟩
  · exact hf e h
  · exact hg a ha e h

theorem avoids_rejectIf {p : Prop} [Decidable p] {e : ε} (h : ¬ bad e) :
    Avoids bad (rejectIf p e) := by
  intro d hd
  rw [← (rejectIf_eq_error.1 hd).2]
  exact h

theorem avoids_ofOption {o : Option α} {e : ε} (h : ¬ bad e) : Avoids bad (ofOption o e) := by
  intro d hd
  rw [← (ofOption_eq_error.1 hd).2]
  exact h

theorem avoids_mapError {f : Except ε' α} {g : ε' → ε} (h : ∀ e, ¬ bad (g e)) :
    Avoids bad (f.mapError g) := by
  intro d hd
  obtain ⟨e, -, rfl⟩ := mapError_eq_error.1 hd
  exact h e

/-- A fold avoids what its steps avoid under an invariant they keep. -/
theorem avoids_foldlM {f : σ → α → Except ε σ} {P : σ → Prop} {l : List α}
    (havoids : ∀ s, P s → ∀ a ∈ l, Avoids bad (f s a))
    (step : ∀ s, P s → ∀ a ∈ l, ∀ s', f s a = .ok s' → P s') {s : σ} (hs : P s) :
    Avoids bad (l.foldlM f s) := by
  induction l generalizing s with
  | nil => exact avoids_ok
  | cons a l ih =>
      rw [List.foldlM_cons]
      refine (havoids s hs a List.mem_cons_self).bind fun r hr => ?_
      exact ih (fun s hs b hb => havoids s hs b (List.mem_cons_of_mem _ hb))
        (fun s hs b hb => step s hs b (List.mem_cons_of_mem _ hb))
        (step s hs a List.mem_cons_self r hr)

/-- A fold that succeeds has got past each of its elements. -/
theorem exists_of_foldlM_eq_ok {ε σ α : Type} {f : σ → α → Except ε σ} {l : List α} {s s' : σ}
    (h : l.foldlM f s = .ok s') : ∀ a ∈ l, ∃ t t', f t a = .ok t' := by
  induction l generalizing s with
  | nil => simp
  | cons b l ih =>
      rw [List.foldlM_cons, bind_eq_ok] at h
      obtain ⟨middle, hb, hl⟩ := h
      exact List.forall_mem_cons.2 ⟨⟨s, middle, hb⟩, ih hl⟩

end Results
