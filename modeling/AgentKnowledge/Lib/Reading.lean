import AgentKnowledge.Lib.Results

/-!
Computations that only read, through outside calls that may fail.

What a reader computes does not depend on the failures of its calls: a call that
fails only ends it. So a `Reading` is the list of the calls it makes, each with the
error its failure turns into, and the result it has when none of them fails.
`Reading.under` is the result under a given choice of failing calls, and
`Reading.under_eq_error` says where an error can come from.
-/

open Results

/-- A computation that reads: the calls it makes in order, with the place that
makes each one and the error a failure there turns into, and its own result. -/
structure Reading (κ ε α : Type) where
  calls : List (κ × ε)
  result : Except ε α

namespace Reading

variable {κ ε ε' α β : Type}

/-- One outside call without a result of its own. -/
def call (site : κ) (failure : ε) : Reading κ ε Unit := ⟨[(site, failure)], .ok ()⟩

/-- A computation that makes no call. -/
def lift (x : Except ε α) : Reading κ ε α := ⟨[], x⟩

def bind (r : Reading κ ε α) (f : α → Reading κ ε β) : Reading κ ε β :=
  match r.result with
  | .ok a => ⟨r.calls ++ (f a).calls, (f a).result⟩
  | .error e => ⟨r.calls, .error e⟩

instance : Monad (Reading κ ε) where
  pure a := lift (.ok a)
  bind := bind

/-- Wrap the errors, those of the calls included. -/
def mapError (r : Reading κ ε α) (f : ε → ε') : Reading κ ε' α :=
  ⟨r.calls.map fun call => (call.1, f call.2), r.result.mapError f⟩

/-- The same computation, with all its calls counted to one place. -/
def sited (site : κ) (r : Reading κ ε α) : Reading κ ε α :=
  ⟨r.calls.map fun call => (site, call.2), r.result⟩

/-- The result as a value: an error of the computation itself gives `none`, a failing call fails
with `failure`. -/
def attempt (failure : ε') (r : Reading κ ε α) : Reading κ ε' (Option α) :=
  ⟨r.calls.map fun call => (call.1, failure), .ok r.result.toOption⟩

/-! ### The result without failures -/

@[simp] theorem result_pure (a : α) : (pure a : Reading κ ε α).result = .ok a := rfl

@[simp] theorem result_lift (x : Except ε α) : (lift x : Reading κ ε α).result = x := rfl

@[simp] theorem result_call (site : κ) (failure : ε) : (call site failure).result = .ok () := rfl

@[simp] theorem result_mapError (r : Reading κ ε α) (f : ε → ε') :
    (r.mapError f).result = r.result.mapError f := rfl

@[simp] theorem result_attempt (failure : ε') (r : Reading κ ε α) :
    (r.attempt failure).result = .ok r.result.toOption := rfl

@[simp] theorem result_sited (site : κ) (r : Reading κ ε α) : (r.sited site).result = r.result := rfl

@[simp] theorem result_bind (r : Reading κ ε α) (f : α → Reading κ ε β) :
    (r >>= f).result = r.result >>= fun a => (f a).result := by
  change (bind r f).result = _
  unfold bind
  cases r.result <;> rfl

@[simp] theorem result_forM (l : List α) (f : α → Reading κ ε PUnit) :
    (l.forM f).result = l.forM fun a => (f a).result := by
  induction l with
  | nil => rfl
  | cons a l ih =>
      change (f a >>= fun _ => l.forM f).result = ((f a).result >>= fun _ => l.forM _)
      rw [result_bind, ih]

@[simp] theorem result_foldlM {σ : Type} (f : σ → α → Reading κ ε σ) (l : List α) (s : σ) :
    (l.foldlM f s).result = l.foldlM (fun s a => (f s a).result) s := by
  induction l generalizing s with
  | nil => rfl
  | cons a l ih =>
      rw [List.foldlM_cons, List.foldlM_cons, result_bind]
      exact bind_congr_ok fun r _ => ih r

/-! ### Where errors come from -/

/-- The errors of a reading: `P` is about those of its calls, `Q` about its own. -/
structure Errs (P : κ → ε → Prop) (Q : ε → Prop) (r : Reading κ ε α) : Prop where
  calls : ∀ call ∈ r.calls, P call.1 call.2
  own : ∀ e, r.result = .error e → Q e

variable {P : κ → ε → Prop} {Q : ε → Prop}

theorem errs_lift {x : Except ε α} (h : ∀ e, x = .error e → Q e) :
    Errs P Q (lift x : Reading κ ε α) where
  calls := by rintro call ⟨⟩
  own := h

theorem errs_pure (a : α) : Errs P Q (pure a : Reading κ ε α) :=
  errs_lift (by rintro e ⟨⟩)

theorem errs_rejectIf {p : Prop} [Decidable p] {e : ε} (h : Q e) :
    Errs P Q (lift (rejectIf p e) : Reading κ ε PUnit) := by
  refine errs_lift fun d hd => ?_
  rw [← (rejectIf_eq_error.1 hd).2]
  exact h

theorem errs_ofOption {o : Option α} {e : ε} (h : Q e) :
    Errs P Q (lift (ofOption o e) : Reading κ ε α) := by
  refine errs_lift fun d hd => ?_
  rw [← (ofOption_eq_error.1 hd).2]
  exact h

theorem errs_call {site : κ} {failure : ε} (h : P site failure) : Errs P Q (call site failure) where
  calls c hc := by
    rw [List.mem_singleton.1 hc]
    exact h
  own := by rintro e ⟨⟩

theorem Errs.bind {r : Reading κ ε α} {f : α → Reading κ ε β} (hr : Errs P Q r)
    (hf : ∀ a, r.result = .ok a → Errs P Q (f a)) : Errs P Q (r >>= f) := by
  change Errs P Q (Reading.bind r f)
  unfold Reading.bind
  split
  · rename_i a ha
    refine ⟨fun c hc => ?_, (hf a ha).own⟩
    rcases List.mem_append.1 hc with hc | hc
    · exact hr.calls c hc
    · exact (hf a ha).calls c hc
  · rename_i e he
    refine ⟨hr.calls, ?_⟩
    rintro d ⟨⟩
    exact hr.own e he

theorem Errs.mapError {P' : κ → ε' → Prop} {Q' : ε' → Prop} {r : Reading κ ε α} {f : ε → ε'}
    (h : Errs P Q r) (hP : ∀ site e, P site e → P' site (f e)) (hQ : ∀ e, Q e → Q' (f e)) :
    Errs P' Q' (r.mapError f) where
  calls c hc := by
    obtain ⟨call, hcall, rfl⟩ := List.mem_map.1 hc
    exact hP _ _ (h.calls call hcall)
  own e he := by
    obtain ⟨d, hd, rfl⟩ := mapError_eq_error.1 he
    exact hQ d (h.own d hd)

theorem errs_forM {l : List α} {f : α → Reading κ ε PUnit} (h : ∀ a ∈ l, Errs P Q (f a)) :
    Errs P Q (l.forM f) := by
  induction l with
  | nil => exact errs_pure _
  | cons a l ih =>
      exact (h a List.mem_cons_self).bind fun _ _ => ih fun b hb => h b (List.mem_cons_of_mem _ hb)

/-! ### Failing calls -/

/-- The calls of a list that fail first, with the failures still to come. One
entry of `faults` is used up by each call. -/
def expose : List (κ × ε) → List (κ → Bool) → Option ε × List (κ → Bool)
  | [], faults => (none, faults)
  | _ :: _, [] => (none, [])
  | (site, failure) :: calls, fault :: faults =>
      if fault site then (some failure, faults) else expose calls faults

/-- The result when the calls fail as `faults` says, and the failures left over. -/
def under (r : Reading κ ε α) (faults : List (κ → Bool)) : Except ε α × List (κ → Bool) :=
  match expose r.calls faults with
  | (some failure, rest) => (.error failure, rest)
  | (none, rest) => (r.result, rest)

theorem under_nil (r : Reading κ ε α) : r.under [] = (r.result, []) := by
  unfold under
  cases r.calls <;> rfl

/-- Without a failing call the result is the reader's own. -/
theorem under_of_quiet {r : Reading κ ε α} {faults : List (κ → Bool)}
    (h : ∀ fault ∈ faults, ∀ site, ¬ fault site) : (r.under faults).1 = r.result := by
  have hexpose : ∀ calls : List (κ × ε), (expose calls faults).1 = none := by
    intro calls
    induction calls generalizing faults with
    | nil => rfl
    | cons call calls ih =>
        cases faults with
        | nil => rfl
        | cons fault faults =>
            unfold expose
            rw [if_neg (h fault List.mem_cons_self call.1)]
            exact ih fun other hother => h other (List.mem_cons_of_mem _ hother)
  unfold under
  split
  · rename_i failure rest hfailure
    have hnone := hexpose r.calls
    rw [hfailure] at hnone
    cases hnone
  · rfl

theorem expose_suffix (calls : List (κ × ε)) (faults : List (κ → Bool)) :
    (expose calls faults).2 <:+ faults := by
  induction calls generalizing faults with
  | nil => exact List.suffix_refl _
  | cons call calls ih =>
      cases faults with
      | nil => exact List.suffix_refl _
      | cons fault faults =>
          unfold expose
          split
          · exact List.suffix_cons _ _
          · exact (ih faults).trans (List.suffix_cons _ _)

theorem expose_eq_some {calls : List (κ × ε)} {faults : List (κ → Bool)} {e : ε}
    (h : (expose calls faults).1 = some e) :
    ∃ call ∈ calls, call.2 = e ∧ ∃ fault ∈ faults, fault call.1 := by
  induction calls generalizing faults with
  | nil => cases h
  | cons call calls ih =>
      cases faults with
      | nil => cases h
      | cons fault faults =>
          unfold expose at h
          split at h
          · rename_i hfault
            exact ⟨call, List.mem_cons_self, Option.some.inj h, fault, List.mem_cons_self, hfault⟩
          · obtain ⟨other, hother, herror, hit⟩ := ih h
            obtain ⟨f, hf, hsite⟩ := hit
            exact ⟨other, List.mem_cons_of_mem _ hother, herror, f, List.mem_cons_of_mem _ hf, hsite⟩

theorem under_suffix (r : Reading κ ε α) (faults : List (κ → Bool)) :
    (r.under faults).2 <:+ faults := by
  have hsuffix := expose_suffix r.calls faults
  unfold under
  split <;> rename_i h <;> rw [h] at hsuffix <;> exact hsuffix

/-- A result that is not an error is the reader's own. -/
theorem result_of_under {r : Reading κ ε α} {faults : List (κ → Bool)} {a : α}
    (h : (r.under faults).1 = .ok a) : r.result = .ok a := by
  unfold under at h
  split at h
  · cases h
  · exact h

/-- An error is the reader's own or comes from a failing call. -/
theorem under_eq_error {r : Reading κ ε α} {faults : List (κ → Bool)} {e : ε}
    (h : (r.under faults).1 = .error e) :
    r.result = .error e ∨
      ∃ call ∈ r.calls, call.2 = e ∧ ∃ fault ∈ faults, fault call.1 := by
  unfold under at h
  split at h
  · rename_i failure rest hexpose
    cases h
    exact .inr (expose_eq_some (by rw [hexpose]))
  · exact .inl h

end Reading
