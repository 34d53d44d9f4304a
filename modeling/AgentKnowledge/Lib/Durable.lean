import AgentKnowledge.Lib.Reading
import Mathlib

/-!
Programs that change durable state one step at a time.

A `Program` is run from a state and with an oracle, which decides what the program
does not: the outside calls that fail, and the moves other parties make where the
program lets them (`yield`). It leaves a trail, the state after each durable step,
and a result. A crash is a cut of the trail.

`wp` is the usual weakest precondition with one addition: every step of the trail
must be allowed by a relation `R`, so a proof about a program is also a proof about
every state a crash can leave behind. `Lives` are runs in which programs follow one
another, each of them possibly cut; `Lives.induction` carries an invariant of `R`
through them. A `History` also keeps what was called and what was answered.

Most operations are `Straight`: a failing call only cuts them short. What they can do
is then known from their undisturbed run (`calmly`).
-/

open Results

namespace Durable

/-- What a run does not decide itself: for each outside call to come, the places at
which it fails, and the moves other parties make. -/
structure Oracle (ω κ : Type) where
  faults : List (κ → Bool)
  moves : List ω

/-- The oracle of an undisturbed run. -/
def Oracle.calm {ω κ : Type} : Oracle ω κ := ⟨[], []⟩

/-- Calls fail only at the places `F`, and others move only as `A` allows. -/
structure Oracle.Obeys {ω κ : Type} (F : κ → Prop) (A : ω → Prop) (o : Oracle ω κ) : Prop where
  faults : ∀ fault ∈ o.faults, ∀ site, fault site → F site
  moves : ∀ move ∈ o.moves, A move

/-- What a run leaves: the state after each durable step, the rest of the oracle and
the result. -/
structure Outcome (σ ω κ ε α : Type) where
  trail : List σ
  oracle : Oracle ω κ
  result : Except ε α

/-- The state after a run that started in `s`. -/
def Outcome.last {σ ω κ ε α : Type} (out : Outcome σ ω κ ε α) (s : σ) : σ := out.trail.getLastD s

def Program (σ ω κ ε α : Type) := σ → Oracle ω κ → Outcome σ ω κ ε α

namespace Program

variable {σ τ ω κ ε ε' α β : Type}

/-- A computation that neither reads nor writes. -/
def lift (x : Except ε α) : Program σ ω κ ε α := fun _ o => ⟨[], o, x⟩

def bind (p : Program σ ω κ ε α) (f : α → Program σ ω κ ε β) : Program σ ω κ ε β := fun s o =>
  let out := p s o
  match out.result with
  | .error e => ⟨out.trail, out.oracle, .error e⟩
  | .ok a =>
      let next := f a (out.last s) out.oracle
      ⟨out.trail ++ next.trail, next.oracle, next.result⟩

instance : Monad (Program σ ω κ ε) where
  pure a := lift (.ok a)
  bind := bind

/-- Read the state. -/
def read (r : σ → Reading κ ε α) : Program σ ω κ ε α := fun s o =>
  let (result, faults) := (r s).under o.faults
  ⟨[], { o with faults }, result⟩

/-- One durable step. -/
def step (f : σ → σ) : Program σ ω κ ε Unit := fun s o => ⟨[f s], o, .ok ()⟩

/-- A place where another party may move. -/
def yield (act : ω → σ → σ) : Program σ ω κ ε Unit := fun s o =>
  match o.moves with
  | [] => ⟨[], o, .ok ()⟩
  | move :: moves => ⟨[act move s], { o with moves }, .ok ()⟩

/-- Go on with `h` after an error. -/
def handle (p : Program σ ω κ ε α) (h : ε → Program σ ω κ ε' α) : Program σ ω κ ε' α := fun s o =>
  let out := p s o
  match out.result with
  | .ok a => ⟨out.trail, out.oracle, .ok a⟩
  | .error e =>
      let next := h e (out.last s) out.oracle
      ⟨out.trail ++ next.trail, next.oracle, next.result⟩

/-- The result as a value. -/
def attempt (p : Program σ ω κ ε α) : Program σ ω κ ε' (Except ε α) := fun s o =>
  let out := p s o
  ⟨out.trail, out.oracle, .ok out.result⟩

def mapError (p : Program σ ω κ ε α) (f : ε → ε') : Program σ ω κ ε' α := fun s o =>
  let out := p s o
  ⟨out.trail, out.oracle, out.result.mapError f⟩

/-- A program on a part of the state. -/
def zoom (get : τ → σ) (set : σ → τ → τ) (p : Program σ ω κ ε α) : Program τ ω κ ε α := fun t o =>
  let out := p (get t) o
  ⟨out.trail.map fun s => set s t, out.oracle, out.result⟩

section Equations

variable {p : Program σ ω κ ε α} {s : σ} {o : Oracle ω κ}

theorem bind_of_ok {f : α → Program σ ω κ ε β} {a : α} (h : (p s o).result = .ok a) :
    (p >>= f) s o =
      ⟨(p s o).trail ++ (f a ((p s o).last s) (p s o).oracle).trail,
        (f a ((p s o).last s) (p s o).oracle).oracle,
        (f a ((p s o).last s) (p s o).oracle).result⟩ := by
  change bind p f s o = _
  simp only [bind, h]

theorem bind_of_error {f : α → Program σ ω κ ε β} {e : ε} (h : (p s o).result = .error e) :
    (p >>= f) s o = ⟨(p s o).trail, (p s o).oracle, .error e⟩ := by
  change bind p f s o = _
  simp only [bind, h]

theorem handle_of_ok {g : ε → Program σ ω κ ε' α} {a : α} (h : (p s o).result = .ok a) :
    handle p g s o = ⟨(p s o).trail, (p s o).oracle, .ok a⟩ := by
  simp only [handle, h]

theorem handle_of_error {g : ε → Program σ ω κ ε' α} {e : ε} (h : (p s o).result = .error e) :
    handle p g s o =
      ⟨(p s o).trail ++ (g e ((p s o).last s) (p s o).oracle).trail,
        (g e ((p s o).last s) (p s o).oracle).oracle,
        (g e ((p s o).last s) (p s o).oracle).result⟩ := by
  simp only [handle, h]

end Equations

end Program

/-! ### Weakest preconditions -/

section Wp

variable {σ τ ω κ ε ε' α β : Type} {F : κ → Prop} {A : ω → Prop} {R : σ → σ → Prop}

/-- What a run leaves of its oracle. -/
structure Oracle.Leaves (F : κ → Prop) (A : ω → Prop) (o left : Oracle ω κ) : Prop where
  obeys : left.Obeys F A
  moves : left.moves.length ≤ o.moves.length

theorem Oracle.Obeys.leaves {o : Oracle ω κ} (h : o.Obeys F A) : o.Leaves F A o := ⟨h, le_rfl⟩

theorem Oracle.Leaves.trans {o o' o'' : Oracle ω κ} (h : o.Leaves F A o') (h' : o'.Leaves F A o'') :
    o.Leaves F A o'' :=
  ⟨h'.obeys, h'.moves.trans h.moves⟩

/-- Every run from `s` takes only steps `R` allows and ends in `Q` or, with an
error, in `E`. -/
def wp (F : κ → Prop) (A : ω → Prop) (R : σ → σ → Prop) (p : Program σ ω κ ε α)
    (Q : α → σ → Prop) (E : ε → σ → Prop) (s : σ) : Prop :=
  ∀ o : Oracle ω κ, o.Obeys F A →
    List.IsChain R (s :: (p s o).trail) ∧ o.Leaves F A (p s o).oracle ∧
      (∀ a, (p s o).result = .ok a → Q a ((p s o).last s)) ∧
      ∀ e, (p s o).result = .error e → E e ((p s o).last s)

variable {Q Q' : α → σ → Prop} {E E' : ε → σ → Prop} {s : σ}

theorem wp_mono {p : Program σ ω κ ε α} (h : wp F A R p Q E s) (hQ : ∀ a s, Q a s → Q' a s)
    (hE : ∀ e s, E e s → E' e s) : wp F A R p Q' E' s := by
  intro o ho
  obtain ⟨hchain, hleaves, hok, herror⟩ := h o ho
  exact ⟨hchain, hleaves, fun a ha => hQ _ _ (hok a ha), fun e he => hE _ _ (herror e he)⟩

theorem wp_lift {x : Except ε α} (hok : ∀ a, x = .ok a → Q a s)
    (herror : ∀ e, x = .error e → E e s) : wp F A R (Program.lift x) Q E s :=
  fun _ ho => ⟨.singleton _, ho.leaves, hok, herror⟩

theorem wp_pure {a : α} (h : Q a s) : wp F A R (pure a) Q E s :=
  wp_lift (by rintro _ ⟨⟩; exact h) (by rintro _ ⟨⟩)

theorem isChain_append_last {s : σ} {l m : List σ} (hl : List.IsChain R (s :: l))
    (hm : List.IsChain R (l.getLastD s :: m)) : List.IsChain R (s :: (l ++ m)) := by
  induction l generalizing s with
  | nil => exact hm
  | cons a l ih =>
      rw [List.isChain_cons_cons] at hl
      rw [List.cons_append, List.isChain_cons_cons]
      rw [List.getLastD_cons] at hm
      exact ⟨hl.1, ih hl.2 hm⟩

theorem getLastD_append (l m : List σ) (s : σ) :
    (l ++ m).getLastD s = m.getLastD (l.getLastD s) := by
  induction l generalizing s with
  | nil => rfl
  | cons a l ih => simp only [List.cons_append, List.getLastD_cons, ih]

theorem wp_bind {p : Program σ ω κ ε α} {f : α → Program σ ω κ ε β} {Q : β → σ → Prop}
    (h : wp F A R p (fun a s => wp F A R (f a) Q E s) E s) : wp F A R (p >>= f) Q E s := by
  intro o ho
  obtain ⟨hchain, hleaves, hok, herror⟩ := h o ho
  cases hresult : (p s o).result with
  | error e =>
      rw [Program.bind_of_error hresult]
      refine ⟨hchain, hleaves, by rintro b ⟨⟩, ?_⟩
      rintro e ⟨⟩
      exact herror e hresult
  | ok a =>
      rw [Program.bind_of_ok hresult]
      obtain ⟨hchain', hleaves', hok', herror'⟩ := hok a hresult _ hleaves.obeys
      refine ⟨isChain_append_last hchain hchain', hleaves.trans hleaves', fun b hb => ?_,
        fun e he => ?_⟩
      · rw [Outcome.last, getLastD_append]
        exact hok' b hb
      · rw [Outcome.last, getLastD_append]
        exact herror' e he

theorem wp_handle {p : Program σ ω κ ε α} {h : ε → Program σ ω κ ε' α} {E : ε' → σ → Prop}
    (hp : wp F A R p Q (fun e s => wp F A R (h e) Q E s) s) :
    wp F A R (Program.handle p h) Q E s := by
  intro o ho
  obtain ⟨hchain, hleaves, hok, herror⟩ := hp o ho
  cases hresult : (p s o).result with
  | ok a =>
      rw [Program.handle_of_ok hresult]
      refine ⟨hchain, hleaves, ?_, by rintro e ⟨⟩⟩
      rintro b ⟨⟩
      exact hok a hresult
  | error e =>
      rw [Program.handle_of_error hresult]
      obtain ⟨hchain', hleaves', hok', herror'⟩ := herror e hresult _ hleaves.obeys
      refine ⟨isChain_append_last hchain hchain', hleaves.trans hleaves', fun b hb => ?_,
        fun e he => ?_⟩
      · rw [Outcome.last, getLastD_append]
        exact hok' b hb
      · rw [Outcome.last, getLastD_append]
        exact herror' e he

theorem wp_attempt {p : Program σ ω κ ε α} {Q : Except ε α → σ → Prop} {E : ε' → σ → Prop}
    (h : wp F A R p (fun a s => Q (.ok a) s) (fun e s => Q (.error e) s) s) :
    wp F A R (Program.attempt p) Q E s := by
  intro o ho
  obtain ⟨hchain, hleaves, hok, herror⟩ := h o ho
  refine ⟨hchain, hleaves, ?_, by rintro e ⟨⟩⟩
  rintro result ⟨⟩
  cases hresult : (p s o).result with
  | ok a => exact hok a hresult
  | error e => exact herror e hresult

theorem wp_read {r : σ → Reading κ ε α} (hok : ∀ a, (r s).result = .ok a → Q a s)
    (herror : ∀ e, (r s).result = .error e → E e s)
    (hcall : ∀ call ∈ (r s).calls, F call.1 → E call.2 s) :
    wp F A R (Program.read r) Q E s := by
  intro o ho
  refine ⟨.singleton _, ⟨⟨?_, ho.moves⟩, le_rfl⟩, fun a ha => hok a (Reading.result_of_under ha), fun e he => ?_⟩
  · intro fault hfault site hsite
    exact ho.faults fault (((r s).under_suffix o.faults).subset hfault) site hsite
  · rcases Reading.under_eq_error he with he | ⟨call, hmem, rfl, fault, hfault, hsite⟩
    · exact herror e he
    · exact hcall call hmem (ho.faults fault hfault _ hsite)

theorem wp_step {f : σ → σ} {Q : Unit → σ → Prop} (hstep : R s (f s)) (h : Q () (f s)) :
    wp F A R (Program.step f) Q E s := by
  intro o ho
  refine ⟨.cons_cons hstep (.singleton _), ho.leaves, fun a _ => h, ?_⟩
  rintro e ⟨⟩

theorem wp_yield {act : ω → σ → σ} {Q : Unit → σ → Prop} (hstay : Q () s)
    (hmove : ∀ move, A move → R s (act move s) ∧ Q () (act move s)) :
    wp F A R (Program.yield act) Q E s := by
  intro o ho
  unfold Program.yield
  split
  · exact ⟨.singleton _, ho.leaves, fun _ _ => hstay, by rintro e ⟨⟩⟩
  · rename_i move moves hmoves
    have hallowed : A move := ho.moves move (by rw [hmoves]; exact List.mem_cons_self)
    refine ⟨.cons_cons (hmove move hallowed).1 (.singleton _), ⟨⟨ho.faults, ?_⟩, by simp [hmoves]⟩,
      fun _ _ => (hmove move hallowed).2, by rintro e ⟨⟩⟩
    intro other hother
    exact ho.moves other (by rw [hmoves]; exact List.mem_cons_of_mem _ hother)

/-- A loop that carries a value. -/
theorem wp_foldlM {f : β → α → Program σ ω κ ε β} {I : List α → β → σ → Prop} {E : ε → σ → Prop}
    {l : List α} {b : β} (hI : I l b s)
    (hstep : ∀ a rest b s, I (a :: rest) b s →
      wp F A R (f b a) (fun b s => I rest b s) E s) :
    wp F A R (l.foldlM f b) (fun b s => I [] b s) E s := by
  induction l generalizing b s with
  | nil => exact wp_pure hI
  | cons a l ih =>
      rw [List.foldlM_cons]
      exact wp_bind (wp_mono (hstep a l b s hI) (fun _ _ h => ih h) fun _ _ h => h)

/-- A program on a part, seen from the whole. -/
theorem wp_zoom {S : τ → τ → Prop} {get : τ → σ} {set : σ → τ → τ} {p : Program σ ω κ ε α}
    {Q : α → τ → Prop} {E : ε → τ → Prop} {t : τ} (hset : set (get t) t = t)
    (hR : ∀ s s', R s s' → S (set s t) (set s' t))
    (h : wp F A R p (fun a s => Q a (set s t)) (fun e s => E e (set s t)) (get t)) :
    wp F A S (Program.zoom get set p) Q E t := by
  intro o ho
  obtain ⟨hchain, hleaves, hok, herror⟩ := h o ho
  have hlast : (Program.zoom get set p t o).last t = set ((p (get t) o).last (get t)) t := by
    change ((p (get t) o).trail.map fun s => set s t).getLastD t =
      set ((p (get t) o).trail.getLastD (get t)) t
    generalize (p (get t) o).trail = trail
    rcases List.eq_nil_or_concat trail with rfl | ⟨init, s', rfl⟩
    · exact hset.symm
    · simp
  refine ⟨?_, hleaves, fun a ha => ?_, fun e he => ?_⟩
  · change List.IsChain S (t :: (p (get t) o).trail.map fun s => set s t)
    have hmap := (List.isChain_map (R := S) (fun s => set s t)).2 (hchain.imp fun s s' => hR s s')
    rwa [List.map_cons, hset] at hmap
  · rw [hlast]
    exact hok a ha
  · rw [hlast]
    exact herror e he

theorem Oracle.calm_obeys : (Oracle.calm : Oracle ω κ).Obeys F A where
  faults := by rintro fault ⟨⟩
  moves := by rintro move ⟨⟩

end Wp

/-! ### Runs of programs that may be cut -/

section Lives

variable {σ : Type} {Trail : σ → List σ → Prop} {R : σ → σ → Prop}

/-- The states reached when programs follow one another from `start`; `Trail s trail`
says that one of them, begun in `s`, can leave this trail, and a crash keeps the
first `cut` steps of it. -/
inductive Lives (Trail : σ → List σ → Prop) (start : σ) : σ → Prop where
  | start : Lives Trail start start
  | live {s : σ} {trail : List σ} (cut : Nat) (before : Lives Trail start s)
      (runs : Trail s trail) : Lives Trail start ((trail.take cut).getLastD s)

theorem reflTransGen_getLastD {s : σ} {trail : List σ} (h : List.IsChain R (s :: trail)) :
    Relation.ReflTransGen R s (trail.getLastD s) := by
  induction trail generalizing s with
  | nil => exact .refl
  | cons a trail ih =>
      rw [List.isChain_cons_cons] at h
      rw [List.getLastD_cons]
      exact .head h.1 (ih h.2)

theorem isChain_take {s : σ} {trail : List σ} (h : List.IsChain R (s :: trail)) (cut : Nat) :
    List.IsChain R (s :: trail.take cut) := by
  have htake := h.take (cut + 1)
  rwa [List.take_succ_cons] at htake

/-! The cuts of short trails. -/

theorem prefix_pair {l : List σ} {a b : σ} (h : l <+: [a, b]) :
    l = [] ∨ l = [a] ∨ l = [a, b] := by
  match l, h with
  | [], _ => exact .inl rfl
  | [c], h => exact .inr (.inl (by simpa using h))
  | c :: d :: l, h => exact .inr (.inr (by simpa using h))

theorem prefix_single {l : List σ} {a : σ} (h : l <+: [a]) : l = [] ∨ l = [a] := by
  rcases prefix_pair (h.trans (List.prefix_append [a] [a])) with rfl | rfl | rfl
  · exact .inl rfl
  · exact .inr rfl
  · simp at h

/-- Along a chain, what every step keeps holds at the end. -/
theorem isChain_getLastD {P : σ → Prop} {s : σ} {trail : List σ} (h : List.IsChain R (s :: trail))
    (hs : P s) (hstep : ∀ s s', P s → R s s' → P s') : P (trail.getLastD s) := by
  induction trail generalizing s with
  | nil => exact hs
  | cons a trail ih =>
      rw [List.isChain_cons_cons] at h
      rw [List.getLastD_cons]
      exact ih h.2 (hstep s a hs h.1)

/-- Along a chain, what every step keeps holds everywhere, and the end is reached from
everywhere. -/
theorem isChain_mem {P : σ → Prop} {s : σ} {trail : List σ} (h : List.IsChain R (s :: trail))
    (hs : P s) (hstep : ∀ s s', P s → R s s' → P s') :
    ∀ v ∈ trail, P v ∧ Relation.ReflTransGen R v (trail.getLastD s) := by
  induction trail generalizing s with
  | nil => simp
  | cons a trail ih =>
      rw [List.isChain_cons_cons] at h
      have ha : P a := hstep s a hs h.1
      intro v hv
      rw [List.getLastD_cons]
      rcases List.mem_cons.1 hv with rfl | hv
      · exact ⟨ha, reflTransGen_getLastD h.2⟩
      · exact ih h.2 ha v hv

/-- What the start satisfies and every allowed step keeps holds in every state that
is reached; the trails are only looked at where it holds. -/
theorem Lives.induction {P : σ → Prop} {start s : σ} (h : Lives Trail start s)
    (hR : ∀ s trail, P s → Trail s trail → List.IsChain R (s :: trail)) (hstart : P start)
    (hstep : ∀ s s', P s → R s s' → P s') : P s := by
  induction h with
  | start => exact hstart
  | live cut before runs ih => exact isChain_getLastD (isChain_take (hR _ _ ih runs) cut) ih hstep

end Lives

/-! ### Programs that failing calls only cut short -/

section Straight

variable {σ ω κ ε ε' α β : Type}

/-- The trail and the result of an undisturbed run. -/
def Program.calmly (p : Program σ ω κ ε α) (s : σ) : List σ × Except ε α :=
  ((p s .calm).trail, (p s .calm).result)

/-- No call fails. -/
def Oracle.Quiet (o : Oracle ω κ) : Prop := ∀ fault ∈ o.faults, ∀ site, ¬ fault site

/-- Failing calls only cut the undisturbed run short, and others do not move. -/
structure Straight (p : Program σ ω κ ε α) : Prop where
  left : ∀ s o, (p s o).oracle.moves = o.moves ∧ (p s o).oracle.faults <:+ o.faults
  trail : ∀ s o, (p s o).trail <+: (p.calmly s).1
  result : ∀ s o a, (p s o).result = .ok a →
    (p.calmly s).2 = .ok a ∧ (p s o).trail = (p.calmly s).1
  quiet : ∀ s o, o.Quiet → (p s o).trail = (p.calmly s).1 ∧ (p s o).result = (p.calmly s).2

theorem Oracle.Quiet.suffix {o o' : Oracle ω κ} (h : o.Quiet) (hsuffix : o'.faults <:+ o.faults) :
    o'.Quiet :=
  fun fault hfault => h fault (hsuffix.subset hfault)

theorem Straight.calm {p : Program σ ω κ ε α} (hp : Straight p) (s : σ) :
    (p s .calm).oracle = .calm := by
  obtain ⟨hmoves, hfaults⟩ := hp.left s .calm
  have hnil : (p s .calm).oracle.faults = [] := List.suffix_nil.1 hfaults
  generalize (p s .calm).oracle = o at hmoves hnil
  cases o
  cases hmoves
  cases hnil
  rfl

theorem straight_lift (x : Except ε α) : Straight (Program.lift x : Program σ ω κ ε α) where
  left _ _ := ⟨rfl, List.suffix_refl _⟩
  trail _ _ := List.prefix_refl _
  result _ _ _ h := ⟨h, rfl⟩
  quiet _ _ _ := ⟨rfl, rfl⟩

theorem straight_pure (a : α) : Straight (pure a : Program σ ω κ ε α) := straight_lift _

theorem straight_read (r : σ → Reading κ ε α) : Straight (Program.read r : Program σ ω κ ε α) where
  left s o := ⟨rfl, (r s).under_suffix o.faults⟩
  trail _ _ := List.prefix_refl _
  result s o a h := by
    refine ⟨?_, rfl⟩
    simpa [Program.calmly, Program.read, Oracle.calm, Reading.under_nil] using
      Reading.result_of_under h
  quiet s o h := by
    refine ⟨rfl, ?_⟩
    simpa [Program.calmly, Program.read, Oracle.calm, Reading.under_nil] using
      Reading.under_of_quiet h

theorem straight_step (f : σ → σ) : Straight (Program.step f : Program σ ω κ ε Unit) where
  left _ _ := ⟨rfl, List.suffix_refl _⟩
  trail _ _ := List.prefix_refl _
  result _ _ _ h := ⟨h, rfl⟩
  quiet _ _ _ := ⟨rfl, rfl⟩

theorem Program.calmly_bind_ok {p : Program σ ω κ ε α} {f : α → Program σ ω κ ε β} {s : σ} {a : α}
    (hp : Straight p) (h : (p.calmly s).2 = .ok a) :
    (p >>= f).calmly s =
      ((p.calmly s).1 ++ ((f a).calmly ((p.calmly s).1.getLastD s)).1,
        ((f a).calmly ((p.calmly s).1.getLastD s)).2) := by
  unfold Program.calmly at h ⊢
  rw [Program.bind_of_ok h, hp.calm]
  rfl

theorem Program.calmly_bind_error {p : Program σ ω κ ε α} {f : α → Program σ ω κ ε β} {s : σ}
    {e : ε} (h : (p.calmly s).2 = .error e) : (p >>= f).calmly s = ((p.calmly s).1, .error e) := by
  unfold Program.calmly at h ⊢
  rw [Program.bind_of_error h]

theorem Straight.bind {p : Program σ ω κ ε α} {f : α → Program σ ω κ ε β} (hp : Straight p)
    (hf : ∀ a, Straight (f a)) : Straight (p >>= f) where
  left s o := by
    obtain ⟨hmoves, hfaults⟩ := hp.left s o
    cases h : (p s o).result with
    | error e =>
        rw [Program.bind_of_error h]
        exact ⟨hmoves, hfaults⟩
    | ok a =>
        obtain ⟨hmoves', hfaults'⟩ := (hf a).left ((p s o).last s) (p s o).oracle
        rw [Program.bind_of_ok h]
        exact ⟨hmoves'.trans hmoves, hfaults'.trans hfaults⟩
  trail s o := by
    cases h : (p s o).result with
    | error e =>
        rw [Program.bind_of_error h]
        cases hcalm : (p.calmly s).2 with
        | error e =>
            rw [Program.calmly_bind_error hcalm]
            exact hp.trail s o
        | ok a =>
            rw [Program.calmly_bind_ok hp hcalm]
            exact (hp.trail s o).trans (List.prefix_append _ _)
    | ok a =>
        obtain ⟨hcalm, htrail⟩ := hp.result s o a h
        rw [Program.bind_of_ok h, Program.calmly_bind_ok hp hcalm, Outcome.last, htrail]
        exact (List.prefix_append_right_inj _).2 ((hf a).trail _ _)
  result s o b hb := by
    cases h : (p s o).result with
    | error e =>
        rw [Program.bind_of_error h] at hb
        cases hb
    | ok a =>
        obtain ⟨hcalm, htrail⟩ := hp.result s o a h
        rw [Program.bind_of_ok h, Outcome.last, htrail] at hb
        obtain ⟨hcalm', htrail'⟩ := (hf a).result _ _ b hb
        rw [Program.bind_of_ok h, Program.calmly_bind_ok hp hcalm, Outcome.last, htrail]
        exact ⟨hcalm', by rw [htrail']⟩
  quiet s o ho := by
    obtain ⟨htrail, hresult⟩ := hp.quiet s o ho
    cases hcalm : (p.calmly s).2 with
    | error e =>
        rw [hcalm] at hresult
        rw [Program.bind_of_error hresult, Program.calmly_bind_error hcalm]
        exact ⟨htrail, rfl⟩
    | ok a =>
        rw [hcalm] at hresult
        obtain ⟨htrail', hresult'⟩ :=
          (hf a).quiet ((p s o).last s) _ (ho.suffix (hp.left s o).2)
        rw [Program.bind_of_ok hresult, Program.calmly_bind_ok hp hcalm, htrail', hresult',
          Outcome.last, htrail]
        exact ⟨rfl, rfl⟩

theorem Straight.mapError {p : Program σ ω κ ε α} (hp : Straight p) (f : ε → ε') :
    Straight (Program.mapError p f) where
  left := hp.left
  trail := hp.trail
  quiet s o ho := by
    obtain ⟨htrail, hresult⟩ := hp.quiet s o ho
    exact ⟨htrail, congrArg (Except.mapError f) hresult⟩
  result s o a h := by
    obtain ⟨hcalm, htrail⟩ := hp.result s o a (mapError_eq_ok.1 h)
    exact ⟨mapError_eq_ok.2 hcalm, htrail⟩

/-- A straight program, from what its undisturbed run does. A failing call may end it
with any error in any state on the way. -/
theorem Straight.wp {F : κ → Prop} {A : ω → Prop} {R : σ → σ → Prop} {p : Program σ ω κ ε α}
    {Q : α → σ → Prop} {E : ε → σ → Prop} {s : σ} (hp : Straight p)
    (hchain : List.IsChain R (s :: (p.calmly s).1))
    (hok : ∀ a, (p.calmly s).2 = .ok a → Q a ((p.calmly s).1.getLastD s))
    (herror : ∀ e, (p.calmly s).2 = .error e → E e ((p.calmly s).1.getLastD s))
    (hfault : (∃ site, F site) → ∀ e, ∀ v ∈ s :: (p.calmly s).1, E e v) :
    wp F A R p Q E s := by
  intro o ho
  obtain ⟨hmoves, hfaults⟩ := hp.left s o
  have hleading := hp.trail s o
  refine ⟨ List.IsChain.prefix hchain ((List.prefix_cons_inj _).2 hleading), ⟨⟨fun fault hmem => ?_, ?_⟩, ?_⟩,
    fun a ha => ?_, fun e he => ?_⟩
  · exact ho.faults fault (hfaults.subset hmem)
  · rw [hmoves]
    exact ho.moves
  · rw [hmoves]
  · obtain ⟨hcalm, htrail⟩ := hp.result s o a ha
    rw [Outcome.last, htrail]
    exact hok a hcalm
  · by_cases hquiet : o.Quiet
    · obtain ⟨htrail, hresult⟩ := hp.quiet s o hquiet
      rw [Outcome.last, htrail]
      exact herror e (hresult.symm.trans he)
    · unfold Oracle.Quiet at hquiet
      push Not at hquiet
      obtain ⟨fault, hmem, site, hsite⟩ := hquiet
      refine hfault ⟨site, ho.faults fault hmem site hsite⟩ e _ ?_
      rw [Outcome.last]
      rcases List.eq_nil_or_concat (p s o).trail with hnil | ⟨init, last, hlast⟩
      · rw [hnil]
        exact List.mem_cons_self
      · refine List.mem_cons_of_mem _ (hleading.subset ?_)
        simp [hlast]

/-! What an undisturbed run does, step by step. -/

@[simp] theorem Program.calmly_pure (a : α) (s : σ) :
    (pure a : Program σ ω κ ε α).calmly s = ([], .ok a) := rfl

@[simp] theorem Program.calmly_lift (x : Except ε α) (s : σ) :
    (Program.lift x : Program σ ω κ ε α).calmly s = ([], x) := rfl

@[simp] theorem Program.calmly_read (r : σ → Reading κ ε α) (s : σ) :
    (Program.read r : Program σ ω κ ε α).calmly s = ([], (r s).result) := by
  simp [Program.calmly, Program.read, Oracle.calm, Reading.under_nil]

@[simp] theorem Program.calmly_step (f : σ → σ) (s : σ) :
    (Program.step f : Program σ ω κ ε Unit).calmly s = ([f s], .ok ()) := rfl

theorem Program.calmly_read_bind_ok {r : σ → Reading κ ε α} {f : α → Program σ ω κ ε β} {s : σ}
    {a : α} (h : (r s).result = .ok a) : (Program.read r >>= f).calmly s = (f a).calmly s := by
  rw [Program.calmly_bind_ok (straight_read r) (by rw [Program.calmly_read, h]),
    Program.calmly_read]
  rfl

theorem Program.calmly_read_bind_error {r : σ → Reading κ ε α} {f : α → Program σ ω κ ε β} {s : σ}
    {e : ε} (h : (r s).result = .error e) : (Program.read r >>= f).calmly s = ([], .error e) := by
  rw [Program.calmly_bind_error (by rw [Program.calmly_read, h]), Program.calmly_read]

@[simp] theorem Program.calmly_step_bind (g : σ → σ) (f : Unit → Program σ ω κ ε β) (s : σ) :
    (Program.step g >>= f).calmly s =
      (g s :: ((f ()).calmly (g s)).1, ((f ()).calmly (g s)).2) := by
  rw [Program.calmly_bind_ok (straight_step g) rfl]
  rfl

@[simp] theorem Program.calmly_lift_bind_ok (a : α) (f : α → Program σ ω κ ε β) (s : σ) :
    (Program.lift (.ok a) >>= f).calmly s = (f a).calmly s := by
  rw [Program.calmly_bind_ok (straight_lift _) rfl]
  rfl

end Straight

/-! ### Histories -/

section Histories

variable {ι σ ω κ ε α : Type}

/-- One call of a history: what was called and in which state, the steps it took, and
its answer, if it was not cut. -/
structure Event (ι σ ρ : Type) where
  call : ι
  before : σ
  trail : List σ
  reply : Option ρ

/-- The state after the call. -/
def Event.after {ρ : Type} (event : Event ι σ ρ) : σ := event.trail.getLastD event.before

/-- The runs in which calls follow one another, each finished or cut by a crash. -/
inductive History (perform : ι → Program σ ω κ ε α) (start : σ) :
    List (Event ι σ (Except ε α)) → σ → Prop where
  | start : History perform start [] start
  | finish {events : List (Event ι σ (Except ε α))} {s : σ} (before : History perform start events s)
      (call : ι) (o : Oracle ω κ) :
      History perform start
        (events ++ [⟨call, s, (perform call s o).trail, some (perform call s o).result⟩])
        ((perform call s o).last s)
  | crash {events : List (Event ι σ (Except ε α))} {s : σ} (before : History perform start events s)
      (call : ι) (o : Oracle ω κ) (cut : Nat) :
      History perform start (events ++ [⟨call, s, (perform call s o).trail.take cut, none⟩])
        (((perform call s o).trail.take cut).getLastD s)

/-- The states a history went through. -/
def visited {ρ : Type} (start : σ) (events : List (Event ι σ ρ)) : List σ :=
  start :: events.flatMap Event.trail

variable {perform : ι → Program σ ω κ ε α} {start s : σ} {events : List (Event ι σ (Except ε α))}

/-- A call that took part in a history: its trail is one the program leaves, or a cut
of one. -/
structure Event.RunOf (perform : ι → Program σ ω κ ε α) (event : Event ι σ (Except ε α)) : Prop where
  run : ∃ o, event.trail <+: (perform event.call event.before o).trail ∧
    ∀ reply, event.reply = some reply →
      event.trail = (perform event.call event.before o).trail ∧
        (perform event.call event.before o).result = reply

/-- Induction over a history, one call at a time. -/
theorem History.event_induction {P : List (Event ι σ (Except ε α)) → σ → Prop}
    (h : History perform start events s) (hstart : P [] start)
    (hevent : ∀ events event, P events event.before → event.RunOf perform →
      P (events ++ [event]) event.after) : P events s := by
  induction h with
  | start => exact hstart
  | finish before call o ih =>
      refine hevent _ ⟨call, _, _, some _⟩ ih ⟨o, List.prefix_refl _, ?_⟩
      rintro reply ⟨⟩
      exact ⟨rfl, rfl⟩
  | crash before call o cut ih =>
      refine hevent _ ⟨call, _, _, none⟩ ih ⟨o, List.take_prefix _ _, ?_⟩
      rintro reply ⟨⟩

/-- A history can be split between any two calls. -/
theorem History.split {front back : List (Event ι σ (Except ε α))}
    (h : History perform start (front ++ back) s) :
    ∃ middle, History perform start front middle ∧ History perform middle back s := by
  generalize hevents : front ++ back = events at h
  induction h generalizing back with
  | start =>
      obtain ⟨rfl, rfl⟩ := List.append_eq_nil_iff.1 hevents
      exact ⟨start, .start, .start⟩
  | finish before call o ih =>
      rcases List.eq_nil_or_concat back with rfl | ⟨init, last, rfl⟩
      · rw [List.append_nil] at hevents
        exact ⟨_, hevents ▸ .finish before call o, .start⟩
      · rw [List.concat_eq_append, ← List.append_assoc] at hevents
        obtain ⟨hinit, hlast⟩ := List.append_inj' hevents rfl
        obtain ⟨middle, hfront, hback⟩ := ih hinit
        cases hlast
        exact ⟨middle, hfront, List.concat_eq_append ▸ .finish hback call o⟩
  | crash before call o cut ih =>
      rcases List.eq_nil_or_concat back with rfl | ⟨init, last, rfl⟩
      · rw [List.append_nil] at hevents
        exact ⟨_, hevents ▸ .crash before call o cut, .start⟩
      · rw [List.concat_eq_append, ← List.append_assoc] at hevents
        obtain ⟨hinit, hlast⟩ := List.append_inj' hevents rfl
        obtain ⟨middle, hfront, hback⟩ := ih hinit
        cases hlast
        exact ⟨middle, hfront, List.concat_eq_append ▸ .crash hback call o cut⟩

/-- The last call of a history. -/
theorem History.last {event : Event ι σ (Except ε α)}
    (h : History perform start (events ++ [event]) s) :
    History perform start events event.before ∧ event.RunOf perform ∧ s = event.after := by
  generalize hall : events ++ [event] = all at h
  cases h with
  | start => simp at hall
  | finish before call o =>
      obtain ⟨rfl, hevent⟩ := List.append_inj' hall rfl
      cases hevent
      refine ⟨before, ⟨o, List.prefix_refl _, ?_⟩, rfl⟩
      rintro reply ⟨⟩
      exact ⟨rfl, rfl⟩
  | crash before call o cut =>
      obtain ⟨rfl, hevent⟩ := List.append_inj' hall rfl
      cases hevent
      refine ⟨before, ⟨o, List.take_prefix _ _, ?_⟩, rfl⟩
      rintro reply ⟨⟩

/-- The parts of a history before and after one of its calls. -/
theorem History.around {front back : List (Event ι σ (Except ε α))} {event : Event ι σ (Except ε α)}
    (h : History perform start (front ++ event :: back) s) :
    History perform start front event.before ∧ event.RunOf perform ∧
      History perform event.after back s := by
  rw [List.append_cons] at h
  obtain ⟨middle, hfront, hback⟩ := h.split
  obtain ⟨hbefore, hrun, rfl⟩ := hfront.last
  exact ⟨hbefore, hrun, hback⟩

theorem History.append {middle : σ} {front back : List (Event ι σ (Except ε α))}
    (h : History perform start front middle) (h' : History perform middle back s) :
    History perform start (front ++ back) s := by
  induction h' with
  | start => rwa [List.append_nil]
  | finish before call o ih => exact List.append_assoc _ _ _ ▸ .finish ih call o
  | crash before call o cut ih => exact List.append_assoc _ _ _ ▸ .crash ih call o cut

/-- If calls take only steps `R` allows from states that satisfy `P`, and these keep
`P`, then `P` holds wherever a history went, and its last state is reached from there
by such steps. -/
theorem History.reflTransGen {P : σ → Prop} {R : σ → σ → Prop}
    (h : History perform start events s) (hstart : P start)
    (htrail : ∀ s call o, P s → List.IsChain R (s :: (perform call s o).trail))
    (hstep : ∀ s s', P s → R s s' → P s') :
    P s ∧ ∀ v ∈ visited start events, P v ∧ Relation.ReflTransGen R v s := by
  refine h.event_induction
    (P := fun events s => P s ∧ ∀ v ∈ visited start events, P v ∧ Relation.ReflTransGen R v s)
    ?_ fun events event ih hrun => ?_
  · refine ⟨hstart, fun v hv => ?_⟩
    rw [List.mem_singleton.1 hv]
    exact ⟨hstart, .refl⟩
  · obtain ⟨hbefore, hvisited⟩ := ih
    obtain ⟨o, hleading, -⟩ := hrun.run
    have hchain : List.IsChain R (event.before :: event.trail) :=
       List.IsChain.prefix (htrail event.before event.call o hbefore)
        ((List.prefix_cons_inj _).2 hleading)
    refine ⟨isChain_getLastD hchain hbefore hstep, fun v hv => ?_⟩
    rw [visited, List.flatMap_append, ← List.cons_append, List.mem_append] at hv
    rcases hv with hv | hv
    · obtain ⟨hPv, hreach⟩ := hvisited v hv
      exact ⟨hPv, hreach.trans (reflTransGen_getLastD hchain)⟩
    · exact isChain_mem hchain hbefore hstep v (by simpa using hv)

theorem mem_visited_append {v : σ} {front back : List (Event ι σ (Except ε α))} :
    v ∈ visited start (front ++ back) ↔ v ∈ visited start front ∨ ∃ event ∈ back, v ∈ event.trail := by
  simp [visited, List.flatMap_append, or_assoc]

/-- A history has been where it is. -/
theorem History.mem_visited (h : History perform start events s) : s ∈ visited start events := by
  refine h.event_induction (P := fun events s => s ∈ visited start events) (by simp [visited])
    fun events event ih _ => mem_visited_append.2 ?_
  unfold Event.after
  rcases List.eq_nil_or_concat event.trail with htrail | ⟨init, last, htrail⟩
  · rw [htrail]
    exact .inl ih
  · exact .inr ⟨event, List.mem_singleton_self _, by simp [htrail]⟩

/-! Histories can be played from a script. -/

/-- One line of a script: a call, what disturbs it, and the step after which it is cut. -/
structure Turn (ι ω κ : Type) where
  call : ι
  oracle : Oracle ω κ := .calm
  cut : Option Nat := none

def Turn.event (perform : ι → Program σ ω κ ε α) (s : σ) (turn : Turn ι ω κ) :
    Event ι σ (Except ε α) :=
  let out := perform turn.call s turn.oracle
  match turn.cut with
  | none => ⟨turn.call, s, out.trail, some out.result⟩
  | some cut => ⟨turn.call, s, out.trail.take cut, none⟩

def play (perform : ι → Program σ ω κ ε α) : σ → List (Turn ι ω κ) → List (Event ι σ (Except ε α))
  | _, [] => []
  | s, turn :: turns => turn.event perform s :: play perform (turn.event perform s).after turns

def playEnd (perform : ι → Program σ ω κ ε α) (s : σ) (turns : List (Turn ι ω κ)) : σ :=
  turns.foldl (fun s turn => (turn.event perform s).after) s

theorem Turn.history (perform : ι → Program σ ω κ ε α) (s : σ) (turn : Turn ι ω κ) :
    History perform s [turn.event perform s] (turn.event perform s).after := by
  unfold Turn.event
  cases turn.cut with
  | none => exact .finish .start turn.call turn.oracle
  | some cut => exact .crash .start turn.call turn.oracle cut

theorem history_play (perform : ι → Program σ ω κ ε α) (s : σ) (turns : List (Turn ι ω κ)) :
    History perform s (play perform s turns) (playEnd perform s turns) := by
  induction turns generalizing s with
  | nil => exact .start
  | cons turn turns ih => exact (turn.history perform s).append (ih _)

end Histories

end Durable
