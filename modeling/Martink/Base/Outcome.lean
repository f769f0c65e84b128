import Mathlib.Logic.Basic
import Mathlib.Tactic

/-!
# Code that changes a state and may fail

`Outcome ε σ` is what becomes of running code on a state: it is done, or it is stuck with a fault,
in the state it had reached. `Outcome.Sat` is the triple of such code, with a postcondition for
either end, and `Outcome.Sat.andThen` and `Outcome.Sat.forRange` are its rules for sequencing and
for counting loops.

`Reached` are the states of a system that takes one input after another, and `Reached.invariant` is
the induction over its runs. `Path` keeps the inputs as well: `Path.scans` compares the system with
an automaton that reads them, and `Path.eq_add_count` reads off how often an input occurs.
`foldlM_rel` is the induction over runs of a step that may be undefined, and `foldlM_stages` the one
over the stages of such a run.
-/

namespace Martink

inductive Outcome (ε σ : Type*)
  | done (s : σ)
  | stuck (e : ε) (s : σ)

namespace Outcome

variable {ε σ : Type*}

/-- The state reached, done or not. -/
def state : Outcome ε σ → σ
  | done s => s
  | stuck _ s => s

def andThen (o : Outcome ε σ) (k : σ → Outcome ε σ) : Outcome ε σ :=
  match o with
  | done s => k s
  | stuck e s => stuck e s

/-- The loop that runs `body` with the counters `lo`, …, `lo + n - 1`. -/
def forRange (body : ℕ → σ → Outcome ε σ) : ℕ → ℕ → σ → Outcome ε σ
  | _, 0, s => done s
  | lo, n + 1, s => (body lo s).andThen (forRange body (lo + 1) n)

theorem andThen_assoc (o : Outcome ε σ) (k k' : σ → Outcome ε σ) :
    (o.andThen k).andThen k' = o.andThen fun s ↦ (k s).andThen k' := by
  cases o with
  | done s => rfl
  | stuck e s => rfl

/-- A loop in two parts. -/
theorem forRange_add (body : ℕ → σ → Outcome ε σ) (m n : ℕ) : ∀ (lo : ℕ) (s : σ),
    forRange body lo (m + n) s = (forRange body lo m s).andThen (forRange body (lo + m) n) := by
  induction m with
  | zero => exact fun lo s ↦ by rw [Nat.zero_add]; rfl
  | succ m ih =>
    intro lo s
    have hrest : forRange body (lo + 1) (m + n)
        = fun s ↦ (forRange body (lo + 1) m s).andThen (forRange body (lo + 1 + m) n) :=
      funext fun s ↦ ih (lo + 1) s
    rw [Nat.succ_add, forRange, hrest, forRange, andThen_assoc, Nat.add_right_comm lo 1 m]
    rfl

/-- The counter does not matter when the body does not use it. -/
theorem forRange_const (f : σ → Outcome ε σ) (n : ℕ) : ∀ (lo lo' : ℕ),
    forRange (fun _ ↦ f) lo n = forRange (fun _ ↦ f) lo' n := by
  induction n with
  | zero => exact fun _ _ ↦ rfl
  | succ n ih =>
    intro lo lo'
    funext s
    rw [forRange, forRange, ih (lo + 1) (lo' + 1)]

/-- `Q` holds at the end if the code is done, `X` if it is stuck. -/
structure Sat (o : Outcome ε σ) (Q : σ → Prop) (X : ε → σ → Prop) : Prop where
  /-- What holds where the code is done. -/
  of_done : ∀ {s}, o = done s → Q s
  /-- What holds where it is stuck. -/
  of_stuck : ∀ {e s}, o = stuck e s → X e s

variable {o : Outcome ε σ} {k : σ → Outcome ε σ} {Q R : σ → Prop} {X Y : ε → σ → Prop}

@[simp] theorem andThen_done (s : σ) : (done s : Outcome ε σ).andThen k = k s := rfl

theorem andThen_done_right (o : Outcome ε σ) : o.andThen (fun s ↦ done s) = o := by
  cases o with
  | done s => rfl
  | stuck e s => rfl

theorem sat_done {s : σ} (h : Q s) : (done s : Outcome ε σ).Sat Q X where
  of_done hs := by cases hs; exact h
  of_stuck hs := nomatch hs

theorem sat_stuck {e : ε} {s : σ} (h : X e s) : (stuck e s : Outcome ε σ).Sat Q X where
  of_done hs := nomatch hs
  of_stuck hs := by cases hs; exact h

/-- Code that cannot get stuck is done. -/
theorem Sat.exists_done (h : o.Sat Q fun _ _ ↦ False) : ∃ s, o = done s ∧ Q s := by
  rcases o with s | ⟨e, s⟩
  · exact ⟨s, rfl, h.of_done rfl⟩
  · exact (h.of_stuck rfl).elim

theorem Sat.state_of (h : o.Sat Q fun _ ↦ Q) : Q o.state := by
  rcases o with s | ⟨e, s⟩
  · exact h.of_done rfl
  · exact h.of_stuck rfl

theorem Sat.mono (h : o.Sat Q X) (hQ : ∀ s, Q s → R s) (hX : ∀ e s, X e s → Y e s) :
    o.Sat R Y where
  of_done hs := hQ _ (h.of_done hs)
  of_stuck hs := hX _ _ (h.of_stuck hs)

theorem Sat.and (h : o.Sat Q X) (h' : o.Sat R Y) :
    o.Sat (fun s ↦ Q s ∧ R s) fun e s ↦ X e s ∧ Y e s where
  of_done hs := ⟨h.of_done hs, h'.of_done hs⟩
  of_stuck hs := ⟨h.of_stuck hs, h'.of_stuck hs⟩

/-- **Sequencing.** -/
theorem Sat.andThen (h : o.Sat Q X) (hk : ∀ s, Q s → (k s).Sat R X) : (o.andThen k).Sat R X := by
  rcases o with s | ⟨e, s⟩
  · exact hk s (h.of_done rfl)
  · exact sat_stuck (h.of_stuck rfl)

/-- **Counting loops.** The invariant may depend on the counter. -/
theorem Sat.forRange {body : ℕ → σ → Outcome ε σ} {I : ℕ → σ → Prop} (n : ℕ) :
    ∀ {lo : ℕ} {s : σ}, (∀ i s, lo ≤ i → i < lo + n → I i s → (body i s).Sat (I (i + 1)) X) →
      I lo s → (forRange body lo n s).Sat (I (lo + n)) X := by
  induction n with
  | zero =>
    intro lo s _ h
    exact sat_done h
  | succ n ih =>
    intro lo s hbody h
    refine Sat.andThen (hbody lo s le_rfl (by omega) h) fun s' h' ↦ ?_
    have hrest := ih (fun i s hi hlt ↦ hbody i s (by omega) (by omega)) h'
    rwa [show lo + 1 + n = lo + (n + 1) by omega] at hrest

end Outcome

/-! ## Runs -/

section Runs

variable {σ α : Type*}

/-- The states that a system reaches from `start` by steps on inputs that meet `cond`. -/
inductive Reached (step : σ → α → σ → Prop) (cond : σ → α → Prop) (start : σ) : σ → Prop
  | start : Reached step cond start start
  | step {s s' : σ} {a : α} : Reached step cond start s → cond s a → step s a s' →
      Reached step cond start s'

variable {step : σ → α → σ → Prop} {cond : σ → α → Prop} {start s : σ}

/-- **Invariants.** What holds at the start and is kept by each step holds wherever a run gets. -/
theorem Reached.invariant {I : σ → Prop} (hstart : I start)
    (hstep : ∀ s a s', I s → cond s a → step s a s' → I s') (h : Reached step cond start s) :
    I s := by
  induction h with
  | start => exact hstart
  | step _ hcond hnext ih => exact hstep _ _ _ ih hcond hnext

/-- The system goes from one state to the other on a list of inputs. -/
inductive Path (step : σ → α → σ → Prop) : σ → List α → σ → Prop
  | nil (s : σ) : Path step s [] s
  | cons {s s' s'' : σ} {a : α} {as : List α} : step s a s' → Path step s' as s'' →
      Path step s (a :: as) s''

/-- **Simulation by an automaton.** If the automaton accepts every step that the system takes, it
accepts its runs. -/
theorem Path.scans {τ : Type*} {scan : τ → α → Option τ} {R : σ → τ → Prop}
    (hstep : ∀ s a s' p, R s p → step s a s' → ∃ p', scan p a = some p' ∧ R s' p')
    {as : List α} {s' : σ} (h : Path step s as s') :
    ∀ {p}, R s p → ∃ p', as.foldlM scan p = some p' ∧ R s' p' := by
  induction h with
  | nil s => exact fun {p} hR ↦ ⟨p, rfl, hR⟩
  | cons hfirst _ ih =>
    intro p hR
    obtain ⟨p', hscan, hR'⟩ := hstep _ _ _ _ hR hfirst
    obtain ⟨p'', hrest, hR''⟩ := ih hR'
    exact ⟨p'', by rw [List.foldlM_cons, hscan]; exact hrest, hR''⟩

/-- **Counting.** A quantity that one kind of step increases by one, and no other step changes,
counts these steps. -/
theorem Path.eq_add_count [DecidableEq α] {f : σ → ℤ} {a₀ : α}
    (hstep : ∀ s a s', step s a s' → f s' = f s + if a = a₀ then 1 else 0) {as : List α} {s' : σ}
    (h : Path step s as s') : f s' = f s + as.count a₀ := by
  induction h with
  | nil s => simp
  | cons hfirst _ ih =>
    rw [ih, hstep _ _ _ hfirst, List.count_cons]
    simp only [beq_iff_eq]
    split <;> push_cast <;> ring

/-! ### Partial steps -/

/-- A run returns when its first step and the rest of it do. -/
theorem foldlM_cons_eq_some_iff {f : σ → α → Option σ} {a : α} {as : List α} {s s' : σ} :
    (a :: as).foldlM f s = some s' ↔ ∃ u, f s a = some u ∧ as.foldlM f u = some s' := by
  rw [List.foldlM_cons]
  exact Option.bind_eq_some_iff

theorem foldlM_append_eq_some_iff {f : σ → α → Option σ} {as bs : List α} {s s' : σ} :
    (as ++ bs).foldlM f s = some s' ↔ ∃ u, as.foldlM f s = some u ∧ bs.foldlM f u = some s' := by
  rw [List.foldlM_append]
  exact Option.bind_eq_some_iff

theorem foldlM_concat_eq_some_iff {f : σ → α → Option σ} {as : List α} {a : α} {s s' : σ} :
    (as ++ [a]).foldlM f s = some s' ↔ ∃ u, as.foldlM f s = some u ∧ f u a = some s' := by
  rw [foldlM_append_eq_some_iff]
  simp only [List.foldlM_cons, List.foldlM_nil, bind_pure]

/-- A run of partial steps, followed by a fold that is never undefined. -/
theorem foldlM_rel_of_mem {τ : Type*} {f : σ → α → Option σ} {g : τ → α → τ} {R : σ → τ → Prop}
    (as : List α) (hstep : ∀ s t, ∀ a ∈ as, ∀ s', R s t → f s a = some s' → R s' (g t a)) :
    ∀ {s t s'}, R s t → as.foldlM f s = some s' → R s' (as.foldl g t) := by
  induction as with
  | nil =>
    intro s t s' h hrun
    cases hrun
    exact h
  | cons a as ih =>
    intro s t s' h hrun
    obtain ⟨u, hu, hrun⟩ := foldlM_cons_eq_some_iff.mp hrun
    exact ih (fun s t b hb ↦ hstep s t b (List.mem_cons_of_mem a hb))
      (hstep _ _ a List.mem_cons_self _ h hu) hrun

theorem foldlM_rel {τ : Type*} {f : σ → α → Option σ} {g : τ → α → τ} {R : σ → τ → Prop}
    (hstep : ∀ s t a s', R s t → f s a = some s' → R s' (g t a)) (as : List α) {s : σ} {t : τ}
    {s' : σ} (h : R s t) (hrun : as.foldlM f s = some s') : R s' (as.foldl g t) :=
  foldlM_rel_of_mem as (fun s t a _ s' ↦ hstep s t a s') h hrun

/-- What each partial step keeps holds after the run. -/
theorem foldlM_invariant_of_mem {f : σ → α → Option σ} {P : σ → Prop} {as : List α}
    (hstep : ∀ s, ∀ a ∈ as, ∀ s', P s → f s a = some s' → P s') {s s' : σ} (h : P s)
    (hrun : as.foldlM f s = some s') : P s' :=
  foldlM_rel_of_mem (g := fun u _ ↦ u) (R := fun s (_ : Unit) ↦ P s) as
    (fun s _ a ha s' ↦ hstep s a ha s') (t := ()) h hrun

theorem foldlM_invariant {f : σ → α → Option σ} {P : σ → Prop}
    (hstep : ∀ s a s', P s → f s a = some s' → P s') {as : List α} {s s' : σ} (h : P s)
    (hrun : as.foldlM f s = some s') : P s' :=
  foldlM_invariant_of_mem (fun s a _ s' ↦ hstep s a s') h hrun

/-- A run is defined when each step is, on the states that the steps before it lead to. -/
theorem exists_foldlM_of_mem {f : σ → α → Option σ} {P : σ → Prop} {as : List α}
    (hstep : ∀ s, ∀ a ∈ as, P s → ∃ s', f s a = some s' ∧ P s') {s : σ} (h : P s) :
    ∃ s', as.foldlM f s = some s' ∧ P s' := by
  induction as generalizing s with
  | nil => exact ⟨s, rfl, h⟩
  | cons a as ih =>
    obtain ⟨u, hu, hPu⟩ := hstep s a List.mem_cons_self h
    obtain ⟨s', hrun, hP⟩ := ih (fun s b hb ↦ hstep s b (List.mem_cons_of_mem a hb)) hPu
    exact ⟨s', foldlM_cons_eq_some_iff.mpr ⟨u, hu, hrun⟩, hP⟩

/-- A loop of loops is one loop. -/
theorem foldlM_flatMap {β : Type*} {f : σ → β → Option σ} (g : α → List β) (as : List α) :
    ∀ s, (as.flatMap g).foldlM f s = as.foldlM (fun s a ↦ (g a).foldlM f s) s := by
  induction as with
  | nil => exact fun _ ↦ rfl
  | cons a as ih =>
    intro s
    rw [List.flatMap_cons, List.foldlM_append, List.foldlM_cons]
    exact bind_congr fun s' ↦ ih s'

section Stages

variable {f : σ → α → Option σ} {n : ℕ} {inputs : Fin n → List α} {P : ℕ → σ → Prop} {s s' : σ}

/-- A run in stages, each with what holds before it. -/
theorem foldlM_stages
    (hstage : ∀ (k : Fin n) s s', P k s → (inputs k).foldlM f s = some s' → P (k + 1) s')
    (h : P 0 s) (hrun : ((List.finRange n).flatMap inputs).foldlM f s = some s') : P n s' := by
  induction n generalizing s' with
  | zero =>
    cases hrun
    exact h
  | succ n ih =>
    rw [List.finRange_succ_last, List.flatMap_append, List.flatMap_map, List.flatMap_singleton,
      foldlM_append_eq_some_iff] at hrun
    obtain ⟨u, hu, hrun⟩ := hrun
    exact hstage (Fin.last n) _ _ (ih (fun k ↦ hstage k.castSucc) hu) hrun

theorem exists_foldlM_stages
    (hstage : ∀ (k : Fin n) s, P k s → ∃ s', (inputs k).foldlM f s = some s' ∧ P (k + 1) s')
    (h : P 0 s) : ∃ s', ((List.finRange n).flatMap inputs).foldlM f s = some s' ∧ P n s' := by
  induction n with
  | zero => exact ⟨s, rfl, h⟩
  | succ n ih =>
    obtain ⟨u, hu, hP⟩ := ih fun k ↦ hstage k.castSucc
    obtain ⟨s', hrun, hP'⟩ := hstage (Fin.last n) u hP
    refine ⟨s', ?_, hP'⟩
    rw [List.finRange_succ_last, List.flatMap_append, List.flatMap_map, List.flatMap_singleton]
    exact foldlM_append_eq_some_iff.mpr ⟨u, hu, hrun⟩

end Stages

end Runs

end Martink
