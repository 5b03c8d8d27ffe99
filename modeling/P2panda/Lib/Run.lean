/- Runs of a step function, and the rule that carries an invariant along one.

   A run applies a fallible step to a state once per input, in order, and stops at the
   first failure: `List.foldlM` in `Except`. `foldlM_invariant` is the induction every
   run lemma of this development is an instance of: a property that each step keeps, for
   every input the run may meet, holds of the state a successful run ends in. The
   inputs are quantified over a list `cs` that contains the run's inputs, so that a
   step may use a fact about the whole run (for example that no two of its inputs
   conflict).

   `Except.bind_eq_ok` takes a successful step of a run apart, `Except.map_eq_ok` a
   success read through a map; `Except.exists_ok_of_toBool` gives the final state of a run
   that evaluates to a success.
   `foldlM_ok_of_step` is the run that cannot fail (`foldlM_history_ok` with an invariant
   of the inputs taken so far), `foldlM_error_of_step` says which
   errors a run can stop at, and `foldlM_error_cause` at which state and input.
   `foldlM_simulation` matches a run of one step function by a run of another, and
   `foldlM_refines` a run by a run of another over other inputs, each step by a run of its
   own. `foldlMUntil` keeps what a run reached before it failed, for a task whose effects up
   to the failure are seen (`foldlMUntil_invariant`). `foldlM_ok_append` computes a run
   whose every step appends a known list to its state.

   The same rules for a step that can only fail (`Option`): `foldlM_option_invariant`;
   `foldlM_option_suffix`, for an invariant that also speaks of the inputs still to come;
   and `foldlM_option_some`, by which a run of steps that cannot fail succeeds. -/

section Run

variable {σ α ε : Type}

/-- A bind that succeeds is a first computation that succeeds, then the second. -/
theorem Except.bind_eq_ok {β : Type} {x : Except ε α} {f : α → Except ε β} {b : β} :
    (x >>= f) = .ok b ↔ ∃ a, x = .ok a ∧ f a = .ok b := by
  cases x with
  | error e =>
    constructor
    · intro h
      cases h
    · rintro ⟨_, h, _⟩
      cases h
  | ok a =>
    constructor
    · intro h
      exact ⟨a, rfl, h⟩
    · rintro ⟨_, h, hf⟩
      cases h
      exact hf

/-- A mapped computation succeeds with what the map makes of its success. -/
theorem Except.map_eq_ok {β : Type} {x : Except ε α} {f : α → β} {b : β} :
    x.map f = .ok b ↔ ∃ a, x = .ok a ∧ f a = b := by
  cases x with
  | error e =>
    constructor
    · intro h
      cases h
    · rintro ⟨_, h, _⟩
      cases h
  | ok a =>
    constructor
    · intro h
      cases h
      exact ⟨a, rfl, rfl⟩
    · rintro ⟨_, h, rfl⟩
      cases h
      rfl

/-- What `toBool` reads as a success is one; so a run on a fixed input that evaluates to
`true` gives its final state. -/
theorem Except.exists_ok_of_toBool {x : Except ε α} (h : x.toBool = true) : ∃ a, x = .ok a := by
  cases x with
  | error e => cases h
  | ok a => exact ⟨a, rfl⟩

/-- An invariant of every step, for the inputs of `cs`, holds at the end of a run over
inputs from `cs`. The induction is on the inputs, with the state generalised. -/
theorem foldlM_invariant (step : σ → α → Except ε σ) (I : σ → Prop) (cs : List α)
    (hstep : ∀ s a s', a ∈ cs → I s → step s a = .ok s' → I s') :
    ∀ (calls : List α) (s s' : σ), (∀ a ∈ calls, a ∈ cs) → I s →
      calls.foldlM step s = .ok s' → I s'
  | [], s, s', _, hs, hrun => by
    simp only [List.foldlM_nil] at hrun
    cases hrun
    exact hs
  | a :: calls, s, s', hcalls, hs, hrun => by
    simp only [List.foldlM_cons] at hrun
    cases hstep_a : step s a with
    | error e =>
      rw [hstep_a] at hrun
      cases hrun
    | ok t =>
      rw [hstep_a] at hrun
      have ht : I t := hstep s a t (hcalls a List.mem_cons_self) hs hstep_a
      exact foldlM_invariant step I cs hstep calls t s'
        (fun b hb => hcalls b (List.mem_cons_of_mem a hb)) ht hrun

/-- A run whose every step, from a state with the invariant, succeeds and keeps it,
succeeds. -/
theorem foldlM_ok_of_step (step : σ → α → Except ε σ) (I : σ → Prop)
    (hstep : ∀ s a, I s → ∃ s', step s a = .ok s' ∧ I s') :
    ∀ (calls : List α) (s : σ), I s → ∃ s', calls.foldlM step s = .ok s' ∧ I s'
  | [], s, hs => ⟨s, rfl, hs⟩
  | a :: calls, s, hs => by
    obtain ⟨t, ht, hIt⟩ := hstep s a hs
    rw [List.foldlM_cons, ht]
    exact foldlM_ok_of_step step I hstep calls t hIt

/-- The error a run stops at is one that a step raises from a state with the invariant. -/
theorem foldlM_error_of_step (step : σ → α → Except ε σ) (I : σ → Prop) (P : ε → Prop)
    (hstep : ∀ s a s', I s → step s a = .ok s' → I s')
    (herror : ∀ s a e, I s → step s a = .error e → P e) :
    ∀ (calls : List α) (s : σ) (e : ε), I s → calls.foldlM step s = .error e → P e
  | [], s, e, _, hrun => nomatch hrun
  | a :: calls, s, e, hs, hrun => by
    rw [List.foldlM_cons] at hrun
    cases hstep_a : step s a with
    | error e' =>
      rw [hstep_a] at hrun
      cases hrun
      exact herror s a _ hs hstep_a
    | ok t =>
      rw [hstep_a] at hrun
      exact foldlM_error_of_step step I P hstep herror calls t e (hstep s a t hs hstep_a) hrun

/-- A run that cannot fail, with an invariant that speaks of the inputs taken so far: if
every step on a prefix of `cs` succeeds from a state with the invariant of the prefix
before it, and keeps it for the prefix with its own input, a run of all of `cs` succeeds
and ends with the invariant of `cs`. The induction is on the inputs still to come, the
prefix taken growing by one each step. -/
theorem foldlM_history_ok (step : σ → α → Except ε σ) (I : List α → σ → Prop) (cs : List α)
    (hstep : ∀ hist a s, hist ++ [a] <+: cs → I hist s →
      ∃ s', step s a = .ok s' ∧ I (hist ++ [a]) s') :
    ∀ (calls hist : List α) (s : σ), hist ++ calls = cs → I hist s →
      ∃ s', calls.foldlM step s = .ok s' ∧ I cs s'
  | [], hist, s, hcs, hs => ⟨s, rfl, by rw [← hcs, List.append_nil]; exact hs⟩
  | a :: calls, hist, s, hcs, hs => by
    have hsplit : hist ++ [a] ++ calls = cs := by rw [List.append_assoc, List.singleton_append, hcs]
    obtain ⟨t, ht, hIt⟩ := hstep hist a s ⟨calls, hsplit⟩ hs
    rw [List.foldlM_cons, ht]
    exact foldlM_history_ok step I cs hstep calls (hist ++ [a]) t hsplit hIt

/-- Where a run from an invariant state fails: each step keeps the invariant and cannot
fail unless it is `bad` at its state, so a failed run has a prefix that reaches, with the
invariant, a state at which its next input is `bad`. -/
theorem foldlM_error_cause (step : σ → α → Except ε σ) (I : σ → Prop) (bad : σ → α → Prop)
    (hstep : ∀ s a s', I s → ¬bad s a → step s a = .ok s' → I s')
    (herror : ∀ s a e, I s → ¬bad s a → step s a ≠ .error e) :
    ∀ (calls : List α) (s : σ) (e : ε), I s → calls.foldlM step s = .error e →
      ∃ pre a post t, calls = pre ++ a :: post ∧ pre.foldlM step s = .ok t ∧ I t ∧ bad t a
  | [], s, e, _, hrun => nomatch hrun
  | a :: calls, s, e, hs, hrun => by
    by_cases hbad : bad s a
    · exact ⟨[], a, calls, s, rfl, rfl, hs, hbad⟩
    rw [List.foldlM_cons] at hrun
    cases hstep_a : step s a with
    | error e' => exact absurd hstep_a (herror s a e' hs hbad)
    | ok t =>
      rw [hstep_a] at hrun
      obtain ⟨pre, b, post, u, hcalls, hpre, hu, hb⟩ :=
        foldlM_error_cause step I bad hstep herror calls t e (hstep s a t hs hbad hstep_a) hrun
      refine ⟨a :: pre, b, post, u, by rw [hcalls]; rfl, ?_, hu, hb⟩
      rw [List.foldlM_cons, hstep_a]
      exact hpre

/-- A simulation of one run by another over the same inputs: related states, where the
relation may speak of the inputs still to come, step to related states, so a successful run
of the first is matched by a successful run of the second that ends related. -/
theorem foldlM_simulation {τ ε' : Type} (f : σ → α → Except ε σ) (g : τ → α → Except ε' τ)
    (R : σ → τ → List α → Prop)
    (hstep : ∀ s t a rest s', R s t (a :: rest) → f s a = .ok s' →
      ∃ t', g t a = .ok t' ∧ R s' t' rest) :
    ∀ (calls : List α) (s : σ) (t : τ) (s' : σ), R s t calls → calls.foldlM f s = .ok s' →
      ∃ t', calls.foldlM g t = .ok t' ∧ R s' t' []
  | [], s, t, s', hR, hrun => by
    simp only [List.foldlM_nil] at hrun
    cases hrun
    exact ⟨t, rfl, hR⟩
  | a :: calls, s, t, s', hR, hrun => by
    rw [List.foldlM_cons] at hrun
    cases hf : f s a with
    | error e =>
      rw [hf] at hrun
      cases hrun
    | ok u =>
      rw [hf] at hrun
      obtain ⟨v, hg, hR'⟩ := hstep s t a calls u hR hf
      obtain ⟨t', hrun', hend⟩ := foldlM_simulation f g R hstep calls u v s' hR' hrun
      refine ⟨t', ?_, hend⟩
      rw [List.foldlM_cons, hg]
      exact hrun'

/-- A run of `f` whose every step, from related states, is matched by a run of `g` over
inputs related to its own input is matched by a run of `g` over the inputs of all of them.
The induction is on the inputs of `f`, the inputs of `g` gathered step by step. -/
theorem foldlM_refines {τ β ε' : Type} (f : σ → α → Except ε σ) (g : τ → β → Except ε' τ)
    (R : σ → τ → Prop) (Q : α → β → Prop)
    (hstep : ∀ s t a s', R s t → f s a = .ok s' →
      ∃ (bs : List β) (t' : τ), (∀ b ∈ bs, Q a b) ∧ bs.foldlM g t = .ok t' ∧ R s' t') :
    ∀ (as : List α) (s : σ) (t : τ) (s' : σ), R s t → as.foldlM f s = .ok s' →
      ∃ (bs : List β) (t' : τ), (∀ b ∈ bs, ∃ a ∈ as, Q a b) ∧ bs.foldlM g t = .ok t' ∧
        R s' t'
  | [], s, t, s', hR, hrun => by
    simp only [List.foldlM_nil] at hrun
    cases hrun
    exact ⟨[], t, fun _ h => absurd h List.not_mem_nil, rfl, hR⟩
  | a :: as, s, t, s', hR, hrun => by
    rw [List.foldlM_cons] at hrun
    cases hf : f s a with
    | error e =>
      rw [hf] at hrun
      cases hrun
    | ok u =>
      rw [hf] at hrun
      obtain ⟨bs, v, hQ, hg, hRu⟩ := hstep s t a u hR hf
      obtain ⟨bs', t', hQ', hg', hR'⟩ := foldlM_refines f g R Q hstep as u v s' hRu hrun
      refine ⟨bs ++ bs', t', fun b hb => ?_, ?_, hR'⟩
      · rcases List.mem_append.mp hb with hb | hb
        · exact ⟨a, List.mem_cons_self, hQ b hb⟩
        · obtain ⟨a', ha', hq⟩ := hQ' b hb
          exact ⟨a', List.mem_cons_of_mem _ ha', hq⟩
      · rw [List.foldlM_append, hg]
        exact hg'

/-- A run up to its first failure: the state before the failing step and the failure, or
the state at the end and none. -/
def foldlMUntil (step : σ → α → Except ε σ) : σ → List α → σ × Option ε
  | s, [] => (s, none)
  | s, a :: calls =>
    match step s a with
    | .ok s' => foldlMUntil step s' calls
    | .error e => (s, some e)

/-- An invariant of every successful step holds of the state a run stops in. -/
theorem foldlMUntil_invariant (step : σ → α → Except ε σ) (I : σ → Prop)
    (hstep : ∀ s a s', I s → step s a = .ok s' → I s') :
    ∀ (calls : List α) (s : σ), I s → I (foldlMUntil step s calls).1
  | [], _, hs => hs
  | a :: calls, s, hs => by
    unfold foldlMUntil
    cases h : step s a with
    | ok s' => exact foldlMUntil_invariant step I hstep calls s' (hstep s a s' hs h)
    | error e => exact hs

/-- A run whose every step appends a known list to the state appends them all. -/
theorem foldlM_ok_append {β : Type} (step : List β → α → Except ε (List β)) (g : α → List β) :
    ∀ (calls : List α) (acc : List β), (∀ acc, ∀ a ∈ calls, step acc a = .ok (acc ++ g a)) →
      calls.foldlM step acc = .ok (acc ++ calls.flatMap g)
  | [], acc, _ => by simp; rfl
  | a :: calls, acc, hstep => by
    rw [List.foldlM_cons, hstep acc a List.mem_cons_self]
    show calls.foldlM step (acc ++ g a) = _
    rw [foldlM_ok_append step g calls _ fun acc b hb => hstep acc b (List.mem_cons_of_mem a hb),
      List.flatMap_cons, List.append_assoc]

/-- An invariant of every step holds at the end of a run that does not fail. -/
theorem foldlM_option_invariant (step : σ → α → Option σ) (I : σ → Prop)
    (hstep : ∀ s a s', I s → step s a = some s' → I s') :
    ∀ (calls : List α) (s s' : σ), I s → calls.foldlM step s = some s' → I s'
  | [], s, s', hs, hrun => by
    simp only [List.foldlM_nil] at hrun
    cases hrun
    exact hs
  | a :: calls, s, s', hs, hrun => by
    simp only [List.foldlM_cons] at hrun
    cases hstep_a : step s a with
    | none =>
      rw [hstep_a] at hrun
      cases hrun
    | some t =>
      rw [hstep_a] at hrun
      exact foldlM_option_invariant step I hstep calls t s' (hstep s a t hs hstep_a) hrun

/-- An invariant of the state and of the inputs still to come: each step takes it from an
input and those after it to those after it, so it holds with none left at the end. -/
theorem foldlM_option_suffix (step : σ → α → Option σ) (I : σ → List α → Prop)
    (hstep : ∀ s a rest s', I s (a :: rest) → step s a = some s' → I s' rest) :
    ∀ (calls : List α) (s s' : σ), I s calls → calls.foldlM step s = some s' → I s' []
  | [], s, s', hs, hrun => by
    simp only [List.foldlM_nil] at hrun
    cases hrun
    exact hs
  | a :: calls, s, s', hs, hrun => by
    simp only [List.foldlM_cons] at hrun
    cases hstep_a : step s a with
    | none =>
      rw [hstep_a] at hrun
      cases hrun
    | some t =>
      rw [hstep_a] at hrun
      exact foldlM_option_suffix step I hstep calls t s' (hstep s a calls t hs hstep_a) hrun

/-- A run whose every step, for the inputs of `cs` and from a state with the invariant,
succeeds and keeps it, succeeds. -/
theorem foldlM_option_some (step : σ → α → Option σ) (I : σ → Prop) (cs : List α)
    (hstep : ∀ s a, a ∈ cs → I s → ∃ s', step s a = some s' ∧ I s') :
    ∀ (calls : List α) (s : σ), (∀ a ∈ calls, a ∈ cs) → I s →
      ∃ s', calls.foldlM step s = some s' ∧ I s'
  | [], s, _, hs => ⟨s, rfl, hs⟩
  | a :: calls, s, hcalls, hs => by
    obtain ⟨t, ht, hIt⟩ := hstep s a (hcalls a List.mem_cons_self) hs
    rw [List.foldlM_cons, ht]
    exact foldlM_option_some step I cs hstep calls t
      (fun b hb => hcalls b (List.mem_cons_of_mem a hb)) hIt

end Run
