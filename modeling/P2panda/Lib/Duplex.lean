import Mathlib.Logic.Relation

/- Two reactive processes joined by a reliable, in-order duplex channel.

   A process starts by sending and emitting some values; then, while it runs, it reacts
   to each message that arrives, or to the end of its input once the other side has
   stopped and nothing is left in flight. A reaction sends messages to the other side,
   emits outputs to its own application, and either goes on in a new state or stops with
   a result. The channel is a queue per direction.

   `Step` is the interleaving semantics: at each point either side that can react may
   take its next step. Two rules about runs of any step relation carry the proofs of
   sessions built on this:
   * `reachable_of_abstraction`: when every step from an abstract state `φ x` lands in
     another abstract state, every state reachable from one is one;
   * `no_infinite_run_of_abstraction`: when moreover each such step lowers a rank, no run
     is infinite, so every interleaving ends.
   `Process.run` feeds one process a given list of inputs, for what one side does whatever
   the other sends. -/

namespace Duplex

/-- A process goes on in a state, or has stopped with a result. -/
inductive Status (S R : Type) where
  | running (s : S)
  | stopped (r : R)
  deriving DecidableEq

/-- What a process does on one event. -/
structure Reaction (S M O R : Type) where
  sent : List M
  emitted : List O
  next : Status S R

/-- A process: what it does first, and how it reacts to a message or to the end of its
input (`none`). -/
structure Process (S M O R : Type) where
  start : Reaction S M O R
  react : S → Option M → Reaction S M O R

variable {S S₁ S₂ M O R : Type}

/-! ## One process -/

namespace Process

/-- The reaction so far followed by the reaction to the next input, if still running:
everything sent and emitted, and the status. -/
def feed (p : Process S M O R) (acc : Reaction S M O R) (input : Option M) :
    Reaction S M O R :=
  match acc.next with
  | .running s =>
    let r := p.react s input
    ⟨acc.sent ++ r.sent, acc.emitted ++ r.emitted, r.next⟩
  | .stopped _ => acc

/-- Feed a process its inputs in order from its start; inputs after it stopped are not
read. -/
def run (p : Process S M O R) (inputs : List (Option M)) : Reaction S M O R :=
  inputs.foldl p.feed p.start

theorem run_append (p : Process S M O R) (xs ys : List (Option M)) :
    p.run (xs ++ ys) = ys.foldl p.feed (p.run xs) := by
  simp [run, List.foldl_append]

/-- A stopped process reads nothing more. -/
theorem foldl_feed_stopped (p : Process S M O R) {acc : Reaction S M O R} {r : R}
    (h : acc.next = .stopped r) (inputs : List (Option M)) : inputs.foldl p.feed acc = acc := by
  induction inputs with
  | nil => rfl
  | cons i inputs ih =>
    rw [List.foldl_cons, show p.feed acc i = acc by simp [feed, h], ih]

/-- When every reaction emits only outputs with `Q`, a run emits what the start emits and
then only outputs with `Q`. -/
theorem foldl_feed_emitted (p : Process S M O R) (Q : O → Prop)
    (hreact : ∀ s input, ∀ o ∈ (p.react s input).emitted, Q o) :
    ∀ (inputs : List (Option M)) (acc : Reaction S M O R),
      ∃ os, (inputs.foldl p.feed acc).emitted = acc.emitted ++ os ∧ ∀ o ∈ os, Q o
  | [], acc => ⟨[], by simp⟩
  | i :: inputs, acc => by
    -- one input adds the reaction's outputs, or nothing once stopped
    obtain ⟨os₁, h₁, hQ₁⟩ : ∃ os, (p.feed acc i).emitted = acc.emitted ++ os ∧ ∀ o ∈ os, Q o := by
      unfold feed
      split
      · next s _ => exact ⟨_, rfl, hreact s i⟩
      · exact ⟨[], by simp⟩
    obtain ⟨os₂, h₂, hQ₂⟩ := foldl_feed_emitted p Q hreact inputs (p.feed acc i)
    refine ⟨os₁ ++ os₂, by rw [List.foldl_cons, h₂, h₁, List.append_assoc], fun o ho => ?_⟩
    rcases List.mem_append.mp ho with ho | ho
    · exact hQ₁ o ho
    · exact hQ₂ o ho

/-- A reaction after which the process still runs was a reaction of a running process. -/
theorem feed_running (p : Process S M O R) {acc : Reaction S M O R} {input : Option M} {s : S}
    (h : (p.feed acc input).next = .running s) :
    ∃ s₀, acc.next = .running s₀ ∧ p.feed acc input =
      ⟨acc.sent ++ (p.react s₀ input).sent, acc.emitted ++ (p.react s₀ input).emitted,
        (p.react s₀ input).next⟩ := by
  unfold feed at h ⊢
  split at h
  · next s₀ hs₀ => exact ⟨s₀, hs₀, rfl⟩
  · next r hr => rw [hr] at h; cases h

theorem run_concat (p : Process S M O R) (inputs : List (Option M)) (input : Option M) :
    p.run (inputs ++ [input]) = p.feed (p.run inputs) input := by
  rw [run_append, List.foldl_cons, List.foldl_nil]

theorem run_emitted (p : Process S M O R) (Q : O → Prop)
    (hreact : ∀ s input, ∀ o ∈ (p.react s input).emitted, Q o) (inputs : List (Option M)) :
    ∃ os, (p.run inputs).emitted = p.start.emitted ++ os ∧ ∀ o ∈ os, Q o :=
  foldl_feed_emitted p Q hreact inputs p.start

end Process

/-! ## Two processes -/

/-- Two processes and the two directions of the channel between them, with what each
has emitted. -/
structure Session (S₁ S₂ M O R : Type) where
  left : Status S₁ R
  right : Status S₂ R
  /-- In flight to the left process, oldest first. -/
  toLeft : List M
  toRight : List M
  leftOut : List O
  rightOut : List O

namespace Session

/-- Both processes have started. -/
def init (p₁ : Process S₁ M O R) (p₂ : Process S₂ M O R) : Session S₁ S₂ M O R where
  left := p₁.start.next
  right := p₂.start.next
  toLeft := p₂.start.sent
  toRight := p₁.start.sent
  leftOut := p₁.start.emitted
  rightOut := p₂.start.emitted

/-- The left process has reacted, leaving `rest` in flight to it. -/
def leftReacts (d : Session S₁ S₂ M O R) (r : Reaction S₁ M O R) (rest : List M) :
    Session S₁ S₂ M O R :=
  { d with left := r.next, toLeft := rest, toRight := d.toRight ++ r.sent,
           leftOut := d.leftOut ++ r.emitted }

/-- The right process has reacted, leaving `rest` in flight to it. -/
def rightReacts (d : Session S₁ S₂ M O R) (r : Reaction S₂ M O R) (rest : List M) :
    Session S₁ S₂ M O R :=
  { d with right := r.next, toRight := rest, toLeft := d.toLeft ++ r.sent,
           rightOut := d.rightOut ++ r.emitted }

variable (p₁ : Process S₁ M O R) (p₂ : Process S₂ M O R)

/-- One step of either process: receive the oldest message in flight to it, or see its
input end once the other has stopped and nothing is in flight. -/
inductive Step : Session S₁ S₂ M O R → Session S₁ S₂ M O R → Prop
  | leftRecv (d : Session S₁ S₂ M O R) (s : S₁) (m : M) (rest : List M) :
      d.left = .running s → d.toLeft = m :: rest →
      Step d (d.leftReacts (p₁.react s (some m)) rest)
  | leftEnd (d : Session S₁ S₂ M O R) (s : S₁) (r : R) :
      d.left = .running s → d.toLeft = [] → d.right = .stopped r →
      Step d (d.leftReacts (p₁.react s none) [])
  | rightRecv (d : Session S₁ S₂ M O R) (s : S₂) (m : M) (rest : List M) :
      d.right = .running s → d.toRight = m :: rest →
      Step d (d.rightReacts (p₂.react s (some m)) rest)
  | rightEnd (d : Session S₁ S₂ M O R) (s : S₂) (r : R) :
      d.right = .running s → d.toRight = [] → d.left = .stopped r →
      Step d (d.rightReacts (p₂.react s none) [])

/-- Reachable from the start of both processes, under some interleaving. -/
def Reachable (d : Session S₁ S₂ M O R) : Prop :=
  Relation.ReflTransGen (Step p₁ p₂) (init p₁ p₂) d

/-- No step is possible: the end of an interleaving. -/
def Stuck (d : Session S₁ S₂ M O R) : Prop := ∀ d', ¬ Step p₁ p₂ d d'

/-- With nothing in flight to the right process, the only step is the left one's on the
message in flight to it. -/
theorem step_left_iff {d d' : Session S₁ S₂ M O R} {s : S₁} {m : M} {rest : List M}
    (hleft : d.left = .running s) (hq : d.toLeft = m :: rest) (hright : d.toRight = []) :
    Step p₁ p₂ d d' ↔ d' = d.leftReacts (p₁.react s (some m)) rest := by
  constructor
  · intro h
    cases h with
    | leftRecv s' m' rest' hs' hq' =>
      rw [hleft] at hs'
      rw [hq] at hq'
      cases hs'
      cases hq'
      rfl
    | leftEnd _ _ _ hq' _ => simp [hq] at hq'
    | rightRecv _ _ _ _ hq' => simp [hright] at hq'
    | rightEnd _ _ _ _ hl' => simp [hleft] at hl'
  · rintro rfl
    exact Step.leftRecv d s m rest hleft hq

/-- With nothing in flight to the left process, the only step is the right one's on the
message in flight to it. -/
theorem step_right_iff {d d' : Session S₁ S₂ M O R} {s : S₂} {m : M} {rest : List M}
    (hright : d.right = .running s) (hq : d.toRight = m :: rest) (hleft : d.toLeft = []) :
    Step p₁ p₂ d d' ↔ d' = d.rightReacts (p₂.react s (some m)) rest := by
  constructor
  · intro h
    cases h with
    | leftRecv _ _ _ _ hq' => simp [hleft] at hq'
    | leftEnd _ _ _ _ hr' => simp [hright] at hr'
    | rightRecv s' m' rest' hs' hq' =>
      rw [hright] at hs'
      rw [hq] at hq'
      cases hs'
      cases hq'
      rfl
    | rightEnd _ _ _ hq' _ => simp [hq] at hq'
  · rintro rfl
    exact Step.rightRecv d s m rest hright hq

/-- A session where both processes have stopped takes no step. -/
theorem stuck_of_stopped {d : Session S₁ S₂ M O R} {r₁ r₂ : R} (hleft : d.left = .stopped r₁)
    (hright : d.right = .stopped r₂) : Stuck p₁ p₂ d := by
  intro d' h
  cases h with
  | leftRecv _ _ _ hs => simp [hleft] at hs
  | leftEnd _ _ hs => simp [hleft] at hs
  | rightRecv _ _ _ hs => simp [hright] at hs
  | rightEnd _ _ hs => simp [hright] at hs

end Session

/-! ## Runs of a step relation through an abstraction -/

section Abstraction

variable {α ι : Type} (step : α → α → Prop) (φ : ι → α) (V : ι → Prop)

/-- When every step from an abstract state lands in an abstract state, everything
reachable from an abstract state is one. -/
theorem reachable_of_abstraction
    (hstep : ∀ x b, V x → step (φ x) b → ∃ y, V y ∧ b = φ y) {x₀ : ι} (hx₀ : V x₀) {b : α}
    (hb : Relation.ReflTransGen step (φ x₀) b) : ∃ y, V y ∧ b = φ y := by
  induction hb with
  | refl => exact ⟨x₀, hx₀, rfl⟩
  | tail _ hlast ih =>
    obtain ⟨y, hy, rfl⟩ := ih
    exact hstep y _ hy hlast

/-- When moreover each step lowers a rank, no run from an abstract state is infinite. -/
theorem no_infinite_run_of_abstraction (rank : ι → Nat)
    (hstep : ∀ x b, V x → step (φ x) b → ∃ y, V y ∧ b = φ y ∧ rank y < rank x)
    {x₀ : ι} (hx₀ : V x₀) : ¬ ∃ f : Nat → α, f 0 = φ x₀ ∧ ∀ n, step (f n) (f (n + 1)) := by
  rintro ⟨f, hf0, hf⟩
  -- along the run the rank falls by at least one per step
  have hbound : ∀ n, ∃ y, V y ∧ f n = φ y ∧ rank y + n ≤ rank x₀ := by
    intro n
    induction n with
    | zero => exact ⟨x₀, hx₀, hf0, by omega⟩
    | succ n ih =>
      obtain ⟨y, hy, hfy, hrank⟩ := ih
      obtain ⟨z, hz, hfz, hlt⟩ := hstep y _ hy (hfy ▸ hf n)
      exact ⟨z, hz, hfz, by omega⟩
  obtain ⟨y, -, -, hrank⟩ := hbound (rank x₀ + 1)
  omega

/-- Under the same conditions a run from an abstract state reaches an abstract state that
takes no step. The induction is on the rank. -/
theorem exists_stuck_of_abstraction (rank : ι → Nat)
    (hstep : ∀ x b, V x → step (φ x) b → ∃ y, V y ∧ b = φ y ∧ rank y < rank x) :
    ∀ (n : Nat) (x : ι), rank x = n → V x →
      ∃ y, V y ∧ Relation.ReflTransGen step (φ x) (φ y) ∧ ∀ b, ¬ step (φ y) b := by
  intro n
  induction n using Nat.strongRecOn with
  | ind n ih =>
    intro x hrank hx
    by_cases hstuck : ∀ b, ¬ step (φ x) b
    · exact ⟨x, hx, .refl, hstuck⟩
    · obtain ⟨b, hb⟩ : ∃ b, step (φ x) b := Classical.byContradiction fun hnone =>
        hstuck fun b hb => hnone ⟨b, hb⟩
      obtain ⟨y, hy, rfl, hlt⟩ := hstep x b hx hb
      obtain ⟨z, hz, hyz, hzstuck⟩ := ih (rank y) (hrank ▸ hlt) y rfl hy
      exact ⟨z, hz, .head hb hyz, hzstuck⟩

end Abstraction

end Duplex
